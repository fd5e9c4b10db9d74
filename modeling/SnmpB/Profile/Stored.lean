import SnmpB.Library.KeyStore
import SnmpB.Profile.Names

/-! # The file of the profiles

The manager writes each profile under its own keys and reads it back by the same
keys. A profile that is read shows its protocols in the boxes of the form, which
report to nobody, since none is selected before the whole file has been read.
-/
namespace SnmpB.Profile
open KeyStore

variable {V : Type} (c : Codecs V)

namespace AgentProfile

def setTarget (p : AgentProfile) (address port : String) : AgentProfile := { p with address, port }

def setRetriesTimeout (p : AgentProfile) (retries timeout : ℤ) : AgentProfile := { p with retries, timeout }

def setComms (p : AgentProfile) (readcomm writecomm : String) : AgentProfile := { p with readcomm, writecomm }

def setBulk (p : AgentProfile) (maxrepetitions nonrepeaters : ℤ) : AgentProfile :=
  { p with maxrepetitions, nonrepeaters }

def setUser (p : AgentProfile) (secname : String) (seclevel : ℤ) : AgentProfile := { p with secname, seclevel }

def setContext (p : AgentProfile) (contextname contextengineid : String) : AgentProfile :=
  { p with contextname, contextengineid }

/-- The keys of a profile, in the order they are written. -/
def write (p : AgentProfile) (s : Store V) : Store V :=
  let s := setValue ["name"] (c.string.encode p.name) s
  let s := setValue ["v1"] (c.bool.encode p.support.v1) s
  let s := setValue ["v2"] (c.bool.encode p.support.v2) s
  let s := setValue ["v3"] (c.bool.encode p.support.v3) s
  let s := setValue ["address"] (c.string.encode p.address) s
  let s := setValue ["port"] (c.string.encode p.port) s
  let s := setValue ["retries"] (c.int.encode p.retries) s
  let s := setValue ["timeout"] (c.int.encode p.timeout) s
  let s := setValue ["readcomm"] (c.string.encode p.readcomm) s
  let s := setValue ["writecomm"] (c.string.encode p.writecomm) s
  let s := setValue ["maxrepetitions"] (c.int.encode p.maxrepetitions) s
  let s := setValue ["nonrepeaters"] (c.int.encode p.nonrepeaters) s
  let s := setValue ["secname"] (c.string.encode p.secname) s
  let s := setValue ["seclevel"] (c.int.encode p.seclevel) s
  let s := setValue ["contextname"] (c.string.encode p.contextname) s
  setValue ["contextengineid"] (c.string.encode p.contextengineid) s

end AgentProfile

namespace AgentProfileManager

/-- The profiles in use. -/
def stored (m : AgentProfileManager) : List AgentProfile := m.agents.filterMap fun k => m.profiles[k]?

/-- `WriteConfigFile` into the settings; `writeConfigFile` keeps the same list as it is. -/
def writeSettings (m : AgentProfileManager) : Store V → Store V :=
  writeArray c.int "agents" (AgentProfile.write c) m.stored

def storedSupport (s : Store V) : Protocols :=
  ⟨c.bool.decode (s ["v1"]), c.bool.decode (s ["v2"]), c.bool.decode (s ["v3"])⟩

/-- One pass of `ReadConfigFile`. -/
def readAgent (m : AgentProfileManager) (s : Store V) : AgentProfileManager :=
  let text (key : String) : String := c.string.decode (s [key])
  let number (key : String) : ℤ := c.int.decode (s [key])
  let who := m.profiles.length
  let m := (m.newProfile (text "name")).setSupportedProtocol who (storedSupport c s)
  let m := m.edit who (·.setTarget (text "address") (text "port"))
  let m := m.edit who (·.setRetriesTimeout (number "retries") (number "timeout"))
  let m := m.edit who (·.setComms (text "readcomm") (text "writecomm"))
  let m := m.edit who (·.setBulk (number "maxrepetitions") (number "nonrepeaters"))
  let m := m.edit who (·.setUser (text "secname") (number "seclevel"))
  let m := m.edit who (·.setContext (text "contextname") (text "contextengineid"))
  { m with agents := m.agents ++ [who] }

/-- `ReadConfigFile`. -/
def readSettings (m : AgentProfileManager) (s : Store V) : AgentProfileManager :=
  (records c.int "agents" s).foldl (readAgent c) m

/-- No profile is in use or selected; the boxes, and profiles that were deleted, may be anything. -/
structure Blank (m : AgentProfileManager) : Prop where
  agents : m.agents = []
  current : m.currentprofile = none

end AgentProfileManager

/-- The end of the constructor: the file is read, and its first profile is selected. -/
def Form.load (f : Form) (s : Store V) : Form :=
  let f := { f with manager := f.manager.readSettings c s }
  match f.manager.agents.head? with
  | none => f
  | some who => f.selectedAgentProfile ⟨who, .general⟩

/-! ## Boxes that report to nobody -/

namespace AgentProfileManager

variable {m : AgentProfileManager} {who : ℕ}

theorem edit_eq_self {g : AgentProfile → AgentProfile} (h : ∀ p, m.profiles[who]? = some p → g p = p) :
    m.edit who g = m := by
  have hprofiles : (m.edit who g).profiles = m.profiles := by
    apply List.ext_getElem?
    intro j
    rw [getElem?_edit]
    split
    · rename_i heq
      subst heq
      cases hp : m.profiles[who]? with
      | none => rfl
      | some p => rw [Option.map_some, h p hp]
    · rfl
  cases m
  simp only [edit, mk.injEq] at hprofiles ⊢
  exact ⟨hprofiles, trivial, trivial, trivial, trivial, trivial⟩

/-- A profile writes the flag it has already. -/
theorem setSupport_supports (i : Protocol) : m.setSupport who i (m.supports who i) = m := by
  apply edit_eq_self
  intro p hp
  have hflag : m.supports who i = p.support.get i := by
    rw [supports, hp]
    rfl
  rw [hflag, p.support.set_get]

theorem check_profiles (h : m.currentprofile = none) (i : Protocol) : (m.check i).profiles = m.profiles := by
  unfold check
  split
  · rfl
  · simp only [h]

theorem uncheck_profiles (h : m.currentprofile = none) (i : Protocol) : (m.uncheck i).profiles = m.profiles := by
  unfold uncheck
  split
  · simp only [h]
  · rfl

/-- Whether the profile refuses or not, it keeps its flag. -/
theorem protocolSupport_profiles (h : m.currentprofile = none) (i : Protocol) :
    (m.protocolSupport who i (m.supports who i)).profiles = m.profiles := by
  unfold protocolSupport
  split
  · exact check_profiles (m := { m with messages := m.messages ++ [protocolMessage] }) h i
  · rw [setSupport_supports]

theorem raise_profiles (h : m.currentprofile = none) (i : Protocol) : (m.raise who i).profiles = m.profiles := by
  unfold raise
  split
  · have hcurrent : (m.check i).currentprofile = none := ((Steady.refl m).check i).current.trans h
    exact (protocolSupport_profiles hcurrent i).trans (check_profiles h i)
  · rfl

theorem lower_profiles (h : m.currentprofile = none) (i : Protocol) : (m.lower who i).profiles = m.profiles := by
  unfold lower
  split
  · rfl
  · have hcurrent : (m.uncheck i).currentprofile = none := ((Steady.refl m).uncheck i).current.trans h
    exact (protocolSupport_profiles hcurrent i).trans (uncheck_profiles h i)

/-- Whatever the boxes show, no flag of any profile is written. -/
theorem applySupportedProtocol_profiles (h : m.currentprofile = none) :
    (m.applySupportedProtocol who).profiles = m.profiles := by
  have hraise : ∀ m : AgentProfileManager, m.currentprofile = none → ∀ i,
      (m.raise who i).currentprofile = none := by
    intro m hm i
    exact ((Steady.refl m).raise who i).current.trans hm
  have hlower : ∀ m : AgentProfileManager, m.currentprofile = none → ∀ i,
      (m.lower who i).currentprofile = none := by
    intro m hm i
    exact ((Steady.refl m).lower who i).current.trans hm
  have h1 := hraise _ h .v1
  have h2 := hraise _ h1 .v2
  have h3 := hraise _ h2 .v3
  have h4 := hlower _ h3 .v1
  have h5 := hlower _ h4 .v2
  rw [applySupportedProtocol, lower_profiles h5, lower_profiles h4, lower_profiles h3, raise_profiles h2,
    raise_profiles h1, raise_profiles h]

/-! ## Reading back -/

/-- A profile is being read: it is the last one, and not in use yet. -/
structure Reading (m m' : AgentProfileManager) (p : AgentProfile) : Prop where
  profiles : m'.profiles = m.profiles ++ [p]
  agents : m'.agents = m.agents
  current : m'.currentprofile = m.currentprofile

theorem Reading.edit {m' : AgentProfileManager} {p : AgentProfile} (h : Reading m m' p)
    (g : AgentProfile → AgentProfile) : Reading m (m'.edit m.profiles.length g) (g p) where
  profiles := by
    rw [AgentProfileManager.edit, h.profiles]
    exact Live.modify_last m.profiles p g
  agents := h.agents
  current := h.current

theorem Reading.create (h : m.currentprofile = none) (name : String) (support : Protocols) :
    Reading m ((m.newProfile name).setSupportedProtocol m.profiles.length support)
      { AgentProfile.new name with support } := by
  have hnew : Reading m (m.newProfile name) (.new name) := ⟨rfl, rfl, rfl⟩
  have hflags := hnew.edit fun p => { p with support }
  have hshown := (Steady.refl (m.newProfile name)).setSupportedProtocol m.profiles.length support
  refine ⟨?_, hshown.agents, hshown.current⟩
  exact (applySupportedProtocol_profiles (hflags.current.trans h)).trans hflags.profiles

/-- Behind the last field the profile is put into use. -/
theorem Reading.append {m' : AgentProfileManager} {p : AgentProfile} (h : Reading m m' p) :
    { m' with agents := m'.agents ++ [m.profiles.length] }.profiles = m.profiles ++ [p] ∧
      { m' with agents := m'.agents ++ [m.profiles.length] }.agents = m.agents ++ [m.profiles.length] ∧
      { m' with agents := m'.agents ++ [m.profiles.length] }.currentprofile = m.currentprofile :=
  ⟨h.profiles, congrArg (· ++ [m.profiles.length]) h.agents, h.current⟩

/-- The profile that the keys of a group describe. -/
def storedProfile (s : Store V) : AgentProfile :=
  let text (key : String) : String := c.string.decode (s [key])
  let number (key : String) : ℤ := c.int.decode (s [key])
  let p := { AgentProfile.new (text "name") with support := storedSupport c s }
  let p := p.setTarget (text "address") (text "port")
  let p := p.setRetriesTimeout (number "retries") (number "timeout")
  let p := p.setComms (text "readcomm") (text "writecomm")
  let p := p.setBulk (number "maxrepetitions") (number "nonrepeaters")
  let p := p.setUser (text "secname") (number "seclevel")
  p.setContext (text "contextname") (text "contextengineid")

/-- Writer and reader agree on every key. -/
theorem storedProfile_write (p : AgentProfile) : storedProfile c (p.write c empty) = p := by
  simp [storedProfile, storedSupport, AgentProfile.setTarget, AgentProfile.setRetriesTimeout,
    AgentProfile.setComms, AgentProfile.setBulk, AgentProfile.setUser, AgentProfile.setContext,
    AgentProfile.new, AgentProfile.write, setValue, Codec.decode_encode]

theorem readAgent_spec (h : m.currentprofile = none) (s : Store V) :
    (m.readAgent c s).profiles = m.profiles ++ [storedProfile c s] ∧
      (m.readAgent c s).agents = m.agents ++ [m.profiles.length] ∧
      (m.readAgent c s).currentprofile = m.currentprofile := by
  have hread := (Reading.create h (c.string.decode (s ["name"])) (storedSupport c s)).edit
    (·.setTarget (c.string.decode (s ["address"])) (c.string.decode (s ["port"])))
  have hread := hread.edit (·.setRetriesTimeout (c.int.decode (s ["retries"])) (c.int.decode (s ["timeout"])))
  have hread := hread.edit (·.setComms (c.string.decode (s ["readcomm"])) (c.string.decode (s ["writecomm"])))
  have hread := hread.edit
    (·.setBulk (c.int.decode (s ["maxrepetitions"])) (c.int.decode (s ["nonrepeaters"])))
  have hread := hread.edit (·.setUser (c.string.decode (s ["secname"])) (c.int.decode (s ["seclevel"])))
  have hread := hread.edit
    (·.setContext (c.string.decode (s ["contextname"])) (c.string.decode (s ["contextengineid"])))
  exact hread.append

theorem readAgents_spec (h : m.currentprofile = none) (stores : List (Store V)) :
    (stores.foldl (readAgent c) m).profiles = m.profiles ++ stores.map (storedProfile c) ∧
      (stores.foldl (readAgent c) m).agents = m.agents ++ List.range' m.profiles.length stores.length ∧
      (stores.foldl (readAgent c) m).currentprofile = none := by
  induction stores generalizing m with
  | nil => simp [h]
  | cons s stores ih =>
    obtain ⟨hprofiles, hagents, hcurrent⟩ := readAgent_spec c h s
    obtain ⟨hps, has, hnone⟩ := ih (hcurrent.trans h)
    rw [List.foldl_cons]
    refine ⟨?_, ?_, hnone⟩
    · rw [hps, hprofiles, List.append_assoc]
      rfl
    · rw [has, hagents, hprofiles, List.append_assoc, List.length_append]
      rfl

theorem readSettings_sound (hm : m.Blank) (s : Store V) : (m.readSettings c s).Sound := by
  obtain ⟨hprofiles, hagents, hcurrent⟩ := readAgents_spec c hm.current (records c.int "agents" s)
  rw [hm.agents, List.nil_append] at hagents
  refine ⟨?_, ?_, ?_⟩
  · intro k hk
    rw [readSettings, hagents, List.mem_range'_1] at hk
    rw [readSettings, hprofiles, List.length_append, List.length_map]
    omega
  · rw [readSettings, hagents]
    exact List.nodup_range'
  · intro k hk
    rw [readSettings, hcurrent] at hk
    cases hk

/-- In use are the profiles that have been read, and no others. -/
theorem listed_readSettings (hm : m.Blank) (s : Store V) :
    Live.listed (m.readSettings c s).profiles (m.readSettings c s).agents =
      ((records c.int "agents" s).map (storedProfile c)).map some := by
  obtain ⟨hprofiles, hagents, -⟩ := readAgents_spec c hm.current (records c.int "agents" s)
  rw [hm.agents, List.nil_append] at hagents
  rw [readSettings, hprofiles, hagents]
  apply List.ext_getElem?
  intro j
  rw [Live.listed, List.getElem?_map, List.getElem?_map]
  by_cases hj : j < (records c.int "agents" s).length
  · simp [hj]
  · simp [hj]

theorem Sound.listed_eq (hm : m.Sound) : Live.listed m.profiles m.agents = m.stored.map some := by
  have hlisted := hm.listed
  unfold Live.listed stored
  generalize m.agents = agents at hlisted
  induction agents with
  | nil => rfl
  | cons k agents ih =>
    obtain ⟨p, hk⟩ : ∃ p, m.profiles[k]? = some p :=
      ⟨_, List.getElem?_eq_getElem (hlisted k List.mem_cons_self)⟩
    rw [List.map_cons, List.filterMap_cons_some hk, List.map_cons, hk,
      ih fun j hj => hlisted j (List.mem_cons_of_mem k hj)]

/-- What a manager stores, over whatever the file had before, is what a start reads. -/
theorem listed_readSettings_write {m' : AgentProfileManager} (hm : m.Sound) (hm' : m'.Blank) (s : Store V) :
    Live.listed (m'.readSettings c (m.writeSettings c s)).profiles
        (m'.readSettings c (m.writeSettings c s)).agents = Live.listed m.profiles m.agents := by
  rw [listed_readSettings c hm', writeSettings, records_writeArray, hm.listed_eq]
  apply congrArg (List.map some)
  rw [List.map_map]
  calc m.stored.map (storedProfile c ∘ (AgentProfile.write c · empty)) = m.stored.map id :=
        List.map_congr_left fun p _ => storedProfile_write c p
    _ = m.stored := List.map_id m.stored

end AgentProfileManager

namespace Form
open AgentProfileManager

theorem load_sound {f : Form} (hf : f.manager.Blank) (s : Store V) : (f.load c s).manager.Sound := by
  have hread : { f with manager := f.manager.readSettings c s }.manager.Sound := readSettings_sound c hf s
  unfold load
  simp only
  split
  · exact hread
  · rename_i who _
    exact step_sound (e := .select ⟨who, .general⟩) hread rfl

/-- Main result: from the start with any file on, whatever happens to the profiles, what is stored at the
end over any other file is read by the next start as the same list of the same profiles. -/
theorem stored_profiles_read {f f' : Form} {os : List Operation} {m : AgentProfileManager} {file : Store V}
    (hf : f.manager.Blank) (h : Runs.exec operate (f.load c file) os = some f') (hm : m.Blank)
    (s : Store V) :
    Live.listed (m.readSettings c (f'.manager.writeSettings c s)).profiles
        (m.readSettings c (f'.manager.writeSettings c s)).agents =
      Live.listed f'.manager.profiles f'.manager.agents := by
  have hsound : f'.manager.Sound := Runs.exec_invariant (P := fun f : Form => f.manager.Sound)
    (fun _ _ _ => operate_sound) (load_sound c hf file) h
  exact listed_readSettings_write c hsound hm s

def blankForm : Form where
  manager := ⟨[], [], none, ⟨false, false, false⟩, [], []⟩
  spin := fun _ => 0
  secNames := []
  secName := none
  secLevel := some 0

theorem blankForm_blank : blankForm.manager.Blank := ⟨rfl, rfl⟩

/-- Two profiles with protocols of their own: the second one is created and turned to V3. -/
theorem stored_profiles_read_added :
    ∃ f, Runs.exec operate (blankForm.load Variant.codecs empty)
        [.edit .add, .edit .add, .edit (.protocol .v3), .edit (.protocol .v1)] = some f ∧
      f.manager.profiles.map (·.support) = [⟨true, false, false⟩, ⟨false, false, true⟩] ∧
      Live.listed (blankForm.manager.readSettings Variant.codecs
          (f.manager.writeSettings Variant.codecs empty)).profiles
        (blankForm.manager.readSettings Variant.codecs (f.manager.writeSettings Variant.codecs empty)).agents =
      Live.listed f.manager.profiles f.manager.agents :=
  ⟨_, rfl, rfl, @stored_profiles_read _ Variant.codecs blankForm _
    [.edit .add, .edit .add, .edit (.protocol .v3), .edit (.protocol .v1)] _ empty blankForm_blank rfl
    blankForm_blank empty⟩

end Form

end SnmpB.Profile
