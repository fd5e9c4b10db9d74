import SnmpB.Library.KeyStore
import SnmpB.Settings.Override

/-! # The restart notice

The sockets keep the ports and transports of the start, so an accepted dialog
says when one of them is no longer as it was stored. `Save` stores the four
settings in the group `network` and the constructor reads them there, but the
comparison looks for them outside of it.
-/
namespace SnmpB.Settings
open KeyStore

variable {V : Type} (c : Codecs V)

/-! ## The settings file -/

def Transport.enableKey : Transport → String
  | .ipv4 => "enableipv4"
  | .ipv6 => "enableipv6"

def Transport.trapportKey : Transport → String
  | .ipv4 => "trapport4"
  | .ipv6 => "trapport6"

def Flag.key : Flag → Key
  | .enable transport => ["network", transport.enableKey]
  | .horizontalsplit => ["ui", "horizontalsplit"]
  | .expandtrapbinding => ["ui", "expandtrapbinding"]
  | .showagentname => ["misc", "showagentname"]

/-- What a flag is without an entry. -/
def Flag.default : Flag → Bool
  | .enable _ => true
  | .horizontalsplit => false
  | .expandtrapbinding => true
  | .showagentname => false

/-- The constructor and `Init`. -/
def Members.read (s : Store V) : Members where
  flag flag := value c.bool flag.key flag.default s
  trapport transport := value c.int ["network", transport.trapportKey] 162 s
  automaticloading := value c.int ["misc", "automaticloading"] 2 s

def Members.write (m : Members) (s : Store V) : Store V :=
  let s := setValue ["network", "trapport4"] (c.int.encode (m.trapport .ipv4)) s
  let s := setValue ["network", "trapport6"] (c.int.encode (m.trapport .ipv6)) s
  let s := setValue ["network", "enableipv4"] (c.bool.encode (m.flag (.enable .ipv4))) s
  let s := setValue ["network", "enableipv6"] (c.bool.encode (m.flag (.enable .ipv6))) s
  let s := setValue ["ui", "horizontalsplit"] (c.bool.encode (m.flag .horizontalsplit)) s
  let s := setValue ["ui", "expandtrapbinding"] (c.bool.encode (m.flag .expandtrapbinding)) s
  let s := setValue ["misc", "showagentname"] (c.bool.encode (m.flag .showagentname)) s
  setValue ["misc", "automaticloading"] (c.int.encode m.automaticloading) s

/-- An array with one string in each record. -/
def readStrings (array key : String) (s : Store V) : List String :=
  (records c.int array s).map fun s => c.string.decode (s [key])

def writeStrings (array key : String) (texts : List String) : Store V → Store V :=
  overwriteArray c.int array (fun text => setValue [key] (c.string.encode text)) texts

def writeMibPaths : List String → Store V → Store V := writeStrings c "mibpaths" "dir"

def writeMibPreloads : List String → Store V → Store V := writeStrings c "mibpreloads" "mib"

def Stored.read (s : Store V) : Stored where
  members := Members.read c s
  mibpaths := readStrings c "mibpaths" "dir" s
  mibpreloads := readStrings c "mibpreloads" "mib" s

/-- What `Save` writes. -/
def Stored.write (d : Stored) (s : Store V) : Store V :=
  writeMibPreloads c d.mibpreloads (writeMibPaths c d.mibpaths (d.members.write c s))

/-- The settings that `Agent` opens its sockets with. -/
structure Network where
  trapport4 : ℤ
  trapport6 : ℤ
  enableipv4 : Bool
  enableipv6 : Bool
  deriving DecidableEq, Repr

def Members.network (m : Members) : Network :=
  ⟨m.trapport .ipv4, m.trapport .ipv6, m.flag (.enable .ipv4), m.flag (.enable .ipv6)⟩

/-- The values that `Execute` compares with. -/
def compared (s : Store V) : Network where
  trapport4 := value c.int ["trapport"] 162 s
  trapport6 := value c.int ["trapport6"] 162 s
  enableipv4 := value c.bool ["enableipv4"] true s
  enableipv6 := value c.bool ["enableipv6"] true s

/-- "Warn if trap port or transport changed ..." -/
def Members.changed (m : Members) (s : Store V) : Bool :=
  m.trapport .ipv4 != (compared c s).trapport4 || m.trapport .ipv6 != (compared c s).trapport6 ||
    m.flag (.enable .ipv4) != (compared c s).enableipv4 || m.flag (.enable .ipv6) != (compared c s).enableipv6

/-! ## The program with its file -/

/-- The program, and the file of its settings. -/
structure Application (V : Type) where
  program : Program
  settings : Store V

/-- The event may also come from the agent bar, which keeps its choice in the same file. -/
inductive Input
  | event (e : Event)
  | saveCurrentProfile (name : String) (proto : ℤ)

def restartNotice : String :=
  "SnmpB transport protocol or trap port has changed.\nPlease restart SnmpB for the changes to take effect."

namespace Application

variable (defaultpaths : List String)

/-- An accepted dialog compares before it saves. -/
def warned (p : Application V) : Event → Program
  | .closed true =>
    if p.program.prefs.members.changed c p.settings then
      { p.program with prefs :=
        { p.program.prefs with messages := p.program.prefs.messages ++ [restartNotice] } }
    else p.program
  | _ => p.program

/-- What an event writes: edits stay in the members, but for the reset of the paths. -/
def settingsAfter (p : Application V) (s : Program) : Event → Store V
  | .closed true | .turn (.modules _) => s.prefs.stored.write c p.settings
  | .turn (.edit .pathReset) => writeMibPaths c defaultpaths p.settings
  | _ => p.settings

def step (p : Application V) : Input → Option (Application V)
  | .event e => ((p.warned c e).step defaultpaths e).map fun s => ⟨s, p.settingsAfter c defaultpaths s e⟩
  | .saveCurrentProfile name proto => some { p with
      settings := setValue ["ui", "selectedproto"] (c.int.encode proto)
        (setValue ["ui", "selectedprofile"] (c.string.encode name) p.settings) }

/-- `Init` fills in the arrays that are empty. -/
def initSettings (s : Store V) : Store V :=
  let s := if (Stored.read c s).mibpaths.isEmpty then writeMibPaths c defaultpaths s else s
  if (Stored.read c s).mibpreloads.isEmpty then writeMibPreloads c Preferences.defaultMibConfig s else s

def start (s : Store V) (sessions : Sessions) : Option (Application V) :=
  (Settings.start defaultpaths (Stored.read c s) sessions).map fun f =>
    ⟨⟨f, false⟩, initSettings c defaultpaths s⟩

end Application

/-! ## Reading back -/

section
variable (s : Store V)

theorem read_write (m : Members) : Members.read c (m.write c s) = m := by
  have hflag : (Members.read c (m.write c s)).flag = m.flag := by
    funext flag
    rcases flag with ⟨_ | _⟩ | _ | _ | _ <;>
      simp [Members.read, Members.write, Flag.key, Transport.enableKey]
  have hport : (Members.read c (m.write c s)).trapport = m.trapport := by
    funext transport
    cases transport <;> simp [Members.read, Members.write, Transport.trapportKey]
  have hloading : (Members.read c (m.write c s)).automaticloading = m.automaticloading := by
    simp [Members.read, Members.write]
  calc
    Members.read c (m.write c s) = ⟨m.flag, m.trapport, m.automaticloading⟩ := by
      rw [← hflag, ← hport, ← hloading]
    _ = m := rfl

theorem value_writeStrings {α : Type} (codec : Codec V α) {array name : String} (h : name ≠ array)
    (field : String) (texts : List String) (key : Key) (default : α) :
    value codec (name :: key) default (writeStrings c array field texts s) =
      value codec (name :: key) default s := by
  unfold writeStrings overwriteArray
  exact value_inGroup_ne codec h ..

theorem read_writeStrings {array : String} (h : ∀ name ∈ ["network", "ui", "misc"], name ≠ array)
    (key : String) (texts : List String) :
    Members.read c (writeStrings c array key texts s) = Members.read c s := by
  have hnetwork : "network" ≠ array := h _ (by simp)
  have hui : "ui" ≠ array := h _ (by simp)
  have hmisc : "misc" ≠ array := h _ (by simp)
  unfold Members.read
  congr 1
  · funext flag
    cases flag with
    | enable transport => exact value_writeStrings c s c.bool hnetwork ..
    | horizontalsplit => exact value_writeStrings c s c.bool hui ..
    | expandtrapbinding => exact value_writeStrings c s c.bool hui ..
    | showagentname => exact value_writeStrings c s c.bool hmisc ..
  · funext transport
    exact value_writeStrings c s c.int hnetwork ..
  · exact value_writeStrings c s c.int hmisc ..

/-- The choice of the agent bar is in the file as well. -/
theorem read_selected (name : String) (v : V) (hname : name = "selectedprofile" ∨ name = "selectedproto") :
    Stored.read c (setValue ["ui", name] v s) = Stored.read c s := by
  have hmembers : Members.read c (setValue ["ui", name] v s) = Members.read c s := by
    unfold Members.read
    congr 1
    funext flag
    rcases flag with ⟨_ | _⟩ | _ | _ | _ <;> rcases hname with rfl | rfl <;>
      simp [Flag.key, Transport.enableKey]
  have hgroup : ∀ array, array ≠ "ui" → sub array (setValue ["ui", name] v s) = sub array s :=
    fun _ harray => sub_setValue_ne harray _ v s
  simp only [Stored.read, hmembers, readStrings, records, hgroup _ (by decide : "mibpaths" ≠ "ui"),
    hgroup _ (by decide : "mibpreloads" ≠ "ui")]

/-- A list is read from its own group only. -/
theorem readStrings_writeStrings_ne {array array' : String} (h : array ≠ array') (key key' : String)
    (texts : List String) :
    readStrings c array key (writeStrings c array' key' texts s) = readStrings c array key s := by
  have hgroup : sub array (writeStrings c array' key' texts s) = sub array s := by
    unfold writeStrings overwriteArray
    exact sub_inGroup_ne h _ s
  simp only [readStrings, records, hgroup]

theorem readStrings_writeStrings (array key : String) (texts : List String) :
    readStrings c array key (writeStrings c array key texts s) = texts := by
  have hread := records_overwriteArray c.int array (fun text => setValue [key] (c.string.encode text))
    (fun s => c.string.decode (s [key])) (f := id) (fun text s => by simp [setValue, Codec.decode_encode]) texts s
  rw [List.map_id] at hread
  exact hread

/-- A reset of one array leaves the rest of the file as it reads. -/
theorem read_writeMibPaths (paths : List String) :
    Stored.read c (writeMibPaths c paths s) = { Stored.read c s with mibpaths := paths } := by
  unfold Stored.read writeMibPaths
  rw [read_writeStrings c s (by decide), readStrings_writeStrings, readStrings_writeStrings_ne c s (by decide)]

theorem read_writeMibPreloads (modules : List String) :
    Stored.read c (writeMibPreloads c modules s) = { Stored.read c s with mibpreloads := modules } := by
  unfold Stored.read writeMibPreloads
  rw [read_writeStrings c s (by decide), readStrings_writeStrings, readStrings_writeStrings_ne c s (by decide)]

/-- What is saved is what the next start reads. -/
theorem Stored.read_write (d : Stored) : Stored.read c (d.write c s) = d := by
  rw [Stored.write, read_writeMibPreloads, read_writeMibPaths, Stored.read, SnmpB.Settings.read_write]

/-! ## What the comparison reads -/

/-- The keys without a group are in none of the groups that are written. -/
theorem compared_setValue (group name : String) (v : V) :
    compared c (setValue [group, name] v s) = compared c s := by
  simp [compared]

theorem compared_writeStrings {array : String}
    (h : ∀ name ∈ ["trapport", "trapport6", "enableipv4", "enableipv6"], name ≠ array) (key : String)
    (texts : List String) : compared c (writeStrings c array key texts s) = compared c s := by
  have hport4 : "trapport" ≠ array := h _ (by simp)
  have hport6 : "trapport6" ≠ array := h _ (by simp)
  have henable4 : "enableipv4" ≠ array := h _ (by simp)
  have henable6 : "enableipv6" ≠ array := h _ (by simp)
  unfold compared
  rw [value_writeStrings c s c.int hport4, value_writeStrings c s c.int hport6,
    value_writeStrings c s c.bool henable4, value_writeStrings c s c.bool henable6]

theorem compared_writeMibPaths (paths : List String) :
    compared c (writeMibPaths c paths s) = compared c s := compared_writeStrings c s (by decide) _ _

theorem compared_writeMibPreloads (modules : List String) :
    compared c (writeMibPreloads c modules s) = compared c s := compared_writeStrings c s (by decide) _ _

theorem compared_write (d : Stored) : compared c (d.write c s) = compared c s := by
  unfold Stored.write Members.write
  rw [compared_writeMibPreloads, compared_writeMibPaths]
  simp only [compared_setValue]

/-- The four comparisons are one. -/
theorem changed_iff (m : Members) : m.changed c s = true ↔ m.network ≠ compared c s := by
  unfold Members.changed Members.network
  cases compared c s
  simp only [Bool.or_eq_true, bne_iff_ne, ne_eq, Network.mk.injEq]
  tauto

end

namespace Application

variable {c} {defaultpaths : List String} {p p' : Application V}

/-- The file reads as what the program takes to be stored. -/
structure Agrees (c : Codecs V) (p : Application V) : Prop where
  synced : p.program.prefs.Synced
  stored : Stored.read c p.settings = p.program.prefs.stored

theorem warned_eq (p : Application V) (e : Event) :
    ∃ messages, p.warned c e =
      { p.program with prefs := { p.program.prefs with messages } } := by
  unfold warned
  split
  · split
    · exact ⟨_, rfl⟩
    · exact ⟨_, rfl⟩
  · exact ⟨_, rfl⟩

theorem step_agrees (h : p.Agrees c) {i : Input} (hstep : p.step c defaultpaths i = some p') : p'.Agrees c := by
  cases i with
  | saveCurrentProfile name proto =>
    cases hstep
    refine ⟨h.synced, Eq.trans ?_ h.stored⟩
    exact (read_selected c _ _ _ (Or.inr rfl)).trans (read_selected c _ _ _ (Or.inl rfl))
  | event e =>
    obtain ⟨s, hs, rfl⟩ := Option.map_eq_some_iff.mp hstep
    obtain ⟨messages, hwarned⟩ := p.warned_eq (c := c) e
    have hsynced : (p.warned c e).prefs.Synced := by
      rw [hwarned]
      exact ⟨h.synced.box, h.synced.radio, h.synced.wanted⟩
    have hstored : (p.warned c e).prefs.stored = p.program.prefs.stored := by rw [hwarned]
    refine ⟨(Program.moved hsynced hs : Program.Moved .ipv4 _ e s).synced, ?_⟩
    cases e with
    | opened =>
      obtain rfl := Program.step_opened hs
      exact h.stored.trans hstored.symm
    | closed accepted =>
      obtain rfl := Program.step_closed hs
      cases accepted with
      | true => exact Stored.read_write c _ _
      | false => exact h.stored.trans hstored.symm
    | turn t =>
      cases t with
      | modules wanted => exact Stored.read_write c _ _
      | edit e =>
        obtain ⟨f, hf, rfl⟩ := Program.step_edit hs
        have htook := Preferences.took (t := .edit e) hsynced hf
        cases e with
        | pathReset =>
          rw [htook.stored]
          change Stored.read c (writeMibPaths c defaultpaths p.settings) = _
          rw [read_writeMibPaths, h.stored, ← hstored]
          rfl
        | _ =>
          rw [htook.stored]
          exact h.stored.trans hstored.symm

theorem step_compared {i : Input} (hstep : p.step c defaultpaths i = some p') :
    compared c p'.settings = compared c p.settings := by
  cases i with
  | saveCurrentProfile name proto =>
    cases hstep
    simp only [compared_setValue]
  | event e =>
    obtain ⟨s, -, rfl⟩ := Option.map_eq_some_iff.mp hstep
    change compared c (p.settingsAfter c defaultpaths s e) = _
    unfold settingsAfter
    split
    · exact compared_write c ..
    · exact compared_write c ..
    · exact compared_writeMibPaths c ..
    · rfl

theorem start_spec {s : Store V} {sessions : Sessions} (h : start c defaultpaths s sessions = some p) :
    p.Agrees c ∧ compared c p.settings = compared c s := by
  obtain ⟨f, hf, rfl⟩ := Option.map_eq_some_iff.mp h
  obtain ⟨members, -, rfl⟩ := Option.map_eq_some_iff.mp hf
  obtain ⟨hopened, -, hstored⟩ := Preferences.init_opened defaultpaths members (Stored.read c s)
  let s' : Store V := if (Stored.read c s).mibpaths.isEmpty then writeMibPaths c defaultpaths s else s
  have hpaths : Stored.read c s' = { Stored.read c s with
      mibpaths := if (Stored.read c s).mibpaths.isEmpty then defaultpaths else (Stored.read c s).mibpaths } ∧
      compared c s' = compared c s := by
    unfold s'
    split
    · exact ⟨read_writeMibPaths c s _, compared_writeMibPaths c s _⟩
    · exact ⟨rfl, rfl⟩
  have hpreloads : Stored.read c (initSettings c defaultpaths s) =
      Preferences.filled defaultpaths (Stored.read c s) ∧
      compared c (initSettings c defaultpaths s) = compared c s := by
    have hlist : (Stored.read c s').mibpreloads = (Stored.read c s).mibpreloads := by rw [hpaths.1]
    have hinit : initSettings c defaultpaths s = if (Stored.read c s).mibpreloads.isEmpty then
        writeMibPreloads c Preferences.defaultMibConfig s' else s' := by
      rw [← hlist]
      rfl
    rw [hinit, Preferences.filled]
    by_cases hempty : (Stored.read c s).mibpreloads.isEmpty
    · rw [if_pos hempty, if_pos hempty, read_writeMibPreloads, hpaths.1]
      exact ⟨rfl, (compared_writeMibPreloads c s' _).trans hpaths.2⟩
    · rw [if_neg hempty, if_neg hempty]
      exact hpaths
  exact ⟨⟨hopened.toSynced, hpreloads.1.trans hstored.symm⟩, hpreloads.2⟩

/-! ## The notice -/

def network (p : Application V) : Network := p.program.prefs.members.network

/-- What `Save` stored last, or the defaults where it never did. -/
def lastStored (c : Codecs V) (p : Application V) : Network := (Members.read c p.settings).network

/-- Accepting the dialog shows the notice. -/
def Notices (c : Codecs V) (p : Application V) : Prop :=
  (p.warned c (.closed true)).prefs.messages = p.program.prefs.messages ++ [restartNotice]

theorem notices_iff (p : Application V) : p.Notices c ↔ p.network ≠ compared c p.settings := by
  unfold Notices
  rw [Application.network, ← changed_iff]
  by_cases hchanged : p.program.prefs.members.changed c p.settings
  · simp [warned, hchanged]
  · simp [warned, hchanged]

/-- `Save` alone moves what is stored. -/
theorem step_lastStored (h : p.Agrees c) {e : Event} (hstep : p.step c defaultpaths (.event e) = some p') :
    (e.Saves → p'.lastStored c = p'.network) ∧ (¬ e.Saves → p'.lastStored c = p.lastStored c) := by
  have hafter : p'.lastStored c = p'.program.prefs.stored.members.network :=
    congrArg (fun d : Stored => d.members.network) (step_agrees h hstep).stored
  have hbefore : p.lastStored c = p.program.prefs.stored.members.network :=
    congrArg (fun d : Stored => d.members.network) h.stored
  rw [hafter, hbefore]
  obtain ⟨s, hs, rfl⟩ := Option.map_eq_some_iff.mp hstep
  obtain ⟨messages, hwarned⟩ := p.warned_eq (c := c) e
  rw [hwarned] at hs
  cases e with
  | opened =>
    obtain rfl := Program.step_opened hs
    exact ⟨fun hsaves => hsaves.elim, fun _ => rfl⟩
  | closed accepted =>
    obtain rfl := Program.step_closed hs
    cases accepted with
    | true => exact ⟨fun _ => rfl, fun hsaves => (hsaves rfl).elim⟩
    | false => exact ⟨fun hsaves => (nomatch hsaves), fun _ => rfl⟩
  | turn t =>
    cases t with
    | modules wanted =>
      cases hs
      exact ⟨fun _ => rfl, fun hsaves => (hsaves trivial).elim⟩
    | edit e =>
      obtain ⟨f, hf, rfl⟩ := Program.step_edit hs
      have hsynced : Preferences.Synced { p.program.prefs with messages } :=
        ⟨h.synced.box, h.synced.radio, h.synced.wanted⟩
      have htook := Preferences.took (t := .edit e) hsynced hf
      refine ⟨fun hsaves => hsaves.elim, fun _ => ?_⟩
      change f.stored.members.network = _
      rw [htook.stored]
      cases e <;> rfl

/-- Main result: the notice tells of a change since the last save exactly if, whenever the dialog is
accepted, the four settings are as they were saved just when they are as the keys without a group have
them, which stay as the program found them. -/
theorem notice_iff_changed {s : Store V} {sessions : Sessions} {is : List Input}
    (hstart : start c defaultpaths s sessions = some p)
    (h : Runs.exec (step c defaultpaths) p is = some p') :
    Runs.Each (step c defaultpaths) (fun m i => i = .event (.closed true) → ∀ m', m.step c defaultpaths i = some m' →
        (m'.program.prefs.messages = m.program.prefs.messages ++ [restartNotice] ↔
          m.network ≠ m.lastStored c)) p is ↔
      Runs.Each (step c defaultpaths) (fun m i => i = .event (.closed true) →
        (m.network = m.lastStored c ↔ m.network = compared c s)) p is := by
  have hinvariant : ∀ (m : Application V) (i : Input) (m' : Application V), compared c m.settings = compared c s →
      m.step c defaultpaths i = some m' → compared c m'.settings = compared c s :=
    fun _ _ _ hsame hstep => (step_compared hstep).trans hsame
  refine Runs.each_congr_of hinvariant ?_ (start_spec hstart).2 h
  intro m i m' hsame hstep
  refine forall_congr' ?_
  rintro rfl
  have hmessages : ∀ m'', m.step c defaultpaths (.event (.closed true)) = some m'' →
      (m''.program.prefs.messages = m.program.prefs.messages ++ [restartNotice] ↔
        m.network ≠ compared c s) := by
    intro m'' hm''
    obtain ⟨t, ht, rfl⟩ := Option.map_eq_some_iff.mp hm''
    obtain ⟨-, rfl⟩ := Option.ite_some_none_eq_some.mp ht
    rw [← hsame]
    exact m.notices_iff
  constructor
  · intro hall
    exact not_iff_not.mp ((hall m' hstep).symm.trans (hmessages m' hstep))
  · intro hcond m'' hm''
    exact (hmessages m'' hm'').trans (not_congr hcond).symm

/-- Both transports have their session. -/
def bothSessions : Sessions := ⟨true, fun _ => true⟩

/-- The trap port is edited and saved, and the dialog is accepted once more. -/
def portTwice : List Input :=
  [.event .opened, .event (.turn (.edit (.port .ipv4 163))), .event (.closed true), .event .opened,
    .event (.closed true)]

theorem notice_iff_changed_portTwice :
    ∃ p p', start Variant.codecs ["mibs"] empty bothSessions = some p ∧
      Runs.exec (step Variant.codecs ["mibs"]) p portTwice = some p' ∧
      (Runs.Each (step Variant.codecs ["mibs"]) (fun m i => i = .event (.closed true) → ∀ m',
          m.step Variant.codecs ["mibs"] i = some m' →
          (m'.program.prefs.messages = m.program.prefs.messages ++ [restartNotice] ↔
            m.network ≠ m.lastStored Variant.codecs)) p portTwice ↔
        Runs.Each (step Variant.codecs ["mibs"]) (fun m i => i = .event (.closed true) →
          (m.network = m.lastStored Variant.codecs ↔ m.network = compared Variant.codecs empty)) p portTwice) :=
  ⟨_, _, rfl, rfl, @notice_iff_changed _ _ ["mibs"] _ _ empty bothSessions portTwice rfl rfl⟩

/-- The second time nothing has changed since the save, and the notice is shown all the same. -/
theorem notice_shown_unchanged :
    ¬ ∀ (p p' : Application Variant) (is : List Input),
      start Variant.codecs ["mibs"] empty bothSessions = some p →
      Runs.exec (step Variant.codecs ["mibs"]) p is = some p' →
      Runs.Each (step Variant.codecs ["mibs"]) (fun m i => i = .event (.closed true) → ∀ m',
        m.step Variant.codecs ["mibs"] i = some m' →
        (m'.program.prefs.messages = m.program.prefs.messages ++ [restartNotice] ↔
          m.network ≠ m.lastStored Variant.codecs)) p is := by
  intro h
  have heach := h _ _ portTwice rfl rfl
  have hlast := ((((heach.2 _ rfl).2 _ rfl).2 _ rfl).2 _ rfl).1 rfl _ rfl
  exact hlast.mp rfl (by decide)

end Application

end SnmpB.Settings
