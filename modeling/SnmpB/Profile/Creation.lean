import SnmpB.Profile.AgentProfile
import Mathlib.Data.List.Basic

/-! # Creating a profile

A new profile shows its protocols in the boxes of the form while the profile
selected before is still selected. Every box that has to change for the new
profile is therefore written into the selected one.
-/
namespace SnmpB.Profile

/-! ## The boxes and the flags of the selected profile -/

namespace Protocols

def none : Protocols := ⟨false, false, false⟩

theorem forall_iff {P : Protocol → Prop} : (∀ i, P i) ↔ P .v1 ∧ P .v2 ∧ P .v3 := by
  constructor
  · intro h
    exact ⟨h .v1, h .v2, h .v3⟩
  · rintro ⟨h1, h2, h3⟩ i
    cases i with
    | v1 => exact h1
    | v2 => exact h2
    | v3 => exact h3

theorem ext_get {ps qs : Protocols} : ps = qs ↔ ∀ i, ps.get i = qs.get i := by
  rw [forall_iff]
  cases ps
  cases qs
  simp [get]

theorem set_get (ps : Protocols) (i : Protocol) : ps.set i (ps.get i) = ps := by
  cases i <;> rfl

/-- The flags where the box is right already, the requested ones elsewhere. -/
def overwrite (box support flags : Protocols) : Protocols where
  v1 := if box.v1 = support.v1 then flags.v1 else support.v1
  v2 := if box.v2 = support.v2 then flags.v2 else support.v2
  v3 := if box.v3 = support.v3 then flags.v3 else support.v3

theorem overwrite_get (box support flags : Protocols) (i : Protocol) :
    (overwrite box support flags).get i = if box.get i = support.get i then flags.get i else support.get i := by
  cases i <;> rfl

/-- The box that stays checked when all are to be unchecked in turn. -/
def lastChecked (box : Protocols) : Protocol := if box.v3 then .v3 else if box.v2 then .v2 else .v1

def clearAll (box flags : Protocols) : Protocols :=
  (overwrite box none flags).set box.lastChecked true

theorem get_set (ps : Protocols) (i j : Protocol) (flag : Bool) :
    (ps.set i flag).get j = if j = i then flag else ps.get j := by
  cases i <;> cases j <;> rfl

theorem clearAll_get (box flags : Protocols) (i : Protocol) :
    (clearAll box flags).get i =
      if i = box.lastChecked then true else if box.get i = false then flags.get i else false := by
  have hnone : none.get i = false := by cases i <;> rfl
  rw [clearAll, get_set, overwrite_get, hnone]

end Protocols

/-- What the signals work on: the boxes, and the flags of the selected profile. -/
structure Panel where
  box : Protocols
  flags : Protocols
  deriving DecidableEq

namespace Panel

def check (s : Panel) (i : Protocol) : Panel :=
  if s.box.get i then s else ⟨s.box.set i true, s.flags.set i true⟩

/-- `ProtocolV1Support` and its siblings of a profile that is not the selected one. -/
def other (s : Panel) (i : Protocol) (checked : Bool) : Panel :=
  if s.box.refuses i checked then s.check i else s

def uncheck (s : Panel) (i : Protocol) : Panel :=
  if s.box.get i then
    let box := s.box.set i false
    if box.refuses i false then Panel.check ⟨box, s.flags⟩ i else ⟨box, s.flags.set i false⟩
  else s

def raise (s : Panel) (support : Protocols) (i : Protocol) : Panel :=
  if support.get i then (s.check i).other i true else s

def lower (s : Panel) (support : Protocols) (i : Protocol) : Panel :=
  if support.get i then s else (s.uncheck i).other i false

def apply (s : Panel) (support : Protocols) : Panel :=
  let s := ((s.raise support .v1).raise support .v2).raise support .v3
  ((s.lower support .v1).lower support .v2).lower support .v3

/-- With a supported protocol no box is refused. -/
theorem apply_of_ne_none {support : Protocols} (h : support ≠ .none) (s : Panel) :
    s.apply support = ⟨support, .overwrite s.box support s.flags⟩ := by
  obtain ⟨⟨b1, b2, b3⟩, ⟨f1, f2, f3⟩⟩ := s
  obtain ⟨n1, n2, n3⟩ := support
  revert h
  revert b1 b2 b3 f1 f2 f3 n1 n2 n3
  decide

/-- Without one, the last box that is left refuses, and what is checked again is written. -/
theorem apply_none (s : Panel) : (s.apply .none).flags = .clearAll s.box s.flags := by
  obtain ⟨⟨b1, b2, b3⟩, ⟨f1, f2, f3⟩⟩ := s
  revert b1 b2 b3 f1 f2 f3
  decide

end Panel

/-! ## The panel of a manager -/

namespace AgentProfileManager

/-- The selected profile is `p` but for its flags, which are with the boxes in the panel, and the
profile `who` supports `support`. -/
structure Holds (m : AgentProfileManager) (k who : ℕ) (p : AgentProfile) (support : Protocols) (s : Panel) :
    Prop where
  current : m.currentprofile = some k
  profile : m.profiles[k]? = some { p with support := s.flags }
  own : m.profiles[who]?.map AgentProfile.support = some support
  box : m.box = s.box

section
variable {m : AgentProfileManager} {k who : ℕ} {p : AgentProfile} {support : Protocols} {s : Panel}

theorem getElem?_edit (m : AgentProfileManager) (who : ℕ) (f : AgentProfile → AgentProfile) (k : ℕ) :
    (m.edit who f).profiles[k]? = if who = k then m.profiles[k]?.map f else m.profiles[k]? := by
  rw [edit, List.getElem?_modify]
  split
  · rfl
  · exact Option.map_id_apply

theorem Holds.setCurrent (h : Holds m k who p support s) (hne : who ≠ k) (i : Protocol) (checked : Bool) :
    Holds (m.setSupport k i checked) k who p support ⟨s.box, s.flags.set i checked⟩ where
  current := h.current
  profile := by
    rw [setSupport, getElem?_edit, if_pos rfl, h.profile]
    rfl
  own := by
    rw [setSupport, getElem?_edit, if_neg hne.symm]
    exact h.own
  box := h.box

/-- The profile writes the flag it has already. -/
theorem Holds.setOwn (h : Holds m k who p support s) (hne : who ≠ k) (i : Protocol) :
    Holds (m.setSupport who i (support.get i)) k who p support s where
  current := h.current
  profile := by
    rw [setSupport, getElem?_edit, if_neg hne]
    exact h.profile
  own := by
    obtain ⟨q, hq, hsupport⟩ := Option.map_eq_some_iff.mp h.own
    rw [setSupport, getElem?_edit, if_pos rfl, hq, ← hsupport]
    exact congrArg some (q.support.set_get i)
  box := h.box

theorem Holds.setBox (h : Holds m k who p support s) (i : Protocol) (checked : Bool) :
    Holds { m with box := m.box.set i checked } k who p support ⟨s.box.set i checked, s.flags⟩ :=
  ⟨h.current, h.profile, h.own, by rw [← h.box]⟩

theorem Holds.message (h : Holds m k who p support s) :
    Holds { m with messages := m.messages ++ [protocolMessage] } k who p support s :=
  ⟨h.current, h.profile, h.own, h.box⟩

theorem Holds.check (h : Holds m k who p support s) (hne : who ≠ k) (i : Protocol) :
    Holds (m.check i) k who p support (s.check i) := by
  obtain ⟨profiles, agents, currentprofile, box, messages, config⟩ := m
  obtain rfl : currentprofile = some k := h.current
  obtain rfl : box = s.box := h.box
  unfold AgentProfileManager.check Panel.check
  split
  · exact h
  · exact (h.setBox i true).setCurrent hne i true

theorem Holds.uncheck (h : Holds m k who p support s) (hne : who ≠ k) (i : Protocol) :
    Holds (m.uncheck i) k who p support (s.uncheck i) := by
  obtain ⟨profiles, agents, currentprofile, box, messages, config⟩ := m
  obtain rfl : currentprofile = some k := h.current
  obtain rfl : box = s.box := h.box
  unfold AgentProfileManager.uncheck Panel.uncheck protocolSupport
  simp only
  split
  · split
    · exact (h.setBox i false).message.check hne i
    · exact (h.setBox i false).setCurrent hne i false
  · exact h

theorem Holds.other (h : Holds m k who p support s) (hne : who ≠ k) (i : Protocol) :
    Holds (m.protocolSupport who i (support.get i)) k who p support (s.other i (support.get i)) := by
  unfold protocolSupport Panel.other
  rw [← h.box]
  split
  · exact h.message.check hne i
  · exact h.setOwn hne i

theorem Holds.supports (h : Holds m k who p support s) (i : Protocol) :
    m.supports who i = support.get i := by
  obtain ⟨q, hq, rfl⟩ := Option.map_eq_some_iff.mp h.own
  rw [AgentProfileManager.supports, hq]
  rfl

theorem Holds.raise (h : Holds m k who p support s) (hne : who ≠ k) (i : Protocol) :
    Holds (m.raise who i) k who p support (s.raise support i) := by
  unfold AgentProfileManager.raise Panel.raise
  rw [h.supports]
  split
  · rename_i hi
    have hnext := (h.check hne i).other hne i
    simp only [(h.check hne i).supports]
    rwa [hi] at hnext ⊢
  · exact h

theorem Holds.lower (h : Holds m k who p support s) (hne : who ≠ k) (i : Protocol) :
    Holds (m.lower who i) k who p support (s.lower support i) := by
  unfold AgentProfileManager.lower Panel.lower
  rw [h.supports]
  split
  · exact h
  · rename_i hi
    have hnext := (h.uncheck hne i).other hne i
    simp only [(h.uncheck hne i).supports]
    rwa [Bool.not_eq_true _ |>.mp hi] at hnext ⊢

theorem Holds.apply (h : Holds m k who p support s) (hne : who ≠ k) :
    Holds (m.applySupportedProtocol who) k who p support (s.apply support) :=
  have hraised := ((h.raise hne .v1).raise hne .v2).raise hne .v3
  ((hraised.lower hne .v1).lower hne .v2).lower hne .v3

end

/-! ## What is left alone -/

/-- Nothing but the profile `who` and the selected one is touched. -/
structure Frames (who : ℕ) (m m' : AgentProfileManager) : Prop where
  current : m'.currentprofile = m.currentprofile
  others : ∀ j, j ≠ who → m.currentprofile ≠ some j → m'.profiles[j]? = m.profiles[j]?

section
variable {who : ℕ} {m m' : AgentProfileManager}

theorem Frames.refl (who : ℕ) (m : AgentProfileManager) : Frames who m m := ⟨rfl, fun _ _ _ => rfl⟩

theorem Frames.setBox (h : Frames who m m') (box : Protocols) : Frames who m { m' with box } :=
  ⟨h.current, h.others⟩

theorem Frames.message (h : Frames who m m') (messages : List String) : Frames who m { m' with messages } :=
  ⟨h.current, h.others⟩

theorem Frames.setSupport (h : Frames who m m') {k : ℕ} (hk : k = who ∨ m.currentprofile = some k)
    (i : Protocol) (checked : Bool) : Frames who m (m'.setSupport k i checked) where
  current := h.current
  others := by
    intro j hj hcurrent
    have hne : k ≠ j := by
      rintro rfl
      exact hk.elim hj hcurrent
    rw [AgentProfileManager.setSupport, getElem?_edit, if_neg hne]
    exact h.others j hj hcurrent

theorem Frames.check (h : Frames who m m') (i : Protocol) : Frames who m (m'.check i) := by
  unfold AgentProfileManager.check
  split
  · exact h
  · simp only
    split
    · exact h.setBox _
    · rename_i k hk
      exact (h.setBox _).setSupport (Or.inr (h.current.symm.trans hk)) i true

theorem Frames.protocolSupport (h : Frames who m m') {k : ℕ} (hk : k = who ∨ m.currentprofile = some k)
    (i : Protocol) (checked : Bool) : Frames who m (m'.protocolSupport k i checked) := by
  unfold AgentProfileManager.protocolSupport
  split
  · exact (h.message _).check i
  · exact h.setSupport hk i checked

theorem Frames.uncheck (h : Frames who m m') (i : Protocol) : Frames who m (m'.uncheck i) := by
  unfold AgentProfileManager.uncheck
  split
  · simp only
    split
    · exact h.setBox _
    · rename_i k hk
      exact (h.setBox _).protocolSupport (Or.inr (h.current.symm.trans hk)) i false
  · exact h

theorem Frames.raise (h : Frames who m m') (i : Protocol) : Frames who m (m'.raise who i) := by
  unfold AgentProfileManager.raise
  split
  · exact (h.check i).protocolSupport (Or.inl rfl) i _
  · exact h

theorem Frames.lower (h : Frames who m m') (i : Protocol) : Frames who m (m'.lower who i) := by
  unfold AgentProfileManager.lower
  split
  · exact h
  · exact (h.uncheck i).protocolSupport (Or.inl rfl) i _

theorem Frames.apply (h : Frames who m m') : Frames who m (m'.applySupportedProtocol who) :=
  have hraised := ((h.raise .v1).raise .v2).raise .v3
  ((hraised.lower .v1).lower .v2).lower .v3

theorem getElem?_edit_ne {j : ℕ} (hj : j ≠ who) (f : AgentProfile → AgentProfile) :
    (m.edit who f).profiles[j]? = m.profiles[j]? := by
  rw [getElem?_edit, if_neg hj.symm]

end

/-- A new profile leaves the others alone but for the flags of the selected one. -/
theorem getElem?_created (m : AgentProfileManager) (name : String) (support : Protocols) {j : ℕ}
    (hj : j < m.profiles.length) :
    ((m.newProfile name).setSupportedProtocol m.profiles.length support).profiles[j]? =
      m.profiles[j]?.map fun p =>
        if m.currentprofile = some j then { p with support := (Panel.apply ⟨m.box, p.support⟩ support).flags }
        else p := by
  have hne : m.profiles.length ≠ j := Nat.ne_of_gt hj
  have hold : ((m.newProfile name).edit m.profiles.length fun p => { p with support }).profiles[j]? =
      m.profiles[j]? := by
    rw [getElem?_edit_ne hne.symm, newProfile, List.getElem?_append_left hj]
  by_cases hcurrent : m.currentprofile = some j
  · have hget : m.profiles[j]? = some m.profiles[j] := List.getElem?_eq_getElem hj
    have hholds : Holds ((m.newProfile name).edit m.profiles.length fun p => { p with support }) j
        m.profiles.length m.profiles[j] support ⟨m.box, m.profiles[j].support⟩ := by
      refine ⟨hcurrent, hold.trans hget, ?_, rfl⟩
      rw [getElem?_edit, if_pos rfl, newProfile, List.getElem?_append_right (Nat.le_refl _), Nat.sub_self]
      rfl
    rw [setSupportedProtocol, (hholds.apply hne).profile, hget, Option.map_some, if_pos hcurrent]
  · have hframes := ((Frames.refl m.profiles.length
      ((m.newProfile name).edit m.profiles.length fun p => { p with support })).apply).others j hne.symm hcurrent
    rw [setSupportedProtocol, hframes, hold]
    simp [hcurrent]

/-! ## Creating a profile -/

inductive Creation
  | add
  | addClone (name address port : String) (support : Protocols) (clonefrom : String)

def create (m : AgentProfileManager) : Creation → AgentProfileManager
  | .add => m.add
  | .addClone name address port support clonefrom => m.addClone name address port support clonefrom

/-- The protocols a profile is created with, if one is created. -/
def requested (m : AgentProfileManager) : Creation → Option Protocols
  | .add => some defaultSupport
  | .addClone name _ _ support clonefrom =>
    if (m.getAgentProfile clonefrom).isSome ∧ (m.getAgentProfile name).isNone then some support else none

/-- Every profile that exists stays as it is. -/
def Unchanged (m m' : AgentProfileManager) : Prop :=
  ∀ j < m.profiles.length, m'.profiles[j]? = m.profiles[j]?

theorem getElem?_add {m : AgentProfileManager} {j : ℕ} (hj : j < m.profiles.length) :
    m.add.profiles[j]? =
      ((m.newProfile "newagent").setSupportedProtocol m.profiles.length defaultSupport).profiles[j]? := by
  have hne : j ≠ m.profiles.length := Nat.ne_of_lt hj
  have hcurrent : some m.profiles.length ≠ some j := fun h => hne (Option.some.inj h).symm
  unfold add selectedAgentProfile
  simp only
  rw [((Frames.refl m.profiles.length _).apply).others j hne hcurrent]
  generalize (m.newProfile "newagent").setSupportedProtocol m.profiles.length defaultSupport = created
  exact getElem?_edit_ne hne _

theorem getElem?_addClone {m : AgentProfileManager} {name address port : String} {support : Protocols}
    {clonefrom : String} {j : ℕ} (hj : j < m.profiles.length)
    (hclone : (m.getAgentProfile clonefrom).isSome) (hname : (m.getAgentProfile name).isNone) :
    (m.addClone name address port support clonefrom).profiles[j]? =
      ((m.newProfile name).setSupportedProtocol m.profiles.length support).profiles[j]? := by
  have hne : j ≠ m.profiles.length := Nat.ne_of_lt hj
  obtain ⟨clone, hclone⟩ := Option.isSome_iff_exists.mp hclone
  unfold addClone
  rw [hclone, Option.isNone_iff_eq_none.mp hname]
  simp only [Option.isSome_none, Bool.false_eq_true, ↓reduceIte, writeConfigFile]
  rw [getElem?_edit_ne hne, getElem?_edit_ne hne]

/-- What a creation does to the profiles that exist: it writes the flags of the selected one. -/
theorem getElem?_create (m : AgentProfileManager) (c : Creation) {j : ℕ} (hj : j < m.profiles.length) :
    (m.create c).profiles[j]? = m.profiles[j]?.map fun p =>
      match m.requested c with
      | none => p
      | some support =>
        if m.currentprofile = some j then { p with support := (Panel.apply ⟨m.box, p.support⟩ support).flags }
        else p := by
  cases c with
  | add => exact (getElem?_add hj).trans (getElem?_created m _ _ hj)
  | addClone name address port support clonefrom =>
    by_cases hrequest : (m.getAgentProfile clonefrom).isSome ∧ (m.getAgentProfile name).isNone
    · simp only [requested, if_pos hrequest]
      exact (getElem?_addClone hj hrequest.1 hrequest.2).trans (getElem?_created m _ _ hj)
    · simp only [requested, if_neg hrequest, Option.map_id', create]
      unfold addClone
      split
      · rfl
      · rename_i clone hclone
        have hname : (m.getAgentProfile name).isSome := by
          by_contra hnone
          exact hrequest ⟨by rw [hclone]; rfl, by simpa using hnone⟩
        rw [if_pos hname]

end AgentProfileManager

/-- No box that has to change for the new profile tells the selected one anything new. Without any
protocol the last box stays checked and the others are unchecked. -/
def Fits (box support flags : Protocols) : Prop :=
  if support = .none then
    flags.get box.lastChecked = true ∧ ∀ i ≠ box.lastChecked, box.get i = false ∨ flags.get i = false
  else ∀ i, box.get i = support.get i ∨ flags.get i = support.get i

theorem Panel.apply_flags_eq_iff (s : Panel) (support : Protocols) :
    (s.apply support).flags = s.flags ↔ Fits s.box support s.flags := by
  unfold Fits
  by_cases hnone : support = .none
  · subst hnone
    rw [apply_none, if_pos rfl, Protocols.ext_get]
    simp only [Protocols.clearAll_get]
    constructor
    · intro h
      refine ⟨by simpa using (h s.box.lastChecked).symm, fun i hi => ?_⟩
      have hi' := h i
      rw [if_neg hi] at hi'
      by_cases hbox : s.box.get i = false
      · exact Or.inl hbox
      · rw [if_neg hbox] at hi'
        exact Or.inr hi'.symm
    · rintro ⟨hlast, hrest⟩ i
      by_cases hi : i = s.box.lastChecked
      · rw [if_pos hi, hi, hlast]
      · rw [if_neg hi]
        split
        · rfl
        · rename_i hbox
          exact ((hrest i hi).resolve_left hbox).symm
  · rw [apply_of_ne_none hnone, if_neg hnone, Protocols.ext_get]
    refine forall_congr' fun i => ?_
    rw [Protocols.overwrite_get]
    split
    · rename_i hbox
      exact iff_of_true rfl (Or.inl hbox)
    · rename_i hbox
      rw [or_iff_right hbox]
      exact eq_comm

namespace AgentProfileManager

/-- Main result: creating a profile leaves every other one unchanged exactly if what the boxes show
fits the flags of the selected profile. -/
theorem create_unchanged_iff (m : AgentProfileManager) (c : Creation) :
    Unchanged m (m.create c) ↔
      ∀ support k p, m.requested c = some support → m.currentprofile = some k → m.profiles[k]? = some p →
        Fits m.box support p.support := by
  constructor
  · intro h support k p hsupport hk hp
    have hlt : k < m.profiles.length := (List.getElem?_eq_some_iff.mp hp).1
    have hsame := h k hlt
    rw [getElem?_create m c hlt, hp, hsupport, Option.map_some] at hsame
    simp only [hk, ↓reduceIte, Option.some.injEq] at hsame
    exact (Panel.apply_flags_eq_iff ⟨m.box, p.support⟩ support).mp (congrArg AgentProfile.support hsame)
  · intro h j hj
    rw [getElem?_create m c hj]
    have hget : m.profiles[j]? = some m.profiles[j] := List.getElem?_eq_getElem hj
    rw [hget, Option.map_some]
    congr 1
    split
    · rfl
    · rename_i support hsupport
      split
      · rename_i hcurrent
        have hflags := (Panel.apply_flags_eq_iff ⟨m.box, m.profiles[j].support⟩ support).mpr
          (h support j _ hsupport hcurrent hget)
        rw [hflags]
      · rfl

/-- One profile that supports SNMPv2c only, selected and shown. -/
def oneProfile : AgentProfileManager where
  profiles := [{ AgentProfile.new "router" with support := ⟨false, true, false⟩ }]
  agents := [0]
  currentprofile := some 0
  box := ⟨false, true, false⟩
  messages := []
  config := []

/-- A new profile makes it support SNMPv1 only. -/
theorem add_overwrites_selected :
    ¬ ∀ (m : AgentProfileManager) (c : Creation), Unchanged m (m.create c) := by
  intro h
  have hsame := h oneProfile .add 0 (by decide)
  rw [getElem?_create oneProfile .add (by decide)] at hsame
  revert hsame
  decide

end AgentProfileManager

end SnmpB.Profile
