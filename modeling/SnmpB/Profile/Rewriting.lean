import SnmpB.Profile.Names

/-! # What the form writes

A handler writes one field of the selected profile. Filling in a page may write
into it as well, where a widget cannot show the value it is given; each write is
told by its lens, and whether it leaves the profile as it was.
-/
namespace SnmpB.Profile

/-! ## The boxes of the selected profile -/

namespace Panel

/-- `ProtocolV1Support` and its siblings of the selected profile. -/
def own (s : Panel) (i : Protocol) (checked : Bool) : Panel :=
  if s.box.refuses i checked then s.check i else ⟨s.box, s.flags.set i checked⟩

def raiseOwn (s : Panel) (i : Protocol) : Panel :=
  if s.flags.get i then (s.check i).own i ((s.check i).flags.get i) else s

def lowerOwn (s : Panel) (i : Protocol) : Panel :=
  if s.flags.get i then s else (s.uncheck i).own i ((s.uncheck i).flags.get i)

def applyOwn (s : Panel) : Panel :=
  let s := ((s.raiseOwn .v1).raiseOwn .v2).raiseOwn .v3
  ((s.lowerOwn .v1).lowerOwn .v2).lowerOwn .v3

def toggle (s : Panel) (i : Protocol) : Panel := if s.box.get i then s.uncheck i else s.check i

/-- A profile without any protocol gets one when it is shown. -/
theorem applyOwn_flags_eq_iff (s : Panel) : s.applyOwn.flags = s.flags ↔ s.flags ≠ .none := by
  obtain ⟨⟨b1, b2, b3⟩, ⟨f1, f2, f3⟩⟩ := s
  revert b1 b2 b3 f1 f2 f3
  decide

end Panel

/-- The state of a box that the user clicked, after the last one has been checked again. -/
def Protocols.toggled (box : Protocols) (i : Protocol) : Bool := !box.get i || box.refuses i false

theorem Panel.toggle_flags_eq_iff (s : Panel) (i : Protocol) :
    (s.toggle i).flags = s.flags ↔ s.flags.get i = s.box.toggled i := by
  obtain ⟨⟨b1, b2, b3⟩, ⟨f1, f2, f3⟩⟩ := s
  revert b1 b2 b3 f1 f2 f3
  cases i <;> decide

namespace AgentProfileManager

/-- The selected profile was `p`, and has changed in its flags only. -/
structure Owns (m₀ m : AgentProfileManager) (k : ℕ) (p : AgentProfile) (s : Panel) : Prop where
  current : m.currentprofile = some k
  profiles : Live.Rewrites m₀.profiles m.profiles k p { p with support := s.flags }
  box : m.box = s.box

section
variable {m₀ m : AgentProfileManager} {k : ℕ} {p : AgentProfile} {s : Panel}

theorem Owns.refl (hk : m.currentprofile = some k) (hp : m.profiles[k]? = some p) :
    Owns m m k p ⟨m.box, p.support⟩ :=
  ⟨hk, Live.Rewrites.refl hp, rfl⟩

theorem Owns.setSupport (h : Owns m₀ m k p s) (i : Protocol) (checked : Bool) :
    Owns m₀ (m.setSupport k i checked) k p ⟨s.box, s.flags.set i checked⟩ where
  current := h.current
  profiles := h.profiles.trans (Live.rewrites_modify h.profiles.after _)
  box := h.box

theorem Owns.setBox (h : Owns m₀ m k p s) (i : Protocol) (checked : Bool) :
    Owns m₀ { m with box := m.box.set i checked } k p ⟨s.box.set i checked, s.flags⟩ :=
  ⟨h.current, h.profiles, by rw [← h.box]⟩

theorem Owns.message (h : Owns m₀ m k p s) :
    Owns m₀ { m with messages := m.messages ++ [protocolMessage] } k p s :=
  ⟨h.current, h.profiles, h.box⟩

theorem Owns.check (h : Owns m₀ m k p s) (i : Protocol) : Owns m₀ (m.check i) k p (s.check i) := by
  obtain ⟨profiles, agents, currentprofile, box, messages, config⟩ := m
  obtain rfl : currentprofile = some k := h.current
  obtain rfl : box = s.box := h.box
  unfold AgentProfileManager.check Panel.check
  split
  · exact h
  · exact (h.setBox i true).setSupport i true

theorem Owns.protocolSupport (h : Owns m₀ m k p s) (i : Protocol) (checked : Bool) :
    Owns m₀ (m.protocolSupport k i checked) k p (s.own i checked) := by
  obtain ⟨profiles, agents, currentprofile, box, messages, config⟩ := m
  obtain rfl : box = s.box := h.box
  unfold AgentProfileManager.protocolSupport Panel.own
  split
  · exact h.message.check i
  · exact h.setSupport i checked

theorem Owns.uncheck (h : Owns m₀ m k p s) (i : Protocol) : Owns m₀ (m.uncheck i) k p (s.uncheck i) := by
  obtain ⟨profiles, agents, currentprofile, box, messages, config⟩ := m
  obtain rfl : currentprofile = some k := h.current
  obtain rfl : box = s.box := h.box
  unfold AgentProfileManager.uncheck Panel.uncheck
  split
  · exact (h.setBox i false).protocolSupport i false
  · exact h

theorem Owns.supports (h : Owns m₀ m k p s) (i : Protocol) : m.supports k i = s.flags.get i := by
  rw [AgentProfileManager.supports, h.profiles.after]
  rfl

theorem Owns.raise (h : Owns m₀ m k p s) (i : Protocol) : Owns m₀ (m.raise k i) k p (s.raiseOwn i) := by
  unfold AgentProfileManager.raise Panel.raiseOwn
  simp only [h.supports, (h.check i).supports]
  split
  · exact (h.check i).protocolSupport i _
  · exact h

theorem Owns.lower (h : Owns m₀ m k p s) (i : Protocol) : Owns m₀ (m.lower k i) k p (s.lowerOwn i) := by
  unfold AgentProfileManager.lower Panel.lowerOwn
  simp only [h.supports, (h.uncheck i).supports]
  split
  · exact h
  · exact (h.uncheck i).protocolSupport i _

theorem Owns.apply (h : Owns m₀ m k p s) : Owns m₀ (m.applySupportedProtocol k) k p s.applyOwn :=
  have hraised := ((h.raise .v1).raise .v2).raise .v3
  ((hraised.lower .v1).lower .v2).lower .v3

end

/-- The profiles in use, in order. -/
def list (m : AgentProfileManager) : List (Option AgentProfile) := Live.listed m.profiles m.agents

/-! ## What the form writes -/

/-- The profile `k` was `p` and is `p'`, and nothing else has changed. -/
structure Wrote (m m' : AgentProfileManager) (k : ℕ) (p p' : AgentProfile) : Prop where
  agents : m'.agents = m.agents
  current : m'.currentprofile = m.currentprofile
  profiles : Live.Rewrites m.profiles m'.profiles k p p'

variable {β : Type} {m m' m'' : AgentProfileManager} {k : ℕ} {p p' p'' : AgentProfile}

theorem Wrote.trans (h : Wrote m m' k p p') (h' : Wrote m' m'' k p' p'') : Wrote m m'' k p p'' :=
  ⟨h'.agents.trans h.agents, h'.current.trans h.current, h.profiles.trans h'.profiles⟩

theorem Wrote.list_iff (h : Wrote m m' k p p') (hk : k ∈ m.agents) : m'.list = m.list ↔ p' = p := by
  unfold list
  rw [h.agents]
  exact h.profiles.listed_eq_iff hk

theorem wrote_refl (hp : m.profiles[k]? = some p) (l : Lens AgentProfile β) :
    Wrote m m k p (l.put (l.get p) p) := by
  rw [l.put_get]
  exact ⟨rfl, rfl, Live.Rewrites.refl hp⟩

theorem wrote_edit (hp : m.profiles[k]? = some p) (l : Lens AgentProfile β) (v : β) :
    Wrote m (m.edit k (l.put v)) k p (l.put v p) :=
  ⟨rfl, rfl, Live.rewrites_modify hp _⟩

end AgentProfileManager

namespace Form
open AgentProfileManager

variable {β : Type} {f f' : Form} {k : ℕ} {p : AgentProfile}

theorem wrote_write (hk : f.manager.currentprofile = some k) (hp : f.manager.profiles[k]? = some p)
    (l : Lens AgentProfile β) (v : β) : Wrote f.manager (f.write l v).manager k p (l.put v p) := by
  unfold write
  rw [hk]
  exact wrote_edit hp l v

theorem shown_eq (hp : f.manager.profiles[k]? = some p) (l : Lens AgentProfile β) : f.shown k l = l.get p := by
  unfold shown
  rw [hp]
  rfl

/-- The selected profile, if there is one, is as described. -/
def Current (f : Form) (P : AgentProfile → Prop) : Prop :=
  ∀ k p, f.manager.currentprofile = some k → f.manager.profiles[k]? = some p → P p

theorem list_iff_current {P : AgentProfile → Prop} (hm : f.manager.Sound)
    (hnone : f.manager.currentprofile = none → f'.manager.list = f.manager.list)
    (hsome : ∀ k p, f.manager.currentprofile = some k → f.manager.profiles[k]? = some p →
      ∃ p', Wrote f.manager f'.manager k p p' ∧ (p' = p ↔ P p)) :
    f'.manager.list = f.manager.list ↔ f.Current P := by
  cases hk : f.manager.currentprofile with
  | none =>
    refine iff_of_true (hnone hk) ?_
    intro k p hk'
    rw [hk] at hk'
    cases hk'
  | some k =>
    have hmem := hm.current k hk
    obtain ⟨p, hp⟩ : ∃ p, f.manager.profiles[k]? = some p :=
      ⟨_, List.getElem?_eq_getElem (hm.listed k hmem)⟩
    obtain ⟨p', hwrote, hiff⟩ := hsome k p hk hp
    rw [hwrote.list_iff hmem, hiff]
    constructor
    · intro hP j q hj hq
      rw [hk] at hj
      cases hj
      rw [hp] at hq
      cases hq
      exact hP
    · intro hall
      exact hall k p hk hp

theorem list_write_iff (hm : f.manager.Sound) (l : Lens AgentProfile β) (v : β) :
    (f.write l v).manager.list = f.manager.list ↔ f.Current fun p => l.get p = v := by
  apply list_iff_current hm
  · intro hk
    unfold write
    rw [hk]
  · intro k p hk hp
    exact ⟨_, wrote_write hk hp l v, l.put_eq_self⟩

/-- A spin box can show the value, or shows its bound already. -/
def ShowsSpin (f : Form) (field : SpinField) (p : AgentProfile) : Prop :=
  f.spin field = field.bound (field.lens.get p) ∨ field.lens.get p = field.bound (field.lens.get p)

theorem wrote_showSpin (hk : f.manager.currentprofile = some k) (hp : f.manager.profiles[k]? = some p)
    (field : SpinField) : ∃ v, Wrote f.manager (f.showSpin k field).manager k p (field.lens.put v p) ∧
      (field.lens.get p = v ↔ f.ShowsSpin field p) ∧
      ∀ other ≠ field, (f.showSpin k field).spin other = f.spin other := by
  unfold showSpin setValue ShowsSpin
  rw [shown_eq hp]
  split
  · rename_i hsame
    exact ⟨_, wrote_refl hp field.lens, by simp [hsame], fun _ _ => rfl⟩
  · rename_i hother
    refine ⟨field.bound (field.lens.get p), ?_, by simp [hother], ?_⟩
    · let turned : Form := { f with spin := Function.update f.spin field (field.bound (field.lens.get p)) }
      exact wrote_write (f := turned) hk hp field.lens _
    · intro other hne
      unfold valueChanged write
      split <;> exact Function.update_of_ne hne _ _

theorem spinField_independent {a b : SpinField} (h : a ≠ b) : a.lens.Independent b.lens := by
  intro v p
  cases a <;> cases b <;> first | rfl | exact absurd rfl h

/-- Two spin boxes of a page. -/
theorem wrote_showSpins (hk : f.manager.currentprofile = some k) (hp : f.manager.profiles[k]? = some p)
    {a b : SpinField} (hab : a ≠ b) : ∃ v w,
      Wrote f.manager ((f.showSpin k a).showSpin k b).manager k p (b.lens.put w (a.lens.put v p)) ∧
      (a.lens.get p = v ↔ f.ShowsSpin a p) ∧ (b.lens.get p = w ↔ f.ShowsSpin b p) := by
  obtain ⟨v, hfirst, hv, hspin⟩ := wrote_showSpin hk hp a
  obtain ⟨w, hsecond, hw, -⟩ := wrote_showSpin (hfirst.current.trans hk) hfirst.profiles.after b
  have hget : b.lens.get (a.lens.put v p) = b.lens.get p := spinField_independent (Ne.symm hab) v p
  refine ⟨v, w, hfirst.trans hsecond, hv, ?_⟩
  rw [hget] at hw
  rw [hw, ShowsSpin, ShowsSpin, hget, hspin b (Ne.symm hab)]

/-- The user box has the name, or has no entry selected when the name is not among its entries. -/
def ShowsUser (f : Form) (p : AgentProfile) : Prop :=
  p.secname ∈ f.secNames ∨ f.secName = none ∨ p.secname = ""

theorem findText_some {names : List String} {text : String} {i : ℕ} (h : findText names text = some i) :
    i < names.length ∧ names[i]? = some text := by
  obtain ⟨hlt, htext, -⟩ := List.findIdx?_eq_some_iff_getElem.mp h
  exact ⟨hlt, by simpa [List.getElem?_eq_getElem hlt] using htext⟩

theorem findText_none {names : List String} {text : String} (h : findText names text = none) : text ∉ names := by
  intro hmem
  have hno := List.findIdx?_eq_none_iff.mp h text hmem
  simp at hno

theorem wrote_secNameSetCurrentIndex (hk : f.manager.currentprofile = some k)
    (hp : f.manager.profiles[k]? = some p) (index : Option ℕ) :
    ∃ v, Wrote f.manager (f.secNameSetCurrentIndex index).manager k p (secNameLens.put v p) ∧
      v = if f.secName = index.filter (· < f.secNames.length) then p.secname
        else f.secNameAt (index.filter (· < f.secNames.length)) := by
  unfold secNameSetCurrentIndex
  simp only
  split
  · exact ⟨_, wrote_refl hp secNameLens, rfl⟩
  · let turned : Form := { f with secName := index.filter (· < f.secNames.length) }
    exact ⟨_, wrote_write (f := turned) hk hp secNameLens _, rfl⟩

theorem secNameSetCurrentIndex_secLevel (f : Form) (index : Option ℕ) :
    (f.secNameSetCurrentIndex index).secLevel = f.secLevel := by
  unfold secNameSetCurrentIndex secNameChanged write
  simp only
  split
  · rfl
  · split <;> rfl

theorem wrote_showUser (hk : f.manager.currentprofile = some k) (hp : f.manager.profiles[k]? = some p) :
    ∃ v, Wrote f.manager (f.secNameSetCurrentIndex (findText f.secNames p.secname)).manager k p
        (secNameLens.put v p) ∧
      (secNameLens.get p = v ↔ f.ShowsUser p) := by
  obtain ⟨v, hwrote, hv⟩ := wrote_secNameSetCurrentIndex hk hp (findText f.secNames p.secname)
  refine ⟨v, hwrote, ?_⟩
  change p.secname = v ↔ _
  rw [hv, ShowsUser]
  cases hfind : findText f.secNames p.secname with
  | none =>
    have hmem := findText_none hfind
    by_cases hindex : f.secName = none <;> simp [hmem, hindex, secNameAt]
  | some i =>
    obtain ⟨hlt, hget⟩ := findText_some hfind
    have hmem : p.secname ∈ f.secNames := List.mem_of_getElem? hget
    have hfilter : (some i).filter (fun i => decide (i < f.secNames.length)) = some i :=
      Option.filter_eq_some_iff.mpr ⟨rfl, decide_eq_true hlt⟩
    have hat : f.secNameAt (some i) = p.secname := by simp [secNameAt, hget]
    rw [hfilter, hat, ite_self]
    exact iff_of_true rfl (Or.inl hmem)

/-- The level box has the level, or has no entry selected. -/
def ShowsLevel (f : Form) (p : AgentProfile) : Prop :=
  (-1 ≤ p.seclevel ∧ p.seclevel < 3) ∨ f.secLevel = none

theorem wrote_showLevel (hk : f.manager.currentprofile = some k) (hp : f.manager.profiles[k]? = some p) :
    ∃ v, Wrote f.manager (f.secLevelSetCurrentIndex p.seclevel).manager k p (secLevelLens.put v p) ∧
      (secLevelLens.get p = v ↔ f.ShowsLevel p) := by
  unfold secLevelSetCurrentIndex
  simp only
  have hreads : f.ShowsLevel p ↔ f.secLevel = Widget.comboIndex 3 p.seclevel ∨
      p.seclevel = Widget.comboValue (Widget.comboIndex 3 p.seclevel) :=
    Widget.comboIndex_reads_iff.symm
  rw [hreads]
  split
  · rename_i hindex
    exact ⟨_, wrote_refl hp secLevelLens, iff_of_true rfl (Or.inl hindex)⟩
  · rename_i hindex
    let turned : Form := { f with secLevel := Widget.comboIndex 3 p.seclevel }
    exact ⟨_, wrote_write (f := turned) hk hp secLevelLens _, (or_iff_right hindex).symm⟩

end Form

end SnmpB.Profile
