import SnmpB.Profile.Form
import Mathlib.Data.List.Nodup

/-! # What the form never touches

Nothing but a change of name writes a name, nothing but adding and deleting
changes which profiles there are, and only they and a selection change which one
is selected.
-/
namespace SnmpB.Profile

namespace AgentProfileManager

/-- The profiles in use are there, once each, and the selected one is among them. -/
structure Sound (m : AgentProfileManager) : Prop where
  listed : ∀ k ∈ m.agents, k < m.profiles.length
  nodup : m.agents.Nodup
  current : ∀ k, m.currentprofile = some k → k ∈ m.agents

/-- The profiles in use, their names and the selected one are as before. -/
structure Steady (m m' : AgentProfileManager) : Prop where
  agents : m'.agents = m.agents
  current : m'.currentprofile = m.currentprofile
  names : m'.profiles.map AgentProfile.name = m.profiles.map AgentProfile.name

section
variable {m m' m'' : AgentProfileManager}

theorem Steady.refl (m : AgentProfileManager) : Steady m m := ⟨rfl, rfl, rfl⟩

theorem Steady.trans (h : Steady m m') (h' : Steady m' m'') : Steady m m'' :=
  ⟨h'.agents.trans h.agents, h'.current.trans h.current, h'.names.trans h.names⟩

theorem Steady.length (h : Steady m m') : m'.profiles.length = m.profiles.length := by
  have hlength := congrArg List.length h.names
  simpa using hlength

theorem Steady.sound (h : Steady m m') (hm : m.Sound) : m'.Sound where
  listed := by
    rw [h.agents, h.length]
    exact hm.listed
  nodup := h.agents ▸ hm.nodup
  current := by
    rw [h.agents, h.current]
    exact hm.current

theorem Steady.edit (m : AgentProfileManager) (who : ℕ) {g : AgentProfile → AgentProfile}
    (hg : ∀ p, (g p).name = p.name) : Steady m (m.edit who g) where
  agents := rfl
  current := rfl
  names := by
    apply List.ext_getElem?
    intro j
    rw [List.getElem?_map, List.getElem?_map, getElem?_edit]
    split
    · cases m.profiles[j]? <;> simp [hg]
    · rfl

theorem Steady.setBox (h : Steady m m') (box : Protocols) : Steady m { m' with box } :=
  ⟨h.agents, h.current, h.names⟩

theorem Steady.message (h : Steady m m') (messages : List String) : Steady m { m' with messages } :=
  ⟨h.agents, h.current, h.names⟩

theorem Steady.setSupport (h : Steady m m') (who : ℕ) (i : Protocol) (checked : Bool) :
    Steady m (m'.setSupport who i checked) :=
  h.trans (Steady.edit m' who fun _ => rfl)

theorem Steady.check (h : Steady m m') (i : Protocol) : Steady m (m'.check i) := by
  unfold AgentProfileManager.check
  split
  · exact h
  · simp only
    split
    · exact h.setBox _
    · exact (h.setBox _).setSupport _ i true

theorem Steady.protocolSupport (h : Steady m m') (who : ℕ) (i : Protocol) (checked : Bool) :
    Steady m (m'.protocolSupport who i checked) := by
  unfold AgentProfileManager.protocolSupport
  split
  · exact (h.message _).check i
  · exact h.setSupport who i checked

theorem Steady.uncheck (h : Steady m m') (i : Protocol) : Steady m (m'.uncheck i) := by
  unfold AgentProfileManager.uncheck
  split
  · simp only
    split
    · exact h.setBox _
    · exact (h.setBox _).protocolSupport _ i false
  · exact h

/-- A click into a box. -/
theorem Steady.click (h : Steady m m') (i : Protocol) :
    Steady m (if m'.box.get i then m'.uncheck i else m'.check i) := by
  split
  · exact h.uncheck i
  · exact h.check i

theorem Steady.raise (h : Steady m m') (who : ℕ) (i : Protocol) : Steady m (m'.raise who i) := by
  unfold AgentProfileManager.raise
  split
  · exact (h.check i).protocolSupport who i _
  · exact h

theorem Steady.lower (h : Steady m m') (who : ℕ) (i : Protocol) : Steady m (m'.lower who i) := by
  unfold AgentProfileManager.lower
  split
  · exact h
  · exact (h.uncheck i).protocolSupport who i _

theorem Steady.apply (h : Steady m m') (who : ℕ) : Steady m (m'.applySupportedProtocol who) :=
  have hraised := ((h.raise who .v1).raise who .v2).raise who .v3
  ((hraised.lower who .v1).lower who .v2).lower who .v3

theorem Steady.setSupportedProtocol (h : Steady m m') (who : ℕ) (support : Protocols) :
    Steady m (m'.setSupportedProtocol who support) :=
  (h.trans (Steady.edit m' who (g := fun p => { p with support }) fun _ => rfl)).apply who

/-- A profile has been created behind the others, under a name of its own or not. -/
structure Grows (m m' : AgentProfileManager) (name : String) : Prop where
  agents : m'.agents = m.agents ++ [m.profiles.length]
  names : m'.profiles.map AgentProfile.name = m.profiles.map AgentProfile.name ++ [name]

theorem Grows.length {name : String} (h : Grows m m' name) :
    m'.profiles.length = m.profiles.length + 1 := by
  have hlength := congrArg List.length h.names
  simpa using hlength

theorem Grows.sound {name : String} (h : Grows m m' name) (hm : m.Sound)
    (hcurrent : ∀ k, m'.currentprofile = some k → k ∈ m'.agents) : m'.Sound where
  listed := by
    rw [h.agents, h.length]
    intro k hk
    rcases List.mem_append.mp hk with hk | hk
    · exact (hm.listed k hk).trans (Nat.lt_succ_self _)
    · rw [List.mem_singleton.mp hk]
      exact Nat.lt_succ_self _
  nodup := by
    rw [h.agents, ← List.concat_eq_append]
    exact hm.nodup.concat fun hmem => Nat.lt_irrefl _ (hm.listed _ hmem)
  current := hcurrent

theorem newProfile_names (m : AgentProfileManager) (name : String) :
    (m.newProfile name).profiles.map AgentProfile.name = m.profiles.map AgentProfile.name ++ [name] :=
  List.map_append

theorem add_grows (m : AgentProfileManager) :
    Grows m m.add "newagent" ∧ m.add.currentprofile = some m.profiles.length := by
  have hcreated := (Steady.refl (m.newProfile "newagent")).setSupportedProtocol m.profiles.length defaultSupport
  have hedited := hcreated.trans (Steady.edit _ m.profiles.length (g := fun p =>
    { p with
      address := "127.0.0.1", port := "161", retries := 1, timeout := 3, readcomm := "public"
      writecomm := "private", maxrepetitions := 10, nonrepeaters := 0, secname := "", seclevel := 0
      contextname := "", contextengineid := "" }) fun _ => rfl)
  unfold add selectedAgentProfile
  simp only
  generalize ((m.newProfile "newagent").setSupportedProtocol m.profiles.length defaultSupport).edit
    m.profiles.length _ = e at hedited ⊢
  have hshown := (Steady.refl { e with
    agents := e.agents ++ [m.profiles.length], currentprofile := some m.profiles.length }).apply
    m.profiles.length
  refine ⟨⟨?_, ?_⟩, hshown.current⟩
  · rw [hshown.agents, hedited.agents]
    rfl
  · exact hshown.names.trans (hedited.names.trans (newProfile_names m _))

theorem addClone_grows (m : AgentProfileManager) (name address port : String) (support : Protocols)
    (clonefrom : String) :
    m.addClone name address port support clonefrom = m ∨
    (m.getAgentProfile name = none ∧
      Grows m (m.addClone name address port support clonefrom) name ∧
      (m.addClone name address port support clonefrom).currentprofile = m.currentprofile) := by
  unfold addClone
  split
  · exact Or.inl rfl
  · rename_i clone hclone
    split
    · exact Or.inl rfl
    · rename_i hname
      have hcreated := (Steady.refl (m.newProfile name)).setSupportedProtocol m.profiles.length support
      have hedited := (hcreated.trans (Steady.edit _ m.profiles.length
        (g := fun p => { p with address, port }) fun _ => rfl))
      simp only
      generalize ((m.newProfile name).setSupportedProtocol m.profiles.length support).edit
        m.profiles.length _ = e at hedited ⊢
      have hcloned := hedited.trans (Steady.edit e m.profiles.length
        (g := cloneInto (e.profiles[clone]?.getD (.new clonefrom))) fun _ => rfl)
      refine Or.inr ⟨by simpa using hname, ⟨?_, ?_⟩, hcloned.current⟩
      · change _ ++ _ = _
        rw [hcloned.agents]
        rfl
      · exact hcloned.names.trans (newProfile_names m _)

end

end AgentProfileManager

namespace Form
open AgentProfileManager

variable {β : Type}

theorem write_steady (f : Form) {l : Lens AgentProfile β} (hl : nameLens.Independent l) (v : β) :
    Steady f.manager (f.write l v).manager := by
  unfold write
  split
  · exact Steady.refl _
  · exact Steady.edit _ _ fun p => hl v p

theorem lineField_steady (field : LineField) : nameLens.Independent field.lens := by
  intro v p
  cases field <;> rfl

theorem spinField_steady (field : SpinField) : nameLens.Independent field.lens := by
  intro v p
  cases field <;> rfl

theorem valueChanged_steady (f : Form) (field : SpinField) (v : ℤ) :
    Steady f.manager (f.valueChanged field v).manager :=
  write_steady { f with spin := Function.update f.spin field v } (spinField_steady field) v

theorem showSpin_steady (f : Form) (who : ℕ) (field : SpinField) :
    Steady f.manager (f.showSpin who field).manager := by
  unfold showSpin setValue
  split
  · exact Steady.refl _
  · exact valueChanged_steady f field _

theorem secNameChanged_steady (f : Form) (index : Option ℕ) :
    Steady f.manager (f.secNameChanged index).manager :=
  write_steady { f with secName := index } (fun _ _ => rfl) _

theorem secNameSetCurrentIndex_steady (f : Form) (index : Option ℕ) :
    Steady f.manager (f.secNameSetCurrentIndex index).manager := by
  unfold secNameSetCurrentIndex
  simp only
  split
  · exact Steady.refl _
  · exact secNameChanged_steady f _

theorem secLevelChanged_steady (f : Form) (index : Option ℕ) :
    Steady f.manager (f.secLevelChanged index).manager :=
  write_steady { f with secLevel := index } (fun _ _ => rfl) _

theorem secLevelSetCurrentIndex_steady (f : Form) (level : ℤ) :
    Steady f.manager (f.secLevelSetCurrentIndex level).manager := by
  unfold secLevelSetCurrentIndex
  simp only
  split
  · exact Steady.refl _
  · exact secLevelChanged_steady f _

theorem selectAgentProfile_steady (f : Form) (item : Item) :
    Steady f.manager (f.selectAgentProfile item).manager := by
  unfold selectAgentProfile
  split
  · let applied : Form := { f with manager := f.manager.applySupportedProtocol item.profile }
    have happlied : Steady f.manager applied.manager := (Steady.refl f.manager).apply item.profile
    exact (happlied.trans (showSpin_steady applied _ _)).trans (showSpin_steady _ _ _)
  · exact Steady.refl _
  · exact (showSpin_steady _ _ _).trans (showSpin_steady _ _ _)
  · exact (secNameSetCurrentIndex_steady _ _).trans (secLevelSetCurrentIndex_steady _ _)

/-- A selection changes nothing but the selected profile. -/
theorem selectedAgentProfile_steady (f : Form) (item : Item) :
    ∃ current, Steady { f.manager with currentprofile := current } (f.selectedAgentProfile item).manager ∧
      (current = f.manager.currentprofile ∨ item.profile ∈ f.manager.agents ∧ current = some item.profile) := by
  unfold selectedAgentProfile
  split
  · rename_i hmem
    let turned : Form := { f with manager := { f.manager with currentprofile := some item.profile } }
    exact ⟨some item.profile, selectAgentProfile_steady turned item, Or.inr ⟨hmem, rfl⟩⟩
  · exact ⟨f.manager.currentprofile, Steady.refl _, Or.inl rfl⟩

theorem opened_steady (f : Form) (users : List String) :
    Steady f.manager (f.opened users).manager := by
  have hcleared : Steady f.manager f.secNameClear.manager := by
    unfold secNameClear
    simp only
    split
    · exact Steady.refl _
    · exact secNameChanged_steady { f with secNames := [] } none
  have hfilled : Steady f.manager (f.secNameClear.secNameAddItems users).manager := by
    apply hcleared.trans
    unfold secNameAddItems
    split
    · exact Steady.refl _
    · exact secNameChanged_steady { f.secNameClear with secNames := f.secNameClear.secNames ++ users } (some 0)
  unfold opened
  simp only
  split
  · exact hfilled
  · exact hfilled.trans (secNameSetCurrentIndex_steady _ _)

end Form

end SnmpB.Profile
