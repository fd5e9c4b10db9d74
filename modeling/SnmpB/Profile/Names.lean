import SnmpB.Profile.Steady

/-! # The names of the profiles

Everything resolves a profile by its name and takes the first one that has it.
The name is checked when Discovery adds a profile, and nowhere else.
-/
namespace SnmpB.Profile

namespace AgentProfileManager

def nameOf (m : AgentProfileManager) (k : ℕ) : String := (m.profiles[k]?.getD (.new "")).name

def getAgentsList (m : AgentProfileManager) : List String := m.agents.map m.nameOf

/-- What is picked in the list at a position is what the lookup by its name returns. -/
def PicksResolve (m : AgentProfileManager) : Prop :=
  ∀ (i : ℕ) (name : String), m.getAgentsList[i]? = some name → m.getAgentProfile name = m.agents[i]?

/-- No other profile in use has the name. -/
def Free (m : AgentProfileManager) (who : ℕ) (name : String) : Prop :=
  ∀ k ∈ m.agents, k ≠ who → m.nameOf k ≠ name

theorem getAgentProfile_eq_find {m : AgentProfileManager} (hm : m.Sound) (name : String) :
    m.getAgentProfile name = m.agents.find? fun k => decide (m.nameOf k = name) := by
  have hsame : ∀ k ∈ m.agents, (m.profiles[k]?.any fun p => p.name = name) = decide (m.nameOf k = name) := by
    intro k hk
    simp [nameOf, List.getElem?_eq_getElem (hm.listed k hk)]
  unfold getAgentProfile
  generalize m.agents = agents at hsame
  induction agents with
  | nil => rfl
  | cons k agents ih =>
    rw [List.find?_cons, List.find?_cons, hsame k List.mem_cons_self,
      ih fun j hj => hsame j (List.mem_cons_of_mem k hj)]

theorem picksResolve_of_nodup {m : AgentProfileManager} (hm : m.Sound) (hnames : m.getAgentsList.Nodup) :
    m.PicksResolve := by
  intro i name hi
  obtain ⟨k, hk, rfl⟩ : ∃ k, m.agents[i]? = some k ∧ m.nameOf k = name := by
    simpa [getAgentsList] using hi
  have hmem : k ∈ m.agents := List.mem_of_getElem? hk
  rw [getAgentProfile_eq_find hm, hk]
  cases hfind : m.agents.find? fun j => decide (m.nameOf j = m.nameOf k) with
  | none =>
    have hno := List.find?_eq_none.mp hfind k hmem
    simp at hno
  | some j =>
    have hname : m.nameOf j = m.nameOf k := by simpa using List.find?_some hfind
    exact congrArg some (List.inj_on_of_nodup_map hnames (List.mem_of_find?_eq_some hfind) hmem hname)

/-- With distinct names, one of them may change exactly if the new one is free. -/
theorem nodup_rename_iff {m m' : AgentProfileManager} {who : ℕ} {text : String} (hm : m.Sound)
    (hnames : m.getAgentsList.Nodup) (hwho : who ∈ m.agents) (hagents : m'.agents = m.agents)
    (hname : ∀ k, m'.nameOf k = if k = who then text else m.nameOf k) :
    m'.getAgentsList.Nodup ↔ m.Free who text := by
  have hold := (List.nodup_map_iff_inj_on hm.nodup).mp hnames
  rw [getAgentsList, hagents, List.nodup_map_iff_inj_on hm.nodup]
  simp only [hname]
  constructor
  · intro hinj k hk hne heq
    apply hne
    apply hinj k hk who hwho
    rw [if_neg hne, if_pos rfl, heq]
  · intro hfree j hj k hk heq
    by_cases hjw : j = who <;> by_cases hkw : k = who
    · rw [hjw, hkw]
    · rw [if_pos hjw, if_neg hkw] at heq
      exact absurd heq.symm (hfree k hk hkw)
    · rw [if_neg hjw, if_pos hkw] at heq
      exact absurd heq (hfree j hj hjw)
    · rw [if_neg hjw, if_neg hkw] at heq
      exact hold j hj k hk heq

theorem nameOf_congr {m m' : AgentProfileManager}
    (h : m'.profiles.map AgentProfile.name = m.profiles.map AgentProfile.name) (k : ℕ) :
    m'.nameOf k = m.nameOf k := by
  have hget := congrArg (fun names : List String => names[k]?.getD "") h
  simp only [List.getElem?_map] at hget
  unfold nameOf
  cases hk : m.profiles[k]? <;> cases hk' : m'.profiles[k]? <;> simp_all [AgentProfile.new]

theorem Steady.getAgentsList {m m' : AgentProfileManager} (h : Steady m m') :
    m'.getAgentsList = m.getAgentsList := by
  unfold AgentProfileManager.getAgentsList
  rw [h.agents]
  exact List.map_congr_left fun k _ => nameOf_congr h.names k

theorem Grows.getAgentsList {m m' : AgentProfileManager} {name : String} (hm : m.Sound) (h : Grows m m' name) :
    m'.getAgentsList = m.getAgentsList ++ [name] := by
  have hget (k : ℕ) := congrArg (fun names : List String => names[k]?.getD "") h.names
  have hnew : m'.nameOf m.profiles.length = name := by
    have hlast := hget m.profiles.length
    rw [List.getElem?_map, List.getElem?_append_right (by simp)] at hlast
    have hlt : m.profiles.length < m'.profiles.length := by
      rw [h.length]
      exact Nat.lt_succ_self _
    simpa [nameOf, List.getElem?_eq_getElem hlt] using hlast
  have hold : ∀ k ∈ m.agents, m'.nameOf k = m.nameOf k := by
    intro k hk
    have hlt := hm.listed k hk
    have hlt' : k < m'.profiles.length := by
      rw [h.length]
      exact hlt.trans (Nat.lt_succ_self _)
    have hsame := hget k
    rw [List.getElem?_map, List.getElem?_append_left (by simpa using hlt), List.getElem?_map,
      List.getElem?_eq_getElem hlt, List.getElem?_eq_getElem hlt'] at hsame
    simpa [nameOf, List.getElem?_eq_getElem hlt, List.getElem?_eq_getElem hlt'] using hsame
  unfold AgentProfileManager.getAgentsList
  rw [h.agents, List.map_append, List.map_singleton, hnew]
  congr 1
  exact List.map_congr_left hold

end AgentProfileManager

namespace Form
open AgentProfileManager

/-- The profile an edit names, if it names one. -/
def Edit.renames (f : Form) : Edit → Option (ℕ × String)
  | .profileName text => f.manager.currentprofile.map fun k => (k, text)
  | .itemName who text => if who ∈ f.manager.agents then some (who, text) else none
  | _ => none

theorem nameOf_edit {m : AgentProfileManager} {who : ℕ} (hwho : who < m.profiles.length) (text : String) (k : ℕ) :
    (m.edit who (nameLens.put text)).nameOf k = if k = who then text else m.nameOf k := by
  unfold nameOf
  rw [getElem?_edit]
  by_cases hk : k = who
  · subst hk
    simp [List.getElem?_eq_getElem hwho, nameLens]
  · rw [if_neg (Ne.symm hk), if_neg hk]

/-- The name of a profile in use has changed. -/
structure Renamed (m m' : AgentProfileManager) (who : ℕ) (text : String) : Prop where
  agents : m'.agents = m.agents
  current : m'.currentprofile = m.currentprofile
  length : m'.profiles.length = m.profiles.length
  names : ∀ k, m'.nameOf k = if k = who then text else m.nameOf k

theorem renamed_edit {m : AgentProfileManager} {who : ℕ} (hwho : who < m.profiles.length) (text : String) :
    Renamed m (m.edit who (nameLens.put text)) who text :=
  ⟨rfl, rfl, List.length_modify .., nameOf_edit hwho text⟩

theorem renamed_twice {m m' m'' : AgentProfileManager} {who : ℕ} {text : String} (h : Renamed m m' who text)
    (h' : Renamed m' m'' who text) : Renamed m m'' who text where
  agents := h'.agents.trans h.agents
  current := h'.current.trans h.current
  length := h'.length.trans h.length
  names k := by
    rw [h'.names, h.names]
    split <;> rfl

theorem Renamed.sound {m m' : AgentProfileManager} {who : ℕ} {text : String} (h : Renamed m m' who text)
    (hm : m.Sound) : m'.Sound where
  listed := by
    rw [h.agents, h.length]
    exact hm.listed
  nodup := h.agents ▸ hm.nodup
  current := by
    rw [h.agents, h.current]
    exact hm.current

theorem renames_some {f f' : Form} {e : Edit} {who : ℕ} {text : String} (hm : f.manager.Sound)
    (he : e.renames f = some (who, text)) (h : f.step e = some f') :
    who ∈ f.manager.agents ∧ Renamed f.manager f'.manager who text := by
  cases e with
  | profileName text₁ =>
    obtain ⟨k, hk, heq⟩ := Option.map_eq_some_iff.mp he
    obtain ⟨rfl, rfl⟩ := Prod.mk.inj heq
    have hmem := hm.current _ hk
    have hlt := hm.listed _ hmem
    have hrenamed := renamed_edit hlt text₁
    refine ⟨hmem, ?_⟩
    have hf' : f' = (f.write nameLens text₁).agentProfileNameChange k text₁ := by
      simp only [step, setProfileName, hk] at h
      exact (Option.some.inj h).symm
    have hwrite : (f.write nameLens text₁).manager = f.manager.edit k (nameLens.put text₁) := by
      simp only [write, hk]
    rw [hf', agentProfileNameChange, hwrite, if_pos (hrenamed.agents ▸ hmem)]
    exact renamed_twice hrenamed (renamed_edit (hrenamed.length ▸ hlt) text₁)
  | itemName who₁ text₁ =>
    by_cases hmem : who₁ ∈ f.manager.agents
    · rw [Edit.renames, if_pos hmem] at he
      obtain ⟨rfl, rfl⟩ := Prod.mk.inj (Option.some.inj he)
      cases h
      rw [agentProfileNameChange, if_pos hmem]
      exact ⟨hmem, renamed_edit (hm.listed _ hmem) text₁⟩
    · rw [Edit.renames, if_neg hmem] at he
      cases he
  | _ => cases he

/-- The selected profile is gone, and the tree's choice is selected. -/
structure Deleted (m m' : AgentProfileManager) (k : ℕ) : Prop where
  selected : m.currentprofile = some k
  agents : m'.agents = m.agents.erase k
  names : m'.profiles.map AgentProfile.name = m.profiles.map AgentProfile.name
  current : ∀ j, m'.currentprofile = some j → j ∈ m'.agents

theorem currentItemChanged_steady (f : Form) (next : Option Item) :
    ∃ current, Steady { f.manager with currentprofile := current } (f.currentItemChanged next).manager := by
  cases next with
  | none => exact ⟨f.manager.currentprofile, Steady.refl _⟩
  | some item =>
    obtain ⟨current, hsteady, -⟩ := selectedAgentProfile_steady f item
    exact ⟨current, hsteady⟩

theorem delete_cases (f : Form) (next : Option Item) (hm : f.manager.Sound) :
    (f.manager.currentprofile = none ∧ f.delete next = f) ∨
    ∃ k, Deleted f.manager (f.delete next).manager k := by
  unfold delete
  split
  · rename_i hnone
    exact Or.inl ⟨hnone, rfl⟩
  · rename_i k hk
    rw [if_pos (hm.current k hk)]
    obtain ⟨current, hsteady⟩ := currentItemChanged_steady (f.takeAt k) next
    refine Or.inr ⟨k, hk, hsteady.agents, hsteady.names, ?_⟩
    intro j hj
    obtain ⟨-, hmem⟩ := Option.filter_eq_some_iff.mp hj
    exact of_decide_eq_true hmem

theorem Deleted.sound {m m' : AgentProfileManager} {k : ℕ} (h : Deleted m m' k) (hm : m.Sound) : m'.Sound where
  listed j hj := by
    have hlength : m'.profiles.length = m.profiles.length := by simpa using congrArg List.length h.names
    rw [hlength]
    rw [h.agents] at hj
    exact hm.listed j (List.mem_of_mem_erase hj)
  nodup := h.agents ▸ hm.nodup.erase k
  current := h.current

theorem add_grows (f : Form) : Grows f.manager f.add.manager "newagent" ∧
    f.add.manager.currentprofile = some f.manager.profiles.length := by
  obtain ⟨hgrows, hcurrent⟩ := AgentProfileManager.add_grows f.manager
  let added : Form := { f with manager := f.manager.add }
  have hshown := (showSpin_steady added f.manager.profiles.length .retries).trans
    (showSpin_steady _ f.manager.profiles.length .timeout)
  exact ⟨⟨hshown.agents.trans hgrows.agents, hshown.names.trans hgrows.names⟩, hshown.current.trans hcurrent⟩

theorem add_sound (f : Form) (hm : f.manager.Sound) : f.add.manager.Sound := by
  obtain ⟨hgrows, hcurrent⟩ := f.add_grows
  apply hgrows.sound hm
  intro k hk
  rw [hcurrent] at hk
  rw [← Option.some.inj hk, hgrows.agents]
  exact List.mem_append_right _ (List.mem_singleton.mpr rfl)

/-- Every other edit leaves the profiles in use and their names alone. -/
theorem step_steady {f f' : Form} {e : Edit} (hm : f.manager.Sound) (hrenames : e.renames f = none)
    (hadd : e ≠ .add) (hdelete : ∀ next, e ≠ .delete next) (h : f.step e = some f') :
    ∃ current, Steady { f.manager with currentprofile := current } f'.manager ∧
      ∀ k, current = some k → k ∈ f.manager.agents := by
  have hsame : Steady f.manager f'.manager → ∃ current,
      Steady { f.manager with currentprofile := current } f'.manager ∧
      ∀ k, current = some k → k ∈ f.manager.agents := fun hsteady =>
    ⟨f.manager.currentprofile, hsteady, hm.current⟩
  cases e with
  | line field text =>
    cases h
    exact hsame (write_steady f (lineField_steady field) text)
  | profileName text =>
    have hnone : f.manager.currentprofile = none := by simpa [Edit.renames] using hrenames
    simp only [step, setProfileName, hnone] at h
    cases h
    exact hsame (Steady.refl _)
  | spin field v =>
    obtain ⟨-, rfl⟩ := Option.ite_some_none_eq_some.mp h
    exact hsame (valueChanged_steady f field v)
  | secName index =>
    obtain ⟨-, rfl⟩ := Option.ite_some_none_eq_some.mp h
    exact hsame (secNameChanged_steady f (some index))
  | secLevel index =>
    obtain ⟨-, rfl⟩ := Option.ite_some_none_eq_some.mp h
    exact hsame (secLevelChanged_steady f (some index))
  | protocol i =>
    cases h
    exact hsame ((Steady.refl _).click i)
  | itemName who text =>
    have hno : who ∉ f.manager.agents := by simpa [Edit.renames] using hrenames
    simp only [step, agentProfileNameChange, if_neg hno] at h
    cases h
    exact hsame (Steady.refl _)
  | select item =>
    cases h
    obtain ⟨current, hsteady, hcurrent⟩ := selectedAgentProfile_steady f item
    refine ⟨current, hsteady, fun k hk => ?_⟩
    rcases hcurrent with rfl | ⟨hmem, rfl⟩
    · exact hm.current k hk
    · cases hk
      exact hmem
  | add => exact absurd rfl hadd
  | delete next => exact absurd rfl (hdelete next)

/-- What an edit can do: rename a profile, add or delete one, or leave the ones in use and their names alone. -/
theorem step_cases {f f' : Form} {e : Edit} (hm : f.manager.Sound) (h : f.step e = some f') :
    (∃ who text, e.renames f = some (who, text) ∧ who ∈ f.manager.agents ∧
      Renamed f.manager f'.manager who text) ∨
    (e = .add ∧ f' = f.add) ∨
    (e ≠ .add ∧ e.renames f = none ∧ ∃ k, Deleted f.manager f'.manager k) ∨
    (e ≠ .add ∧ e.renames f = none ∧ ∃ current, Steady { f.manager with currentprofile := current } f'.manager ∧
      ∀ k, current = some k → k ∈ f.manager.agents) := by
  cases hrenames : e.renames f with
  | some x =>
    obtain ⟨who, text⟩ := x
    exact Or.inl ⟨who, text, rfl, renames_some hm hrenames h⟩
  | none =>
    refine Or.inr ?_
    by_cases hadd : e = .add
    · subst hadd
      cases h
      exact Or.inl ⟨rfl, rfl⟩
    refine Or.inr ?_
    by_cases hdelete : ∃ next, e = .delete next
    · obtain ⟨next, rfl⟩ := hdelete
      cases h
      rcases delete_cases f next hm with ⟨-, hsame⟩ | hdeleted
      · rw [hsame]
        exact Or.inr ⟨hadd, rfl, f.manager.currentprofile, Steady.refl _, hm.current⟩
      · exact Or.inl ⟨hadd, rfl, hdeleted⟩
    · exact Or.inr ⟨hadd, rfl, step_steady hm hrenames hadd (fun next heq => hdelete ⟨next, heq⟩) h⟩

/-- What happens to the profiles: an edit in the dialog, the opening of the dialog, or a profile
added by Discovery. -/
inductive Operation
  | edit (e : Edit)
  | opened (users : List String)
  | addClone (name address port : String) (support : Protocols) (clonefrom : String)

def operate (f : Form) : Operation → Option Form
  | .edit e => f.step e
  | .opened users => some (f.opened users)
  | .addClone name address port support clonefrom => some (f.addClone name address port support clonefrom)

/-- Nobody else has the name a profile is given; only Discovery looks for itself. -/
def KeepsDistinct (f : Form) : Operation → Prop
  | .edit .add => "newagent" ∉ f.manager.getAgentsList
  | .edit e => ∀ who text, e.renames f = some (who, text) → f.manager.Free who text
  | _ => True

theorem step_sound {f f' : Form} {e : Edit} (hm : f.manager.Sound) (h : f.step e = some f') :
    f'.manager.Sound := by
  rcases step_cases hm h with ⟨who, text, -, -, hrenamed⟩ | ⟨-, rfl⟩ | ⟨-, -, k, hdeleted⟩ |
    ⟨-, -, current, hsteady, hcurrent⟩
  · exact hrenamed.sound hm
  · exact add_sound f hm
  · exact hdeleted.sound hm
  · exact hsteady.sound ⟨hm.listed, hm.nodup, hcurrent⟩

theorem addClone_sound (f : Form) (name address port : String) (support : Protocols) (clonefrom : String)
    (hm : f.manager.Sound) : (f.addClone name address port support clonefrom).manager.Sound := by
  unfold addClone
  rcases addClone_grows f.manager name address port support clonefrom with hsame | ⟨-, hgrows, hcurrent⟩
  · rwa [hsame]
  · apply hgrows.sound hm
    intro k hk
    rw [hgrows.agents]
    exact List.mem_append_left _ (hm.current k (hcurrent.symm.trans hk))

theorem operate_sound {f f' : Form} {o : Operation} (hm : f.manager.Sound) (h : f.operate o = some f') :
    f'.manager.Sound := by
  cases o with
  | edit e => exact step_sound hm h
  | opened users =>
    cases h
    exact (opened_steady f users).sound hm
  | addClone name address port support clonefrom =>
    cases h
    exact addClone_sound f name address port support clonefrom hm

theorem nodup_grows_iff {m m' : AgentProfileManager} {name : String} (hm : m.Sound)
    (hnames : m.getAgentsList.Nodup) (h : Grows m m' name) :
    m'.getAgentsList.Nodup ↔ name ∉ m.getAgentsList := by
  rw [h.getAgentsList hm, List.nodup_append]
  simp only [hnames, List.nodup_singleton, true_and, List.mem_singleton, forall_eq]
  constructor
  · intro hne hmem
    exact hne name hmem rfl
  · rintro hno a ha rfl
    exact hno ha

theorem Deleted.nodup {m m' : AgentProfileManager} {k : ℕ} (h : Deleted m m' k)
    (hnames : m.getAgentsList.Nodup) : m'.getAgentsList.Nodup := by
  have hlist : m'.getAgentsList = (m.agents.erase k).map m.nameOf := by
    unfold AgentProfileManager.getAgentsList
    rw [h.agents]
    exact List.map_congr_left fun j _ => nameOf_congr h.names j
  rw [hlist]
  exact hnames.sublist (List.erase_sublist.map _)

theorem keepsDistinct_edit {f : Form} {e : Edit} (hadd : e ≠ .add) :
    f.KeepsDistinct (.edit e) ↔ ∀ who text, e.renames f = some (who, text) → f.manager.Free who text := by
  cases e <;> first | rfl | exact absurd rfl hadd

/-- An edit without a name of its own never makes two names equal. -/
theorem keepsDistinct_unnamed {f : Form} {e : Edit} (hadd : e ≠ .add) (hrenames : e.renames f = none) :
    f.KeepsDistinct (.edit e) := by
  rw [keepsDistinct_edit hadd, hrenames]
  intro who text heq
  cases heq

theorem step_distinct_iff {f f' : Form} {e : Edit} (hm : f.manager.Sound) (hnames : f.manager.getAgentsList.Nodup)
    (h : f.step e = some f') : f'.manager.getAgentsList.Nodup ↔ f.KeepsDistinct (.edit e) := by
  rcases step_cases hm h with ⟨who, text, hrenames, hwho, hrenamed⟩ | ⟨rfl, rfl⟩ | ⟨hadd, hrenames, k, hdeleted⟩ |
    ⟨hadd, hrenames, current, hsteady, -⟩
  · have hadd : e ≠ .add := by
      rintro rfl
      cases hrenames
    rw [keepsDistinct_edit hadd, nodup_rename_iff hm hnames hwho hrenamed.agents hrenamed.names, hrenames]
    constructor
    · intro hfree who' text' heq
      cases heq
      exact hfree
    · intro hall
      exact hall who text rfl
  · exact nodup_grows_iff hm hnames f.add_grows.1
  · exact iff_of_true (hdeleted.nodup hnames) (keepsDistinct_unnamed hadd hrenames)
  · refine iff_of_true ?_ (keepsDistinct_unnamed hadd hrenames)
    rw [hsteady.getAgentsList]
    exact hnames

theorem operate_distinct_iff {f f' : Form} {o : Operation} (hm : f.manager.Sound)
    (hnames : f.manager.getAgentsList.Nodup) (h : f.operate o = some f') :
    f'.manager.getAgentsList.Nodup ↔ f.KeepsDistinct o := by
  cases o with
  | edit e => exact step_distinct_iff hm hnames h
  | opened users =>
    cases h
    rw [(opened_steady f users).getAgentsList]
    exact iff_of_true hnames trivial
  | addClone name address port support clonefrom =>
    cases h
    refine iff_of_true ?_ trivial
    unfold addClone
    rcases addClone_grows f.manager name address port support clonefrom with hsame | ⟨hname, hgrows, -⟩
    · rwa [hsame]
    · apply (nodup_grows_iff hm hnames hgrows).mpr
      intro hmem
      obtain ⟨k, hk, hnamek⟩ := List.mem_map.mp hmem
      rw [getAgentProfile_eq_find hm] at hname
      exact absurd (decide_eq_true hnamek) (List.find?_eq_none.mp hname k hk)

/-- Main result: distinct names stay distinct, and a name picked in the list resolves to the profile
picked, exactly if no profile is ever given the name of another one. -/
theorem names_distinct_iff {f f' : Form} {os : List Operation} (hm : f.manager.Sound)
    (hnames : f.manager.getAgentsList.Nodup) (h : Runs.exec operate f os = some f') :
    Runs.Each operate KeepsDistinct f os ↔
      ∀ m ∈ Runs.trace operate id f os, m.manager.getAgentsList.Nodup ∧ m.manager.PicksResolve := by
  rw [Runs.each_iff_trace_of (I := fun f => f.manager.Sound) (P := fun f => f.manager.getAgentsList.Nodup)
    (fun _ _ _ => operate_sound) (fun _ _ _ => operate_distinct_iff) hm hnames h]
  constructor
  · intro hall m hmem
    obtain ⟨done, -, hdone⟩ := Runs.mem_trace_iff.mp hmem
    have hsound : m.manager.Sound := Runs.exec_invariant (P := fun f : Form => f.manager.Sound)
      (fun _ _ _ => operate_sound) hm hdone
    exact ⟨hall m hmem, picksResolve_of_nodup hsound (hall m hmem)⟩
  · intro hall m hmem
    exact (hall m hmem).1

/-- Two profiles, the first one selected. -/
def twoProfiles : Form where
  manager :=
    { profiles := [{ AgentProfile.new "router" with support := ⟨false, true, false⟩ },
        { AgentProfile.new "switch" with support := ⟨true, false, false⟩ }]
      agents := [0, 1], currentprofile := some 0, box := ⟨false, true, false⟩, messages := [], config := [] }
  spin := fun _ => 0
  secNames := []
  secName := none
  secLevel := some 0

theorem twoProfiles_sound : twoProfiles.manager.Sound := by
  constructor <;> decide

theorem names_distinct_iff_twoProfiles :
    Runs.Each operate KeepsDistinct twoProfiles [.edit (.profileName "gateway"), .edit .add] ↔
      ∀ m ∈ Runs.trace operate id twoProfiles [.edit (.profileName "gateway"), .edit .add],
        m.manager.getAgentsList.Nodup ∧ m.manager.PicksResolve :=
  names_distinct_iff twoProfiles_sound (by decide) rfl

/-- The first profile is renamed like the second one, which nothing finds any more. -/
theorem rename_hides_profile :
    ¬ ∀ (f : Form) (os : List Operation) (f' : Form), f.manager.Sound → f.manager.getAgentsList.Nodup →
      Runs.exec operate f os = some f' →
      ∀ m ∈ Runs.trace operate id f os, m.manager.getAgentsList.Nodup ∧ m.manager.PicksResolve := by
  intro h
  have hnodup := (h twoProfiles [.edit (.profileName "switch")] _ twoProfiles_sound (by decide) rfl _
    (List.mem_cons_of_mem _ (List.mem_singleton.mpr rfl))).1
  revert hnodup
  decide

end Form

end SnmpB.Profile
