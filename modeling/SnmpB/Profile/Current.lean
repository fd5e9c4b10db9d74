import SnmpB.Library.OwnedItems
import SnmpB.Profile.Stored
import SnmpB.Profile.UsmForm

/-! # The current profile and the current item

The trees of both profile dialogs have items that belong to the profiles, and
the handler of the current item selects its profile. A profile that is deleted
takes its items with it, one after the other, while it is in the list no more.
-/
namespace SnmpB.Profile
open OwnedItems

/-! ## The agent profiles -/

/-- The items of a profile are destroyed in the order of `~AgentProfile`. -/
def agentItems : Manager Item ℕ Form where
  owner := Item.profile
  itemsOf k := [⟨k, .v1v2c⟩, ⟨k, .bulk⟩, ⟨k, .v3⟩, ⟨k, .general⟩]
  objects f := f.manager.agents
  current f := f.manager.currentprofile
  select item f := f.selectedAgentProfile item
  take k f := f.takeAt k
  readjust next f :=
    { f with manager := { f.manager with currentprofile := next.filter (· ∈ f.manager.agents) } }
  mem_itemsOf := by
    rintro ⟨profile, page⟩ k
    cases page <;> simp

abbrev Tree := View Item Form

/-- An edit in the fields or in the text of an item; the tree stays as it is. -/
def Form.Edit.isField : Form.Edit → Bool
  | .select _ | .add | .delete _ => false
  | _ => true

namespace Tree

inductive Event
  | select (item : Item)
  | add
  | delete (next : Item → Option Item)
  | edit (e : Form.Edit)
  | opened (users : List String)
  | addClone (name address port : String) (support : Protocols) (clonefrom : String)

/-- The items that profiles bring when they are put into the list. -/
def newItems (f f' : Form) : List Item :=
  (f'.manager.agents.drop f.manager.agents.length).flatMap agentItems.itemsOf

def step (t : Tree) : Event → Option Tree
  | .select item => if item ∈ t.items then some (agentItems.turn t (some item)) else none
  | .add =>
    let who := t.state.manager.profiles.length
    some ⟨t.items ++ agentItems.itemsOf who, some ⟨who, .general⟩, t.state.add⟩
  | .delete next => some (agentItems.delete t next)
  | .edit e => if e.isField then (t.state.step e).map fun f => { t with state := f } else none
  | .opened users => some { t with state := t.state.opened users }
  | .addClone name address port support clonefrom =>
    let f := t.state.addClone name address port support clonefrom
    some { t with items := t.items ++ newItems t.state f, state := f }

/-- The constructor of the manager: the file is read, and its first profile is selected. -/
def load {V : Type} (c : KeyStore.Codecs V) (f : Form) (s : KeyStore.Store V) : Tree :=
  let f := { f with manager := f.manager.readSettings c s }
  agentItems.turn ⟨f.manager.agents.flatMap agentItems.itemsOf, none, f⟩
    (f.manager.agents.head?.map fun who => ⟨who, .general⟩)

end Tree

theorem agentItems_lawful : agentItems.Lawful where
  objects_select item f := by
    obtain ⟨current, hsteady, -⟩ := f.selectedAgentProfile_steady item
    exact hsteady.agents
  current_select item f hmem := by
    change (f.selectedAgentProfile item).manager.currentprofile = _
    rw [Form.selectedAgentProfile, if_pos (show item.profile ∈ f.manager.agents from hmem)]
    exact (Form.selectAgentProfile_steady _ item).current
  select_ignores item f hno := if_neg hno
  objects_take _ _ := rfl
  objects_readjust _ _ := rfl
  current_readjust _ _ := rfl

namespace Form
open AgentProfileManager

/-- A field writes into the current profile, and never into the list or the pointer. -/
theorem field_frame {f f' : Form} {e : Edit} (he : e.isField = true) (h : f.step e = some f') :
    f'.manager.agents = f.manager.agents ∧ f'.manager.currentprofile = f.manager.currentprofile := by
  have hsteady : Steady f.manager f'.manager → f'.manager.agents = f.manager.agents ∧
      f'.manager.currentprofile = f.manager.currentprofile := fun hsteady => ⟨hsteady.agents, hsteady.current⟩
  cases e with
  | line field text =>
    cases h
    exact hsteady (write_steady f (lineField_steady field) text)
  | profileName text =>
    cases h
    unfold setProfileName
    split
    · exact ⟨rfl, rfl⟩
    · rename_i k hk
      simp only [write, hk, agentProfileNameChange]
      split <;> exact ⟨rfl, hk.symm ▸ rfl⟩
  | spin field v =>
    obtain ⟨-, rfl⟩ := Option.ite_some_none_eq_some.mp h
    exact hsteady (valueChanged_steady f field v)
  | secName index =>
    obtain ⟨-, rfl⟩ := Option.ite_some_none_eq_some.mp h
    exact hsteady (secNameChanged_steady f (some index))
  | secLevel index =>
    obtain ⟨-, rfl⟩ := Option.ite_some_none_eq_some.mp h
    exact hsteady (secLevelChanged_steady f (some index))
  | protocol i =>
    cases h
    exact hsteady ((Steady.refl _).click i)
  | itemName who text =>
    cases h
    unfold agentProfileNameChange
    split <;> exact ⟨rfl, rfl⟩
  | select item => cases he
  | add => cases he
  | delete next => cases he

end Form

namespace Tree

/-- The profiles in use are there, and the current one owns the current item. -/
structure Sound (t : Tree) : Prop where
  manager : t.state.manager.Sound
  owned : agentItems.Owned t

variable {t t' : Tree}

theorem Sound.new_profile (h : t.Sound) : t.state.manager.profiles.length ∉ agentItems.objects t.state :=
  fun hmem => Nat.lt_irrefl _ (h.manager.listed _ hmem)

/-- However the tree turns while the items go, deleting does what a single turn to the last item does. -/
theorem Sound.delete_state (h : t.Sound) (next : Item → Option Item) :
    (agentItems.delete t next).state = t.state.delete (agentItems.delete t next).current := by
  cases hk : t.state.manager.currentprofile with
  | none =>
    rw [Manager.delete, show agentItems.current t.state = none from hk, Form.delete, hk]
  | some k =>
    obtain ⟨-, -, hstate⟩ := h.owned.delete_eq agentItems_lawful (k := k) hk next
    rw [hstate, Form.delete, hk]
    simp only [if_pos (h.manager.current k hk)]
    cases (agentItems.delete t next).current <;> rfl

theorem Sound.turn (h : t.Sound) {item : Item} (hitem : item ∈ t.items) :
    Sound (agentItems.turn t (some item)) := by
  refine ⟨?_, h.owned.turn agentItems_lawful hitem⟩
  unfold Manager.turn
  split
  · exact h.manager
  · exact Form.step_sound (e := .select item) h.manager rfl

theorem step_sound {e : Event} (h : t.Sound) (hstep : t.step e = some t') : Sound t' := by
  cases e with
  | select item =>
    obtain ⟨hitem, rfl⟩ := Option.ite_some_none_eq_some.mp hstep
    exact h.turn hitem
  | add =>
    cases hstep
    obtain ⟨hgrows, hcurrent⟩ := t.state.add_grows
    exact ⟨Form.add_sound t.state h.manager, h.owned.create rfl h.new_profile hgrows.agents hcurrent⟩
  | delete next =>
    cases hstep
    refine ⟨?_, h.owned.delete agentItems_lawful next⟩
    rw [h.delete_state]
    exact Form.step_sound (e := .delete _) h.manager rfl
  | edit e =>
    obtain ⟨he, hedit⟩ := Option.ite_none_right_eq_some.mp hstep
    obtain ⟨f, hf, rfl⟩ := Option.map_eq_some_iff.mp hedit
    obtain ⟨hagents, hcurrent⟩ := Form.field_frame he hf
    exact ⟨Form.step_sound h.manager hf, h.owned.keep hagents hcurrent⟩
  | opened users =>
    cases hstep
    have hsteady := t.state.opened_steady users
    exact ⟨hsteady.sound h.manager, h.owned.keep hsteady.agents hsteady.current⟩
  | addClone name address port support clonefrom =>
    cases hstep
    refine ⟨Form.addClone_sound t.state name address port support clonefrom h.manager, ?_⟩
    rcases AgentProfileManager.addClone_grows t.state.manager name address port support clonefrom with
      hsame | ⟨-, hgrows, hcurrent⟩
    · have hitems : newItems t.state (t.state.addClone name address port support clonefrom) = [] := by
        simp [newItems, Form.addClone, hsame]
      rw [hitems, List.append_nil]
      exact h.owned.keep (congrArg AgentProfileManager.agents hsame)
        (congrArg AgentProfileManager.currentprofile hsame)
    · have hitems : newItems t.state (t.state.addClone name address port support clonefrom) =
          agentItems.itemsOf t.state.manager.profiles.length := by
        simp [newItems, Form.addClone, hgrows.agents]
      rw [hitems]
      exact h.owned.append h.new_profile hgrows.agents hcurrent

theorem load_sound {V : Type} (c : KeyStore.Codecs V) {f : Form} (hf : f.manager.Blank) (s : KeyStore.Store V) :
    Sound (load c f s) := by
  have hread := AgentProfileManager.readSettings_sound c hf s
  have hcurrent : (f.manager.readSettings c s).currentprofile = none :=
    (AgentProfileManager.readAgents_spec c hf.current _).2.2
  unfold load
  simp only
  generalize f.manager.readSettings c s = m at hread hcurrent
  have hstart : Sound ⟨m.agents.flatMap agentItems.itemsOf, none, { f with manager := m }⟩ := by
    refine ⟨hread, hread.nodup, ?_, fun _ h => (nomatch h), hcurrent⟩
    intro item
    rw [List.mem_flatMap]
    constructor
    · rintro ⟨k, hk, hitem⟩
      rw [(agentItems.mem_itemsOf item k).mp hitem]
      exact hk
    · intro hitem
      exact ⟨_, hitem, (agentItems.mem_itemsOf item _).mpr rfl⟩
  cases hhead : m.agents.head? with
  | none =>
    rw [Option.map_none, Manager.turn, if_pos rfl]
    exact hstart
  | some who =>
    apply hstart.turn
    exact (hstart.owned.items ⟨who, .general⟩).mpr (List.mem_of_head? hhead)

end Tree

/-! ## The USM profiles -/

/-- A USM profile has one item, named by its number. -/
def userItems : Manager ℕ ℕ USMProfileManager where
  owner := id
  itemsOf k := [k]
  objects := USMProfileManager.users
  current := USMProfileManager.currentprofile
  select who m := m.selectedUSMProfile who
  take k m := m.takeAt k
  readjust next m := m.readjust next
  mem_itemsOf _ _ := List.mem_singleton

namespace USMProfileManager

/-- Everything but a write into the current profile is as before. -/
structure Framed (m m' : USMProfileManager) : Prop where
  users : m'.users = m.users
  current : m'.currentprofile = m.currentprofile
  length : m'.profiles.length = m.profiles.length

theorem Framed.refl (m : USMProfileManager) : Framed m m := ⟨rfl, rfl, rfl⟩

theorem Framed.trans {m m' m'' : USMProfileManager} (h : Framed m m') (h' : Framed m' m'') : Framed m m'' :=
  ⟨h'.users.trans h.users, h'.current.trans h.current, h'.length.trans h.length⟩

theorem write_framed {β : Type} (m : USMProfileManager) (l : Lens USMProfile β) (v : β) : Framed m (m.write l v) := by
  unfold write
  split
  · exact Framed.refl m
  · exact ⟨rfl, rfl, List.length_modify ..⟩

theorem setCurrentIndex_framed (m : USMProfileManager) (service : Service) (prot : ℤ) :
    Framed m (m.setCurrentIndex service prot) := by
  unfold setCurrentIndex
  simp only
  split
  · exact Framed.refl m
  · have hwrite := write_framed { m with box := Function.update m.box service (Widget.comboIndex 7 prot) }
      (USMProfile.protoLens service) (Widget.comboValue (Widget.comboIndex 7 prot))
    exact ⟨hwrite.users, hwrite.current, hwrite.length⟩

theorem selectUSMProfile_framed (m : USMProfileManager) (who : ℕ) : Framed m (m.selectUSMProfile who) :=
  (setCurrentIndex_framed m .auth _).trans (setCurrentIndex_framed _ .priv _)

/-- A selection changes the current profile only, to one in use. -/
theorem selectedUSMProfile_framed (m : USMProfileManager) (who : ℕ) :
    (who ∈ m.users ∧ Framed { m with currentprofile := some who } (m.selectedUSMProfile who)) ∨
      (who ∉ m.users ∧ m.selectedUSMProfile who = m) := by
  unfold selectedUSMProfile
  by_cases hmem : who ∈ m.users
  · rw [if_pos hmem]
    exact Or.inl ⟨hmem, selectUSMProfile_framed _ who⟩
  · rw [if_neg hmem]
    exact Or.inr ⟨hmem, rfl⟩

def Edit.isField : Edit → Bool
  | .select _ | .add | .delete _ => false
  | _ => true

theorem field_framed {m m' : USMProfileManager} {e : Edit} (he : e.isField = true) (h : m.step e = some m') :
    Framed m m' := by
  have hrename : ∀ (m : USMProfileManager) (who : ℕ) (text : String), Framed m (m.uSMSecNameChange who text) := by
    intro m who text
    unfold uSMSecNameChange
    split
    · exact ⟨rfl, rfl, List.length_modify ..⟩
    · exact Framed.refl m
  cases e with
  | secName text =>
    cases h
    unfold setSecName
    split
    · exact Framed.refl m
    · exact (write_framed m _ text).trans (hrename _ _ text)
  | pass service text =>
    cases h
    exact write_framed m _ text
  | proto service index =>
    obtain ⟨-, rfl⟩ := Option.ite_some_none_eq_some.mp h
    have hwrite := write_framed { m with box := Function.update m.box service (some index) }
      (USMProfile.protoLens service) (Widget.comboValue (some index))
    exact ⟨hwrite.users, hwrite.current, hwrite.length⟩
  | itemName who text =>
    cases h
    exact hrename m who text
  | select who => cases he
  | add => cases he
  | delete next => cases he

theorem add_spec (m : USMProfileManager) : m.add.users = m.users ++ [m.profiles.length] ∧
    m.add.currentprofile = some m.profiles.length ∧ m.add.profiles.length = m.profiles.length + 1 := by
  let grown : USMProfileManager := { m with
    profiles := m.profiles ++ [USMProfile.new]
    users := m.users ++ [m.profiles.length] }
  have hmem : m.profiles.length ∈ grown.users := List.mem_append_right _ (List.mem_singleton.mpr rfl)
  obtain ⟨-, hframed⟩ := (grown.selectedUSMProfile_framed m.profiles.length).resolve_right fun hno => hno.1 hmem
  exact ⟨hframed.users, hframed.current, hframed.length.trans (List.length_append ..)⟩

/-- The profiles in use are there. -/
def Listed (m : USMProfileManager) : Prop := ∀ k ∈ m.users, k < m.profiles.length

theorem Listed.selectedUSMProfile {m : USMProfileManager} (h : m.Listed) (who : ℕ) :
    (m.selectedUSMProfile who).Listed := by
  rcases m.selectedUSMProfile_framed who with ⟨-, hframed⟩ | ⟨-, hsame⟩
  · rw [Listed, hframed.users, hframed.length]
    exact h
  · rw [hsame]
    exact h

theorem Listed.delete {m : USMProfileManager} (h : m.Listed) (next : Option ℕ) : (m.delete next).Listed := by
  have htaken : ∀ k, (m.takeAt k).Listed := fun k j hj => h j (List.mem_of_mem_erase hj)
  unfold USMProfileManager.delete
  split
  · exact h
  · rename_i k hk
    split
    · cases next with
      | none => exact htaken k
      | some who => exact (htaken k).selectedUSMProfile who
    · exact h

end USMProfileManager

theorem userItems_lawful : userItems.Lawful where
  objects_select who m := by
    rcases m.selectedUSMProfile_framed who with ⟨-, hframed⟩ | ⟨-, hsame⟩
    · exact hframed.users
    · exact congrArg USMProfileManager.users hsame
  current_select who m hmem := by
    rcases m.selectedUSMProfile_framed who with ⟨-, hframed⟩ | ⟨hno, -⟩
    · exact hframed.current
    · exact absurd hmem hno
  select_ignores who m hno := if_neg hno
  objects_take _ _ := rfl
  objects_readjust _ _ := rfl
  current_readjust _ _ := rfl

abbrev UserTree := View ℕ USMProfileManager

namespace UserTree

inductive Event
  | select (who : ℕ)
  | add
  | delete (next : ℕ → Option ℕ)
  | edit (e : USMProfileManager.Edit)

def step (t : UserTree) : Event → Option UserTree
  | .select who => if who ∈ t.items then some (userItems.turn t (some who)) else none
  | .add =>
    let who := t.state.profiles.length
    some ⟨t.items ++ userItems.itemsOf who, some who, t.state.add⟩
  | .delete next => some (userItems.delete t next)
  | .edit e => if e.isField then (t.state.step e).map fun m => { t with state := m } else none

/-- The constructor of the manager, with the profiles of the user table and the boxes of the form. -/
def load (profiles : List USMProfile) (box : Service → Option ℕ) : UserTree :=
  let users := List.range profiles.length
  userItems.turn ⟨users.flatMap userItems.itemsOf, none, ⟨profiles, users, none, box⟩⟩ users.head?

structure Sound (t : UserTree) : Prop where
  listed : t.state.Listed
  owned : userItems.Owned t

variable {t t' : UserTree}

theorem Sound.delete_state (h : t.Sound) (next : ℕ → Option ℕ) :
    (userItems.delete t next).state = t.state.delete (userItems.delete t next).current := by
  cases hk : t.state.currentprofile with
  | none =>
    rw [Manager.delete, show userItems.current t.state = none from hk, USMProfileManager.delete, hk]
  | some k =>
    obtain ⟨-, -, hstate⟩ := h.owned.delete_eq userItems_lawful (k := k) hk next
    obtain ⟨who, hwho, howner⟩ := Option.map_eq_some_iff.mp (h.owned.current.symm.trans hk)
    have hmem : k ∈ t.state.users := howner ▸ (h.owned.items who).mp (h.owned.shown who hwho)
    rw [hstate, USMProfileManager.delete, hk]
    simp only [if_pos hmem]
    cases (userItems.delete t next).current <;> rfl

theorem Sound.turn (h : t.Sound) {who : ℕ} (hwho : who ∈ t.items) : Sound (userItems.turn t (some who)) := by
  refine ⟨?_, h.owned.turn userItems_lawful hwho⟩
  unfold Manager.turn
  split
  · exact h.listed
  · exact h.listed.selectedUSMProfile who

theorem step_sound {e : Event} (h : t.Sound) (hstep : t.step e = some t') : Sound t' := by
  cases e with
  | select who =>
    obtain ⟨hwho, rfl⟩ := Option.ite_some_none_eq_some.mp hstep
    exact h.turn hwho
  | add =>
    cases hstep
    have hnew : t.state.profiles.length ∉ userItems.objects t.state := fun hmem =>
      Nat.lt_irrefl _ (h.listed _ hmem)
    obtain ⟨husers, hcurrent, hlength⟩ := t.state.add_spec
    refine ⟨?_, h.owned.create rfl hnew husers hcurrent⟩
    intro k hk
    rw [husers] at hk
    rw [hlength]
    rcases List.mem_append.mp hk with hk | hk
    · exact Nat.lt_succ_of_lt (h.listed k hk)
    · rw [List.mem_singleton.mp hk]
      exact Nat.lt_succ_self _
  | delete next =>
    cases hstep
    refine ⟨?_, h.owned.delete userItems_lawful next⟩
    rw [h.delete_state]
    exact h.listed.delete _
  | edit e =>
    obtain ⟨he, hedit⟩ := Option.ite_none_right_eq_some.mp hstep
    obtain ⟨m, hm, rfl⟩ := Option.map_eq_some_iff.mp hedit
    have hframed := USMProfileManager.field_framed he hm
    refine ⟨?_, h.owned.keep hframed.users hframed.current⟩
    rw [USMProfileManager.Listed, hframed.users, hframed.length]
    exact h.listed

theorem load_sound (profiles : List USMProfile) (box : Service → Option ℕ) : Sound (load profiles box) := by
  have hstart : Sound ⟨(List.range profiles.length).flatMap userItems.itemsOf, none,
      ⟨profiles, List.range profiles.length, none, box⟩⟩ := by
    refine ⟨fun k hk => List.mem_range.mp hk, List.nodup_range, ?_, fun _ h => (nomatch h), rfl⟩
    intro who
    simp [userItems]
  unfold load
  simp only
  cases hhead : (List.range profiles.length).head? with
  | none =>
    rw [Manager.turn, if_pos rfl]
    exact hstart
  | some who =>
    apply hstart.turn
    exact (hstart.owned.items who).mpr (List.mem_of_head? hhead)

end UserTree

/-- Main result: after any run of either dialog the current profile is none, or one in the list that
owns the current item of the tree. -/
theorem current_profile_owns_item {V : Type} (c : KeyStore.Codecs V) {f : Form} {file : KeyStore.Store V}
    {es : List Tree.Event} {t : Tree} {profiles : List USMProfile} {box : Service → Option ℕ}
    {us : List UserTree.Event} {u : UserTree} (hf : f.manager.Blank)
    (ht : Runs.exec Tree.step (Tree.load c f file) es = some t)
    (hu : Runs.exec UserTree.step (UserTree.load profiles box) us = some u) :
    (t.state.manager.currentprofile = none ∨ ∃ k item, t.state.manager.currentprofile = some k ∧
        k ∈ t.state.manager.agents ∧ t.current = some item ∧ item.profile = k) ∧
      (u.state.currentprofile = none ∨ ∃ k who, u.state.currentprofile = some k ∧
        k ∈ u.state.users ∧ u.current = some who ∧ who = k) := by
  have htree : Tree.Sound t := Runs.exec_invariant (fun _ _ _ => Tree.step_sound) (Tree.load_sound c hf file) ht
  have husers : UserTree.Sound u := Runs.exec_invariant (fun _ _ _ => UserTree.step_sound)
    (UserTree.load_sound profiles box) hu
  exact ⟨htree.owned.current_cases, husers.owned.current_cases⟩

/-- The second of two profiles is deleted while its item of the bulk page is current: the tree turns to
the next page, then to the last one, then to the general item, and at last to the other profile. -/
def turnsDown : Item → Option Item
  | ⟨1, .bulk⟩ => some ⟨1, .v3⟩
  | ⟨1, .v3⟩ => some ⟨1, .general⟩
  | ⟨1, .general⟩ => some ⟨0, .general⟩
  | _ => none

theorem current_profile_owns_item_deleted :
    ∃ t u, Runs.exec Tree.step (Tree.load KeyStore.Variant.codecs Form.blankForm KeyStore.empty)
        [.add, .add, .select ⟨1, .bulk⟩, .delete turnsDown] = some t ∧
      Runs.exec UserTree.step (UserTree.load [] fun _ => none) [.add, .add, .delete fun _ => some 0] = some u ∧
      (t.state.manager.currentprofile = none ∨ ∃ k item, t.state.manager.currentprofile = some k ∧
          k ∈ t.state.manager.agents ∧ t.current = some item ∧ item.profile = k) ∧
        (u.state.currentprofile = none ∨ ∃ k who, u.state.currentprofile = some k ∧
          k ∈ u.state.users ∧ u.current = some who ∧ who = k) :=
  ⟨_, _, rfl, rfl, @current_profile_owns_item _ KeyStore.Variant.codecs Form.blankForm KeyStore.empty
    [.add, .add, .select ⟨1, .bulk⟩, .delete turnsDown] _ [] (fun _ => none)
    [.add, .add, .delete fun _ => some 0] _ Form.blankForm_blank rfl rfl⟩

end SnmpB.Profile
