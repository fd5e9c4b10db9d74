import Mathlib.Data.List.Nodup
import Mathlib.Tactic.Common

/-! # Items with owners

A view shows items, each of them owned by an object, and at most one item is
current. A manager selects the owner of the current item whenever the view turns
to another one. Destroying an object takes its items one by one, and the view
may turn to any other item each time, also to one that goes next.
-/
namespace SnmpB.OwnedItems

variable {ι κ σ : Type*} [DecidableEq κ]

structure Manager (ι κ σ : Type*) [DecidableEq κ] where
  owner : ι → κ
  /-- The items of an object, in the order in which they are destroyed. -/
  itemsOf : κ → List ι
  objects : σ → List κ
  current : σ → Option κ
  select : ι → σ → σ
  take : κ → σ → σ
  readjust : Option κ → σ → σ
  mem_itemsOf : ∀ item k, item ∈ itemsOf k ↔ owner item = k

structure View (ι σ : Type*) where
  items : List ι
  current : Option ι
  state : σ

namespace Manager

variable (M : Manager ι κ σ)

/-- The items of the objects that are searched belong to them, and the others are ignored. -/
structure Lawful : Prop where
  objects_select : ∀ item s, M.objects (M.select item s) = M.objects s
  current_select : ∀ item s, M.owner item ∈ M.objects s → M.current (M.select item s) = some (M.owner item)
  select_ignores : ∀ item s, M.owner item ∉ M.objects s → M.select item s = s
  objects_take : ∀ k s, M.objects (M.take k s) = (M.objects s).erase k
  objects_readjust : ∀ next s, M.objects (M.readjust next s) = M.objects s
  current_readjust : ∀ next s, M.current (M.readjust next s) = next.filter (· ∈ M.objects s)

/-- The items are those of the listed objects, and the current object owns the current item. -/
structure Owned (v : View ι σ) : Prop where
  nodup : (M.objects v.state).Nodup
  items : ∀ item, item ∈ v.items ↔ M.owner item ∈ M.objects v.state
  shown : ∀ item, v.current = some item → item ∈ v.items
  current : M.current v.state = v.current.map M.owner

variable {M} {v : View ι σ}

theorem Owned.current_cases (h : M.Owned v) : M.current v.state = none ∨
    ∃ k item, M.current v.state = some k ∧ k ∈ M.objects v.state ∧ v.current = some item ∧ M.owner item = k := by
  cases hitem : v.current with
  | none =>
    left
    rw [h.current, hitem]
    rfl
  | some item =>
    right
    refine ⟨M.owner item, item, ?_, (h.items item).mp (h.shown item hitem), rfl, rfl⟩
    rw [h.current, hitem]
    rfl

theorem Owned.create (h : M.Owned v) {k : κ} {item : ι} {s : σ} (hitem : M.owner item = k)
    (hnew : k ∉ M.objects v.state) (hobjects : M.objects s = M.objects v.state ++ [k])
    (hcurrent : M.current s = some k) : M.Owned ⟨v.items ++ M.itemsOf k, some item, s⟩ where
  nodup := by
    rw [hobjects, ← List.concat_eq_append]
    exact h.nodup.concat hnew
  items item' := by
    rw [List.mem_append, h.items, M.mem_itemsOf, hobjects, List.mem_append, List.mem_singleton]
  shown item' hitem' := by
    cases hitem'
    exact List.mem_append_right _ ((M.mem_itemsOf item k).mpr hitem)
  current := by
    rw [hcurrent, Option.map_some, hitem]

theorem Owned.append (h : M.Owned v) {k : κ} {s : σ} (hnew : k ∉ M.objects v.state)
    (hobjects : M.objects s = M.objects v.state ++ [k]) (hcurrent : M.current s = M.current v.state) :
    M.Owned ⟨v.items ++ M.itemsOf k, v.current, s⟩ where
  nodup := by
    rw [hobjects, ← List.concat_eq_append]
    exact h.nodup.concat hnew
  items item := by
    rw [List.mem_append, h.items, M.mem_itemsOf, hobjects, List.mem_append, List.mem_singleton]
  shown item hitem := List.mem_append_left _ (h.shown item hitem)
  current := hcurrent.trans h.current

theorem Owned.keep (h : M.Owned v) {s : σ} (hobjects : M.objects s = M.objects v.state)
    (hcurrent : M.current s = M.current v.state) : M.Owned { v with state := s } where
  nodup := hobjects ▸ h.nodup
  items item := by
    rw [hobjects]
    exact h.items item
  shown := h.shown
  current := hcurrent.trans h.current

section Turning
variable [DecidableEq ι]

variable (M) in
def turn (v : View ι σ) (item : Option ι) : View ι σ :=
  if v.current = item then v
  else { v with current := item, state := item.elim v.state fun item => M.select item v.state }

variable (M) in
/-- An item is destroyed; if it was the current one, the view turns to one that stays, or to none. -/
def destroy (v : View ι σ) (item : ι) (next : Option ι) : View ι σ :=
  let rest := v.items.filter (· ≠ item)
  let turned := if v.current = some item then M.turn v (next.filter (· ∈ rest)) else v
  { turned with items := rest }

variable (M) in
def destroyAll (v : View ι σ) (items : List ι) (next : ι → Option ι) : View ι σ :=
  items.foldl (fun v item => M.destroy v item (next item)) v

variable (M) in
/-- The current object is taken from the list, its items are destroyed, and the current object is the
owner of the item that is current then, if it is listed. -/
def delete (v : View ι σ) (next : ι → Option ι) : View ι σ :=
  match M.current v.state with
  | none => v
  | some k =>
    if k ∈ M.objects v.state then
      let v := M.destroyAll { v with state := M.take k v.state } (M.itemsOf k) next
      { v with state := M.readjust (v.current.map M.owner) v.state }
    else v

theorem Owned.turn (hM : M.Lawful) (h : M.Owned v) {item : ι} (hitem : item ∈ v.items) :
    M.Owned (M.turn v (some item)) := by
  unfold Manager.turn
  split
  · exact h
  · have howner := (h.items item).mp hitem
    refine ⟨?_, ?_, ?_, hM.current_select item v.state howner⟩
    · simp only [Option.elim_some, hM.objects_select]
      exact h.nodup
    · simp only [Option.elim_some, hM.objects_select]
      exact h.items
    · rintro item' hitem'
      cases hitem'
      exact hitem

/-! ## Destroying an object -/

/-- What the view has made of the state while items of an object are destroyed: nothing, and the view
shows none or another of them, or it has turned to an item of another object. -/
structure Turned (M : Manager ι κ σ) (k : κ) (v v' : View ι σ) : Prop where
  shown : ∀ item, v'.current = some item → item ∈ v'.items
  cases : (v'.state = v.state ∧ ∀ item, v'.current = some item → M.owner item = k) ∨
    ∃ item, v'.current = some item ∧ M.owner item ≠ k ∧ v'.state = M.select item v.state

theorem turned_destroy (hM : M.Lawful) {k : κ} {v v' : View ι σ} (h : Turned M k v v')
    (hk : k ∉ M.objects v.state) {item : ι} (hitem : M.owner item = k) (next : Option ι) :
    Turned M k v (M.destroy v' item next) := by
  unfold destroy
  by_cases hcurrent : v'.current = some item
  · have hstate : v'.state = v.state := by
      rcases h.cases with ⟨hstate, -⟩ | ⟨item', hitem', howner, -⟩
      · exact hstate
      · obtain rfl : item = item' := Option.some.inj (hcurrent.symm.trans hitem')
        exact absurd hitem howner
    simp only [if_pos hcurrent]
    cases hnext : next.filter (· ∈ v'.items.filter (· ≠ item)) with
    | none =>
      rw [turn, if_neg (by rw [hcurrent]; simp)]
      exact ⟨fun _ h => (nomatch h), Or.inl ⟨hstate, fun _ h => (nomatch h)⟩⟩
    | some item' =>
      have hmem : item' ∈ v'.items.filter (· ≠ item) := of_decide_eq_true (Option.filter_eq_some_iff.mp hnext).2
      have hne : item' ≠ item := of_decide_eq_true (List.mem_filter.mp hmem).2
      rw [turn, if_neg (by rw [hcurrent]; simpa using Ne.symm hne)]
      refine ⟨fun _ h => by cases h; exact hmem, ?_⟩
      by_cases howner : M.owner item' = k
      · left
        refine ⟨?_, fun _ h => by cases h; exact howner⟩
        rw [Option.elim_some, hstate]
        exact hM.select_ignores item' v.state (howner ▸ hk)
      · right
        refine ⟨item', rfl, howner, ?_⟩
        rw [Option.elim_some, hstate]
  · simp only [if_neg hcurrent]
    refine ⟨?_, h.cases⟩
    intro item' hitem'
    apply List.mem_filter.mpr
    refine ⟨h.shown item' hitem', ?_⟩
    simp only [decide_eq_true_eq]
    rintro rfl
    exact hcurrent hitem'

theorem turned_destroyAll (hM : M.Lawful) {k : κ} {v v' : View ι σ} (h : Turned M k v v')
    (hk : k ∉ M.objects v.state) {items : List ι} (hitems : ∀ item ∈ items, M.owner item = k)
    (next : ι → Option ι) : Turned M k v (M.destroyAll v' items next) := by
  induction items generalizing v' with
  | nil => exact h
  | cons item items ih =>
    exact ih (turned_destroy hM h hk (hitems item List.mem_cons_self) (next item))
      fun item' hitem' => hitems item' (List.mem_cons_of_mem item hitem')

theorem destroy_items (v : View ι σ) (item : ι) (next : Option ι) :
    (M.destroy v item next).items = v.items.filter (· ≠ item) := rfl

theorem mem_destroyAll {items : List ι} {next : ι → Option ι} {item : ι} :
    item ∈ (M.destroyAll v items next).items ↔ item ∈ v.items ∧ item ∉ items := by
  induction items generalizing v with
  | nil => simp [destroyAll]
  | cons item' items ih =>
    rw [destroyAll, List.foldl_cons]
    refine (ih (v := M.destroy v item' (next item'))).trans ?_
    rw [destroy_items, List.mem_filter, List.mem_cons, not_or, decide_eq_true_eq, and_assoc]

/-- Deleting the current object: the state is that of a single turn, to the item that is current at the
end, and no item of the object is left. -/
theorem Owned.delete_eq (hM : M.Lawful) (h : M.Owned v) {k : κ} (hk : M.current v.state = some k)
    (next : ι → Option ι) :
    (∀ item, item ∈ (M.delete v next).items ↔ item ∈ v.items ∧ M.owner item ≠ k) ∧
    (∀ item, (M.delete v next).current = some item → item ∈ (M.delete v next).items) ∧
    (M.delete v next).state = M.readjust ((M.delete v next).current.map M.owner)
      ((M.delete v next).current.elim (M.take k v.state) fun item => M.select item (M.take k v.state)) := by
  obtain ⟨item, hitem, howner⟩ := Option.map_eq_some_iff.mp (h.current.symm.trans hk)
  have hlisted : k ∈ M.objects v.state := howner ▸ (h.items item).mp (h.shown item hitem)
  let taken : View ι σ := { v with state := M.take k v.state }
  have hgone : k ∉ M.objects taken.state := by
    rw [hM.objects_take]
    exact h.nodup.not_mem_erase
  have hstart : Turned M k taken taken := by
    refine ⟨h.shown, Or.inl ⟨rfl, ?_⟩⟩
    intro item' hitem'
    rw [← howner]
    exact congrArg M.owner (Option.some.inj (hitem'.symm.trans hitem))
  have hturned : Turned M k taken (M.destroyAll taken (M.itemsOf k) next) :=
    turned_destroyAll hM hstart hgone (fun item hitem => (M.mem_itemsOf item k).mp hitem) next
  have hdelete : M.delete v next = { M.destroyAll taken (M.itemsOf k) next with
      state := M.readjust ((M.destroyAll taken (M.itemsOf k) next).current.map M.owner)
        (M.destroyAll taken (M.itemsOf k) next).state } := by
    rw [delete, hk]
    simp only [if_pos hlisted]
    rfl
  have hitems : ∀ item, item ∈ (M.destroyAll taken (M.itemsOf k) next).items ↔
      item ∈ v.items ∧ M.owner item ≠ k := by
    intro item'
    rw [mem_destroyAll, M.mem_itemsOf]
  rw [hdelete]
  refine ⟨hitems, hturned.shown, ?_⟩
  apply congrArg (M.readjust _)
  rcases hturned.cases with ⟨hstate, hown⟩ | ⟨item', hitem', -, hstate⟩
  · have hnone : (M.destroyAll taken (M.itemsOf k) next).current = none := by
      cases hlast : (M.destroyAll taken (M.itemsOf k) next).current with
      | none => rfl
      | some item' => exact absurd (hown item' hlast) ((hitems item').mp (hturned.shown item' hlast)).2
    simp only [hnone]
    exact hstate
  · simp only [hitem']
    exact hstate

theorem Owned.delete (hM : M.Lawful) (h : M.Owned v) (next : ι → Option ι) : M.Owned (M.delete v next) := by
  cases hk : M.current v.state with
  | none =>
    rw [Manager.delete, hk]
    exact h
  | some k =>
    obtain ⟨hitems, hshown, hstate⟩ := h.delete_eq hM hk next
    have hobjects : M.objects (M.delete v next).state = (M.objects v.state).erase k := by
      rw [hstate, hM.objects_readjust, ← hM.objects_take]
      cases (M.delete v next).current with
      | none => rfl
      | some item => rw [Option.elim_some, hM.objects_select]
    have howned : ∀ item, item ∈ (M.delete v next).items ↔ M.owner item ∈ M.objects (M.delete v next).state := by
      intro item
      rw [hitems, h.items, hobjects, h.nodup.mem_erase_iff, and_comm]
    refine ⟨hobjects ▸ h.nodup.erase k, howned, hshown, ?_⟩
    have hlisted := hobjects
    rw [hstate] at hlisted ⊢
    rw [hM.objects_readjust] at hlisted
    rw [hM.current_readjust, hlisted, ← hobjects]
    cases hlast : (M.delete v next).current with
    | none => rfl
    | some item =>
      have hmem := (howned item).mp (hshown item hlast)
      rw [Option.map_some, Option.filter_some, if_pos (decide_eq_true hmem)]

end Turning

end Manager

end SnmpB.OwnedItems
