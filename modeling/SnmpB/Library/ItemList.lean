import Mathlib.Data.List.Induction
import Mathlib.Data.List.InsertIdx
import Mathlib.Data.List.Nodup
import Mathlib.Data.List.Sort
import SnmpB.Library.Widget

/-! # Lists of items

The items of a list are told apart by their identity. Several of them can be selected,
one after the other, and one can be current.
-/
namespace SnmpB.Widget

structure ItemList (ι : Type*) where
  items : List ι
  /-- In the order in which they were selected. -/
  selected : List ι
  current : Option ι
  deriving DecidableEq

namespace ItemList
variable {ι : Type*} [DecidableEq ι]

/-- -1 for a null pointer and for what is not in the list. -/
def indexOf (l : ItemList ι) (item : Option ι) : ℤ := comboValue (item.bind fun x => l.items.idxOf? x)

def itemAbove (l : ItemList ι) (item : ι) : Option ι :=
  match l.items.idxOf? item with
  | some (i + 1) => l.items[i]?
  | _ => none

def itemBelow (l : ItemList ι) (item : ι) : Option ι := (l.items.idxOf? item).bind fun i => l.items[i + 1]?

def itemAt (l : ItemList ι) (v : ℤ) : Option ι := (comboIndex l.items.length v).bind fun i => l.items[i]?

/-- What is taken is not selected any more, and hands on being current to the item above it or else
to the one below. -/
def take (l : ItemList ι) (v : ℤ) : Option ι × ItemList ι :=
  match l.itemAt v with
  | none => (none, l)
  | some item =>
    (some item,
      { items := l.items.eraseIdx v.toNat
        selected := l.selected.erase item
        current := if l.current = some item then (l.itemAbove item).or (l.itemBelow item) else l.current })

def insert (l : ItemList ι) (v : ℤ) (item : ι) : ItemList ι :=
  if 0 ≤ v ∧ v ≤ l.items.length then { l with items := l.items.insertIdx v.toNat item } else l

def clearSelection (l : ItemList ι) : ItemList ι := { l with selected := [] }

def select (l : ItemList ι) (item : ι) : ItemList ι :=
  if item ∈ l.selected then l else { l with selected := l.selected ++ [item] }

/-- The item is expected to be in the list; the pointer is not checked. -/
def setCurrent (l : ItemList ι) (item : ι) : ItemList ι := { l with selected := [item], current := some item }

omit [DecidableEq ι] in
theorem selected_insert (l : ItemList ι) (v : ℤ) (item : ι) : (l.insert v item).selected = l.selected := by
  unfold insert
  split <;> rfl

theorem items_select (l : ItemList ι) (item : ι) : (l.select item).items = l.items := by
  unfold select
  split <;> rfl

theorem selected_select (l : ItemList ι) (item : ι) :
    (l.select item).selected = if item ∈ l.selected then l.selected else l.selected ++ [item] := by
  unfold select
  split <;> rfl

/-- What is current is in the list. -/
def CurrentIn (l : ItemList ι) : Prop := ∀ x, l.current = some x → x ∈ l.items

/-- No item is in the list twice, and what is selected or current is in it. -/
structure Sound (l : ItemList ι) : Prop where
  nodup : l.items.Nodup
  nodup_selected : l.selected.Nodup
  selected_subset : l.selected ⊆ l.items
  currentIn : l.CurrentIn

theorem idxOf?_middle {pre : List ι} {x : ι} (h : x ∉ pre) (post : List ι) :
    (pre ++ x :: post).idxOf? x = some pre.length := by
  rw [List.idxOf?_eq_some_iff]
  refine ⟨by simp, by simp, fun j hj => ?_⟩
  rw [List.getElem_append_left hj]
  exact fun heq => h (heq ▸ List.getElem_mem hj)

variable {l : ItemList ι} {pre post : List ι} {x : ι}

omit [DecidableEq ι] in
theorem not_mem_of_nodup (h : l.items.Nodup) (hitems : l.items = pre ++ x :: post) : x ∉ pre := by
  rw [hitems] at h
  exact fun hmem => (List.nodup_append.mp h).2.2 x hmem x List.mem_cons_self rfl

theorem indexOf_middle (h : x ∉ pre) (hitems : l.items = pre ++ x :: post) : l.indexOf (some x) = pre.length := by
  rw [indexOf, Option.bind_some, hitems, idxOf?_middle h]
  rfl

theorem indexOf_of_mem (hx : x ∈ l.items) :
    l.indexOf (some x) = l.items.idxOf x := by
  obtain ⟨pre, post, hitems, hpre⟩ := List.eq_append_cons_of_mem hx
  rw [indexOf_middle hpre hitems, hitems, List.idxOf_append_of_notMem hpre, List.idxOf_cons_self]
  rfl

theorem itemBelow_middle (h : x ∉ pre) (hitems : l.items = pre ++ x :: post) : l.itemBelow x = post.head? := by
  rw [itemBelow, hitems, idxOf?_middle h, Option.bind_some, List.getElem?_append_right (Nat.le_add_right _ 1),
    Nat.add_sub_cancel_left, List.getElem?_cons_succ, List.head?_eq_getElem?]

theorem itemAbove_middle (h : x ∉ pre) (hitems : l.items = pre ++ x :: post) : l.itemAbove x = pre.getLast? := by
  rw [itemAbove, hitems, idxOf?_middle h]
  cases pre using List.reverseRec with
  | nil => rfl
  | append_singleton pre w => simp

theorem take_middle (hitems : l.items = pre ++ x :: post) :
    l.take pre.length = (some x, { items := pre ++ post
                                   selected := l.selected.erase x
                                   current := if l.current = some x then (l.itemAbove x).or (l.itemBelow x)
                                     else l.current }) := by
  have hindex : comboIndex l.items.length pre.length = some pre.length := by
    rw [comboIndex, if_pos (by rw [hitems, List.length_append, List.length_cons]; omega), Int.toNat_natCast]
  have hat : l.itemAt pre.length = some x := by
    rw [itemAt, hindex, Option.bind_some, hitems, List.getElem?_append_right le_rfl, Nat.sub_self]
    rfl
  rw [take, hat, Int.toNat_natCast, hitems, List.eraseIdx_append_of_length_le le_rfl, Nat.sub_self]
  rfl

theorem take_of_not_mem (h : x ∉ l.items) : l.take (l.indexOf (some x)) = (none, l) := by
  have hindex : l.indexOf (some x) = -1 := by
    rw [indexOf, Option.bind_some, List.idxOf?_eq_none_iff.mpr h]
    rfl
  rw [hindex]
  rfl

omit [DecidableEq ι] in
theorem insertIdx_middle (pre post : List ι) (x : ι) :
    (pre ++ post).insertIdx pre.length x = pre ++ x :: post := by
  induction pre with
  | nil => exact List.insertIdx_zero
  | cons w pre ih => exact congrArg (w :: ·) ih

omit [DecidableEq ι] in
theorem insert_middle (hitems : l.items = pre ++ post) :
    l.insert pre.length x = { l with items := pre ++ x :: post } := by
  rw [insert, if_pos (by rw [hitems, List.length_append]; omega), Int.toNat_natCast, hitems, insertIdx_middle]

/-- An item is taken out by its index if it is in the list. -/
theorem items_take_indexOf (l : ItemList ι) (x : ι) : (l.take (l.indexOf (some x))).2.items = l.items.erase x := by
  by_cases hx : x ∈ l.items
  · obtain ⟨pre, post, hitems, hpre⟩ := List.eq_append_cons_of_mem hx
    rw [indexOf_middle hpre hitems, take_middle hitems, hitems, List.erase_append_right _ hpre,
      List.erase_cons_head]
  · rw [take_of_not_mem hx, List.erase_of_not_mem hx]

theorem CurrentIn.take (h : l.CurrentIn) (x : ι) : (l.take (l.indexOf (some x))).2.CurrentIn := by
  by_cases hx : x ∈ l.items
  · obtain ⟨pre, post, hitems, hpre⟩ := List.eq_append_cons_of_mem hx
    rw [indexOf_middle hpre hitems, take_middle hitems]
    intro y hy
    change (if l.current = some x then _ else l.current) = some y at hy
    change y ∈ pre ++ post
    rw [List.mem_append]
    split at hy
    · rw [itemAbove_middle hpre hitems, itemBelow_middle hpre hitems, Option.or_eq_some_iff] at hy
      rcases hy with habove | ⟨-, hbelow⟩
      · exact Or.inl (List.mem_of_getLast? habove)
      · exact Or.inr (List.mem_of_head? hbelow)
    · next hother =>
      have hmem := h y hy
      rw [hitems, List.mem_append, List.mem_cons] at hmem
      rcases hmem with hpre | rfl | hpost
      · exact Or.inl hpre
      · exact absurd hy hother
      · exact Or.inr hpost
  · rw [take_of_not_mem hx]
    exact h

omit [DecidableEq ι] in
theorem CurrentIn.insert (h : l.CurrentIn) (v : ℤ) (x : ι) : (l.insert v x).CurrentIn := by
  unfold ItemList.insert
  split
  · exact fun y hy => List.subset_insertIdx _ _ _ (h y hy)
  · exact h

theorem CurrentIn.select (h : l.CurrentIn) (x : ι) : (l.select x).CurrentIn := by
  unfold ItemList.select
  split <;> exact h

/-- Taken out and put back one place above, an item has changed places with the one above it. -/
theorem insert_take_above {w : ι} (h : l.items.Nodup) (hitems : l.items = pre ++ w :: x :: post) :
    l.indexOf (l.itemAbove x) = pre.length ∧ ∃ l', l.take (l.indexOf (some x)) = (some x, l') ∧
      (l'.insert pre.length x).items = pre ++ x :: w :: post ∧ l'.selected = l.selected.erase x := by
  have hsplit : l.items = (pre ++ [w]) ++ x :: post := by rw [hitems, List.append_assoc, List.singleton_append]
  have hx : x ∉ pre ++ [w] := not_mem_of_nodup h hsplit
  have hw : w ∉ pre := not_mem_of_nodup h hitems
  rw [itemAbove_middle hx hsplit, List.getLast?_concat, indexOf_middle hw hitems, indexOf_middle hx hsplit,
    take_middle hsplit]
  have htaken : (pre ++ [w]) ++ post = pre ++ (w :: post) := List.append_assoc pre [w] post
  refine ⟨rfl, _, rfl, ?_, rfl⟩
  rw [insert_middle htaken]

/-- Taken out and put back one place below, an item has changed places with the one below it. -/
theorem insert_take_below {y : ι} (h : l.items.Nodup) (hitems : l.items = pre ++ x :: y :: post) :
    l.indexOf (l.itemBelow x) = pre.length + 1 ∧ ∃ l', l.take (l.indexOf (some x)) = (some x, l') ∧
      (l'.insert (pre.length + 1) x).items = pre ++ y :: x :: post ∧ l'.selected = l.selected.erase x := by
  have hsplit : l.items = (pre ++ [x]) ++ y :: post := by rw [hitems, List.append_assoc, List.singleton_append]
  have hy : y ∉ pre ++ [x] := not_mem_of_nodup h hsplit
  have hx : x ∉ pre := not_mem_of_nodup h hitems
  have hlength : ((pre ++ [y]).length : ℤ) = pre.length + 1 := by simp
  have hindex := indexOf_middle hy hsplit
  rw [List.length_append, List.length_singleton, Int.natCast_add, Int.natCast_one] at hindex
  rw [itemBelow_middle hx hitems, List.head?_cons, hindex, indexOf_middle hx hitems, take_middle hitems]
  have htaken : pre ++ (y :: post) = (pre ++ [y]) ++ post := List.append_cons pre y post
  refine ⟨rfl, _, rfl, ?_, rfl⟩
  rw [← hlength, insert_middle htaken, List.append_assoc, List.singleton_append]

end ItemList

end SnmpB.Widget
