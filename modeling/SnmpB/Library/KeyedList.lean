import Mathlib.Data.List.Perm.Basic
import Mathlib.Data.List.Nodup

/-! # Keyed lists that close holes with their last element

An element is found by its key. Removing it moves the last element into its
place, replacing it keeps its place, and a new key is appended.
-/
namespace SnmpB.KeyedList

variable {α κ : Type*}

/-- The element at `i` is overwritten by the last one, which leaves its own place. -/
def swapRemove (l : List α) (i : ℕ) : List α :=
  match l.getLast? with
  | none => []
  | some last => (l.set i last).dropLast

theorem swapRemove_perm {l : List α} {i : ℕ} (hi : i < l.length) : (swapRemove l i).Perm (l.eraseIdx i) := by
  obtain ⟨init, last, rfl⟩ : ∃ init last, l = init ++ [last] :=
    ⟨l.dropLast, l.getLast (List.ne_nil_of_length_pos (Nat.zero_lt_of_lt hi)),
      (List.dropLast_append_getLast _).symm⟩
  rw [List.length_append, List.length_singleton] at hi
  simp only [swapRemove, List.getLast?_concat]
  by_cases hlast : i < init.length
  · rw [List.set_append_left _ _ hlast, List.dropLast_concat, List.eraseIdx_append_of_lt_length hlast]
    exact (List.set_perm_cons_eraseIdx hlast last).trans (List.perm_append_singleton last _).symm
  · obtain rfl : i = init.length := by omega
    rw [List.set_append_right _ _ (Nat.le_refl _), Nat.sub_self,
      List.eraseIdx_append_of_length_le (Nat.le_refl _), Nat.sub_self]
    simp

variable [DecidableEq κ] (key : α → κ)

def find (l : List α) (x : κ) : Option ℕ := l.findIdx? fun a => decide (key a = x)

def deleteKey (l : List α) (x : κ) : List α :=
  match find key l x with
  | none => l
  | some i => swapRemove l i

def upsert (l : List α) (a : α) : List α :=
  match find key l (key a) with
  | none => l ++ [a]
  | some i => l.set i a

variable {key}

theorem find_eq_none {l : List α} {x : κ} : find key l x = none ↔ x ∉ l.map key := by
  simp [find, List.findIdx?_eq_none_iff]

/-- The first element with the key. -/
theorem find_eq_some {l : List α} {x : κ} {i : ℕ} :
    find key l x = some i ↔
      ∃ h : i < l.length, key l[i] = x ∧ ∀ j (hj : j < i), key (l.get ⟨j, Nat.lt_trans hj h⟩) ≠ x := by
  simp only [find, List.findIdx?_eq_some_iff_getElem, decide_eq_true_eq, List.get_eq_getElem, ne_eq]

theorem find_le {l : List α} {x : κ} {k : ℕ} (hk : k < l.length) (hx : key l[k] = x) :
    ∃ i ≤ k, find key l x = some i := by
  cases hfind : find key l x with
  | none => exact absurd (List.mem_map.mpr ⟨l[k], List.getElem_mem hk, hx⟩) (find_eq_none.mp hfind)
  | some i =>
    refine ⟨i, ?_, rfl⟩
    by_contra hlt
    exact (find_eq_some.mp hfind).2.2 k (Nat.lt_of_not_le hlt) hx

theorem deleteKey_perm {l : List α} {x : κ} {i : ℕ} (h : find key l x = some i) :
    (deleteKey key l x).Perm (l.eraseIdx i) := by
  simp only [deleteKey, h]
  exact swapRemove_perm (find_eq_some.mp h).1

theorem nodup_deleteKey {β : Type*} {g : α → β} {l : List α} (hl : (l.map g).Nodup) (x : κ) :
    ((deleteKey key l x).map g).Nodup := by
  cases hfind : find key l x with
  | none => simpa [deleteKey, hfind] using hl
  | some i =>
    rw [((deleteKey_perm hfind).map g).nodup_iff]
    exact hl.sublist ((List.eraseIdx_sublist l i).map g)

/-- With different keys, exactly the element with the key goes. -/
theorem mem_deleteKey_iff {l : List α} (hl : (l.map key).Nodup) {x : κ} {a : α} :
    a ∈ deleteKey key l x ↔ a ∈ l ∧ key a ≠ x := by
  cases hfind : find key l x with
  | none =>
    simp only [deleteKey, hfind]
    refine ⟨fun ha => ⟨ha, ?_⟩, And.left⟩
    rintro rfl
    exact find_eq_none.mp hfind (List.mem_map_of_mem ha)
  | some i =>
    obtain ⟨hi, hx, -⟩ := find_eq_some.mp hfind
    rw [(deleteKey_perm hfind).mem_iff]
    have hsplit : (l[i] :: l.eraseIdx i).Perm l := List.getElem_cons_eraseIdx_perm hi
    have hnodup : ((l[i] :: l.eraseIdx i).map key).Nodup := (hsplit.map key).nodup_iff.mpr hl
    rw [List.map_cons, List.nodup_cons] at hnodup
    rw [← hsplit.mem_iff, List.mem_cons]
    constructor
    · intro ha
      refine ⟨Or.inr ha, ?_⟩
      rintro rfl
      exact hnodup.1 (hx ▸ List.mem_map_of_mem ha)
    · rintro ⟨rfl | ha, hne⟩
      · exact absurd hx hne
      · exact ha

theorem mem_foldl_deleteKey_iff {l : List α} (hl : (l.map key).Nodup) {xs : List κ} {a : α} :
    a ∈ xs.foldl (deleteKey key) l ↔ a ∈ l ∧ key a ∉ xs := by
  induction xs generalizing l with
  | nil => simp
  | cons x xs ih =>
    rw [List.foldl_cons, ih (nodup_deleteKey hl x), mem_deleteKey_iff hl, List.mem_cons, not_or, and_assoc]

/-- With different keys, deleting the keys of the first elements leaves the others. -/
theorem mem_foldl_deleteKey_take {l : List α} (hl : (l.map key).Nodup) {n : ℕ} {a : α} :
    a ∈ ((l.take n).map key).foldl (deleteKey key) l ↔ a ∈ l.drop n := by
  rw [mem_foldl_deleteKey_iff hl]
  have hsplit := hl
  rw [← List.take_append_drop n l, List.map_append, List.nodup_append] at hsplit
  obtain ⟨-, -, hdisjoint⟩ := hsplit
  constructor
  · rintro ⟨ha, hnot⟩
    rw [← List.take_append_drop n l] at ha
    rcases List.mem_append.mp ha with ha | ha
    · exact absurd (List.mem_map_of_mem ha) hnot
    · exact ha
  · intro ha
    exact ⟨List.mem_of_mem_drop ha, fun hkey => hdisjoint _ hkey _ (List.mem_map_of_mem ha) rfl⟩

theorem nodup_upsert {l : List α} (hl : (l.map key).Nodup) (a : α) : ((upsert key l a).map key).Nodup := by
  cases hfind : find key l (key a) with
  | none =>
    simp only [upsert, hfind, List.map_append, List.map_cons, List.map_nil]
    exact (List.concat_eq_append ▸ hl.concat (find_eq_none.mp hfind))
  | some i =>
    obtain ⟨hi, hkey, -⟩ := find_eq_some.mp hfind
    have hsame : (l.set i a).map key = l.map key := by
      have hbound : i < (l.map key).length := by simpa using hi
      have hat : (l.map key)[i] = key a := (List.getElem_map key).trans hkey
      rw [List.map_set, ← hat, List.set_getElem_self]
    simp only [upsert, hfind, hsame]
    exact hl

theorem mem_upsert_iff {l : List α} (hl : (l.map key).Nodup) {a b : α} :
    b ∈ upsert key l a ↔ b = a ∨ (b ∈ l ∧ key b ≠ key a) := by
  cases hfind : find key l (key a) with
  | none =>
    simp only [upsert, hfind, List.mem_append, List.mem_singleton]
    constructor
    · rintro (hb | rfl)
      · exact Or.inr ⟨hb, fun hkey => find_eq_none.mp hfind (hkey ▸ List.mem_map_of_mem hb)⟩
      · exact Or.inl rfl
    · rintro (rfl | ⟨hb, -⟩)
      · exact Or.inr rfl
      · exact Or.inl hb
  | some i =>
    obtain ⟨hi, hkey, -⟩ := find_eq_some.mp hfind
    simp only [upsert, hfind]
    rw [(List.set_perm_cons_eraseIdx hi a).mem_iff, List.mem_cons, ← (deleteKey_perm hfind).mem_iff,
      mem_deleteKey_iff hl]

/-! ## Removing whatever meets a condition -/

section removing
variable {p : α → Bool}

theorem swapRemove_length {l : List α} {i : ℕ} (hi : i < l.length) : (swapRemove l i).length = l.length - 1 :=
  (swapRemove_perm hi).length_eq.trans (List.length_eraseIdx_of_lt hi)

/-- From a position on; the element that moves to a hole is looked at next. -/
def removeFrom (p : α → Bool) (l : List α) (i : ℕ) : List α :=
  if h : i < l.length then
    if p l[i] then removeFrom p (swapRemove l i) i else removeFrom p l (i + 1)
  else l
termination_by l.length - i
decreasing_by
  · rw [swapRemove_length h]
    omega
  · omega

theorem take_swapRemove {l : List α} {i : ℕ} (hi : i < l.length) : (swapRemove l i).take i = l.take i := by
  have hne : l ≠ [] := List.ne_nil_of_length_pos (Nat.zero_lt_of_lt hi)
  have hset : (l.set i (l.getLast hne)).take i = l.take i := List.take_set_of_le (Nat.le_refl i)
  rw [swapRemove, List.getLast?_eq_getLast_of_ne_nil hne]
  simp only
  rw [List.dropLast_eq_take, List.take_take, List.length_set, Nat.min_eq_left (by omega), hset]

theorem drop_swapRemove_perm {l : List α} {i : ℕ} (hi : i < l.length) :
    ((swapRemove l i).drop i).Perm (l.drop (i + 1)) := by
  have herase : l.eraseIdx i = l.take i ++ l.drop (i + 1) := List.eraseIdx_eq_take_drop_succ l i
  have hperm := swapRemove_perm hi
  rw [← List.take_append_drop i (swapRemove l i), take_swapRemove hi, herase] at hperm
  exact (List.perm_append_left_iff _).mp hperm

theorem removeFrom_perm (p : α → Bool) (l : List α) (i : ℕ) :
    (removeFrom p l i).Perm (l.take i ++ (l.drop i).filter fun a => !p a) := by
  induction l, i using removeFrom.induct p with
  | case1 l i hi hp ih =>
    have hhead : l.drop i = l[i] :: l.drop (i + 1) := List.drop_eq_getElem_cons hi
    rw [removeFrom, dif_pos hi, if_pos hp, hhead, List.filter_cons_of_neg (by simpa using hp)]
    rw [take_swapRemove hi] at ih
    exact ih.trans (((drop_swapRemove_perm hi).filter _).append_left _)
  | case2 l i hi hp ih =>
    have hhead : l.drop i = l[i] :: l.drop (i + 1) := List.drop_eq_getElem_cons hi
    rw [removeFrom, dif_pos hi, if_neg hp, hhead, List.filter_cons_of_pos (by simpa using hp)]
    rw [List.take_succ_eq_append_getElem hi, List.append_assoc] at ih
    exact ih
  | case3 l i hi =>
    rw [removeFrom, dif_neg hi, List.take_of_length_le (Nat.le_of_not_lt hi),
      List.drop_eq_nil_of_le (Nat.le_of_not_lt hi)]
    simp

theorem mem_removeFrom_zero {l : List α} {a : α} : a ∈ removeFrom p l 0 ↔ a ∈ l ∧ p a = false := by
  rw [(removeFrom_perm p l 0).mem_iff]
  simp

end removing

end SnmpB.KeyedList
