import Mathlib.Data.List.Perm.Basic
import Mathlib.Tactic.Common

/-! # Marked entries one place on

From the front on, every marked entry changes places with the entry before it, unless
that one is marked and has nowhere to go. A block of marked entries so passes the
unmarked entry before it.
-/
namespace SnmpB.Shift

variable {α : Type*} (p : α → Bool)

/-- The marked entries pass `u` and the unmarked ones behind it. -/
def past (u : α) : List α → List α
  | [] => [u]
  | x :: rest => if p x then x :: past u rest else u :: past x rest

def forward : List α → List α
  | [] => []
  | x :: rest => if p x then x :: rest else past p x rest

def backward (l : List α) : List α := (forward p l.reverse).reverse

variable {p} {u : α}

theorem past_marked {x : α} (hx : p x = true) (l : List α) : past p u (x :: l) = x :: past p u l := if_pos hx

theorem past_unmarked {x : α} (hx : p x = false) (l : List α) : past p u (x :: l) = u :: past p x l :=
  if_neg (Bool.not_eq_true _ ▸ hx)

theorem past_perm (u : α) (l : List α) : (past p u l).Perm (u :: l) := by
  induction l generalizing u with
  | nil => exact List.Perm.refl [u]
  | cons x l ih =>
    cases hx : p x with
    | true => exact past_marked hx l ▸ ((ih u).cons x).trans (List.Perm.swap u x l)
    | false => exact past_unmarked hx l ▸ (ih x).cons u

theorem filter_past (hu : p u = false) (l : List α) : (past p u l).filter p = l.filter p := by
  induction l generalizing u with
  | nil => simp [past, hu]
  | cons x l ih =>
    cases hx : p x with
    | true => rw [past_marked hx, List.filter_cons, List.filter_cons, ih hu]
    | false =>
      rw [past_unmarked hx, List.filter_cons_of_neg (by simp [hu]), List.filter_cons_of_neg (by simp [hx])]
      exact ih hx

theorem filter_not_past (u : α) (l : List α) :
    (past p u l).filter (fun x => ! p x) = (u :: l).filter (fun x => ! p x) := by
  induction l generalizing u with
  | nil => rfl
  | cons x l ih =>
    cases hx : p x with
    | true => simp [past_marked hx, List.filter_cons, hx, ih u]
    | false => simp [past_unmarked hx, List.filter_cons, hx, ih x]

theorem ne_of_marked {x y : α} (hx : p x = true) (hy : p y = false) : y ≠ x := by
  rintro rfl
  rw [hx] at hy
  cases hy

/-- A marked entry comes one place to the front. -/
theorem idxOf_past [DecidableEq α] {x : α} {l : List α} (hu : p u = false) (hx : p x = true) (hmem : x ∈ l) :
    (past p u l).idxOf x + 1 = (u :: l).idxOf x := by
  induction l generalizing u with
  | nil => cases hmem
  | cons y l ih =>
    rw [List.idxOf_cons_ne _ (ne_of_marked hx hu)]
    cases hy : p y with
    | true =>
      rw [past_marked hy]
      by_cases hyx : y = x
      · rw [hyx, List.idxOf_cons_self, List.idxOf_cons_self]
      · have hrest := ih hu ((List.mem_cons.mp hmem).resolve_left (Ne.symm hyx))
        rw [List.idxOf_cons_ne _ (ne_of_marked hx hu)] at hrest
        rw [List.idxOf_cons_ne _ hyx, List.idxOf_cons_ne _ hyx, Nat.succ_eq_add_one, hrest]
    | false =>
      have hrest := ih hy ((List.mem_cons.mp hmem).resolve_left (ne_of_marked hx hy).symm)
      rw [past_unmarked hy, List.idxOf_cons_ne _ (ne_of_marked hx hu), Nat.succ_eq_add_one, hrest]

/-- The last entry is the one that what comes behind has to pass. -/
theorem past_cut (hu : p u = false) (l : List α) : ∃ front w, past p u l = front ++ [w] ∧ p w = false ∧
    ∀ more, past p u (l ++ more) = front ++ past p w more := by
  induction l generalizing u with
  | nil => exact ⟨[], u, rfl, hu, fun _ => rfl⟩
  | cons x l ih =>
    cases hx : p x with
    | true =>
      obtain ⟨front, w, heq, hw, hmore⟩ := ih hu
      refine ⟨x :: front, w, ?_, hw, fun more => ?_⟩
      · rw [past_marked hx, heq, List.cons_append]
      · rw [List.cons_append, past_marked hx, hmore, List.cons_append]
    | false =>
      obtain ⟨front, w, heq, hw, hmore⟩ := ih hx
      refine ⟨u :: front, w, ?_, hw, fun more => ?_⟩
      · rw [past_unmarked hx, heq, List.cons_append]
      · rw [List.cons_append, past_unmarked hx, hmore, List.cons_append]

theorem past_append {w : α} {l front : List α} (hu : p u = false) (h : past p u l = front ++ [w]) (more : List α) :
    past p u (l ++ more) = front ++ past p w more := by
  obtain ⟨front', w', heq, -, hmore⟩ := past_cut hu l
  obtain ⟨rfl, hw⟩ := List.append_inj' (h.symm.trans heq) rfl
  rw [hmore more, List.singleton_inj.mp hw]

/-- Read from the back, the marked entries pass the last entry and stand where they were. -/
theorem past_reverse (hu : p u = false) (l : List α) : ∃ front w, past p u l = front ++ [w] ∧ p w = false ∧
    past p w front.reverse = (u :: l).reverse := by
  induction l generalizing u with
  | nil => exact ⟨[], u, rfl, hu, rfl⟩
  | cons x l ih =>
    cases hx : p x with
    | true =>
      obtain ⟨front, w, heq, hw, hback⟩ := ih hu
      refine ⟨x :: front, w, by rw [past_marked hx, heq, List.cons_append], hw, ?_⟩
      rw [List.reverse_cons] at hback
      rw [List.reverse_cons, past_append hw hback, past_marked hx]
      simp [past]
    | false =>
      obtain ⟨front, w, heq, hw, hback⟩ := ih hx
      refine ⟨u :: front, w, by rw [past_unmarked hx, heq, List.cons_append], hw, ?_⟩
      rw [List.reverse_cons] at hback
      rw [List.reverse_cons, past_append hw hback, past_unmarked hu]
      simp [past]

theorem forward_perm (l : List α) : (forward p l).Perm l := by
  cases l with
  | nil => exact List.Perm.nil
  | cons x l =>
    rw [forward]
    split
    · exact List.Perm.refl _
    · exact past_perm x l

theorem filter_forward (l : List α) : (forward p l).filter p = l.filter p ∧
    (forward p l).filter (fun x => ! p x) = l.filter (fun x => ! p x) := by
  cases l with
  | nil => exact ⟨rfl, rfl⟩
  | cons x l =>
    rw [forward]
    split
    · exact ⟨rfl, rfl⟩
    · next hx =>
      have hx : p x = false := Bool.not_eq_true _ ▸ hx
      exact ⟨by rw [filter_past hx, List.filter_cons_of_neg (by simp [hx])], filter_not_past x l⟩

theorem backward_perm (l : List α) : (backward p l).Perm l :=
  (List.reverse_perm _).trans ((forward_perm _).trans (List.reverse_perm l))

theorem filter_backward (l : List α) : (backward p l).filter p = l.filter p ∧
    (backward p l).filter (fun x => ! p x) = l.filter (fun x => ! p x) := by
  obtain ⟨hmarked, hunmarked⟩ := filter_forward (p := p) l.reverse
  unfold backward
  rw [List.filter_reverse, List.filter_reverse, hmarked, hunmarked, List.filter_reverse, List.filter_reverse,
    List.reverse_reverse, List.reverse_reverse]
  exact ⟨rfl, rfl⟩

variable (p) in
/-- No marked entry stands at the front, so that all of them can move. -/
def Free (l : List α) : Prop := ∀ x, l.head? = some x → p x = false

theorem free_cons {u : α} (hu : p u = false) (l : List α) : Free p (u :: l) := by
  intro x hx
  obtain rfl : u = x := by simpa using hx
  exact hu

/-- Where nothing blocks them, moving to the back undoes moving to the front. -/
theorem backward_forward {l : List α} (h : Free p l) :
    Free p (forward p l).reverse ∧ backward p (forward p l) = l := by
  cases l with
  | nil => exact ⟨h, rfl⟩
  | cons u l =>
    have hu : p u = false := h u rfl
    obtain ⟨front, w, heq, hw, hback⟩ := past_reverse hu l
    have hforward : forward p (u :: l) = front ++ [w] := by
      rw [forward, if_neg (by simp [hu]), heq]
    have hreverse : (forward p (u :: l)).reverse = w :: front.reverse := by
      rw [hforward, List.reverse_append, List.reverse_singleton, List.singleton_append]
    rw [backward, hreverse]
    refine ⟨free_cons hw _, ?_⟩
    rw [forward, if_neg (by simp [hw]), hback, List.reverse_reverse]

theorem forward_backward {l : List α} (h : Free p l.reverse) :
    Free p (backward p l) ∧ forward p (backward p l) = l := by
  obtain ⟨hfree, heq⟩ := backward_forward h
  refine ⟨hfree, ?_⟩
  have hreverse := congrArg List.reverse heq
  rwa [backward, List.reverse_reverse, List.reverse_reverse] at hreverse

theorem idxOf_forward [DecidableEq α] {x : α} {l : List α} (h : Free p l) (hx : p x = true) (hmem : x ∈ l) :
    (forward p l).idxOf x + 1 = l.idxOf x := by
  cases l with
  | nil => cases hmem
  | cons u l =>
    have hu : p u = false := h u rfl
    rw [forward, if_neg (by simp [hu])]
    exact idxOf_past hu hx ((List.mem_cons.mp hmem).resolve_left (ne_of_marked hx hu).symm)

theorem idxOf_backward [DecidableEq α] {x : α} {l : List α} (h : Free p l.reverse) (hx : p x = true)
    (hmem : x ∈ l) : (backward p l).idxOf x = l.idxOf x + 1 := by
  obtain ⟨hfree, heq⟩ := forward_backward h
  have hstep := idxOf_forward hfree hx ((backward_perm l).mem_iff.mpr hmem)
  rw [heq] at hstep
  exact hstep.symm

end SnmpB.Shift
