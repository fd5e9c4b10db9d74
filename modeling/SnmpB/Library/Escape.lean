import Mathlib.Data.List.Basic
import Mathlib.Data.List.Flatten

/-! # Escaping by replacing characters

An escaping replaces some characters by longer texts and leaves the others alone.
A text is unchanged exactly when it has no character that is replaced.
-/
namespace SnmpB.Escape

variable {α : Type*} {expand : α → List α}

/-- Every character is left alone or replaced by a longer text. -/
def Proper (expand : α → List α) : Prop := ∀ a, expand a = [a] ∨ 1 < (expand a).length

theorem Proper.one_le (h : Proper expand) (a : α) : 1 ≤ (expand a).length := by
  rcases h a with hsame | hlonger
  · rw [hsame]
    exact Nat.le_refl 1
  · exact Nat.le_of_lt hlonger

theorem Proper.length_le (h : Proper expand) (text : List α) :
    text.length ≤ (text.flatMap expand).length := by
  induction text with
  | nil => exact Nat.le_refl 0
  | cons a text ih =>
    have hone := h.one_le a
    simp only [List.flatMap_cons, List.length_append, List.length_cons]
    omega

theorem Proper.flatMap_eq_self_iff (h : Proper expand) (text : List α) :
    text.flatMap expand = text ↔ ∀ a ∈ text, expand a = [a] := by
  induction text with
  | nil => simp
  | cons a text ih =>
    rw [List.flatMap_cons, List.forall_mem_cons]
    constructor
    · intro hsame
      have hlength := congrArg List.length hsame
      have hrest := h.length_le text
      rcases h a with halone | hlonger
      · rw [halone, List.singleton_append, List.cons_inj_right] at hsame
        exact ⟨halone, ih.mp hsame⟩
      · simp only [List.length_append, List.length_cons] at hlength
        omega
    · rintro ⟨halone, hrest⟩
      rw [halone, ih.mpr hrest, List.singleton_append]

end SnmpB.Escape
