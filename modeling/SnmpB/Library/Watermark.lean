import Mathlib.Order.Lattice
import Mathlib.Data.List.Basic
import Mathlib.Data.List.Chain

/-! # The newest of what arrived

Marks are stamps with the moment they arrived at. The watermark over a list of marks is the
first one with the largest stamp; it stays while only older stamps arrive.
-/
namespace SnmpB.Watermark

variable {α τ : Type*} [LinearOrder α]

/-- A mark replaces the watermark when its stamp is larger. -/
def note (best m : α × τ) : α × τ := if best.1 < m.1 then m else best

/-- The watermark after marks arrived. -/
def newest (first : α × τ) (ms : List (α × τ)) : α × τ := ms.foldl note first

@[simp] theorem newest_nil (first : α × τ) : newest first [] = first := rfl

theorem newest_snoc (first : α × τ) (ms : List (α × τ)) (m : α × τ) :
    newest first (ms ++ [m]) = note (newest first ms) m := by
  rw [newest, List.foldl_append]
  rfl

theorem note_of_lt {best m : α × τ} (h : best.1 < m.1) : note best m = m := if_pos h

theorem note_of_not_lt {best m : α × τ} (h : ¬ best.1 < m.1) : note best m = best := if_neg h

theorem le_note_left (best m : α × τ) : best.1 ≤ (note best m).1 := by
  unfold note
  split
  · rename_i hlt
    exact hlt.le
  · exact le_refl _

theorem le_note_right (best m : α × τ) : m.1 ≤ (note best m).1 := by
  unfold note
  split
  · exact le_refl _
  · rename_i hnot
    exact not_lt.mp hnot

theorem note_cases (best m : α × τ) : note best m = best ∨ note best m = m := by
  unfold note
  split
  · exact Or.inr rfl
  · exact Or.inl rfl

/-- The watermark never falls. -/
theorem le_newest (first : α × τ) (ms : List (α × τ)) : first.1 ≤ (newest first ms).1 := by
  induction ms generalizing first with
  | nil => exact le_refl _
  | cons m ms ih => exact (le_note_left first m).trans (ih (note first m))

theorem mem_le_newest (first : α × τ) {ms : List (α × τ)} {m : α × τ} (hm : m ∈ ms) : m.1 ≤ (newest first ms).1 := by
  induction ms generalizing first with
  | nil => cases hm
  | cons x ms ih =>
    rcases List.mem_cons.mp hm with rfl | hm
    · exact (le_note_right first m).trans (le_newest _ ms)
    · exact ih _ hm

theorem newest_mem (first : α × τ) (ms : List (α × τ)) : newest first ms ∈ first :: ms := by
  induction ms generalizing first with
  | nil => exact List.mem_cons_self
  | cons m ms ih =>
    have hrest : newest (note first m) ms ∈ note first m :: ms := ih _
    rw [show newest first (m :: ms) = newest (note first m) ms from rfl]
    rcases List.mem_cons.mp hrest with heq | hmem
    · rcases note_cases first m with hnote | hnote
      · exact List.mem_cons.mpr (Or.inl (heq.trans hnote))
      · exact List.mem_cons_of_mem _ (List.mem_cons.mpr (Or.inl (heq.trans hnote)))
    · exact List.mem_cons_of_mem _ (List.mem_cons_of_mem _ hmem)

end SnmpB.Watermark
