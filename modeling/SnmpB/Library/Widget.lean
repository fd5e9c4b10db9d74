import Mathlib.Data.Int.Notation
import Mathlib.Data.Nat.Notation
import Mathlib.Tactic.Common

/-! # Combo boxes

A combo box turns to the entry with an index, and to none where it has no such
entry; it reads back the index of its current entry.
-/
namespace SnmpB.Widget

def comboIndex (count : ℕ) (v : ℤ) : Option ℕ := if 0 ≤ v ∧ v < count then some v.toNat else none

/-- `currentIndex`, which is -1 without a current entry. -/
def comboValue (index : Option ℕ) : ℤ := (index.map Int.ofNat).getD (-1)

theorem comboValue_comboIndex {count : ℕ} {v : ℤ} :
    v = comboValue (comboIndex count v) ↔ -1 ≤ v ∧ v < count := by
  unfold comboIndex
  split
  · rename_i hrange
    have hvalue : comboValue (some v.toNat) = v := Int.toNat_of_nonneg hrange.1
    rw [hvalue]
    exact iff_of_true rfl ⟨by omega, hrange.2⟩
  · rename_i hrange
    change v = -1 ↔ _
    omega

theorem comboIndex_eq_none {count : ℕ} {v : ℤ} (h : ¬(-1 ≤ v ∧ v < count)) : comboIndex count v = none := by
  apply if_neg
  rintro ⟨hlow, hhigh⟩
  exact h ⟨by omega, hhigh⟩

/-- A box set to a value reads it back, unless it reported nothing because it had no entry before. -/
theorem comboIndex_reads_iff {count : ℕ} {v : ℤ} {index : Option ℕ} :
    (index = comboIndex count v ∨ v = comboValue (comboIndex count v)) ↔ (-1 ≤ v ∧ v < count) ∨ index = none := by
  rw [comboValue_comboIndex]
  by_cases hrange : -1 ≤ v ∧ v < count
  · simp [hrange]
  · rw [comboIndex_eq_none hrange]
    exact or_comm

/-- The entries, and the index of the current one. -/
structure Combo (α : Type*) where
  items : List α
  index : Option ℕ

namespace Combo
variable {α : Type*}

def selected (box : Combo α) : Option α := box.index.bind fun i => box.items[i]?

def clear (_ : Combo α) : Combo α := ⟨[], none⟩

/-- The first entry of a box that was empty becomes current. -/
def addItems (box : Combo α) (items : List α) : Combo α where
  items := box.items ++ items
  index := if box.items.isEmpty ∧ box.index = none ∧ ¬ items.isEmpty then some 0 else box.index

def setCurrentIndex (box : Combo α) (v : ℤ) : Combo α := { box with index := comboIndex box.items.length v }

/-- The first place of an entry, and -1 where it is none. -/
def findText [DecidableEq α] (box : Combo α) (text : α) : ℤ := comboValue (box.items.idxOf? text)

/-- Back to an entry by its text, and to the first one where it is gone. -/
def restore [DecidableEq α] (box : Combo α) (text : α) : Combo α :=
  box.setCurrentIndex (if box.findText text > 0 then box.findText text else 0)

theorem selected_addItems_clear (box : Combo α) (items : List α) :
    (box.clear.addItems items).selected = items.head? := by
  cases items with
  | nil => rfl
  | cons a items => rfl

theorem findText_neg_iff [DecidableEq α] (box : Combo α) (text : α) : box.findText text < 0 ↔ text ∉ box.items := by
  unfold findText comboValue
  cases hplace : box.items.idxOf? text with
  | none => exact iff_of_true (by decide) (List.idxOf?_eq_none_iff.mp hplace)
  | some i =>
    obtain ⟨hlt, heq, -⟩ := List.idxOf?_eq_some_iff.mp hplace
    refine iff_of_false (by simp) fun hgone => hgone ?_
    rw [← heq]
    exact List.getElem_mem hlt

theorem selected_findText [DecidableEq α] {box : Combo α} {text : α} (h : text ∈ box.items) :
    (box.setCurrentIndex (box.findText text)).selected = some text := by
  obtain ⟨i, hplace⟩ : ∃ i, box.items.idxOf? text = some i := by
    cases hplace : box.items.idxOf? text with
    | none => exact absurd h (List.idxOf?_eq_none_iff.mp hplace)
    | some i => exact ⟨i, rfl⟩
  obtain ⟨hlt, heq, -⟩ := List.idxOf?_eq_some_iff.mp hplace
  have hfind : box.findText text = Int.ofNat i := by rw [findText, hplace]; rfl
  have hindex : comboIndex box.items.length (Int.ofNat i) = some i := by
    unfold comboIndex
    rw [if_pos (by simp only [Int.ofNat_eq_natCast]; omega)]
    rfl
  rw [setCurrentIndex, hfind, hindex, selected, Option.bind_some, List.getElem?_eq_getElem hlt, heq]

theorem selected_restore [DecidableEq α] (box : Combo α) (text : α) :
    (box.restore text).selected = if text ∈ box.items then some text else box.items.head? := by
  unfold restore
  by_cases hmem : text ∈ box.items
  · have hnonneg : ¬box.findText text < 0 := fun hneg => (findText_neg_iff box text).mp hneg hmem
    have hplace : (if box.findText text > 0 then box.findText text else 0) = box.findText text := by
      split <;> omega
    rw [hplace, if_pos hmem, selected_findText hmem]
  · have hneg := (findText_neg_iff box text).mpr hmem
    rw [if_neg (by omega), if_neg hmem, setCurrentIndex, comboIndex]
    cases hitems : box.items with
    | nil => simp [selected]
    | cons a items => simp [selected]

end Combo

end SnmpB.Widget
