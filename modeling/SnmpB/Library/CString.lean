import Mathlib.Data.List.Basic

/-! # C strings

A pointer into a C string reaches the rest of its text and the terminator. Behind
the terminator there is nothing to be read.
-/
namespace SnmpB.CString

def terminator : Char := '\x00'

/-- A text that can be a C string. -/
def Clean (text : List Char) : Prop := terminator ∉ text

/-- What a pointer to the first character reaches. -/
def start (text : List Char) : List Char := text ++ [terminator]

/-- The text at a pointer; `none` behind the terminator. -/
def textAt : List Char → Option (List Char)
  | [] => none
  | c :: rest => some ((c :: rest).takeWhile (· != terminator))

/-- `while ((*b++ == *f++) && (*b != '\0') && (*f != '\0')) ;`: what `f` reaches in the end, `none` when
a character behind a terminator is read. -/
def skipCommon : List Char → List Char → Option (List Char)
  | b :: bs, f :: fs =>
    if b = f then
      match bs, fs with
      | [], _ => none
      | b' :: _, [] => if b' = terminator then some fs else none
      | b' :: _, f' :: _ => if b' = terminator ∨ f' = terminator then some fs else skipCommon bs fs
    else some fs
  | _, _ => none

/-- The text one character behind the common part. -/
def behindCommon (text text' : List Char) : Option (List Char) :=
  (skipCommon (start text) (start text')).bind fun f => textAt f.tail

theorem clean_append {text rest : List Char} (h : Clean (text ++ rest)) : Clean text ∧ Clean rest := by
  unfold Clean at h
  rw [List.mem_append, not_or] at h
  exact h

theorem textAt_start {text : List Char} (h : Clean text) : textAt (start text) = some text := by
  have htake : (start text).takeWhile (· != terminator) = text := by
    unfold start
    rw [List.takeWhile_append_of_pos]
    · simp
    · intro c hc
      rw [bne_iff_ne]
      exact fun heq => h (heq ▸ hc)
  cases text with
  | nil => rfl
  | cons c text => exact congrArg some htake

theorem start_cons (c : Char) (text : List Char) : start (c :: text) = c :: start text := rfl

/-- One turn of the loop over two texts. -/
theorem skipCommon_start_cons {c d : Char} {b f : List Char} (hb : Clean b) (hf : Clean f) :
    skipCommon (start (c :: b)) (start (d :: f)) =
      if c = d ∧ b ≠ [] ∧ f ≠ [] then skipCommon (start b) (start f) else some (start f) := by
  by_cases hcd : c = d
  · cases b with
    | nil => cases f <;> simp [start, skipCommon, hcd]
    | cons c' b =>
      have hb' : c' ≠ terminator := fun heq => hb (heq ▸ List.mem_cons_self)
      cases f with
      | nil => simp [start, skipCommon, hcd]
      | cons d' f =>
        have hf' : d' ≠ terminator := fun heq => hf (heq ▸ List.mem_cons_self)
        rw [if_pos ⟨hcd, List.cons_ne_nil c' b, List.cons_ne_nil d' f⟩]
        simp [start, skipCommon, hcd, hb', hf']
  · rw [if_neg fun h => hcd h.1]
    simp only [start_cons, skipCommon, hcd, ↓reduceIte]

theorem skipCommon_append {text rest : List Char} (hne : text ≠ []) (h : Clean (text ++ rest)) :
    skipCommon (start text) (start (text ++ rest)) = some (start rest) := by
  induction text with
  | nil => exact absurd rfl hne
  | cons c text ih =>
    have hclean : Clean (text ++ rest) := fun hmem => h (List.mem_cons_of_mem c hmem)
    rw [List.cons_append, skipCommon_start_cons (clean_append hclean).1 hclean]
    by_cases htext : text = []
    · rw [if_neg fun h => h.2.1 htext, htext, List.nil_append]
    · rw [if_pos ⟨rfl, htext, List.append_ne_nil_of_left_ne_nil htext rest⟩]
      exact ih htext hclean

/-- Behind a common text there is something to read unless it is all of the other one. -/
theorem behindCommon_append {text rest : List Char} (hne : text ≠ []) (h : Clean (text ++ rest)) :
    behindCommon text (text ++ rest) = if rest = [] then none else some rest.tail := by
  unfold behindCommon
  rw [skipCommon_append hne h, Option.bind_some]
  cases rest with
  | nil => rfl
  | cons c rest =>
    rw [if_neg (List.cons_ne_nil c rest)]
    have hrest : Clean rest := fun hmem => (clean_append h).2 (List.mem_cons_of_mem c hmem)
    exact textAt_start hrest

end SnmpB.CString
