import Mathlib.Data.List.Basic

/-! # Scanning with a toggling delimiter

One left-to-right scan that is inside or outside and toggles at every delimiter.
A character is marked when the scan is inside before it or it is a delimiter.
-/
namespace SnmpB.ToggleScan

variable {α : Type*} [DecidableEq α] (delim : α)

def scan : Bool → List α → List Bool × Bool
  | inside, [] => ([], inside)
  | inside, c :: cs =>
    let rest := scan (if c = delim then !inside else inside) cs
    ((inside || decide (c = delim)) :: rest.1, rest.2)

def marks (inside : Bool) (text : List α) : List Bool := (scan delim inside text).1

def final (inside : Bool) (text : List α) : Bool := (scan delim inside text).2

variable {delim}

@[simp] theorem marks_nil (inside : Bool) : marks delim inside [] = [] := rfl

@[simp] theorem final_nil (inside : Bool) : final delim inside [] = inside := rfl

theorem marks_delim (inside : Bool) (text : List α) :
    marks delim inside (delim :: text) = true :: marks delim (!inside) text := by
  simp [marks, scan]

theorem final_delim (inside : Bool) (text : List α) :
    final delim inside (delim :: text) = final delim (!inside) text := by
  simp [final, scan]

theorem marks_other {c : α} (hc : c ≠ delim) (inside : Bool) (text : List α) :
    marks delim inside (c :: text) = inside :: marks delim inside text := by
  simp [marks, scan, hc]

theorem final_other {c : α} (hc : c ≠ delim) (inside : Bool) (text : List α) :
    final delim inside (c :: text) = final delim inside text := by
  simp [final, scan, hc]

@[simp] theorem marks_length (inside : Bool) (text : List α) :
    (marks delim inside text).length = text.length := by
  induction text generalizing inside with
  | nil => rfl
  | cons c text ih => simpa [marks, scan] using ih _

theorem marks_append (inside : Bool) (text more : List α) :
    marks delim inside (text ++ more) =
      marks delim inside text ++ marks delim (final delim inside text) more := by
  induction text generalizing inside with
  | nil => rfl
  | cons c text ih => simpa [marks, final, scan] using ih _

theorem final_append (inside : Bool) (text more : List α) :
    final delim inside (text ++ more) = final delim (final delim inside text) more := by
  induction text generalizing inside with
  | nil => rfl
  | cons c text ih => simpa [final, scan] using ih _

theorem marks_free {text : List α} (h : delim ∉ text) (inside : Bool) :
    marks delim inside text = List.replicate text.length inside := by
  induction text with
  | nil => rfl
  | cons c text ih =>
    obtain ⟨hc, htext⟩ := List.ne_and_not_mem_of_not_mem_cons h
    rw [marks_other hc.symm, ih htext]
    rfl

theorem final_free {text : List α} (h : delim ∉ text) (inside : Bool) :
    final delim inside text = inside := by
  induction text with
  | nil => rfl
  | cons c text ih =>
    obtain ⟨hc, htext⟩ := List.ne_and_not_mem_of_not_mem_cons h
    exact (final_other hc.symm inside text).trans (ih htext)

/-- A delimited word with both of its delimiters. -/
theorem marks_word {pre mid : List α} (hpre : delim ∉ pre) (hmid : delim ∉ mid) (post : List α) :
    marks delim false (pre ++ delim :: (mid ++ delim :: post)) =
      List.replicate pre.length false ++ List.replicate (mid.length + 2) true ++
        marks delim false post := by
  have hone : List.replicate (mid.length + 2) true =
      true :: (List.replicate mid.length true ++ [true]) := by
    rw [← List.replicate_succ', ← List.replicate_succ]
  rw [marks_append, marks_free hpre, final_free hpre, marks_delim, marks_append, Bool.not_false,
    marks_free hmid, final_free hmid, marks_delim, hone]
  simp only [List.append_assoc, List.cons_append, List.nil_append, Bool.not_true]

theorem final_word {pre mid : List α} (hpre : delim ∉ pre) (hmid : delim ∉ mid) (post : List α) :
    final delim false (pre ++ delim :: (mid ++ delim :: post)) = final delim false post := by
  rw [final_append, final_free hpre, final_delim, final_append, final_free hmid,
    final_delim, Bool.not_false, Bool.not_true]

/-- A word whose closing delimiter is missing. -/
theorem marks_open {pre post : List α} (hpre : delim ∉ pre) (hpost : delim ∉ post) :
    marks delim false (pre ++ delim :: post) =
      List.replicate pre.length false ++ List.replicate (post.length + 1) true := by
  rw [marks_append, marks_free hpre, final_free hpre, marks_delim, Bool.not_false,
    marks_free hpost, List.replicate_succ]

theorem final_open {pre post : List α} (hpre : delim ∉ pre) (hpost : delim ∉ post) :
    final delim false (pre ++ delim :: post) = true := by
  rw [final_append, final_free hpre, final_delim, Bool.not_false, final_free hpost]

/-- A text is free of the delimiter or splits at its first occurrence. -/
theorem free_or_split (delim : α) (text : List α) :
    delim ∉ text ∨ ∃ pre post, text = pre ++ delim :: post ∧ delim ∉ pre := by
  by_cases h : delim ∈ text
  · obtain ⟨pre, post, hsplit, hpre⟩ := List.eq_append_cons_of_mem h
    exact Or.inr ⟨pre, post, hsplit, hpre⟩
  · exact Or.inl h

end SnmpB.ToggleScan
