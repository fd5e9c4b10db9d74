import Mathlib.Data.List.Infix
import SnmpB.Library.Loop
import SnmpB.Library.ToggleScan

/-! # The MIB highlighter

`highlightBlock` colours one line of the editor from the state the line above
left. The expressions of the other rules but the one for comments belong to the platform;
only where they match is used. The string pass runs last and is compared with one scan of the
whole document.
-/
namespace SnmpB.Editor
open ToggleScan

inductive Format
  | none
  | reservedWord
  | keyword
  | number
  | comment
  | character
  | enumeration
  | string
  deriving DecidableEq, Repr

/-- `indexIn` gives the position and the length of the first match from a position on. -/
structure MibHighlightingRule where
  indexIn : List Char → ℕ → Option (ℕ × ℕ)
  format : Format
  found : ∀ text start index length, indexIn text start = some (index, length) →
    start ≤ index ∧ 0 < length ∧ index + length ≤ text.length
  other : format ≠ .string

/-- `--[^\n]*`. -/
def commentIndexIn (text : List Char) (start : ℕ) : Option (ℕ × ℕ) :=
  ((text.drop start).tails.findIdx? (['-', '-'].isPrefixOf ·)).map fun i =>
    (start + i, 2 + ((text.drop (start + i + 2)).takeWhile (· ≠ '\n')).length)

def commentRule : MibHighlightingRule where
  indexIn := commentIndexIn
  format := .comment
  found := by
    intro text start index length h
    obtain ⟨i, hi, heq⟩ := Option.map_eq_some_iff.mp h
    obtain ⟨rfl, rfl⟩ := Prod.mk.inj heq
    obtain ⟨hlt, hdashes, -⟩ := List.findIdx?_eq_some_iff_getElem.mp hi
    rw [List.getElem_tails, List.drop_drop, List.isPrefixOf_iff_prefix] at hdashes
    have htwo := hdashes.length_le
    have hrest := (List.takeWhile_sublist (l := text.drop (start + i + 2)) (· ≠ '\n')).length_le
    simp only [List.length_drop, List.length_cons, List.length_nil] at htwo hrest
    exact ⟨Nat.le_add_right _ _, by omega, by omega⟩
  other := by decide

def quote : Char := '"'

/-- `text.indexOf(string_start, from)`. -/
def indexOf (text : List Char) (start : ℕ) : Option ℕ :=
  ((text.drop start).findIdx? (· = quote)).map (start + ·)

def setFormat (formats : List Format) (start count : ℕ) (format : Format) : List Format :=
  formats.mapIdx fun i f => if start ≤ i ∧ i < start + count then format else f

/-- A pass of the inner loop over the matches of one rule. -/
def ruleStep (rule : MibHighlightingRule) (text : List Char) :
    List Format × Option (ℕ × ℕ) → (List Format × Option (ℕ × ℕ)) ⊕ List Format
  | (formats, none) => .inr formats
  | (formats, some (index, length)) =>
    .inl (setFormat formats index length rule.format, rule.indexIn text (index + length))

def applyRule (text : List Char) (formats : List Format) (rule : MibHighlightingRule) :
    Option (List Format) :=
  Loop.run (ruleStep rule text) (text.length + 2) (formats, rule.indexIn text 0)

/-- The variables of the string loop; `startIndex` is `none` for -1. -/
structure StringLoop where
  startIndex : Option ℕ
  offset : ℕ
  currentBlockState : ℤ
  formats : List Format
  deriving DecidableEq

structure Block where
  formats : List Format
  state : ℤ
  deriving DecidableEq, Repr

/-- A pass of the string loop of `highlightBlock`. -/
def stringStep (text : List Char) (previous : ℤ) (l : StringLoop) : StringLoop ⊕ Block :=
  match l.startIndex with
  | none => .inr ⟨l.formats, l.currentBlockState⟩
  | some startIndex =>
    let endIndex := indexOf text (startIndex + l.offset)
    let currentBlockState := if endIndex = none then 1 else l.currentBlockState
    let stringLength := match endIndex with
      | none => text.length - startIndex
      | some endIndex => endIndex - startIndex + 1
    .inl
      { startIndex := indexOf text (startIndex + stringLength)
        -- on a line that begins inside a string the offset never becomes 1
        offset := if previous ≠ 1 then 1 else if currentBlockState = 1 then 0 else l.offset
        currentBlockState
        formats := setFormat l.formats startIndex stringLength .string }

def StringLoop.init (text : List Char) (previous : ℤ) (formats : List Format) : StringLoop :=
  if previous ≠ 1 then ⟨indexOf text 0, 1, 0, formats⟩ else ⟨some 0, 0, 0, formats⟩

def highlightStrings (text : List Char) (previous : ℤ) (formats : List Format) : Option Block :=
  Loop.run (stringStep text previous) (text.length + 2) (.init text previous formats)

def highlightBlock (rules : List MibHighlightingRule) (previous : ℤ) (text : List Char) :
    Option Block :=
  (rules.foldlM (applyRule text) (List.replicate text.length .none)).bind
    (highlightStrings text previous)

/-- Every line sees the state the previous line left; the first line sees -1. -/
def highlightFrom (rules : List MibHighlightingRule) : ℤ → List (List Char) → Option (List Block)
  | _, [] => some []
  | previous, line :: lines => do
    let block ← highlightBlock rules previous line
    let blocks ← highlightFrom rules block.state lines
    return block :: blocks

def highlightDocument (rules : List MibHighlightingRule) (document : List (List Char)) :
    Option (List Block) := highlightFrom rules (-1) document

def strings (formats : List Format) : List Bool := formats.map (· = .string)

@[simp] theorem strings_length (formats : List Format) : (strings formats).length = formats.length :=
  List.length_map _

@[simp] theorem setFormat_length (formats : List Format) (start count : ℕ) (format : Format) :
    (setFormat formats start count format).length = formats.length := List.length_mapIdx

theorem setFormat_segment (a b c : List Format) (format : Format) :
    setFormat (a ++ b ++ c) a.length b.length format =
      a ++ List.replicate b.length format ++ c := by
  apply List.ext_getElem
  · simp
  · intro i h h'
    simp only [setFormat, List.getElem_mapIdx, List.getElem_append, List.length_append,
      List.length_replicate, List.getElem_replicate]
    split_ifs <;> first | rfl | omega

/-- Colouring the middle segment as string marks exactly that segment. -/
theorem strings_setFormat {formats : List Format} {a b c : List Bool}
    (h : strings formats = a ++ b ++ c) {start count : ℕ} (ha : a.length = start)
    (hb : b.length = count) :
    strings (setFormat formats start count .string) = a ++ List.replicate count true ++ c := by
  obtain ⟨fab, fc, rfl, hab, rfl⟩ := List.map_eq_append_iff.mp h
  obtain ⟨fa, fb, rfl, rfl, rfl⟩ := List.map_eq_append_iff.mp hab
  rw [List.length_map] at ha hb
  subst ha hb
  rw [setFormat_segment]
  simp [strings]

theorem findIdx?_quote_eq_none {text : List Char} (h : quote ∉ text) :
    text.findIdx? (· = quote) = none := by
  rw [List.findIdx?_eq_none_iff]
  rintro c hc
  exact decide_eq_false (ne_of_mem_of_not_mem hc h)

theorem indexOf_free {done rest : List Char} (h : quote ∉ rest) :
    indexOf (done ++ rest) done.length = none := by
  simp [indexOf, findIdx?_quote_eq_none h]

theorem indexOf_split {done pre : List Char} (post : List Char) (h : quote ∉ pre) :
    indexOf (done ++ (pre ++ quote :: post)) done.length = some (done.length + pre.length) := by
  simp [indexOf, List.findIdx?_append, List.findIdx?_cons, findIdx?_quote_eq_none h]

/-- The state the highlighter stores for being inside a string or not. -/
def blockState (inside : Bool) : ℤ := if inside then 1 else 0

/-- A quote ends the string that starts at `startIndex`. -/
theorem stringStep_closed {text : List Char} {previous : ℤ} {l : StringLoop} {startIndex endIndex : ℕ}
    (h : l.startIndex = some startIndex)
    (hend : indexOf text (startIndex + l.offset) = some endIndex) :
    stringStep text previous l =
      .inl
        { startIndex := indexOf text (startIndex + (endIndex - startIndex + 1))
          offset := if previous ≠ 1 then 1 else if l.currentBlockState = 1 then 0 else l.offset
          currentBlockState := l.currentBlockState
          formats := setFormat l.formats startIndex (endIndex - startIndex + 1) .string } := by
  simp only [stringStep, h, hend, reduceCtorEq, ↓reduceIte]

/-- The string that starts at `startIndex` runs over the end of the line. -/
theorem stringStep_open {text : List Char} {previous : ℤ} {l : StringLoop} {startIndex : ℕ}
    (h : l.startIndex = some startIndex) (hend : indexOf text (startIndex + l.offset) = none) :
    stringStep text previous l =
      .inl
        { startIndex := indexOf text (startIndex + (text.length - startIndex))
          offset := if previous ≠ 1 then 1 else 0
          currentBlockState := 1
          formats := setFormat l.formats startIndex (text.length - startIndex) .string } := by
  simp only [stringStep, h, hend, ↓reduceIte]

theorem run_inl {text : List Char} {previous : ℤ} {l l' : StringLoop}
    (h : stringStep text previous l = .inl l') (fuel : ℕ) :
    Loop.run (stringStep text previous) (fuel + 1) l =
      Loop.run (stringStep text previous) fuel l' := by
  simp only [Loop.run, h]

theorem run_stopped {text : List Char} {previous : ℤ} {l : StringLoop} (h : l.startIndex = none)
    (fuel : ℕ) :
    Loop.run (stringStep text previous) (fuel + 1) l = some ⟨l.formats, l.currentBlockState⟩ := by
  simp only [Loop.run, stringStep, h]

/-- The head of the loop after `done` has been coloured, with `rest` to go. -/
structure Pending (text done rest : List Char) (colored : List Bool) (offset : ℕ)
    (l : StringLoop) : Prop where
  split : text = done ++ rest
  startIndex : l.startIndex = indexOf text done.length
  offset : l.offset = offset
  state : l.currentBlockState = 0
  length : colored.length = done.length
  formats : strings l.formats = colored ++ List.replicate rest.length false

theorem indexOf_end (text : List Char) : indexOf text text.length = none := by
  simp [indexOf]

/-- A segment of the line is coloured as string, the part before it is left alone. -/
theorem Pending.color {text done pre mid post : List Char} {colored : List Bool} {offset : ℕ}
    {l : StringLoop} (h : Pending text done (pre ++ mid ++ post) colored offset l) :
    strings (setFormat l.formats (done.length + pre.length) mid.length .string) =
      (colored ++ List.replicate pre.length false ++ List.replicate mid.length true) ++
        List.replicate post.length false := by
  have hformats : strings l.formats = (colored ++ List.replicate pre.length false) ++
      List.replicate mid.length false ++ List.replicate post.length false := by
    rw [h.formats, List.length_append, List.length_append, List.replicate_add, List.replicate_add]
    simp only [List.append_assoc]
  have hstart : (colored ++ List.replicate pre.length false).length = done.length + pre.length := by
    simp [h.length]
  exact strings_setFormat hformats hstart (List.length_replicate ..)

theorem Pending.startIndex_split {text done pre post : List Char} {colored : List Bool}
    {offset : ℕ} {l : StringLoop} (h : Pending text done (pre ++ quote :: post) colored offset l)
    (hpre : quote ∉ pre) : l.startIndex = some (done.length + pre.length) := by
  rw [h.startIndex, h.split]
  exact indexOf_split post hpre

/-- Without a further quote the loop ends out of a string. -/
theorem Pending.run_free {text done rest : List Char} {colored : List Bool} {offset : ℕ}
    {l : StringLoop} (h : Pending text done rest colored offset l) (hfree : quote ∉ rest)
    (previous : ℤ) (fuel : ℕ) :
    ∃ block, Loop.run (stringStep text previous) (fuel + 1) l = some block ∧
      strings block.formats = colored ++ List.replicate rest.length false ∧ block.state = 0 := by
  have hstop : l.startIndex = none := by
    rw [h.startIndex, h.split]
    exact indexOf_free hfree
  exact ⟨_, run_stopped hstop fuel, h.formats, h.state⟩

/-- A string that is closed on the line is coloured with both quotes. -/
theorem Pending.run_closed {text done pre mid post : List Char} {colored : List Bool}
    {l : StringLoop} (h : Pending text done (pre ++ quote :: (mid ++ quote :: post)) colored 1 l)
    (hpre : quote ∉ pre) (hmid : quote ∉ mid) {previous : ℤ} (hprevious : previous ≠ 1) (fuel : ℕ) :
    ∃ l', Loop.run (stringStep text previous) (fuel + 1) l =
        Loop.run (stringStep text previous) fuel l' ∧
      Pending text (done ++ pre ++ quote :: (mid ++ [quote])) post
        (colored ++ List.replicate pre.length false ++ List.replicate (mid.length + 2) true) 1 l' := by
  have hlen : (done ++ pre ++ [quote]).length = done.length + pre.length + l.offset := by
    rw [h.offset]
    simp only [List.length_append, List.length_singleton]
  have hend : indexOf text (done.length + pre.length + l.offset) =
      some (done.length + pre.length + l.offset + mid.length) := by
    have hsplit : text = (done ++ pre ++ [quote]) ++ (mid ++ quote :: post) := by
      rw [h.split]
      simp
    rw [← hlen, hsplit]
    exact indexOf_split post hmid
  have hcount : done.length + pre.length + l.offset + mid.length - (done.length + pre.length) + 1 =
      (quote :: (mid ++ [quote])).length := by
    rw [h.offset]
    simp only [List.length_cons, List.length_append, List.length_nil]
    omega
  have hsegment : pre ++ quote :: (mid ++ quote :: post) =
      pre ++ quote :: (mid ++ [quote]) ++ post := by simp
  refine ⟨_, run_inl (stringStep_closed (h.startIndex_split hpre) hend) fuel, ?_⟩
  rw [hsegment] at h
  constructor
  · rw [h.split]
    simp only [List.append_assoc]
  · rw [hcount]
    simp only [List.length_append, Nat.add_assoc]
  · exact if_pos hprevious
  · exact h.state
  · simp [h.length, Nat.add_assoc]
  · rw [hcount, h.color]
    simp

/-- A string left open is coloured to the end of the line. -/
theorem Pending.run_open {text done pre post : List Char} {colored : List Bool}
    {l : StringLoop} (h : Pending text done (pre ++ quote :: post) colored 1 l)
    (hpre : quote ∉ pre) (hpost : quote ∉ post) (previous : ℤ) (fuel : ℕ) :
    ∃ block, Loop.run (stringStep text previous) (fuel + 2) l = some block ∧
      strings block.formats =
        colored ++ List.replicate pre.length false ++ List.replicate (post.length + 1) true ∧
      block.state = 1 := by
  have hlen : (done ++ pre ++ [quote]).length = done.length + pre.length + l.offset := by
    rw [h.offset]
    simp only [List.length_append, List.length_singleton]
  have hend : indexOf text (done.length + pre.length + l.offset) = none := by
    have hsplit : text = (done ++ pre ++ [quote]) ++ post := by
      rw [h.split]
      simp
    rw [← hlen, hsplit]
    exact indexOf_free hpost
  have hcount : text.length - (done.length + pre.length) = (quote :: post).length := by
    rw [h.split]
    simp only [List.length_append]
    omega
  have hstop : done.length + pre.length + (text.length - (done.length + pre.length)) =
      text.length := by
    rw [h.split]
    simp only [List.length_append]
    omega
  have hsegment : pre ++ quote :: post = pre ++ quote :: post ++ [] := by simp
  refine ⟨_, (run_inl (stringStep_open (h.startIndex_split hpre) hend) (fuel + 1)).trans
    (run_stopped ?_ fuel), ?_, rfl⟩
  · rw [hstop]
    exact indexOf_end text
  · rw [hsegment] at h
    rw [hcount, h.color]
    simp

/-- On a line that begins outside the pass agrees with the scan. -/
theorem run_outside {text : List Char} {previous : ℤ} (hprevious : previous ≠ 1)
    (rest : List Char) :
    ∀ {done : List Char} {colored : List Bool} {l : StringLoop} {fuel : ℕ},
      Pending text done rest colored 1 l → rest.length + 2 ≤ fuel →
      ∃ block, Loop.run (stringStep text previous) fuel l = some block ∧
        strings block.formats = colored ++ marks quote false rest ∧
        block.state = blockState (final quote false rest) := by
  induction hn : rest.length using Nat.strong_induction_on generalizing rest with
  | _ n ih =>
    intro done colored l fuel h hfuel
    obtain ⟨fuel, rfl⟩ := Nat.exists_eq_add_of_le' (show 2 ≤ fuel by omega)
    obtain hfree | ⟨pre, post, rfl, hpre⟩ := free_or_split quote rest
    · rw [marks_free hfree, final_free hfree]
      exact h.run_free hfree previous (fuel + 1)
    · obtain hfree | ⟨mid, post, rfl, hmid⟩ := free_or_split quote post
      · rw [marks_open hpre hfree, final_open hpre hfree, ← List.append_assoc]
        exact h.run_open hpre hfree previous fuel
      · obtain ⟨l', hstep, hnext⟩ := h.run_closed hpre hmid hprevious (fuel + 1)
        subst hn
        simp only [List.length_append, List.length_cons] at hfuel ih
        obtain ⟨block, hrun, hstrings, hstate⟩ :=
          ih post.length (by omega) post rfl hnext (show post.length + 2 ≤ fuel + 1 by omega)
        rw [marks_word hpre hmid, final_word hpre hmid, ← List.append_assoc, ← List.append_assoc]
        exact ⟨block, hstep.trans hrun, hstrings, hstate⟩

/-- With the offset left at 0 an opening quote is found again as its own end. -/
theorem Pending.run_lone {text done pre post : List Char} {colored : List Bool} {l : StringLoop}
    (h : Pending text done (pre ++ quote :: post) colored 0 l) (hpre : quote ∉ pre) (fuel : ℕ) :
    ∃ l', Loop.run (stringStep text 1) (fuel + 1) l = Loop.run (stringStep text 1) fuel l' ∧
      Pending text (done ++ pre ++ [quote]) post
        (colored ++ List.replicate pre.length false ++ [true]) 0 l' := by
  have hstart := h.startIndex_split hpre
  have hend : indexOf text (done.length + pre.length + l.offset) =
      some (done.length + pre.length) := by
    have hsplit : text = (done ++ pre) ++ ([] ++ quote :: post) := by
      rw [h.split]
      simp
    rw [h.offset, Nat.add_zero, ← List.length_append, hsplit]
    exact indexOf_split post List.not_mem_nil
  have hcount : done.length + pre.length - (done.length + pre.length) + 1 = [quote].length := by
    simp
  have hsegment : pre ++ quote :: post = pre ++ [quote] ++ post := by simp
  refine ⟨_, run_inl (stringStep_closed hstart hend) fuel, ?_⟩
  rw [hsegment] at h
  constructor
  · rw [h.split]
    simp only [List.append_assoc]
  · rw [hcount]
    simp only [List.length_append, Nat.add_assoc]
  · simp [h.state, h.offset]
  · exact h.state
  · simp [h.length]
  · rw [hcount, h.color]
    simp

/-- What the pass colours after the first quote of a line that begins inside a string. -/
def loneQuotes (rest : List Char) : List Bool := rest.map (· = quote)

theorem loneQuotes_free {rest : List Char} (h : quote ∉ rest) :
    loneQuotes rest = List.replicate rest.length false := by
  rw [List.eq_replicate_iff]
  refine ⟨List.length_map _, fun b hb => ?_⟩
  obtain ⟨c, hc, rfl⟩ := List.mem_map.mp hb
  exact decide_eq_false (ne_of_mem_of_not_mem hc h)

theorem loneQuotes_split {pre : List Char} (hpre : quote ∉ pre) (post : List Char) :
    loneQuotes (pre ++ quote :: post) =
      List.replicate pre.length false ++ [true] ++ loneQuotes post := by
  rw [← loneQuotes_free hpre]
  simp [loneQuotes]

theorem run_inside {text : List Char} (rest : List Char) :
    ∀ {done : List Char} {colored : List Bool} {l : StringLoop} {fuel : ℕ},
      Pending text done rest colored 0 l → rest.length + 1 ≤ fuel →
      ∃ block, Loop.run (stringStep text 1) fuel l = some block ∧
        strings block.formats = colored ++ loneQuotes rest ∧ block.state = 0 := by
  induction hn : rest.length using Nat.strong_induction_on generalizing rest with
  | _ n ih =>
    intro done colored l fuel h hfuel
    obtain ⟨fuel, rfl⟩ := Nat.exists_eq_add_of_le' (show 1 ≤ fuel by omega)
    obtain hfree | ⟨pre, post, rfl, hpre⟩ := free_or_split quote rest
    · rw [loneQuotes_free hfree]
      exact h.run_free hfree 1 fuel
    · obtain ⟨l', hstep, hnext⟩ := h.run_lone hpre fuel
      subst hn
      simp only [List.length_append, List.length_cons] at hfuel ih
      obtain ⟨block, hrun, hstrings, hstate⟩ :=
        ih post.length (by omega) post rfl hnext (show post.length + 1 ≤ fuel by omega)
      rw [loneQuotes_split hpre, ← List.append_assoc, ← List.append_assoc]
      exact ⟨block, hstep.trans hrun, hstrings, hstate⟩

end SnmpB.Editor
