import SnmpB.Editor.Highlighter
import Mathlib.Data.List.TakeWhile

/-! # Highlighting a document line by line

A line that begins outside a string is highlighted as the scan says. On a line
that begins inside one, a string that opens after the first quote is coloured
right only if it is the empty string.
-/
namespace SnmpB.Editor
open ToggleScan

theorem strings_setFormat_other {formats : List Format} {n : ℕ}
    (h : strings formats = List.replicate n false) {format : Format} (hformat : format ≠ .string)
    (start count : ℕ) :
    strings (setFormat formats start count format) = List.replicate n false := by
  obtain ⟨hlength, hnone⟩ := List.eq_replicate_iff.mp h
  rw [List.eq_replicate_iff]
  refine ⟨by simpa using hlength, fun b hb => ?_⟩
  obtain ⟨f, hf, rfl⟩ := List.mem_map.mp hb
  obtain ⟨i, hi, rfl⟩ := List.mem_mapIdx.mp hf
  split
  · exact decide_eq_false hformat
  · exact hnone _ (List.mem_map_of_mem (List.getElem_mem hi))

/-- The loop over the matches of a rule ends, as every match lies behind the one before. -/
theorem ruleStep_run (rule : MibHighlightingRule) (text : List Char) (fuel : ℕ) :
    ∀ {start : ℕ} {formats : List Format}, strings formats = List.replicate text.length false →
      start ≤ text.length → text.length + 2 ≤ fuel + start →
      ∃ formats', Loop.run (ruleStep rule text) fuel (formats, rule.indexIn text start) =
        some formats' ∧ strings formats' = List.replicate text.length false := by
  induction fuel with
  | zero =>
    intro start formats _ hle hfuel
    omega
  | succ fuel ih =>
    intro start formats h _ hfuel
    cases hmatch : rule.indexIn text start with
    | none => exact ⟨formats, rfl, h⟩
    | some m =>
      obtain ⟨index, length⟩ := m
      obtain ⟨hstart, hpos, hfit⟩ := rule.found text start index length hmatch
      exact ih (strings_setFormat_other h rule.other index length) hfit (by omega)

theorem applyRules (text : List Char) (rules : List MibHighlightingRule) :
    ∀ {formats : List Format}, strings formats = List.replicate text.length false →
      ∃ formats', rules.foldlM (applyRule text) formats = some formats' ∧
        strings formats' = List.replicate text.length false := by
  induction rules with
  | nil => exact fun h => ⟨_, rfl, h⟩
  | cons rule rules ih =>
    intro formats h
    obtain ⟨formats', hrule, h'⟩ :=
      ruleStep_run rule text (text.length + 2) h (Nat.zero_le _) (Nat.le_refl _)
    obtain ⟨formats'', hrules, h''⟩ := ih h'
    refine ⟨formats'', ?_, h''⟩
    rw [List.foldlM_cons, applyRule, hrule]
    exact hrules

/-- Quotes come in adjacent pairs. -/
def onlyEmptyStrings : List Char → Bool
  | [] => true
  | [c] => c ≠ quote
  | c :: d :: rest =>
    if c = quote then d = quote && onlyEmptyStrings rest else onlyEmptyStrings (d :: rest)

/-- Lone quotes are what the scan marks only where every string is empty. -/
theorem loneQuotes_eq_marks_iff (rest : List Char) :
    (loneQuotes rest = marks quote false rest ∧ final quote false rest = false) ↔
      onlyEmptyStrings rest = true := by
  fun_induction onlyEmptyStrings rest with
  | case1 => simp [loneQuotes]
  | case2 c =>
    by_cases hc : c = quote
    · subst hc
      simp [final_delim]
    · simp [loneQuotes, marks_other hc, final_other hc, hc]
  | case3 d rest ih =>
    rw [marks_delim, final_delim, Bool.not_false]
    by_cases hd : d = quote
    · subst hd
      rw [marks_delim, final_delim, Bool.not_true, Bool.and_eq_true, ← ih]
      simp [loneQuotes]
    · simp [loneQuotes, marks_other hd, hd]
  | case4 c d rest hc ih =>
    rw [marks_other hc, final_other hc, ← ih]
    simp [loneQuotes, hc]

/-- After the first quote of the line there are only empty strings. -/
def ReopensOnlyEmpty (line : List Char) : Prop :=
  onlyEmptyStrings (line.dropWhile (· ≠ quote)).tail = true

instance : DecidablePred ReopensOnlyEmpty := fun line =>
  inferInstanceAs (Decidable (onlyEmptyStrings (line.dropWhile (· ≠ quote)).tail = true))

theorem reopensOnlyEmpty_free {line : List Char} (h : quote ∉ line) : ReopensOnlyEmpty line := by
  have hdrop : line.dropWhile (· ≠ quote) = [] := by
    rw [List.dropWhile_eq_nil_iff]
    exact fun c hc => decide_eq_true (ne_of_mem_of_not_mem hc h)
  rw [ReopensOnlyEmpty, hdrop]
  rfl

theorem reopensOnlyEmpty_split {pre : List Char} (h : quote ∉ pre) (post : List Char) :
    ReopensOnlyEmpty (pre ++ quote :: post) ↔ onlyEmptyStrings post = true := by
  have hdrop : (pre ++ quote :: post).dropWhile (· ≠ quote) = quote :: post := by
    rw [List.dropWhile_append_of_pos fun c hc => decide_eq_true (ne_of_mem_of_not_mem hc h)]
    simp
  rw [ReopensOnlyEmpty, hdrop, List.tail_cons]

/-- The line is coloured, and the state is left, as the scan from `inside` says. -/
def AgreesOnLine (inside : Bool) (line : List Char) (block : Block) : Prop :=
  strings block.formats = marks quote inside line ∧ block.state = blockState (final quote inside line)

theorem highlightStrings_outside {text : List Char} {previous : ℤ} (hprevious : previous ≠ 1)
    {formats : List Format} (h : strings formats = List.replicate text.length false) :
    ∃ block, highlightStrings text previous formats = some block ∧ AgreesOnLine false text block := by
  have hinit : StringLoop.init text previous formats = ⟨indexOf text 0, 1, 0, formats⟩ :=
    if_pos hprevious
  have hpending : Pending text [] text [] 1 (.init text previous formats) := by
    rw [hinit]
    exact ⟨rfl, rfl, rfl, rfl, rfl, h⟩
  exact run_outside hprevious text hpending (Nat.le_refl _)

/-- A string that does not end on the line. -/
theorem highlightStrings_through {text : List Char} (hfree : quote ∉ text) {formats : List Format}
    (h : strings formats = List.replicate text.length false) :
    ∃ block, highlightStrings text 1 formats = some block ∧ AgreesOnLine true text block := by
  have hend : indexOf ([] ++ text) [].length = none := indexOf_free hfree
  have hstep : stringStep text 1 ⟨some 0, 0, 0, formats⟩ = _ := stringStep_open rfl hend
  have hstop : indexOf text (0 + (text.length - 0)) = none := by
    rw [Nat.zero_add]
    exact indexOf_end text
  refine ⟨_, (run_inl hstep (text.length + 1)).trans (run_stopped hstop text.length), ?_, ?_⟩
  · have hset := strings_setFormat (a := []) (b := List.replicate text.length false) (c := [])
      (by simpa using h) rfl (List.length_replicate ..)
    rw [marks_free hfree]
    simpa using hset
  · rw [final_free hfree]
    rfl

/-- The first quote closes the string the line began in. -/
theorem highlightStrings_closing {pre post : List Char} (hpre : quote ∉ pre) {formats : List Format}
    (h : strings formats = List.replicate (pre ++ quote :: post).length false) :
    ∃ block, highlightStrings (pre ++ quote :: post) 1 formats = some block ∧
      strings block.formats = List.replicate (pre.length + 1) true ++ loneQuotes post ∧
      block.state = 0 := by
  have hend : indexOf (pre ++ quote :: post) (0 + 0) = some pre.length := by
    have hfirst : indexOf ([] ++ (pre ++ quote :: post)) [].length = _ := indexOf_split post hpre
    rwa [List.length_nil, Nat.zero_add] at hfirst
  have hstep : stringStep (pre ++ quote :: post) 1 ⟨some 0, 0, 0, formats⟩ = _ :=
    stringStep_closed rfl hend
  have hlength : (pre ++ quote :: post).length = pre.length + 1 + post.length := by
    simp only [List.length_append, List.length_cons]
    omega
  rw [hlength, List.replicate_add] at h
  have hset : strings (setFormat formats 0 (pre.length - 0 + 1) .string) =
      List.replicate (pre.length + 1) true ++ List.replicate post.length false :=
    strings_setFormat (a := []) h rfl (by simp)
  have hpending : Pending (pre ++ quote :: post) (pre ++ [quote]) post
      (List.replicate (pre.length + 1) true) 0 ⟨indexOf (pre ++ quote :: post)
        (0 + (pre.length - 0 + 1)), 0, 0, setFormat formats 0 (pre.length - 0 + 1) .string⟩ :=
    ⟨by simp, by simp, rfl, rfl, by simp, hset⟩
  obtain ⟨block, hrun, hblock⟩ := run_inside post hpending
    (show post.length + 1 ≤ (pre ++ quote :: post).length + 1 by omega)
  exact ⟨block, (run_inl hstep _).trans hrun, hblock⟩

theorem agreesOnLine_closing {pre post : List Char} (hpre : quote ∉ pre) {block : Block}
    (hstrings : strings block.formats = List.replicate (pre.length + 1) true ++ loneQuotes post)
    (hstate : block.state = 0) :
    AgreesOnLine true (pre ++ quote :: post) block ↔ ReopensOnlyEmpty (pre ++ quote :: post) := by
  have hmarks : marks quote true (pre ++ quote :: post) =
      List.replicate (pre.length + 1) true ++ marks quote false post := by
    rw [marks_append, marks_free hpre, final_free hpre, marks_delim, Bool.not_true,
      List.replicate_succ', List.append_assoc]
    rfl
  have hfinal : final quote true (pre ++ quote :: post) = final quote false post := by
    rw [final_append, final_free hpre, final_delim, Bool.not_true]
  have hzero : (0 = blockState (final quote false post)) ↔ final quote false post = false := by
    cases final quote false post <;> decide
  rw [reopensOnlyEmpty_split hpre, ← loneQuotes_eq_marks_iff, AgreesOnLine, hstrings, hstate, hmarks,
    hfinal, hzero, List.append_cancel_left_eq]

/-- A line that begins inside a string is right exactly if what reopens on it is empty. -/
theorem highlightStrings_inside {text : List Char} {formats : List Format}
    (h : strings formats = List.replicate text.length false) :
    ∃ block, highlightStrings text 1 formats = some block ∧
      block.formats.length = text.length ∧ (AgreesOnLine true text block ↔ ReopensOnlyEmpty text) := by
  obtain hfree | ⟨pre, post, rfl, hpre⟩ := free_or_split quote text
  · obtain ⟨block, hrun, hagrees⟩ := highlightStrings_through hfree h
    refine ⟨block, hrun, ?_, fun _ => reopensOnlyEmpty_free hfree, fun _ => hagrees⟩
    rw [← strings_length, hagrees.1, marks_length]
  · obtain ⟨block, hrun, hstrings, hstate⟩ := highlightStrings_closing hpre h
    refine ⟨block, hrun, ?_, agreesOnLine_closing hpre hstrings hstate⟩
    rw [← strings_length, hstrings]
    simp [loneQuotes]
    omega

/-- The state `previous` stands for `inside`; -1, before the first line, counts as outside. -/
def Stands (previous : ℤ) (inside : Bool) : Prop := previous = 1 ↔ inside = true

theorem stands_blockState (inside : Bool) : Stands (blockState inside) inside := by
  cases inside <;> simp [Stands, blockState]

/-- One line, from any state: the only lines that go wrong begin inside a string. -/
theorem highlightBlock_iff (rules : List MibHighlightingRule) {previous : ℤ} {inside : Bool}
    (hprevious : Stands previous inside) (line : List Char) :
    ∃ block, highlightBlock rules previous line = some block ∧ block.formats.length = line.length ∧
      (AgreesOnLine inside line block ↔ (inside = true → ReopensOnlyEmpty line)) := by
  have hplain : strings (List.replicate line.length Format.none) =
      List.replicate line.length false := by
    rw [strings, List.map_replicate]
    rfl
  obtain ⟨formats, hrules, hformats⟩ := applyRules line rules hplain
  rw [highlightBlock, hrules, Option.bind_some]
  cases inside with
  | false =>
    have hne : previous ≠ 1 := fun h => Bool.false_ne_true (hprevious.mp h)
    obtain ⟨block, hrun, hagrees⟩ := highlightStrings_outside hne hformats
    refine ⟨block, hrun, ?_, ?_⟩
    · rw [← strings_length, hagrees.1, marks_length]
    · simp [hagrees]
  | true =>
    obtain rfl := hprevious.mpr rfl
    simpa using highlightStrings_inside hformats

/-- The blocks against one scan of all characters of the document, from `inside` on. Line
ends are not characters of a line and hold no quote. -/
def AgreesFrom (inside : Bool) (document : List (List Char)) (blocks : List Block) : Prop :=
  blocks.flatMap (strings ·.formats) = marks quote inside document.flatten ∧
  ∀ k < document.length, (blocks[k]?).map (·.state) =
    some (blockState (final quote inside (document.take (k + 1)).flatten))

instance (inside : Bool) (document : List (List Char)) (blocks : List Block) :
    Decidable (AgreesFrom inside document blocks) :=
  inferInstanceAs (Decidable (_ ∧ ∀ k < document.length, _))

/-- Lines that begin inside a string, as the scan counts, reopen only empty strings. -/
def SuitsFrom (inside : Bool) (document : List (List Char)) : Prop :=
  ∀ k (h : k < document.length),
    final quote inside (document.take k).flatten = true → ReopensOnlyEmpty document[k]

instance (inside : Bool) (document : List (List Char)) : Decidable (SuitsFrom inside document) :=
  Nat.decidableBallLT _ _

theorem agreesFrom_cons {inside : Bool} {line : List Char} {lines : List (List Char)} {block : Block}
    {blocks : List Block} (hlength : block.formats.length = line.length) :
    AgreesFrom inside (line :: lines) (block :: blocks) ↔
      AgreesOnLine inside line block ∧ AgreesFrom (final quote inside line) lines blocks := by
  have hmarks : (block :: blocks).flatMap (strings ·.formats) =
      marks quote inside (line :: lines).flatten ↔
      strings block.formats = marks quote inside line ∧
        blocks.flatMap (strings ·.formats) = marks quote (final quote inside line) lines.flatten := by
    rw [List.flatMap_cons, List.flatten_cons, marks_append]
    exact List.append_eq_append_iff_of_size_eq_left (by simp [hlength])
  rw [AgreesFrom, hmarks, List.length_cons, Nat.forall_lt_succ_left]
  simp only [List.getElem?_cons_zero, List.getElem?_cons_succ, List.take_succ_cons,
    List.take_zero, List.flatten_cons, List.flatten_nil, List.append_nil, final_append,
    Option.map_some, Option.some.injEq, AgreesOnLine, AgreesFrom]
  tauto

theorem suitsFrom_cons {inside : Bool} {line : List Char} {lines : List (List Char)} :
    SuitsFrom inside (line :: lines) ↔
      (inside = true → ReopensOnlyEmpty line) ∧ SuitsFrom (final quote inside line) lines := by
  constructor
  · intro h
    refine ⟨h 0 (Nat.zero_lt_succ _), fun k hk hinside => ?_⟩
    exact h (k + 1) (Nat.succ_lt_succ hk) (by simpa [final_append] using hinside)
  · rintro ⟨hline, hlines⟩ k hk hinside
    cases k with
    | zero => exact hline hinside
    | succ k => exact hlines k (Nat.lt_of_succ_lt_succ hk) (by simpa [final_append] using hinside)

theorem highlightFrom_iff (rules : List MibHighlightingRule) (document : List (List Char)) :
    ∀ {previous : ℤ} {inside : Bool}, Stands previous inside →
      ∃ blocks, highlightFrom rules previous document = some blocks ∧
        (AgreesFrom inside document blocks ↔ SuitsFrom inside document) := by
  induction document with
  | nil =>
    intro previous inside _
    refine ⟨[], rfl, ?_⟩
    simp [AgreesFrom, SuitsFrom]
  | cons line lines ih =>
    intro previous inside hprevious
    obtain ⟨block, hblock, hlength, hagrees⟩ := highlightBlock_iff rules hprevious line
    by_cases hline : inside = true → ReopensOnlyEmpty line
    · have hstate : Stands block.state (final quote inside line) := by
        rw [(hagrees.mpr hline).2]
        exact stands_blockState _
      obtain ⟨blocks, hblocks, hrest⟩ := ih hstate
      refine ⟨block :: blocks, by simp [highlightFrom, hblock, hblocks], ?_⟩
      rw [agreesFrom_cons hlength, suitsFrom_cons, hagrees, hrest]
    · -- the state this line leaves may be wrong: the rest only has to come to an end
      have hstate : Stands block.state (decide (block.state = 1)) := by simp [Stands]
      obtain ⟨blocks, hblocks, -⟩ := ih hstate
      refine ⟨block :: blocks, by simp [highlightFrom, hblock, hblocks], ?_⟩
      rw [agreesFrom_cons hlength, suitsFrom_cons, hagrees]
      simp only [hline, false_and]

abbrev AgreesWithScan (document : List (List Char)) (blocks : List Block) : Prop :=
  AgreesFrom false document blocks

abbrev SuitsHighlighter (document : List (List Char)) : Prop := SuitsFrom false document

/-- The highlighter agrees with the scan of the whole document exactly if every line that
begins inside a string reopens only empty strings. -/
theorem highlightDocument_agrees_iff (rules : List MibHighlightingRule)
    (document : List (List Char)) :
    ∃ blocks, highlightDocument rules document = some blocks ∧
      (AgreesWithScan document blocks ↔ SuitsHighlighter document) :=
  highlightFrom_iff rules document (by simp [Stands])

/-- The quotes of a comment are coloured as a string over it. -/
theorem highlightDocument_agrees_iff_comment :
    ∃ blocks, highlightDocument [commentRule] [['a', '-', '-', '"', 'b', '"', 'c'], ['"', 'd']] = some blocks ∧
      AgreesWithScan [['a', '-', '-', '"', 'b', '"', 'c'], ['"', 'd']] blocks := by
  obtain ⟨blocks, hblocks, hagrees⟩ := highlightDocument_agrees_iff [commentRule]
    [['a', '-', '-', '"', 'b', '"', 'c'], ['"', 'd']]
  exact ⟨blocks, hblocks, hagrees.mpr (by decide)⟩

/-- The second line closes a string and opens and closes another one, whose text stays
uncoloured. -/
theorem highlightDocument_reopened :
    ∃ blocks, highlightDocument [] [['"', 'a'], ['b', '"', ',', '"', 'c', '"']] = some blocks ∧
      ¬ AgreesWithScan [['"', 'a'], ['b', '"', ',', '"', 'c', '"']] blocks :=
  ⟨_, rfl, by decide⟩

end SnmpB.Editor
