import SnmpB.Library.Search

/-! # Replacing all in the MIB editor

`ExecuteReplaceAll` calls `Replace` until its find fails. What `Replace` inserts
stays before the cursor, so a backward search goes through it again.
-/
namespace SnmpB.Editor

/-- How characters compare without case, and which of them are part of a word. -/
structure Unicode where
  toCaseFolded : Char → Char
  isLetterOrNumber : Char → Bool

structure FindFlags where
  findWholeWords : Bool
  findCaseSensitively : Bool
  findBackward : Bool
  deriving DecidableEq

/-- The widgets of the replace dialog. -/
structure ReplaceDialog where
  comboFind : List Char
  comboReplace : List Char
  checkWords : Bool
  checkCase : Bool
  checkBackward : Bool

/-- The document around the selection of its text cursor. -/
structure TextEdit where
  before : List Char
  selected : List Char
  after : List Char
  deriving DecidableEq

structure MibEditor where
  mibFile : TextEdit
  ff : FindFlags
  findStrings : List (List Char)
  findString : List Char
  replaceStrings : List (List Char)
  replaceString : List Char

namespace TextEdit

def text (e : TextEdit) : List Char := e.before ++ e.selected ++ e.after

/-- The document in the direction of a search. -/
def toward (backward : Bool) (e : TextEdit) : Zipper Char :=
  if backward then ⟨e.after, e.selected.reverse, e.before.reverse⟩
  else ⟨e.before.reverse, e.selected, e.after⟩

def ofZipper (backward : Bool) (z : Zipper Char) : TextEdit :=
  if backward then ⟨z.ahead.reverse, z.selected.reverse, z.behind⟩
  else ⟨z.behind.reverse, z.selected, z.ahead⟩

def key (u : Unicode) (caseSensitive : Bool) : Char → Char :=
  if caseSensitive then id else u.toCaseFolded

/-- `QTextDocument::find` from the end of the selection, or backward from its start. An empty string is
not found. -/
def search (u : Unicode) (expression : List Char) (ff : FindFlags) : Search Char Char where
  key := key u ff.findCaseSensitively
  letter := u.isLetterOrNumber
  whole := ff.findWholeWords
  pattern := if ff.findBackward then expression.reverse else expression

def find (u : Unicode) (expression : List Char) (ff : FindFlags) (e : TextEdit) : Option TextEdit :=
  ((search u expression ff).find (e.toward ff.findBackward)).map (ofZipper ff.findBackward)

/-- There is a selection, and it compares equal to a text. -/
def selects (u : Unicode) (expression : List Char) (caseSensitive : Bool) (e : TextEdit) : Bool :=
  !e.selected.isEmpty &&
    decide (e.selected.map (key u caseSensitive) = expression.map (key u caseSensitive))

/-- The cursor is left behind the text. -/
def insertText (text : List Char) (e : TextEdit) : TextEdit := ⟨e.before ++ text, [], e.after⟩

end TextEdit

namespace MibEditor

def noteString (strings : List (List Char)) (string : List Char) : List (List Char) :=
  if string ∈ strings then strings else strings ++ [string]

variable (u : Unicode) (d : ReplaceDialog)

/-- What `Replace` does before its find. -/
def doReplace (e : TextEdit) : TextEdit :=
  if e.selects u d.comboFind d.checkCase then e.insertText d.comboReplace else e

/-- Also tells whether the find failed. The cursor of the widget is never null. -/
def replace (doreplace : Bool) (m : MibEditor) : MibEditor × Bool :=
  let ff : FindFlags := ⟨d.checkWords, d.checkCase, d.checkBackward⟩
  let mibFile := if doreplace then doReplace u d m.mibFile else m.mibFile
  let tc := mibFile.find u d.comboFind ff
  (⟨tc.getD mibFile, ff, noteString m.findStrings d.comboFind, d.comboFind,
    noteString m.replaceStrings d.comboReplace, d.comboReplace⟩, tc.isNone)

/-- The text in the direction of the search at each replacement, and at each find. -/
def logged (e : TextEdit) (log : Log Char) : Log Char where
  replaced := log.replaced ++
    if e.selects u d.comboFind d.checkCase then [(e.toward d.checkBackward).ahead] else []
  searched := log.searched ++ [((doReplace u d e).toward d.checkBackward).ahead]

/-- A pass of the loop of `ExecuteReplaceAll`. -/
def replaceAllStep : MibEditor × Log Char → (MibEditor × Log Char) ⊕ (MibEditor × Log Char)
  | (m, log) =>
    match m.replace u d true with
    | (m', false) => .inl (m', logged u d m.mibFile log)
    | (m', true) => .inr (m', logged u d m.mibFile log)

def executeReplaceAll (fuel : ℕ) (m : MibEditor) : Option (MibEditor × Log Char) :=
  Loop.run (replaceAllStep u d) fuel (m, ⟨[], []⟩)

/-! ## The loop as a search -/

def searchOf : Search Char Char :=
  TextEdit.search u d.comboFind ⟨d.checkWords, d.checkCase, d.checkBackward⟩

/-- Behind a backward search stays nothing of what is inserted. -/
def insertionOf : Insertion Char :=
  if d.checkBackward then ⟨[], d.comboReplace.reverse⟩ else ⟨d.comboReplace, []⟩

/-- The matches of the text, the selected one first, then those in the direction of the search. -/
def textMatches (e : TextEdit) : List (Search.Found Char) := (searchOf u d).founds (e.toward d.checkBackward)

/-- The text with the replacement for each of its matches. -/
def replacedText (e : TextEdit) : List Char :=
  let z := e.toward d.checkBackward
  let text := ((searchOf u d).start z).reverse ++
    Search.substituted (insertionOf d).text (textMatches u d e) z.ahead
  if d.checkBackward then text.reverse else text

/-- All matches are replaced, each at its place in the original, and nothing else. -/
structure ReplacesEach (e : TextEdit) (m' : MibEditor) (log : Log Char) : Prop where
  text : m'.mibFile.text = replacedText u d e
  places : log.replaced = (textMatches u d e).map (·.rest)

/-- Each find searches what is left of the original text, and so none that was inserted. -/
def SearchesOriginal (e : TextEdit) (log : Log Char) : Prop :=
  log.searched = (searchOf u d).asked (e.toward d.checkBackward)

/-- What follows each match begins with a match where it did in the original, and no match begins in the
inserted text that lies ahead. -/
def Undisturbed (e : TextEdit) : Prop :=
  let q := searchOf u d
  let p := q.edge (q.start (e.toward d.checkBackward))
  q.Steady (insertionOf d) p p (textMatches u d e)

variable {u d}

@[simp] theorem toward_ofZipper (backward : Bool) (z : Zipper Char) :
    (TextEdit.ofZipper backward z).toward backward = z := by
  cases backward <;> simp [TextEdit.toward, TextEdit.ofZipper]

theorem toward_text (e : TextEdit) (backward : Bool) :
    (e.toward backward).text = if backward then e.text.reverse else e.text := by
  cases backward <;> simp [TextEdit.toward, TextEdit.text, Zipper.text]

theorem selects_eq (e : TextEdit) :
    e.selects u d.comboFind d.checkCase = (searchOf u d).hits (e.toward d.checkBackward).selected := by
  cases hbackward : d.checkBackward <;>
    simp [TextEdit.selects, Search.hits, searchOf, TextEdit.search, TextEdit.toward, hbackward]

theorem toward_doReplace (e : TextEdit) :
    (doReplace u d e).toward d.checkBackward =
      (searchOf u d).replace (insertionOf d) (e.toward d.checkBackward) := by
  rw [doReplace, Search.replace, selects_eq]
  split
  · cases hbackward : d.checkBackward <;>
      simp [TextEdit.insertText, TextEdit.toward, insertionOf, hbackward]
  · rfl

theorem logged_eq (e : TextEdit) (log : Log Char) :
    logged u d e log = (searchOf u d).logged (insertionOf d) (e.toward d.checkBackward) log := by
  rw [logged, Search.logged, selects_eq, toward_doReplace]

theorem replaceAllStep_toward (m : MibEditor) (log : Log Char) :
    (searchOf u d).pass (insertionOf d) (m.mibFile.toward d.checkBackward, log) =
      (replaceAllStep u d (m, log)).map (fun s => (s.1.mibFile.toward d.checkBackward, s.2))
        fun s => (s.1.mibFile.toward d.checkBackward, s.2) := by
  have hfind : (doReplace u d m.mibFile).find u d.comboFind ⟨d.checkWords, d.checkCase, d.checkBackward⟩ =
      ((searchOf u d).find ((searchOf u d).replace (insertionOf d) (m.mibFile.toward d.checkBackward))).map
        (TextEdit.ofZipper d.checkBackward) := by
    rw [← toward_doReplace]
    rfl
  rw [Search.pass, replaceAllStep, replace, if_pos rfl, hfind, logged_eq]
  cases (searchOf u d).find ((searchOf u d).replace (insertionOf d) (m.mibFile.toward d.checkBackward)) with
  | none => simp [toward_doReplace]
  | some z => simp

/-- Main lemma: the loop is the run of its search. -/
theorem executeReplaceAll_toward (fuel : ℕ) (m : MibEditor) :
    Loop.run ((searchOf u d).pass (insertionOf d)) fuel (m.mibFile.toward d.checkBackward, ⟨[], []⟩) =
      (executeReplaceAll u d fuel m).map fun s => (s.1.mibFile.toward d.checkBackward, s.2) :=
  Loop.run_map (fun s : MibEditor × Log Char => (s.1.mibFile.toward d.checkBackward, s.2)) _
    (fun s => replaceAllStep_toward s.1 s.2) fuel (m, ⟨[], []⟩)

/-- What is said of a run and of the text it leaves is said of the search. -/
theorem exists_run_iff (m : MibEditor) (P : Zipper Char → Log Char → Prop) :
    (∃ fuel m' log, executeReplaceAll u d fuel m = some (m', log) ∧
        P (m'.mibFile.toward d.checkBackward) log) ↔
      ∃ fuel z log, Loop.run ((searchOf u d).pass (insertionOf d)) fuel
        (m.mibFile.toward d.checkBackward, ⟨[], []⟩) = some (z, log) ∧ P z log := by
  constructor
  · rintro ⟨fuel, m', log, hrun, h⟩
    refine ⟨fuel, _, log, ?_, h⟩
    rw [executeReplaceAll_toward, hrun]
    rfl
  · rintro ⟨fuel, z, log, hrun, h⟩
    rw [executeReplaceAll_toward] at hrun
    obtain ⟨⟨m', log'⟩, hrun', hsame⟩ := Option.map_eq_some_iff.mp hrun
    cases hsame
    exact ⟨fuel, m', log', hrun', h⟩

theorem replacesEach_iff {e : TextEdit} {m' : MibEditor} {log : Log Char} :
    ReplacesEach u d e m' log ↔
      (m'.mibFile.toward d.checkBackward).text = ((searchOf u d).start (e.toward d.checkBackward)).reverse ++
          Search.substituted (insertionOf d).text (textMatches u d e) (e.toward d.checkBackward).ahead ∧
        log.replaced = (textMatches u d e).map (·.rest) := by
  have htext : ReplacesEach u d e m' log ↔
      m'.mibFile.text = replacedText u d e ∧ log.replaced = (textMatches u d e).map (·.rest) :=
    ⟨fun h => ⟨h.text, h.places⟩, fun h => ⟨h.1, h.2⟩⟩
  rw [htext, replacedText, toward_text]
  cases d.checkBackward with
  | true => rw [if_pos rfl, if_pos rfl, List.reverse_eq_iff]
  | false => rfl

theorem left_eq_nil_iff : (insertionOf d).left = [] ↔ d.checkBackward = false ∨ d.comboReplace = [] := by
  cases hbackward : d.checkBackward <;> simp [insertionOf, hbackward]

variable (u d)

/-- The loop ends with each match replaced exactly if no replacement disturbs the matches behind it. -/
theorem executeReplaceAll_each_iff (m : MibEditor) :
    (∃ fuel m' log, executeReplaceAll u d fuel m = some (m', log) ∧ ReplacesEach u d m.mibFile m' log) ↔
      Undisturbed u d m.mibFile := by
  simp only [replacesEach_iff]
  exact (exists_run_iff m fun z log => z.text = _ ∧ log.replaced = _).trans (Search.replaces_iff _)

/-- A backward search never ends if the replacement has the string to find in it. -/
theorem executeReplaceAll_never_ends {d : ReplaceDialog} {m : MibEditor} {pre piece post : List Char}
    (hbackward : d.checkBackward = true) (hwords : d.checkWords = false)
    (hreplace : d.comboReplace = pre ++ piece ++ post) (hpiece : piece ≠ [])
    (hfind : piece.map (TextEdit.key u d.checkCase) = d.comboFind.map (TextEdit.key u d.checkCase))
    (hmatch : textMatches u d m.mibFile ≠ []) (fuel : ℕ) : executeReplaceAll u d fuel m = none := by
  have hleft : (insertionOf d).left = post.reverse ++ piece.reverse ++ pre.reverse := by
    simp [insertionOf, hbackward, hreplace]
  have hhits : (searchOf u d).hits piece.reverse = true := by
    simp [Search.hits, searchOf, TextEdit.search, hbackward, hpiece, hfind]
  have hends := Search.not_terminates_of_founds ⟨[], []⟩ hleft hhits hwords hmatch
  cases hrun : executeReplaceAll u d fuel m with
  | none => rfl
  | some r =>
    refine absurd ⟨fuel, (r.1.mibFile.toward d.checkBackward, r.2), ?_⟩ hends
    rw [executeReplaceAll_toward, hrun]
    rfl

end MibEditor

/-- Main result: the loop ends with each match replaced exactly if no replacement disturbs the matches behind
it, and no find goes through inserted text exactly if in addition nothing is inserted ahead of one. -/
theorem executeReplaceAll_iff (u : Unicode) (d : ReplaceDialog) (m : MibEditor) :
    ((∃ fuel m' log, m.executeReplaceAll u d fuel = some (m', log) ∧
        MibEditor.ReplacesEach u d m.mibFile m' log) ↔ MibEditor.Undisturbed u d m.mibFile) ∧
      ((∃ fuel m' log, m.executeReplaceAll u d fuel = some (m', log) ∧
          MibEditor.ReplacesEach u d m.mibFile m' log ∧ MibEditor.SearchesOriginal u d m.mibFile log) ↔
        MibEditor.Undisturbed u d m.mibFile ∧
          (d.checkBackward = false ∨ d.comboReplace = [] ∨ MibEditor.textMatches u d m.mibFile = [])) := by
  refine ⟨MibEditor.executeReplaceAll_each_iff u d m, ?_⟩
  simp only [MibEditor.replacesEach_iff, and_assoc, MibEditor.SearchesOriginal]
  rw [← or_assoc, ← MibEditor.left_eq_nil_iff]
  exact (MibEditor.exists_run_iff m fun z log => z.text = _ ∧ log.replaced = _ ∧ log.searched = _).trans
    (Search.replaces_unsearched_iff _)

/-- "a" is replaced by "ab" backward from the end of "a". -/
theorem executeReplaceAll_backward_never_ends :
    ¬ ∀ (u : Unicode) (d : ReplaceDialog) (m : MibEditor),
      ∃ fuel m' log, m.executeReplaceAll u d fuel = some (m', log) ∧
        MibEditor.ReplacesEach u d m.mibFile m' log ∧ MibEditor.SearchesOriginal u d m.mibFile log := by
  intro h
  let u : Unicode := ⟨Char.toLower, Char.isAlphanum⟩
  let d : ReplaceDialog := ⟨['a'], ['a', 'b'], false, true, true⟩
  let m : MibEditor := ⟨⟨['a'], [], []⟩, ⟨false, true, true⟩, [], [], [], []⟩
  have hmatch : MibEditor.textMatches u d m.mibFile ≠ [] :=
    fun hnone => absurd (Search.occurrences_eq_nil hnone) (by decide)
  obtain ⟨fuel, m', log, hrun, -⟩ := h u d m
  have hreplace : d.comboReplace = [] ++ ['a'] ++ ['b'] := rfl
  have hends := MibEditor.executeReplaceAll_never_ends u rfl rfl hreplace (List.cons_ne_nil _ _) rfl hmatch fuel
  rw [hends] at hrun
  cases hrun

end SnmpB.Editor
