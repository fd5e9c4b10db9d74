import Mathlib.Data.Int.Notation
import Mathlib.Data.List.Basic

/-! # Extracting the MIB modules of an RFC

`ExtractMIBfromRFC` reads the text line by line. A module begins with a line that
matches DEFINITIONS and ends with END outside a macro; its lines are remembered
in a temporary file, but for some lines around a page break. At the end of the
module they are cut and written to a file.
-/
namespace SnmpB.Editor.Rfc

abbrev Line := List Char

/-! ## Patterns

A part of a pattern yields what may be left behind it, the longest match first.
-/

def many (c : Char → Bool) : Line → List Line
  | [] => [[]]
  | x :: xs => if c x then many c xs ++ [x :: xs] else [x :: xs]

def text (s : List Char) (line : Line) : List Line := if s <+: line then [line.drop s.length] else []

def optional (s : List Char) (line : Line) : List Line := text s line ++ [line]

def isSpace (c : Char) : Bool := c == ' '
def isBlank (c : Char) : Bool := c == ' ' || c == '\t'

/-- `[A-Za-z0-9-]` -/
def isNameChar (c : Char) : Bool :=
  ('A' ≤ c && c ≤ 'Z') || ('a' ≤ c && c ≤ 'z') || ('0' ≤ c && c ≤ '9') || c == '-'

/-- `module_regexp`, with the name it captures. -/
def moduleRegexp (line : Line) : Option Line :=
  let ends := (many isBlank line).flatMap fun start => (many isNameChar start).flatMap fun rest =>
    let tails := (((many isSpace rest).flatMap (optional "PIB-".toList)).flatMap
      (text "DEFINITIONS".toList)).flatMap (many isSpace)
    let tails := ((((tails.flatMap (optional "::=".toList)).flatMap (many isSpace)).flatMap
      (optional "BEGIN".toList)).flatMap (many isSpace))
    (tails.filter (·.isEmpty)).map fun _ => start.take (start.length - rest.length)
  ends.head?

/-- `page_regexp`, anywhere in the line. -/
def pageRegexp (line : Line) : Bool :=
  line.tails.any fun start =>
    !((((text "[P".toList start ++ text "[p".toList start).flatMap (text "age ".toList)).flatMap
      (many fun c => c == 'i' || c == 'v' || ('0' ≤ c && c ≤ '9'))).flatMap (text "]".toList)).isEmpty

/-- `macro_regexp`. -/
def macroRegexp (line : Line) : Bool :=
  !((((((many isBlank line).flatMap (many isNameChar)).flatMap (many isSpace)).flatMap
    (text "MACRO".toList)).flatMap (many isSpace)).flatMap (text "::=".toList)).isEmpty

/-- `end_regexp`. -/
def endRegexp (line : Line) : Bool :=
  (((many isBlank line).flatMap (text "END".toList)).flatMap (many isBlank)).any (·.isEmpty)

/-- `blankline_regexp`, and what `blank_regexp` does not find anything in. -/
def blankLine (line : Line) : Bool := line.all isBlank

/-- `leadingspaces_regexp`. -/
def leadingSpaces (line : Line) : ℕ := (line.takeWhile isSpace).length

/-- `draft_regexp`. -/
def draftRegexp (line : Line) : Bool :=
  !(((many isSpace line).flatMap (text "Internet".toList)).flatMap
    fun rest => text " Draft".toList rest ++ text "-Draft".toList rest).isEmpty

/-! ## The state -/

/-- What becomes of the files of a module: the temporary file cannot be created, the file is
written, or it is skipped, as the user says or because it cannot be created. -/
inductive Prepared
  | abort | write | skip
  deriving DecidableEq, Repr

structure State where
  currentModule : Line
  skip : ℤ
  skipped : ℤ
  inMacro : Bool
  skipmibfile : Bool
  /-- How many modules have begun. -/
  started : ℕ
  tmpout : List Line
  files : List (Line × List Line)
  modules : List Line

def State.init : State := ⟨[], 0, 0, false, false, 0, [], [], []⟩

/-- The least column with text in it, of those below 99. -/
def stripOf (lines : List Line) : ℕ :=
  lines.foldl (fun strip line =>
    if blankLine line then strip
    else if leadingSpaces line < strip ∧ leadingSpaces line < line.length then leadingSpaces line
    else strip) 99

/-- "For each block of consecutive blank lines, remove all lines but one." -/
def cut (strip : ℕ) : ℕ → List Line → List Line
  | _, [] => []
  | num_bl, line :: lines =>
    if blankLine line then cut strip (num_bl + 1) lines
    else (if num_bl > 0 then [[]] else []) ++ line.drop strip :: cut strip 0 lines

namespace State

/-- "Start of module". A file without a name is the folder, which cannot be opened. -/
def startModule (prepare : ℕ → Prepared) (s : State) (line : Line) : Option State :=
  match moduleRegexp line with
  | none => some s
  | some name =>
    if prepare s.started = .abort then none
    else some { s with
      currentModule := name, skip := 9, skipped := -1, inMacro := false, tmpout := [], started := s.started + 1
      skipmibfile := prepare s.started = .skip || name.isEmpty }

/-- "At the end of a page we start the counter skipped to skip the next few lines." -/
def startSkipping (s : State) (line : Line) : State := if pageRegexp line then { s with skipped := 0 } else s

/-- "If we are skipping..." -/
def countSkipped (s : State) (line : Line) : State :=
  if s.skipped ≥ 0 then
    let skipped := s.skipped + 1
    if skipped ≥ s.skip then { s with skipped := -1 }
    else if skipped ≥ 4 ∧ !blankLine line then
      { s with skip := if skipped < s.skip then skipped else s.skip, skipped := -1 }
    else { s with skipped }
  else s

/-- "So, if we are not skipping and inside a module, remember the line." -/
def remember (s : State) (line : Line) : State :=
  if s.skipped = -1 ∧ s.currentModule.length > 0 then { s with tmpout := s.tmpout ++ [line] } else s

def noteMacro (s : State) (line : Line) : State := if macroRegexp line then { s with inMacro := true } else s

/-- Outside a module there is no temporary file to read, and none to write. -/
def closeModule (s : State) : State :=
  if s.skipmibfile then { s with currentModule := [], tmpout := [] }
  else
    { s with
      currentModule := [], tmpout := [], modules := s.modules ++ [s.currentModule]
      files :=
        if s.currentModule.isEmpty then s.files
        else s.files ++ [(s.currentModule, cut (stripOf s.tmpout) 0 s.tmpout)] }

/-- "End of module". -/
def endModule (s : State) (line : Line) : State :=
  if endRegexp line then if s.inMacro then { s with inMacro := false } else s.closeModule else s

def processLine (prepare : ℕ → Prepared) (s : State) (line : Line) : Option State :=
  if draftRegexp line then some s
  else
    (s.startModule prepare line).map fun s =>
      ((((s.startSkipping line).countSkipped line).remember line).noteMacro line).endModule line

/-- "Process each line", until the end or until a temporary file cannot be created. -/
def processLines (prepare : ℕ → Prepared) : State → List Line → State
  | s, [] => s
  | s, line :: lines =>
    match s.processLine prepare line with
    | none => s
    | some s => processLines prepare s lines

end State

/-- An aborted run returns before the message box, so that its list of modules is not shown. -/
def extractMIBfromRFC (prepare : ℕ → Prepared) (lines : List Line) : State :=
  State.init.processLines prepare lines

end SnmpB.Editor.Rfc
