import SnmpB.Agent.Resolution

/-! # The members of `Agent` and the texts it displays

One set of counters, one output buffer, one root OID and one stop flag serve
every query. The buffer is kept as the pieces appended to it, so that the line
printed for a counted object stays recognizable.
-/
namespace SnmpB.Agent
open Mib

inductive LineOutcome
  | value (text : String)
  | error (text : String)
  deriving DecidableEq, Repr

structure ObjectLine where
  number : ℕ
  name : String
  outcome : LineOutcome
  deriving DecidableEq, Repr

/-- A piece appended to `msg`. -/
inductive Chunk
  | loading (mod : String)
  | line (l : ObjectLine)
  | text (html : String)
  deriving DecidableEq, Repr

def ObjectLine.html (l : ObjectLine) : String :=
  match l.outcome with
  | .value text => s!"{l.number}: {l.name}    <font color=blue>{text}</font>"
  | .error text =>
    s!"<font color=red>ERROR on varbind #</font>{l.number}: {l.name}" ++
      s!"<font color=red><br>{text}</font><br>"

def Chunk.html : Chunk → String
  | .loading mod => s!"[<font color=red>Loading {mod}</font>]<br>"
  | .line l => l.html
  | .text html => html

def linesOf (msg : List Chunk) : List ObjectLine :=
  msg.filterMap fun
    | .line l => some l
    | _ => none

@[simp] theorem linesOf_append (msg msg' : List Chunk) : linesOf (msg ++ msg') = linesOf msg ++ linesOf msg' :=
  List.filterMap_append

@[simp] theorem linesOf_nil : linesOf [] = [] := rfl

@[simp] theorem linesOf_text (html : String) : linesOf [.text html] = [] := rfl

@[simp] theorem linesOf_line (l : ObjectLine) : linesOf [.line l] = [l] := rfl

@[simp] theorem linesOf_loading (mods : List String) : linesOf (mods.map .loading) = [] := by
  induction mods with
  | nil => rfl
  | cons mod mods ih => exact ih

/-- What an agent profile gives a query; the address may fail to resolve. -/
structure AgentProfile where
  addressValid : Bool
  nonRepeaters : ℕ
  maxRepetitions : ℕ
  deriving DecidableEq, Repr

/-- The members of `Agent` that queries share, with the widgets they write to. -/
structure AgentState where
  snmp : Bool
  profile : Option AgentProfile
  mib : MibState
  requests : ℕ
  objects : ℕ
  msg : List Chunk
  theoid : Oid
  stop : Bool
  vblist : List Vb
  query : List (List Chunk)
  walkInProgress : Bool
  actionStop : Bool

def AgentState.displayed (a : AgentState) : List ObjectLine := a.query.flatMap linesOf

inductive RequestKind
  | get | getNext | getBulk | set
  deriving DecidableEq, Repr

structure Request where
  kind : RequestKind
  vblist : List Vb
  nonRepeaters : ℕ
  maxRepetitions : ℕ
  deriving DecidableEq, Repr

/-- `get_bulk` with the parameters of the selected profile, or the defaults without one. -/
def AgentState.bulkRequest (a : AgentState) (vblist : List Vb) : Request :=
  { kind := .getBulk, vblist
    nonRepeaters := (a.profile.map (·.nonRepeaters)).getD 0
    maxRepetitions := (a.profile.map (·.maxRepetitions)).getD 10 }

/-- Rendering of values and of library errors, which is not interpreted here. -/
structure Printing where
  printableValue : SmiHandle → SmiNode → Vb → String
  vbPrintableValue : Vb → String
  errorMsg : ℤ → String

def toHtmlEscaped (text : String) : String :=
  String.ofList (text.toList.flatMap fun c =>
    if c = '<' then "&lt;".toList
    else if c = '>' then "&gt;".toList
    else if c = '&' then "&amp;".toList
    else if c = '"' then "&quot;".toList
    else [c])

end SnmpB.Agent
