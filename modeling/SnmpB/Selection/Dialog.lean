import SnmpB.Library.Runs
import SnmpB.Selection.Encoding
import SnmpB.Mib.Module

/-! # The selection dialog

`MibSelection` with the widgets it reads and writes. The handlers run to their
end one after the other, and a combo box calls its handler from within `clear`,
`addItem` and `setCurrentIndex` whenever its current index changes.
-/
namespace SnmpB.Selection
open Agent Mib

structure Flags where
  set : Bool
  value : Bool
  type : Bool
  deriving DecidableEq, Repr

/-- The members of `MibSelection`, with the texts and entries its widgets show. -/
structure MibSelection where
  handle : SmiHandle
  flags : Flags
  vb : Vb
  type : Option SmiType
  syntaxText : String
  node : Option SmiNode
  oidLe : String
  syntaxCb : ℕ
  valCb : List (String × ℕ)
  valCbIndex : Option ℕ
  valCbConnected : Bool
  valLe : String
  valLeConnected : Bool
  validator : Option Validator
  resultString : String
  resultOid : String
  resultSyntax : SnmpSyntax

namespace MibSelection

/-- The constructor; `result_syntax` has no value before the first `GetSyntaxCb`. -/
def create (handle : SmiHandle) (flags : Flags) : MibSelection :=
  { handle, flags, vb := Vb.empty, type := none, syntaxText := "", node := none, oidLe := "", syntaxCb := 0
    valCb := [], valCbIndex := none, valCbConnected := false, valLe := "", valLeConnected := false
    validator := none, resultString := "", resultOid := "", resultSyntax := .null }

def syntaxItem (index : ℕ) : SnmpSyntax := syntaxItems[index]?.getD .null

/-- `GetValueCb`; the box has no data at index -1. -/
def getValueCb (m : MibSelection) (index : Option ℕ) : MibSelection :=
  let text := ((index.bind (m.valCb[·]?)).map fun item => toString item.2).getD ""
  { m with resultString := text, valLe := text }

/-- `currentIndexChanged` of the enumeration box; further connections repeat the same call. -/
def valCbChanged (m : MibSelection) (index : Option ℕ) : MibSelection :=
  let m := { m with valCbIndex := index }
  if m.valCbConnected then m.getValueCb index else m

/-- `val_cb->clear()`: a filled box loses its current index. -/
def valCbClear (m : MibSelection) : MibSelection :=
  if m.valCb = [] then m else { m with valCb := [] }.valCbChanged none

/-- `val_cb->addItem`: the first entry becomes the current one. -/
def valCbAddItem (m : MibSelection) (item : String × ℕ) : MibSelection :=
  let added := { m with valCb := m.valCb ++ [item] }
  if m.valCb = [] then added.valCbChanged (some 0) else added

def valCbSetCurrentIndex (m : MibSelection) (index : ℕ) : MibSelection :=
  if m.valCbIndex = some index then m else m.valCbChanged (some index)

def enumerates : Option SmiType → Bool
  | some type => type.namedNumbers ≠ [] ∧ type.basetype = .enum
  | none => false

def validatorFor : SnmpSyntax → Option Validator
  | .octets | .bits | .opaqueStr | .oid | .ipaddr => none
  | .int32 => some (.int false)
  | .cntr64 => some .uint64
  | _ => some (.int true)

def setValueWidget (m : MibSelection) : MibSelection :=
  let m := m.valCbClear
  let m :=
    if enumerates m.type then
      { ((m.type.map (·.namedNumbers)).getD []).foldl valCbAddItem m with valCbConnected := true }
    else m
  { m with validator := validatorFor m.resultSyntax, valLeConnected := true }

def getSyntaxCb (m : MibSelection) (index : ℕ) : MibSelection :=
  let m := { m with resultSyntax := syntaxItem index }
  if m.flags.value then { m with valLe := "" }.setValueWidget else m

def syntaxCbSetCurrentIndex (m : MibSelection) (index : ℕ) : MibSelection :=
  if m.syntaxCb = index then m else { m with syntaxCb := index }.getSyntaxCb index

def indexOfSyntax : SnmpSyntax → Option ℕ
  | .int32 => some 0
  | .cntr32 => some 2
  | .gauge32 => some 3
  | .octets => some 4
  | .bits => some 5
  | .oid => some 6
  | .cntr64 => some 7
  | .timeticks => some 8
  | .ipaddr => some 9
  | .opaqueStr => some 10
  | _ => none

/-- The entry for a type of the MIB; without a type it is Octet String. -/
def indexOfType : Option SmiType → Option ℕ
  | none => some 4
  | some type =>
    match type.basetype with
    | .integer32 | .enum => some 0
    | .unsigned32 =>
      if type.name = some "TimeTicks" then some 8
      else if type.name = some "Counter32" ∨ type.name = some "COUNTER" then some 2
      else if type.name = some "Gauge32" ∨ type.name = some "GAUGE" then some 3
      else some 1
    | .octetString =>
      if type.name = some "IpAddress" then some 9
      else if type.name = some "Opaque" then some 10
      else some 4
    | .bits => some 5
    | .objectIdentifier => some 6
    | .unsigned64 => some 7
    | _ => none

/-- The entry `SetSyntax` turns to, for a syntax given as a parameter or for the type. -/
def indexFor (st : Option SnmpSyntax) (type : Option SmiType) : Option ℕ :=
  match st with
  | some st => indexOfSyntax st
  | none => indexOfType type

/-- `SetSyntax`: the handler runs when the index changes, and once more at the end. -/
def setSyntax (m : MibSelection) (st : Option SnmpSyntax) : MibSelection :=
  let m := match indexFor st m.type with
    | some index => m.syntaxCbSetCurrentIndex index
    | none => m
  m.getSyntaxCb m.syntaxCb

/-- The node `SetOidInfoType` keeps for an OID: the one that resolves it completely, or a column. -/
def resolve (h : SmiHandle) (oid : String) : Option SmiNode :=
  let poid := Oid.ofText oid
  if poid = [] then none
  else (getNodeFromOid h poid).filter fun thenode =>
    decide (poid.length ≤ thenode.oid.length) || thenode.nodekind == .column

/-- `SetOidInfoType`; `inst` is the instance selected for a column, if any. -/
def setOidInfoType (m : MibSelection) (oid : String) (inst : Option String) : MibSelection :=
  let node := resolve m.handle oid
  let outoid := match node with
    | some thenode =>
      if thenode.nodekind = .column ∧ (Oid.ofText oid).length ≤ thenode.oid.length then
        (inst.map fun inst => oid ++ "." ++ inst).getD oid
      else oid
    | none => oid
  { m with node, type := node.bind smiGetNodeType, oidLe := outoid, resultOid := outoid }

def getSelectedOid (m : MibSelection) (oid : String) (inst : Option String) : MibSelection :=
  (m.setOidInfoType oid inst).setSyntax none

def getValueLe (m : MibSelection) : MibSelection := { m with resultString := m.valLe }

/-- An OID typed into the line edit and finished: `GetOidLe`. -/
def editOid (m : MibSelection) (text : String) : MibSelection :=
  { m with oidLe := text, resultOid := text }

variable (p : Platform)

def accepts (m : MibSelection) (text : String) : Bool :=
  match m.validator with
  | none => true
  | some validator => validator.accepts p text

/-- A value typed into the line edit; the edit counts as finished when its text is acceptable. An
acceptable text cannot be edited into one that is not. -/
def editValue (m : MibSelection) (text : String) : Option MibSelection :=
  let edited := { m with valLe := text }
  if m.accepts p text then some (if m.valLeConnected then edited.getValueLe else edited)
  else if m.accepts p m.valLe then none
  else some edited

/-- `OKButtonPressed`, with whether the dialog is accepted. -/
def okButtonPressed (m : MibSelection) : MibSelection × Bool :=
  if m.resultOid = "" then (m, false)
  else
    let named := { m with syntaxText := (syntaxName m.resultSyntax).getD m.syntaxText }
    match encode p m.resultString m.resultSyntax with
    | .value v => ({ named with vb := { m.vb with value := v } }, true)
    | .message _ => (named, false)
    | .unchanged => (named, true)

/-- What `run` and `bgrun` do behind the dialog: the OID of the varbind. -/
def setVbOid (m : MibSelection) : MibSelection :=
  let tmpoid := if m.node.any (·.nodekind == .scalar) then m.resultOid ++ ".0" else m.resultOid
  { m with vb := { m.vb with oid := Oid.ofText tmpoid } }

/-- With a node, the pointer `f` goes into `result_oid.toLatin1()`, which is destroyed by then. -/
def getName (m : MibSelection) : String :=
  match m.node with
  | some node =>
    let memory := p.freed (toLatin1 m.resultOid)
    let f := Oid.restOf (Oid.dotted node.oid) memory.1
    if f = [] then node.name
    else node.name ++ p.fromUtf8 (memory.2.drop (memory.1.length - f.length))
  | none => m.resultOid

def pickEntry (n : ℕ) (m : MibSelection) (i : ℕ) : MibSelection :=
  if m.valCb[i]?.map (·.2) = some n then m.valCbSetCurrentIndex i else m

/-- "Set a pre-determined value". -/
def setInitialValue (m : MibSelection) (value : String) : MibSelection :=
  let m := { m with valLe := value }.getValueLe
  if m.type.any (·.basetype == .enum) then
    (List.range m.valCb.length).foldl (pickEntry ((toUInt p value).getD 0)) m
  else m

/-- `run` up to the dialog. -/
def start (handle : SmiHandle) (flags : Flags) (initOid : String) (inst : Option String)
    (initSyntax : Option SnmpSyntax) (initVal : String) : MibSelection :=
  let m := ((create handle flags).setOidInfoType initOid inst).setSyntax initSyntax
  if flags.value ∧ initVal ≠ "" then m.setInitialValue p initVal else m

/-- `bgrun`: the dialog is never shown, and the OID is set whether or not OK is accepted. -/
def bgrun (handle : SmiHandle) (flags : Flags) (oid : String) (inst : Option String) : MibSelection :=
  (((create handle flags).setOidInfoType oid inst).setSyntax none |>.okButtonPressed p).1.setVbOid

end MibSelection

inductive UiEvent
  | selectNode (oid : String) (inst : Option String)
  | editOid (text : String)
  | pickSyntax (index : ℕ)
  | editValue (text : String)
  | pickValue (index : ℕ)
  | ok

/-- One event; `ok` is an event of the open dialog only where it is refused. -/
def MibSelection.step (p : Platform) (m : MibSelection) : UiEvent → Option MibSelection
  | .selectNode oid inst => some (m.getSelectedOid oid inst)
  | .editOid text => some (m.editOid text)
  | .pickSyntax index =>
    if index < syntaxItems.length then some (m.syntaxCbSetCurrentIndex index) else none
  | .editValue text => if m.flags.value then m.editValue p text else none
  | .pickValue index => if index < m.valCb.length then some (m.valCbSetCurrentIndex index) else none
  | .ok =>
    match m.okButtonPressed p with
    | (m, false) => some m
    | (_, true) => none

def asciiPlatform : Platform :=
  ⟨(· == ' '), Char.isDigit, String.ofList, fun _ _ => rfl, fun _ => none, fun array => (array, array)⟩

def ipModule : SmiModule :=
  { name := "IP-MIB", path := "IP-MIB", language := 2
    nodes := [⟨"ipForwarding", [1, 3, 6, 1, 2, 1, 4, 1], .scalar,
        some ⟨none, .enum, [("forwarding", 1), ("notForwarding", 2)]⟩, "IP-MIB"⟩,
      ⟨"ipDefaultTTL", [1, 3, 6, 1, 2, 1, 4, 2], .scalar, some ⟨some "Integer32", .integer32, []⟩,
        "IP-MIB"⟩] }

def ipHandle : SmiHandle := ⟨[wellKnown, ipModule], ["", "IP-MIB"]⟩

end SnmpB.Selection
