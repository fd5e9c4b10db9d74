import SnmpB.Agent.Start

/-! # The table view and the instance selection

Both run a loop of synchronous GETNEXT requests over one column. The varbind of
an answer becomes the next request as it is. The table view fetches a row of
GETs for every instance it meets.
-/
namespace SnmpB.Agent
open Mib

/-- What a synchronous call returns: its status, and the PDU afterwards. -/
structure Reply where
  status : ℤ
  pdu : Pdu

/-- `pdu->get_vb(vb, 0)`: an empty PDU leaves the varbind alone. -/
def Reply.getVb (reply : Reply) (vb : Vb) : Vb := reply.pdu.vblist.headD vb

/-- `Oid (smiRenderOID(node->oidlen, node->oid, SMI_RENDER_NUMERIC))`. -/
def nodeOid (node : SmiNode) : Oid := Oid.ofText (Oid.getPrintable node.oid)

def appendText (oid : Oid) (f : List Char) : Oid :=
  let f := if f.head? = some '.' then f.tail else f
  let text := Oid.dotted oid
  (Oid.strToOid (if text = [] then f else text ++ '.' :: f)).getD []

/-- The part of a printed OID behind the column and its dot. -/
def instancePart (roid : Oid) (vb : Vb) : List Char :=
  (Oid.restOf (Oid.dotted roid) (Oid.dotted vb.oid)).tail

/-- One pass of a request loop: an access behind the end of an array, the end of the loop, or
the next request. -/
inductive Pass (σ ρ : Type)
  | outOfBounds
  | left (result : ρ)
  | next (state : σ)

def Pass.state? {σ ρ : Type} : Pass σ ρ → Option σ
  | .next state => some state
  | _ => none

structure TableView where
  agent : AgentState
  pnode : SmiNode
  poid : Oid
  roid : Oid
  first : Bool
  tvb : Vb
  rows : ℕ

def collectingText : String := "Collecting table objects, please wait ...<br>"
def notTableText : String := "<font color=red>Abort, not a table or row entry</font>"

def tableHeader (columns : List SmiNode) : List Chunk :=
  .text "<table border=\"1\"><tr bgcolor=yellow><td>Instance</td>" ::
    columns.map (fun node => .text s!"<td>{node.name}</td>") ++ [.text "</tr>"]

/-- `TableViewFrom` up to its loop, or the end it comes to before; `none` where a null pointer is
followed because the OID or the row has no node. -/
def tableViewFrom (oid : String) (a : AgentState) : Option (AgentState ⊕ TableView) :=
  match setup a oid false with
  | none => some (.inl a)
  | some (a, _) =>
    let a := { a with
      query := [[.text startedText], [.text collectingText]], requests := 0, objects := 0, msg := [] }
    let poid := Oid.ofText oid
    match getNodeFromOid a.mib.handle poid with
    | none => none
    | some pnode =>
      if pnode.nodekind ≠ .row ∧ pnode.nodekind ≠ .table then
        some (.inl { a with query := a.query ++ [[.text notTableText]] })
      else
        -- "If the oid is the table element, get the row entry element"
        let entry := if pnode.nodekind = .table then
            (a.mib.handle.childNodes pnode).head?.map fun row => (row, nodeOid row)
          else some (pnode, poid)
        entry.map fun (pnode, poid) =>
          .inr { agent := { a with msg := tableHeader (a.mib.handle.childNodes pnode) }, pnode, poid
                 roid := poid, first := true, tvb := ⟨poid, .null⟩, rows := 0 }

namespace TableView

def columns (t : TableView) : List SmiNode := t.agent.mib.handle.childNodes t.pnode

def finish (t : TableView) : AgentState :=
  let msg := t.agent.msg ++ [.text "</table>", .text AgentState.finishedText,
    .text s!"<font color=#009000>Total # of rows = {t.rows}<br>"]
  { t.agent with msg, query := t.agent.query ++ [msg] }

/-- "Get the column id we'll iterate on": there is none in an OID as short as the row's. -/
def columnOid (t : TableView) (toid : Oid) : Option Oid :=
  if t.first then toid[t.poid.length]?.map fun subid => t.roid ++ [subid] else some t.roid

variable (env : Printing)

def cell (t : TableView) (f : List Char) (node : SmiNode) (reply : Reply) : Chunk :=
  let svb : Vb := ⟨appendText (nodeOid node) f, .null⟩
  let status := pduStatus [svb] reply.status
  let svb := reply.getVb svb
  if reply.pdu.errorStatus = noSuchName ∨ isException svb = true ∨ status ≠ 0 then
    .text "<td>not available</td>"
  else .text s!"<td>{toHtmlEscaped (env.printableValue t.agent.mib.handle node svb)}</td>"

def row (t : TableView) (f : List Char) (cells : ℕ → Reply) : List Chunk :=
  (if f = [] then [] else [.text s!"<tr><td bgcolor=pink>{String.ofList f}</td>"]) ++
    t.columns.mapIdx (fun i node => t.cell env f node (cells i)) ++ [.text "</tr>"]

def pass (t : TableView) (reply : Reply) (cells : ℕ → Reply) : Pass TableView AgentState :=
  if pduStatus [t.tvb] reply.status ≠ 0 then .left t.finish
  else
    let tvb := reply.getVb t.tvb
    match t.columnOid tvb.oid with
    | none => .outOfBounds
    | some roid =>
      if tvb.value.getSyntax = .endOfMibView then .left t.finish
      else if Oid.nCompare tvb.oid roid.length roid ≠ 0 then .left t.finish
      else
        .next { t with
          agent := { t.agent with msg := t.agent.msg ++ t.row env (instancePart roid tvb) cells }
          roid, first := false, tvb, rows := t.rows + 1 }

end TableView

structure Selecting where
  agent : AgentState
  roid : Oid
  tvb : Vb
  ilist : List (List Char)

/-- `SelectTableInstance` up to its loop; `none` where a null pointer is followed. -/
def selectTableInstance (oid : String) (a : AgentState) : Option (AgentState ⊕ Selecting) :=
  match setup a oid false with
  | none => some (.inl a)
  | some (a, _) =>
    let roid := Oid.ofText oid
    (getNodeFromOid a.mib.handle roid).map fun pnode =>
      if pnode.nodekind ≠ .column then .inl a else .inr ⟨a, roid, ⟨roid, .null⟩, []⟩

/-- One pass of the loop in `SelectTableInstance`; the loop is left with the list to select from. -/
def Selecting.pass (s : Selecting) (reply : Reply) : Pass Selecting (List (List Char)) :=
  if pduStatus [s.tvb] reply.status ≠ 0 then .left s.ilist
  else
    let tvb := reply.getVb s.tvb
    if tvb.value.getSyntax = .endOfMibView then .left s.ilist
    else if Oid.nCompare tvb.oid s.roid.length s.roid ≠ 0 then .left s.ilist
    else
      let f := instancePart s.roid tvb
      .next { s with tvb, ilist := if f = [] then s.ilist else s.ilist ++ [f] }

/-- Everything a pass that goes on has checked. -/
theorem TableView.pass_next {env : Printing} {t t' : TableView} {reply : Reply} {cells : ℕ → Reply}
    (h : (t.pass env reply cells).state? = some t') :
    t'.tvb = reply.getVb t.tvb ∧ t'.poid = t.poid ∧ t'.first = false ∧
    t.columnOid t'.tvb.oid = some t'.roid ∧ t'.roid <+: t'.tvb.oid := by
  unfold TableView.pass at h
  split at h
  · cases h
  · simp only at h
    split at h
    · cases h
    · rename_i roid hroid
      split at h
      · cases h
      · split at h
        · cases h
        · rename_i hscope
          cases h
          exact ⟨rfl, rfl, rfl, hroid, (Oid.nCompare_root _ _).mp (not_not.mp hscope)⟩

theorem Selecting.pass_next {s s' : Selecting} {reply : Reply} (h : (s.pass reply).state? = some s') :
    s'.tvb = reply.getVb s.tvb ∧ s'.roid = s.roid ∧ s.roid <+: s'.tvb.oid := by
  unfold Selecting.pass at h
  split at h
  · cases h
  · simp only at h
    split at h
    · cases h
    · split at h
      · cases h
      · rename_i hscope
        cases h
        exact ⟨rfl, rfl, (Oid.nCompare_root _ _).mp (not_not.mp hscope)⟩

end SnmpB.Agent
