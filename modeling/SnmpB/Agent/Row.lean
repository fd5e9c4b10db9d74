import SnmpB.Agent.Table

/-! # The rows of a table view, answer by answer

A row of the table view takes one synchronous answer for the instance and one
for each column. The steps between two answers, taken one after the other with
nothing in between, make up a pass of the request loop.
-/
namespace SnmpB.Agent
open Mib

namespace TableView

def append (t : TableView) (msg : List Chunk) : TableView :=
  { t with agent := { t.agent with msg := t.agent.msg ++ msg } }

/-- The pass up to "Loop thru all columns of that instance and build the row". -/
def enter (t : TableView) (reply : Reply) : Pass (TableView × List Char) AgentState :=
  if pduStatus [t.tvb] reply.status ≠ 0 then .left t.finish
  else
    let tvb := reply.getVb t.tvb
    match t.columnOid tvb.oid with
    | none => .outOfBounds
    | some roid =>
      if tvb.value.getSyntax = .endOfMibView then .left t.finish
      else if Oid.nCompare tvb.oid roid.length roid ≠ 0 then .left t.finish
      else
        let f := instancePart roid tvb
        let pink := if f = [] then [] else [.text s!"<tr><td bgcolor=pink>{String.ofList f}</td>"]
        .next ({ t.append pink with roid, first := false, tvb }, f)

variable (env : Printing)

def putCell (t : TableView) (f : List Char) (node : SmiNode) (reply : Reply) : TableView :=
  t.append [t.cell env f node reply]

def endRow (t : TableView) : TableView := { t.append [.text "</tr>"] with rows := t.rows + 1 }

/-- The loop over the columns, with the answer to each. -/
def putCells (f : List Char) (cells : ℕ → Reply) (nodes : List SmiNode) (t : TableView) : TableView :=
  nodes.zipIdx.foldl (fun t x => t.putCell env f x.1 (cells x.2)) t

variable {env}

@[simp] theorem append_append (t : TableView) (msg msg' : List Chunk) :
    (t.append msg).append msg' = t.append (msg ++ msg') := by
  simp [append]

@[simp] theorem cell_append (t : TableView) (msg : List Chunk) (f : List Char) (node : SmiNode)
    (reply : Reply) : (t.append msg).cell env f node reply = t.cell env f node reply := rfl

theorem foldl_putCell (f : List Char) (cells : ℕ → Reply) (xs : List (SmiNode × ℕ)) (t : TableView) :
    xs.foldl (fun t x => t.putCell env f x.1 (cells x.2)) t =
      t.append (xs.map fun x => t.cell env f x.1 (cells x.2)) := by
  induction xs generalizing t with
  | nil => simp [append]
  | cons x xs ih =>
    rw [List.foldl_cons, ih, putCell, append_append]
    simp

theorem putCells_eq (f : List Char) (cells : ℕ → Reply) (nodes : List SmiNode) (t : TableView) :
    putCells env f cells nodes t = t.append (nodes.mapIdx fun i node => t.cell env f node (cells i)) := by
  rw [putCells, foldl_putCell, List.mapIdx_eq_zipIdx_map]

/-- Main result: a pass of the request loop is the answer for the instance, those for the columns, and the
end of the row. -/
theorem pass_eq (t : TableView) (reply : Reply) (cells : ℕ → Reply) :
    t.pass env reply cells =
      match t.enter reply with
      | .outOfBounds => .outOfBounds
      | .left agent => .left agent
      | .next (t', f) => .next (putCells env f cells t'.columns t').endRow := by
  unfold pass enter
  split
  · rfl
  · simp only
    cases t.columnOid (reply.getVb t.tvb).oid with
    | none => rfl
    | some roid =>
      simp only
      split
      · rfl
      · split
        · rfl
        · simp only [putCells_eq, endRow, row, append, List.append_assoc]
          rfl

end TableView

end SnmpB.Agent
