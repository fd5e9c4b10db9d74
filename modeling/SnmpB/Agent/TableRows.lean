import SnmpB.Agent.Reading

/-! # The rows of a table

Against an agent that is a map sorted by OID, the table view goes through the
instances of one column and asks for the cells of each. The map tells the table
that is shown.
-/
namespace SnmpB.Agent
open Mib PrefixInterval

namespace Database

/-- The answer to a GETNEXT: the successor, or that there is none. -/
def AnswersNext (db : Database) (v1 : Bool) (seed : Oid) (reply : Reply) : Prop :=
  match db.after seed with
  | vb :: _ => reply.status = 0 ∧ reply.pdu.errorStatus = 0 ∧ reply.pdu.vblist = [vb]
  | [] =>
    if v1 then reply.status = noSuchName ∧ reply.pdu.errorStatus = noSuchName
    else reply.status = 0 ∧ reply.pdu.errorStatus = 0 ∧ reply.pdu.vblist = [⟨seed, .endOfMibView⟩]

def lookup (db : Database) (oid : Oid) : Option Vb := db.instances.find? fun vb => vb.oid == oid

/-- The answer to a GET: the value, or that there is none. -/
def AnswersGet (db : Database) (v1 : Bool) (oid : Oid) (reply : Reply) : Prop :=
  match db.lookup oid with
  | some vb => reply.status = 0 ∧ reply.pdu.errorStatus = 0 ∧ reply.pdu.vblist = [vb]
  | none =>
    if v1 then reply.status = noSuchName ∧ reply.pdu.errorStatus = noSuchName
    else reply.status = 0 ∧ reply.pdu.errorStatus = 0 ∧
      (reply.pdu.vblist = [⟨oid, .noSuchObject⟩] ∨ reply.pdu.vblist = [⟨oid, .noSuchInstance⟩])

/-- The instances at a root and below it, in the order of their indexes. -/
def under (db : Database) (root : Oid) : List Vb := db.instances.filter fun vb => root.isPrefixOf vb.oid

/-- The column of the first instance behind the row. -/
def firstColumn (db : Database) (row : Oid) : Option Oid :=
  (db.after row).head?.bind fun vb => vb.oid[row.length]?.map fun subid => row ++ [subid]

/-- Sub-identifiers are `unsigned long`s. -/
def Sized (db : Database) : Prop := ∀ vb ∈ db.instances, ∀ n ∈ vb.oid, n < 2 ^ 64

instance (db : Database) : Decidable db.Sized :=
  inferInstanceAs (Decidable (∀ vb ∈ db.instances, ∀ n ∈ vb.oid, n < 2 ^ 64))

end Database

/-- The index of an instance of a column. -/
def indexIn (column : Oid) (vb : Vb) : Oid := vb.oid.drop column.length

/-- Sub-identifiers of a node are `unsigned int`s. -/
def SizedMib (h : SmiHandle) : Prop := ∀ m ∈ h.modules, ∀ node ∈ m.nodes, ∀ n ∈ node.oid, n < 2 ^ 32

instance (h : SmiHandle) : Decidable (SizedMib h) :=
  inferInstanceAs (Decidable (∀ m ∈ h.modules, ∀ node ∈ m.nodes, ∀ n ∈ node.oid, n < 2 ^ 32))

namespace TableView

variable (env : Printing) (t : TableView) (db : Database)

def cellFor (index : Oid) (node : SmiNode) : Chunk :=
  match db.lookup (node.oid ++ index) with
  | some vb => .text s!"<td>{toHtmlEscaped (env.printableValue t.agent.mib.handle node vb)}</td>"
  | none => .text "<td>not available</td>"

/-- The instance, and a cell for each column of the row. -/
def rowFor (index : Oid) : List Chunk :=
  [.text s!"<tr><td bgcolor=pink>{String.ofList (Oid.dotted index)}</td>"] ++
    t.columns.map (t.cellFor env db index) ++ [.text "</tr>"]

def withRows (rows : List (List Chunk)) : TableView :=
  { t with agent := { t.agent with msg := t.agent.msg ++ rows.flatten }, rows := t.rows + rows.length }

/-- A row has been shown, that of the instance `vb` of the column. -/
def shown (row : List Chunk) (column : Oid) (vb : Vb) : TableView :=
  { t.withRows [row] with roid := column, first := false, tvb := vb }

def rowsFor (column : Oid) : List (List Chunk) :=
  (db.under column).map fun vb => t.rowFor env db (indexIn column vb)

/-- The table with a row for each instance of the column, and the number of its rows. -/
def tableFor (column : Oid) : AgentState :=
  let msg := tableHeader t.columns ++ (t.rowsFor env db column).flatten ++ [.text "</table>",
    .text AgentState.finishedText, .text s!"<font color=#009000>Total # of rows = {(db.under column).length}<br>"]
  { t.agent with msg, query := t.agent.query ++ [msg] }

/-- The loop over the answers, to its end; `none` where an access is out of bounds or the answers do
not suffice. -/
def collect : TableView → List (Reply × (ℕ → Reply)) → Option AgentState
  | _, [] => none
  | t, r :: rs =>
    match t.checkedPass env r.1 r.2 with
    | .outOfBounds => none
    | .left a => some a
    | .next t' => collect t' rs

/-- The agent answers the request for the next instance, and those for the cells of its row. -/
def AnsweredBy (v1 : Bool) (r : Reply × (ℕ → Reply)) : Prop :=
  db.AnswersNext v1 t.tvb.oid r.1 ∧
  ∀ column f, t.columnOid (r.1.getVb t.tvb).oid = some column → readInstance column (r.1.getVb t.tvb) = some f →
    ∀ i node, t.columns[i]? = some node → db.AnswersGet v1 (appendText (nodeOid node) f) (r.2 i)


end TableView

/-! ## The texts of a row -/

theorem head?_dotted (oid : Oid) : (Oid.dotted oid).head? ≠ some '.' := by
  have hdigits : ∀ (n : ℕ) (rest : List Char), (Nat.toDigits 10 n ++ rest).head? ≠ some '.' := by
    intro n rest heq
    rw [List.head?_append_of_ne_nil _ Nat.toDigits_ne_nil] at heq
    have hdot := Oid.isDigit_toDigits n '.' (List.mem_of_head? heq)
    revert hdot
    decide
  cases oid with
  | nil => exact nofun
  | cons n rest =>
    cases rest with
    | nil => simpa [Oid.dotted] using hdigits n []
    | cons m rest => exact hdigits n _

theorem appendText_index {node : SmiNode} {index : Oid} (hnode : node.oid ≠ []) (hindex : index ≠ [])
    (hsized : ∀ n ∈ node.oid ++ index, n < 2 ^ 64) :
    appendText (nodeOid node) (Oid.dotted index) = node.oid ++ index := by
  have hoid : nodeOid node = node.oid :=
    Oid.ofText_getPrintable fun n hn => hsized n (List.mem_append_left index hn)
  unfold appendText
  rw [if_neg (head?_dotted index), hoid]
  simp only [if_neg (Oid.dotted_ne_nil hnode)]
  rw [← Oid.dotted_append hnode hindex, Oid.strToOid_dotted (List.append_ne_nil_of_left_ne_nil hnode index) hsized]
  rfl

theorem append_indexIn {column : Oid} {vb : Vb} (h : column <+: vb.oid) : column ++ indexIn column vb = vb.oid :=
  (List.prefix_iff_eq_append.mp h)

theorem indexIn_ne_nil {column : Oid} {vb : Vb} (h : column <+: vb.oid) (hlonger : vb.oid ≠ column) :
    indexIn column vb ≠ [] := by
  intro hnil
  have happend := append_indexIn h
  rw [hnil, List.append_nil] at happend
  exact hlonger happend.symm

/-- The instance part is the text of the index. -/
theorem readInstance_index {column : Oid} {vb : Vb} (hcolumn : column ≠ []) (hbegins : column <+: vb.oid)
    (hlonger : vb.oid ≠ column) : readInstance column vb = some (Oid.dotted (indexIn column vb)) := by
  have hindex := indexIn_ne_nil hbegins hlonger
  rw [readInstance_eq hcolumn hbegins, if_neg hlonger]
  unfold instancePart
  rw [← append_indexIn hbegins, Oid.dotted_append hcolumn hindex, Oid.restOf_append (Oid.dotted_ne_nil hcolumn)]
  rfl

theorem childNodes_mem {h : SmiHandle} {parent node : SmiNode} (hnode : node ∈ h.childNodes parent) :
    node.oid ≠ [] ∧ ∃ m ∈ h.modules, node ∈ m.nodes := by
  refine ⟨?_, SmiHandle.siblings_mem hnode⟩
  obtain ⟨subid, -, hoid⟩ := List.mem_map.mp
    ((SmiHandle.siblings_oids h parent.oid parent.moduleName _).subset (List.mem_map_of_mem hnode))
  rw [← hoid]
  exact List.append_ne_nil_of_right_ne_nil parent.oid (List.cons_ne_nil subid [])

/-! ## A cell, and a row -/

variable {env : Printing} {db : Database} {v1 : Bool} {t : TableView}

theorem Reply.getVb_single {reply : Reply} {vb : Vb} (h : reply.pdu.vblist = [vb]) (before : Vb) :
    reply.getVb before = vb := by
  unfold Reply.getVb
  rw [h]
  rfl

theorem pduStatus_named {vb : Vb} (h : vb.oid ≠ []) (status : ℤ) : pduStatus [vb] status = status := by
  unfold pduStatus
  rw [if_neg (by simpa using h)]

namespace Database

theorem lookup_mem {oid : Oid} {vb : Vb} (h : db.lookup oid = some vb) : vb ∈ db.instances :=
  List.mem_of_find?_eq_some h

theorem after_cons {seed : Oid} {vb : Vb} {rest : List Vb} (h : db.after seed = vb :: rest) :
    vb ∈ db.instances ∧ seed < vb.oid ∧ db.after vb.oid = rest := by
  obtain ⟨hin, hlt⟩ := @taken_after db seed [vb] rest h vb List.mem_cons_self
  exact ⟨hin, hlt, @after_of_after db seed [] rest vb h⟩

/-- The successor of a seed in the subtree is the next instance of the subtree, or there is none left. -/
theorem after_filter_cons {root seed : Oid} (hroot : root <+: seed) {vb : Vb} {rest : List Vb}
    (h : db.after seed = vb :: rest) :
    (db.after seed).filter (fun vb => root.isPrefixOf vb.oid) =
      if root <+: vb.oid then vb :: (db.after vb.oid).filter (fun vb => root.isPrefixOf vb.oid) else [] := by
  rw [after_filter_eq hroot, h]
  split
  · rename_i hin
    rw [after_filter_eq hin, (after_cons h).2.2]
    exact List.takeWhile_cons_of_pos (List.isPrefixOf_iff_prefix.mpr hin)
  · rename_i hout
    exact List.takeWhile_cons_of_neg fun hin => hout (List.isPrefixOf_iff_prefix.mp hin)

end Database

theorem TableView.cell_eq {node : SmiNode} {f : List Char} {index : Oid} {reply : Reply} (hne : node.oid ≠ [])
    (hoid : appendText (nodeOid node) f = node.oid ++ index) (h : db.AnswersGet v1 (node.oid ++ index) reply) :
    t.cell env f node reply = t.cellFor env db index node := by
  have hstatus :=
    @pduStatus_named ⟨node.oid ++ index, .null⟩ (List.append_ne_nil_of_left_ne_nil hne index) reply.status
  unfold TableView.cell TableView.cellFor
  unfold Database.AnswersGet at h
  simp only [hoid, hstatus]
  cases hlookup : db.lookup (node.oid ++ index) with
  | some vb =>
    rw [hlookup] at h
    obtain ⟨hok, herror, hvbs⟩ := h
    have hplain := (Database.plain_value (Database.lookup_mem hlookup)).1
    rw [Reply.getVb_single hvbs, if_neg]
    rw [herror, hok, hplain]
    decide
  | none =>
    rw [hlookup] at h
    rw [if_pos]
    cases v1 with
    | true => exact Or.inl h.2
    | false =>
      obtain ⟨-, -, hvbs | hvbs⟩ := h
      · rw [Reply.getVb_single hvbs]
        exact Or.inr (Or.inl rfl)
      · rw [Reply.getVb_single hvbs]
        exact Or.inr (Or.inl rfl)

theorem TableView.row_eq {index : Oid} {cells : ℕ → Reply} (hindex : index ≠ []) (ht : SizedMib t.agent.mib.handle)
    (hsized : ∀ n ∈ index, n < 2 ^ 64)
    (hcells : ∀ i node, t.columns[i]? = some node →
      db.AnswersGet v1 (appendText (nodeOid node) (Oid.dotted index)) (cells i)) :
    t.row env (Oid.dotted index) cells = t.rowFor env db index := by
  have hcolumns : t.columns.mapIdx (fun i node => t.cell env (Oid.dotted index) node (cells i)) =
      t.columns.map (t.cellFor env db index) := by
    apply List.ext_getElem?
    intro i
    rw [List.getElem?_mapIdx, List.getElem?_map]
    cases hnode : t.columns[i]? with
    | none => rfl
    | some node =>
      obtain ⟨hne, m, hm, hmem⟩ := childNodes_mem (List.mem_of_getElem? hnode)
      have hall : ∀ n ∈ node.oid ++ index, n < 2 ^ 64 := by
        intro n hn
        rcases List.mem_append.mp hn with hn | hn
        · exact (ht m hm node hmem n hn).trans (by decide)
        · exact hsized n hn
      have hoid := appendText_index hne hindex hall
      exact congrArg some (cell_eq hne hoid (hoid ▸ hcells i node hnode))
  unfold TableView.row TableView.rowFor
  rw [if_neg (Oid.dotted_ne_nil hindex), hcolumns]

/-! ## A pass -/

theorem TableView.finish_congr {t t' : TableView} (hagent : t'.agent = t.agent) (hrows : t'.rows = t.rows) :
    t'.finish = t.finish := by
  unfold TableView.finish
  rw [hagent, hrows]

/-- An answer in the column becomes a row. -/
theorem TableView.checkedPass_row {vb : Vb} {rest : List Vb} {column : Oid} {r : Reply × (ℕ → Reply)}
    (ht : SizedMib t.agent.mib.handle) (hdb : db.Sized) (hseed : t.tvb.oid ≠ [])
    (hafter : db.after t.tvb.oid = vb :: rest) (hcolumnOid : t.columnOid vb.oid = some column)
    (hcolumn : column ≠ []) (hbegins : column <+: vb.oid) (hlonger : vb.oid ≠ column) (h : t.AnsweredBy db v1 r) :
    t.checkedPass env r.1 r.2 = .next (t.shown (t.rowFor env db (indexIn column vb)) column vb) := by
  obtain ⟨hnext, hcells⟩ := h
  unfold Database.AnswersNext at hnext
  rw [hafter] at hnext
  obtain ⟨hok, -, hvbs⟩ := hnext
  have hget : r.1.getVb t.tvb = vb := Reply.getVb_single hvbs _
  have hmem := (Database.after_cons hafter).1
  have hread := readInstance_index hcolumn hbegins hlonger
  have hscope : Oid.nCompare vb.oid column.length column = 0 := (Oid.nCompare_root _ _).mpr hbegins
  have hstatus : ¬ pduStatus [t.tvb] r.1.status ≠ 0 := by
    rw [pduStatus_named hseed, hok]
    exact not_not.mpr rfl
  have hsized : ∀ n ∈ indexIn column vb, n < 2 ^ 64 := fun n hn => hdb vb hmem n (List.mem_of_mem_drop hn)
  have hrow : t.row env (Oid.dotted (indexIn column vb)) r.2 = t.rowFor env db (indexIn column vb) := by
    apply row_eq (indexIn_ne_nil hbegins hlonger) ht hsized
    rw [hget] at hcells
    exact hcells column _ hcolumnOid hread
  unfold TableView.checkedPass
  rw [if_neg hstatus]
  simp only [hget, hcolumnOid, if_neg (Database.plain_value hmem).2, if_neg (not_not.mpr hscope), hread, hrow]
  unfold TableView.shown TableView.withRows
  rw [List.flatten_singleton]
  rfl

/-- Without another instance of the column the loop is left. -/
theorem TableView.checkedPass_last {r : Reply × (ℕ → Reply)} (hseed : t.tvb.oid ≠ []) (hfirst : t.first = false)
    (hafter : ∀ vb rest, db.after t.tvb.oid = vb :: rest → ¬ t.roid <+: vb.oid) (h : t.AnsweredBy db v1 r) :
    t.checkedPass env r.1 r.2 = .left t.finish := by
  obtain ⟨hnext, -⟩ := h
  unfold Database.AnswersNext at hnext
  have hcolumn : ∀ toid, t.columnOid toid = some t.roid := by
    intro toid
    unfold TableView.columnOid
    rw [if_neg (by simp [hfirst])]
  unfold TableView.checkedPass
  cases hrest : db.after t.tvb.oid with
  | nil =>
    rw [hrest] at hnext
    cases v1 with
    | true =>
      have hstatus : pduStatus [t.tvb] r.1.status ≠ 0 := by
        rw [pduStatus_named hseed, hnext.1]
        decide
      rw [if_pos hstatus]
    | false =>
      obtain ⟨hok, -, hvbs⟩ := hnext
      rw [pduStatus_named hseed, hok, if_neg (not_not.mpr rfl)]
      simp only [hcolumn, Reply.getVb_single hvbs, Value.getSyntax, ↓reduceIte]
  | cons vb rest =>
    rw [hrest] at hnext
    obtain ⟨hok, -, hvbs⟩ := hnext
    have hscope : Oid.nCompare vb.oid t.roid.length t.roid ≠ 0 :=
      fun hno => hafter vb rest hrest ((Oid.nCompare_root _ _).mp hno)
    rw [pduStatus_named hseed, hok, if_neg (not_not.mpr rfl)]
    simp only [hcolumn, Reply.getVb_single hvbs, if_pos hscope, ite_self]

/-! ## The whole loop -/

theorem TableView.finish_shown {row : List Chunk} {rows : List (List Chunk)} {column : Oid} {vb : Vb} :
    ((t.shown row column vb).withRows rows).finish = (t.withRows (row :: rows)).finish := by
  apply TableView.finish_congr
  · simp only [TableView.shown, TableView.withRows, List.flatten_cons, List.flatten_nil, List.append_nil,
      List.append_assoc]
  · simp only [TableView.shown, TableView.withRows, List.length_cons, List.length_nil]
    omega

/-- A row, and then what the loop shows from the instance of that row on. -/
theorem TableView.collect_row {vb : Vb} {rest : List Vb} {column : Oid} {rs : List (Reply × (ℕ → Reply))}
    {rows : List (List Chunk)} {n : ℕ} (ht : SizedMib t.agent.mib.handle) (hdb : db.Sized) (hseed : t.tvb.oid ≠ [])
    (hafter : db.after t.tvb.oid = vb :: rest) (hcolumnOid : t.columnOid vb.oid = some column) (hcolumn : column ≠ [])
    (hbegins : column <+: vb.oid) (hlonger : vb.oid ≠ column)
    (hlater : ∀ rs, Runs.Each (TableView.checkedFollow env) (fun t r => t.AnsweredBy db v1 r)
        (t.shown (t.rowFor env db (indexIn column vb)) column vb) rs → n < rs.length →
      (t.shown (t.rowFor env db (indexIn column vb)) column vb).collect env rs =
        some ((t.shown (t.rowFor env db (indexIn column vb)) column vb).withRows rows).finish)
    (hanswered : Runs.Each (TableView.checkedFollow env) (fun t r => t.AnsweredBy db v1 r) t rs)
    (hlength : n + 1 < rs.length) :
    t.collect env rs = some (t.withRows (t.rowFor env db (indexIn column vb) :: rows)).finish := by
  obtain ⟨r, rs, rfl⟩ := List.exists_cons_of_length_pos (Nat.zero_lt_of_lt hlength)
  let next : TableView := t.shown (t.rowFor env db (indexIn column vb)) column vb
  have hpass : t.checkedPass env r.1 r.2 = .next next :=
    checkedPass_row ht hdb hseed hafter hcolumnOid hcolumn hbegins hlonger hanswered.1
  have hfollow : t.checkedFollow env r = some next := by
    unfold TableView.checkedFollow
    rw [hpass]
    rfl
  have hrest := hlater rs (hanswered.2 next hfollow) (Nat.lt_of_succ_lt_succ hlength)
  rw [finish_shown] at hrest
  rw [TableView.collect, hpass]
  exact hrest

/-- The instances of the column that lie behind the seed become rows, by induction on them. -/
theorem TableView.collect_later (hdb : db.Sized) {remaining : List Vb} :
    ∀ {t : TableView} {rs : List (Reply × (ℕ → Reply))}, SizedMib t.agent.mib.handle → t.first = false → t.roid ≠ [] →
      t.roid <+: t.tvb.oid → t.tvb.oid ≠ t.roid →
      (db.after t.tvb.oid).filter (fun vb => t.roid.isPrefixOf vb.oid) = remaining →
      Runs.Each (TableView.checkedFollow env) (fun t r => t.AnsweredBy db v1 r) t rs →
      remaining.length < rs.length →
      t.collect env rs = some (t.withRows (remaining.map fun vb => t.rowFor env db (indexIn t.roid vb))).finish := by
  induction remaining with
  | nil =>
    intro t rs ht hfirst hroid hbelow _ hremaining hanswered hlength
    obtain ⟨r, rs, rfl⟩ := List.exists_cons_of_length_pos hlength
    have hseed : t.tvb.oid ≠ [] := fun hnil => hroid (List.prefix_nil.mp (hnil ▸ hbelow))
    have hnone : ∀ vb rest, db.after t.tvb.oid = vb :: rest → ¬ t.roid <+: vb.oid := by
      intro vb rest hafter hbegins
      rw [Database.after_filter_cons hbelow hafter, if_pos hbegins] at hremaining
      cases hremaining
    rw [TableView.collect, checkedPass_last hseed hfirst hnone hanswered.1]
    apply congrArg some
    apply TableView.finish_congr
    · simp only [TableView.withRows, List.map_nil, List.flatten_nil, List.append_nil]
    · rfl
  | cons vb remaining ih =>
    intro t rs ht hfirst hroid hbelow hlonger hremaining hanswered hlength
    have hseed : t.tvb.oid ≠ [] := fun hnil => hroid (List.prefix_nil.mp (hnil ▸ hbelow))
    cases hafter : db.after t.tvb.oid with
    | nil =>
      rw [hafter] at hremaining
      cases hremaining
    | cons next rest =>
      rw [Database.after_filter_cons hbelow hafter] at hremaining
      split at hremaining
      · rename_i hin
        obtain ⟨rfl, hrest⟩ := List.cons.inj hremaining
        have hlt : t.roid < next.oid := (root_lt hbelow hlonger).trans (Database.after_cons hafter).2.1
        have hcolumnOid : t.columnOid next.oid = some t.roid := by
          unfold TableView.columnOid
          rw [if_neg (by simp [hfirst])]
        rw [List.map_cons]
        apply collect_row ht hdb hseed hafter hcolumnOid hroid hin (ne_of_gt hlt) ?_ hanswered hlength
        intro rs hlater hlength
        exact ih ht rfl hroid hin (ne_of_gt hlt) hrest hlater hlength
      · cases hremaining

/-! ## From the row on -/

theorem lt_column (poid : Oid) (subid : ℕ) : poid < poid ++ [subid] := by
  apply root_lt (List.prefix_append poid [subid])
  simp

/-- The instances of a column all lie behind the row. -/
theorem Database.under_eq (poid : Oid) (subid : ℕ) :
    db.under (poid ++ [subid]) = (db.after poid).filter fun vb => (poid ++ [subid]).isPrefixOf vb.oid := by
  unfold Database.under Database.after
  rw [List.filter_filter]
  apply List.filter_congr
  intro vb _
  rw [Bool.eq_iff_iff, Bool.and_eq_true, decide_eq_true_iff, List.isPrefixOf_iff_prefix, iff_self_and]
  intro hbegins
  by_cases heq : vb.oid = poid ++ [subid]
  · rw [heq]
    exact lt_column poid subid
  · exact (lt_column poid subid).trans (root_lt hbegins heq)

/-- The first answer is the first instance of the table, and those of its column come first behind it. -/
theorem Database.first_instance {poid : Oid} (hinst : db.below poid ≠ []) :
    ∃ vb rest subid, db.after poid = vb :: rest ∧ poid ++ [subid] <+: vb.oid ∧
      db.firstColumn poid = some (poid ++ [subid]) ∧
      db.under (poid ++ [subid]) =
        vb :: (db.after vb.oid).filter fun vb => (poid ++ [subid]).isPrefixOf vb.oid := by
  rw [Database.below_eq] at hinst
  cases hafter : db.after poid with
  | nil =>
    rw [hafter] at hinst
    exact absurd rfl hinst
  | cons vb rest =>
    obtain ⟨-, hlt, hbehind⟩ := Database.after_cons hafter
    rw [Database.after_filter_cons List.prefix_rfl hafter] at hinst
    split at hinst
    · rename_i hbegins
      obtain ⟨more, hmore⟩ := hbegins
      cases more with
      | nil =>
        rw [List.append_nil] at hmore
        exact absurd hlt (hmore ▸ lt_irrefl _)
      | cons subid index =>
        have hbegins : poid ++ [subid] <+: vb.oid := by
          rw [← hmore, List.append_cons poid subid index]
          exact List.prefix_append _ _
        refine ⟨vb, rest, subid, rfl, hbegins, ?_, ?_⟩
        · unfold Database.firstColumn
          rw [hafter, List.head?_cons, Option.bind_some, ← hmore]
          simp
        · rw [Database.under_eq, hafter, hbehind]
          exact List.filter_cons_of_pos (List.isPrefixOf_iff_prefix.mpr hbegins)
    · exact absurd rfl hinst

/-- Nothing lies at the column exactly when the first instance has an index. -/
theorem Database.column_free_iff {poid : Oid} {vb : Vb} {rest : List Vb} {subid : ℕ}
    (hafter : db.after poid = vb :: rest) (hbegins : poid ++ [subid] <+: vb.oid) :
    (∀ x ∈ db.instances, x.oid ≠ poid ++ [subid]) ↔ vb.oid ≠ poid ++ [subid] := by
  obtain ⟨hmem, -, hbehind⟩ := Database.after_cons hafter
  constructor
  · intro hfree
    exact hfree vb hmem
  · intro hlonger x hx heq
    have hbefore : x.oid < vb.oid := heq ▸ root_lt hbegins hlonger
    have hin : x ∈ db.after poid := Database.mem_after.mpr ⟨hx, heq ▸ lt_column poid subid⟩
    rw [hafter] at hin
    rcases List.mem_cons.mp hin with rfl | hin
    · exact lt_irrefl _ hbefore
    · rw [← hbehind] at hin
      exact lt_asymm hbefore (Database.mem_after.mp hin).2

/-- The table view at its start. -/
structure TableView.Fresh (a : AgentState) (t : TableView) : Prop where
  mib : t.agent.mib = a.mib
  msg : t.agent.msg = tableHeader t.columns
  rows : t.rows = 0
  named : SizedMib a.mib.handle → t.poid ≠ []

theorem tableViewFrom_fresh {oid : String} {a : AgentState} (h : tableViewFrom oid a = some (.inr t)) :
    t.Fresh a := by
  unfold tableViewFrom at h
  split at h
  · cases h
  · rename_i a₁ vblist hsetup
    obtain rfl := setup_some hsetup
    simp only at h
    split at h
    · cases h
    · rename_i pnode hpnode
      split at h
      · cases h
      · obtain ⟨⟨entry, poid⟩, hentry, heq⟩ := Option.map_eq_some_iff.mp h
        obtain rfl := Sum.inr.inj heq
        refine ⟨rfl, rfl, rfl, ?_⟩
        intro hmib
        split at hentry
        · obtain ⟨row, hrow, hsame⟩ := Option.map_eq_some_iff.mp hentry
          obtain ⟨rfl, rfl⟩ := Prod.mk.inj hsame
          obtain ⟨hne, m, hm, hmem⟩ := childNodes_mem (List.mem_of_head? hrow)
          have hoid : nodeOid row = row.oid :=
            Oid.ofText_getPrintable fun n hn => (hmib m hm row hmem n hn).trans (by decide)
          exact hoid ▸ hne
        · obtain ⟨rfl, rfl⟩ := Prod.mk.inj (Option.some.inj hentry)
          intro hnil
          change Oid.ofText oid = [] at hnil
          rw [hnil] at hpnode
          cases hpnode

theorem TableView.tableFor_eq {a : AgentState} (ht : t.Fresh a) (column : Oid) :
    (t.withRows (t.rowsFor env db column)).finish = t.tableFor env db column := by
  unfold TableView.finish TableView.tableFor
  simp only [TableView.withRows, ht.msg, ht.rows, Nat.zero_add, TableView.rowsFor, List.length_map]

theorem Database.under_sorted (db : Database) (column : Oid) :
    ((db.under column).map (indexIn column)).Pairwise (· < ·) := by
  rw [List.pairwise_map]
  apply (db.sorted.filter _).imp_of_mem
  intro x y hx hy hlt
  obtain ⟨i, hi⟩ := List.isPrefixOf_iff_prefix.mp (List.mem_filter.mp hx).2
  obtain ⟨j, hj⟩ := List.isPrefixOf_iff_prefix.mp (List.mem_filter.mp hy).2
  unfold indexIn
  rw [← hi, ← hj, List.drop_left, List.drop_left]
  rw [← hi, ← hj] at hlt
  exact (append_lt_append_iff column).mp hlt

/-- The agent has an answer to every request. -/
theorem TableView.exists_answeredBy (db : Database) (v1 : Bool) (t : TableView) : ∃ r, t.AnsweredBy db v1 r := by
  have hnext : ∃ reply, db.AnswersNext v1 t.tvb.oid reply := by
    unfold Database.AnswersNext
    cases db.after t.tvb.oid with
    | cons vb rest => exact ⟨⟨0, ⟨[vb], 0, 0⟩⟩, rfl, rfl, rfl⟩
    | nil =>
      cases v1 with
      | true => exact ⟨⟨noSuchName, ⟨[], noSuchName, 1⟩⟩, rfl, rfl⟩
      | false => exact ⟨⟨0, ⟨[⟨t.tvb.oid, .endOfMibView⟩], 0, 0⟩⟩, rfl, rfl, rfl⟩
  have hget : ∀ oid, ∃ reply, db.AnswersGet v1 oid reply := by
    intro oid
    unfold Database.AnswersGet
    cases db.lookup oid with
    | some vb => exact ⟨⟨0, ⟨[vb], 0, 0⟩⟩, rfl, rfl, rfl⟩
    | none =>
      cases v1 with
      | true => exact ⟨⟨noSuchName, ⟨[], noSuchName, 1⟩⟩, rfl, rfl⟩
      | false => exact ⟨⟨0, ⟨[⟨oid, .noSuchInstance⟩], 0, 0⟩⟩, rfl, rfl, Or.inr rfl⟩
  obtain ⟨reply, hreply⟩ := hnext
  choose answer hanswer using hget
  cases hread : (t.columnOid (reply.getVb t.tvb).oid).bind fun column => readInstance column (reply.getVb t.tvb) with
  | none =>
    refine ⟨(reply, fun _ => reply), hreply, ?_⟩
    intro column f hcolumn hf
    rw [hcolumn, Option.bind_some, hf] at hread
    cases hread
  | some f =>
    refine ⟨(reply, fun i => answer ((t.columns[i]?.map fun node => appendText (nodeOid node) f).getD [])), hreply, ?_⟩
    intro column f' hcolumn hf i node hnode
    rw [hcolumn, Option.bind_some, hf] at hread
    cases hread
    simp only [hnode, Option.map_some, Option.getD_some]
    exact hanswer _

/-- The answer at the start that is the column itself. -/
def bareAnswer (vb : Vb) : Reply × (ℕ → Reply) := (⟨0, ⟨[vb], 0, 0⟩⟩, fun _ => ⟨0, ⟨[], 0, 0⟩⟩)

/-- Such an answer is read from outside the printed OID, whatever comes behind it. -/
theorem TableView.collect_bare {vb : Vb} {rest : List Vb} (ht : t.Placed) (hseed : t.tvb.oid ≠ [])
    (hafter : db.after t.tvb.oid = vb :: rest) (hself : t.columnOid vb.oid = some vb.oid)
    (rs : List (Reply × (ℕ → Reply))) :
    Runs.Each (TableView.checkedFollow env) (fun t r => t.AnsweredBy db v1 r) t (bareAnswer vb :: rs) ∧
      t.collect env (bareAnswer vb :: rs) = none := by
  have hplain := (Database.plain_value (Database.after_cons hafter).1).2
  have hout : t.checkedPass env (bareAnswer vb).1 (bareAnswer vb).2 = .outOfBounds :=
    (TableView.checkedPass_outOfBounds_iff ht _ _).mpr ⟨pduStatus_named hseed 0, Or.inr ⟨hplain, hself⟩⟩
  have hnone : t.checkedFollow env (bareAnswer vb) = none := by
    unfold TableView.checkedFollow
    rw [hout]
    rfl
  have hanswered : t.AnsweredBy db v1 (bareAnswer vb) := by
    constructor
    · unfold Database.AnswersNext
      rw [hafter]
      exact ⟨rfl, rfl, rfl⟩
    · intro column f hcolumn hread
      obtain rfl := Option.some.inj (hself.symm.trans hcolumn)
      change readInstance vb.oid vb = some f at hread
      rw [readInstance_eq (columnOid_ne_nil ht hself) List.prefix_rfl, if_pos rfl] at hread
      cases hread
  refine ⟨⟨hanswered, ?_⟩, ?_⟩
  · intro t' ht'
    rw [hnone] at ht'
    cases ht'
  · rw [TableView.collect, hout]

/-- Main result: against a map that holds an instance of the table, the loop shows a row for each instance of
the first column, exactly when the map holds nothing at the OID of the column itself. -/
theorem table_rows_iff {oid : String} {a : AgentState} (hmib : SizedMib a.mib.handle) (hdb : db.Sized)
    (hstart : tableViewFrom oid a = some (.inr t)) (hinst : db.below t.poid ≠ []) :
    ∃ column, db.firstColumn t.poid = some column ∧ t.poid <+: column ∧
      ((db.under column).map (indexIn column)).Pairwise (· < ·) ∧
      ((∀ rs, Runs.Each (TableView.checkedFollow env) (fun t r => t.AnsweredBy db v1 r) t rs →
          (db.under column).length < rs.length → t.collect env rs = some (t.tableFor env db column)) ↔
        ∀ vb ∈ db.instances, vb.oid ≠ column) := by
  obtain ⟨hroid, htvb, hfirst⟩ := tableViewFrom_some hstart
  have hfresh := tableViewFrom_fresh hstart
  have hseed : t.tvb.oid ≠ [] := htvb ▸ hfresh.named hmib
  obtain ⟨vb, rest, subid, hafter, hbegins, hcolumn, hunder⟩ := Database.first_instance hinst
  have hcolumnOid : t.columnOid vb.oid = some (t.poid ++ [subid]) := by
    obtain ⟨index, hindex⟩ := hbegins
    unfold TableView.columnOid
    rw [if_pos hfirst, hroid, ← hindex]
    simp
  refine ⟨t.poid ++ [subid], hcolumn, List.prefix_append _ _, db.under_sorted _, ?_⟩
  rw [Database.column_free_iff hafter hbegins]
  replace hafter : db.after t.tvb.oid = vb :: rest := by rw [htvb, hafter]
  constructor
  · intro hall hbare
    have ht : t.Placed := ⟨fun _ => hroid, fun hno => by rw [hfirst] at hno; cases hno⟩
    have hself : t.columnOid vb.oid = some vb.oid := by rw [hcolumnOid, hbare]
    let rs := List.replicate (db.under (t.poid ++ [subid])).length (bareAnswer vb)
    have hlength : (db.under (t.poid ++ [subid])).length < (bareAnswer vb :: rs).length := by
      rw [List.length_cons, List.length_replicate]
      exact Nat.lt_succ_self _
    obtain ⟨hanswered, hnone⟩ := @TableView.collect_bare env db v1 t vb rest ht hseed hafter hself rs
    have hcollect := hall _ hanswered hlength
    rw [hnone] at hcollect
    cases hcollect
  · intro hlonger rs hanswered hlength
    have ht : SizedMib t.agent.mib.handle := hfresh.mib ▸ hmib
    have hne : t.poid ++ [subid] ≠ [] := List.append_ne_nil_of_right_ne_nil _ (List.cons_ne_nil subid [])
    rw [← TableView.tableFor_eq hfresh, TableView.rowsFor, hunder, List.map_cons]
    rw [hunder, List.length_cons] at hlength
    apply TableView.collect_row ht hdb hseed hafter hcolumnOid hne hbegins hlonger ?_ hanswered hlength
    intro rs hlater hlength
    exact TableView.collect_later hdb ht rfl hne hbegins hlonger rfl hlater hlength

/-- Two instances of the first column, one of the second. -/
def smallTable : Database where
  instances := [⟨[1, 3, 6, 1, 1, 5], .int32 0⟩, ⟨[1, 3, 6, 1, 1, 7], .int32 1⟩, ⟨[1, 3, 6, 1, 2, 7], .int32 2⟩]
  sorted := by decide
  named := by decide
  plain := by decide

theorem tableSession_sized : SizedMib tableSession.mib.handle := by decide

theorem table_rows_iff_small :
    ∃ column, smallTable.firstColumn viewing.poid = some column ∧ viewing.poid <+: column ∧
      ((smallTable.under column).map (indexIn column)).Pairwise (· < ·) ∧
      ((∀ rs, Runs.Each (TableView.checkedFollow blank) (fun t r => t.AnsweredBy smallTable false r) viewing rs →
          (smallTable.under column).length < rs.length →
          viewing.collect blank rs = some (viewing.tableFor blank smallTable column)) ↔
        ∀ vb ∈ smallTable.instances, vb.oid ≠ column) :=
  table_rows_iff tableSession_sized (by decide) tableSession_view (by decide)

/-- Where the map holds the column itself. -/
def columnHeld : Database where
  instances := [⟨[1, 3, 6, 1, 1], .int32 0⟩, ⟨[1, 3, 6, 1, 1, 5], .int32 1⟩]
  sorted := by decide
  named := by decide
  plain := by decide

theorem held_column_read_outside :
    ¬ ∀ (env : Printing) (db : Database) (v1 : Bool) (oid : String) (a : AgentState) (t : TableView),
      SizedMib a.mib.handle → db.Sized → tableViewFrom oid a = some (.inr t) → db.below t.poid ≠ [] →
      ∀ column, db.firstColumn t.poid = some column → ∀ rs,
        Runs.Each (TableView.checkedFollow env) (fun t r => t.AnsweredBy db v1 r) t rs →
        (db.under column).length < rs.length → t.collect env rs = some (t.tableFor env db column) := by
  intro h
  let held : Reply × (ℕ → Reply) := (⟨0, ⟨[⟨[1, 3, 6, 1, 1], .int32 0⟩], 0, 0⟩⟩, fun _ => stuckReply)
  have hanswered : Runs.Each (TableView.checkedFollow blank) (fun t r => t.AnsweredBy columnHeld false r) viewing
      [held, held, held] := by
    refine ⟨⟨⟨rfl, rfl, rfl⟩, ?_⟩, ?_⟩
    · intro column f hcolumn hread
      obtain rfl := Option.some.inj hcolumn
      cases hread
    · intro t' ht'
      cases ht'
  have hcollect := h blank columnHeld false "1.3.6.1" tableSession viewing tableSession_sized (by decide)
    tableSession_view (by decide) _ rfl _ hanswered (by decide)
  cases hcollect

end SnmpB.Agent
