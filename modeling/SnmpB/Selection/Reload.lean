import SnmpB.Agent.Handles
import SnmpB.Agent.Row
import SnmpB.Selection.Name

/-! # Reloading the library under a dialog

A selection dialog keeps the node and the type of its OID, a table view its row.
Both wait, for the user or for a synchronous answer, and meanwhile a callback may
load a module, which reloads the library. Every other handle is looked up where
it is used, or belongs to an item of a MIB tree, and a reload clears these.
-/
namespace SnmpB.Selection
open Agent Mib Epoch Runs
open MibSelection (resolve)

/-- The call of `SetOidInfoType` that waits for an instance to be selected. -/
inductive Caller
  | run (flags : Flags) (initSyntax : Option SnmpSyntax) (initVal : String)
  | bgrun (flags : Flags)
  | getSelectedOid (m : MibSelection)

/-- The selection when the call has returned. -/
def Caller.resume (p : Platform) (handle : SmiHandle) (oid : String) (inst : Option String) :
    Caller → MibSelection
  | .run flags initSyntax initVal => .start p handle flags oid inst initSyntax initVal
  | .bgrun flags => .bgrun p handle flags oid inst
  | .getSelectedOid m => { m with handle }.getSelectedOid oid inst

structure Column where
  f : List Char
  node : SmiNode
  rest : List SmiNode

/-- What the user interface waits in, with the epoch of the handles it keeps and that of the tree
items of the dialog. -/
inductive Task
  | idle
  | table (view : TableView) (obtained : ℕ) (column : Option Column)
  | instances (answers : Selecting ⊕ List (List Char)) (caller : Caller) (oid : String)
      (handle : SmiHandle) (obtained : ℕ) (items : Option ℕ)
  | dialog (m : MibSelection) (obtained : ℕ) (items : Option ℕ)

namespace Task

def obtained? : Task → Option ℕ
  | .idle => none
  | .table _ obtained _ | .instances _ _ _ _ obtained _ | .dialog _ obtained _ => some obtained

def items : Task → Option ℕ
  | .instances _ _ _ _ _ items | .dialog _ _ items => items
  | _ => none

def clearItems : Task → Task
  | .instances answers caller oid handle obtained _ => .instances answers caller oid handle obtained none
  | .dialog m obtained _ => .dialog m obtained none
  | task => task

end Task

/-- The program around a session: the handles of the library, the items of the MIB tree, whether
its tab is shown, and what the user interface waits in. -/
structure Program where
  session : Session
  handles : Handles
  treeTab : Bool
  items : Option ℕ
  task : Task

inductive ProgramEvent
  | session (e : Event)
  | response (i : ℕ) (r : Response)
  | refresh (mib : MibState)
  | tabSelected (tree : Bool)
  | selectItem
  | tableViewFrom (oid : String)
  | nextReply (reply : Reply)
  | cellReply (reply : Reply)
  | run (flags : Flags) (initOid : String) (initSyntax : Option SnmpSyntax) (initVal : String)
  | bgrun (flags : Flags) (oid : String)
  | instanceReply (reply : Reply)
  | pickInstance (index : Option ℕ)
  | selectNode (oid : String)
  | ui (e : UiEvent)
  | ok
  | cancel

namespace Program

def start (agent : AgentState) : Program := ⟨.idle agent, ⟨0, []⟩, true, some 0, .idle⟩

def agent (s : Program) : AgentState := s.session.agent

def setAgent (s : Program) (agent : AgentState) : Program := { s with session := { s.session with agent } }

def deref (s : Program) (obtained : ℕ) : Program := { s with handles := s.handles.deref obtained }

/-- A pointer that may be null is not followed when it is. -/
def derefIf (s : Program) (handle : Bool) (obtained : ℕ) : Program :=
  if handle then s.deref obtained else s

/-- The end of a callback. A reload clears every view, and behind it only the tree in the tab that
is shown is populated. -/
def reloaded (s : Program) (t : Handles) : Program :=
  if s.handles.epoch < t.epoch then
    { s with handles := t, items := if s.treeTab then some t.epoch else none, task := s.task.clearItems }
  else { s with handles := t }

def startTable (s : Program) (oid : String) : Option Program :=
  match SnmpB.Agent.tableViewFrom oid s.agent with
  | none => none
  | some (.inl agent) =>
    some ((s.derefIf (SnmpB.Agent.setup s.agent oid false).isSome s.handles.epoch).setAgent agent)
  | some (.inr view) =>
    some { (s.deref s.handles.epoch).setAgent view.agent with task := .table view s.handles.epoch none }

/-- The next column of a row, or the end of the row when there is none. -/
def enterColumn (s : Program) (view : TableView) (obtained : ℕ) (f : List Char) : List SmiNode → Program
  | node :: rest => { s.setAgent view.agent with task := .table view obtained (some ⟨f, node, rest⟩) }
  | [] => { s.setAgent view.endRow.agent with task := .table view.endRow obtained none }

def nextReply (s : Program) (view : TableView) (obtained : ℕ) (reply : Reply) : Option Program :=
  match { view with agent := s.agent }.enter reply with
  | .outOfBounds => none
  | .left agent => some { s.setAgent agent with task := .idle }
  | .next (view, f) =>
    -- `smiGetFirstChildNode(pnode)`
    some ((s.deref obtained).enterColumn view obtained f view.columns)

def cellReply (env : Printing) (s : Program) (view : TableView) (obtained : ℕ) (column : Column)
    (reply : Reply) : Program :=
  -- `GetPrintableValue(node, &svb)` and `smiGetNextChildNode(node)`
  (s.deref obtained).enterColumn
    ({ view with agent := s.agent }.putCell env column.f column.node reply) obtained column.f column.rest

variable (p : Platform)

/-- `SetOidInfoType` from the instance on, and what its caller does before it waits: both read
`thenode` and `thetype`. -/
def resume (s : Program) (caller : Caller) (oid : String) (inst : Option String) (handle : SmiHandle)
    (obtained : ℕ) (items : Option ℕ) : Program :=
  let thenode := resolve handle oid
  let thetype := thenode.bind smiGetNodeType
  let s := (s.derefIf thenode.isSome obtained).derefIf thetype.isSome obtained
  match caller with
  | .bgrun _ => { s with task := .idle }
  | _ => { s with task := .dialog (caller.resume p handle oid inst) obtained items }

/-- `SetOidInfoType` up to the selection of an instance. -/
def setOidInfoType (s : Program) (caller : Caller) (oid : String) (items : Option ℕ) : Option Program :=
  let handle := s.agent.mib.handle
  let epoch := s.handles.epoch
  let s := s.derefIf (getNodeFromOid handle (Oid.ofText oid)).isSome epoch
  match resolve handle oid with
  | none => some (s.resume p caller oid none handle epoch items)
  | some thenode =>
    if thenode.nodekind = .column ∧ (Oid.ofText oid).length ≤ thenode.oid.length then
      match SnmpB.Agent.selectTableInstance oid s.agent with
      | none => none
      | some (.inl agent) => some ((s.setAgent agent).resume p caller oid none handle epoch items)
      | some (.inr selecting) =>
        some { s.setAgent selecting.agent with
          task := .instances (.inl selecting) caller oid handle epoch items }
    else some (s.resume p caller oid none handle epoch items)

/-- The handlers of the open dialog that are not connected to its tree; only the syntax box reads
the type, when its current index changes. -/
def readsType (m : MibSelection) : UiEvent → Bool
  | .pickSyntax index => decide (m.syntaxCb ≠ index) && m.flags.value && m.type.isSome
  | _ => false

def uiEvent (s : Program) (m : MibSelection) (obtained : ℕ) (items : Option ℕ) (e : UiEvent) :
    Option Program :=
  match e with
  | .selectNode .. => none
  | e =>
    (m.step p e).map fun m' =>
      { s.derefIf (readsType m e) obtained with task := .dialog m' obtained items }

/-- The events that start an SNMP operation from the main window, and its other actions. -/
def sessionEvent (env : Printing) (s : Program) (e : Event) : Option Program :=
  match e with
  | .response .. | .tableViewFrom _ | .tableReply .. => none
  | .selectTableInstance oid =>
    (s.session.step env e).map fun session =>
      { s.derefIf (SnmpB.Agent.setup s.agent oid false).isSome s.handles.epoch with session }
  | e => (s.session.step env e).map fun session => { s with session }

/-- One event. The callbacks arrive in every state, the actions of the user only where the window
they belong to is not blocked by a dialog or by a synchronous call. -/
def step (env : Printing) (s : Program) (e : ProgramEvent) : Option Program :=
  match e, s.task with
  | .response i r, _ =>
    match s.session.pending[i]?, s.session.step env (.response i r) with
    | some q, some session =>
      some ({ s with session }.reloaded (callbackHandles env q.kind r s.agent s.handles))
    | _, _ => none
  | .session e, .idle => s.sessionEvent env e
  | .refresh mib, .idle =>
    some { s.setAgent { s.agent with mib := mib.refresh } with
      handles := { s.handles with epoch := s.handles.epoch + 1 }, items := none }
  | .tabSelected tree, .idle =>
    some { s with
      treeTab := tree
      items := if tree then some (s.items.getD s.handles.epoch) else s.items }
  | .selectItem, .idle => s.items.map s.deref
  | .tableViewFrom oid, .idle => s.startTable oid
  | .nextReply reply, .table view obtained none => s.nextReply view obtained reply
  | .cellReply reply, .table view obtained (some column) => some (s.cellReply env view obtained column reply)
  -- the items of the new view are read by `SelectFromOid`
  | .run flags initOid initSyntax initVal, .idle =>
    (s.deref s.handles.epoch).setOidInfoType p (.run flags initSyntax initVal) initOid (some s.handles.epoch)
  | .bgrun flags oid, .idle =>
    (s.deref s.handles.epoch).setOidInfoType p (.bgrun flags) oid (some s.handles.epoch)
  | .instanceReply reply, .instances (.inl selecting) caller oid handle obtained items =>
    match selecting.pass reply with
    | .outOfBounds => none
    | .left ilist => some { s with task := .instances (.inr ilist) caller oid handle obtained items }
    | .next selecting => some { s with task := .instances (.inl selecting) caller oid handle obtained items }
  | .pickInstance index, .instances (.inr ilist) caller oid handle obtained items =>
    some (s.resume p caller oid ((index.bind (ilist[·]?)).map String.ofList) handle obtained items)
  | .selectNode oid, .dialog m _ (some items) =>
    (s.deref items).setOidInfoType p (.getSelectedOid m) oid (some items)
  | .ui e, .dialog m obtained items => s.uiEvent p m obtained items e
  | .ok, .dialog m obtained _ =>
    match m.okButtonPressed p with
    | (m, true) => some { s.derefIf m.node.isSome obtained with task := .idle }
    | (_, false) => none
  | .cancel, .dialog .. => some { s with task := .idle }
  | _, _ => none

/-- A reload of the library: from the preferences and the editor, or by a callback. -/
def Reloads (env : Printing) (s : Program) : ProgramEvent → Prop
  | .refresh _ => True
  | .response i r => ∃ q, s.session.pending[i]? = some q ∧
      s.handles.epoch < (callbackHandles env q.kind r s.agent s.handles).epoch
  | _ => False

/-- The events that use the handles the program waits with. -/
def Uses (s : Program) (e : ProgramEvent) : Prop :=
  match e, s.task with
  | .nextReply reply, .table view _ none => ({ view with agent := s.agent }.enter reply).state?.isSome
  | .cellReply _, .table _ _ (some _) => True
  | .pickInstance _, .instances (.inr _) _ oid handle _ _ => (resolve handle oid).isSome
  | .ui e, .dialog m _ _ => readsType m e
  | .ok, .dialog m _ _ => m.node.isSome
  | _, _ => False

end Program

/-- The events that look up the handles to wait with. -/
def ProgramEvent.Obtains : ProgramEvent → Prop
  | .tableViewFrom _ | .run .. | .bgrun .. | .selectNode _ => True
  | _ => False

namespace Program

@[simp] theorem deref_epoch (s : Program) (obtained : ℕ) :
    (s.deref obtained).handles.epoch = s.handles.epoch := rfl

@[simp] theorem deref_items (s : Program) (obtained : ℕ) : (s.deref obtained).items = s.items := rfl

@[simp] theorem deref_task (s : Program) (obtained : ℕ) : (s.deref obtained).task = s.task := rfl

@[simp] theorem deref_derefs (s : Program) (obtained : ℕ) :
    AllFresh (s.deref obtained).handles.derefs ↔
      AllFresh s.handles.derefs ∧ obtained = s.handles.epoch := by
  rw [deref, Handles.deref, allFresh_append, allFresh_singleton]
  rfl

@[simp] theorem derefIf_epoch (s : Program) (handle : Bool) (obtained : ℕ) :
    (s.derefIf handle obtained).handles.epoch = s.handles.epoch := by
  unfold derefIf
  split <;> rfl

@[simp] theorem derefIf_items (s : Program) (handle : Bool) (obtained : ℕ) :
    (s.derefIf handle obtained).items = s.items := by
  unfold derefIf
  split <;> rfl

@[simp] theorem derefIf_task (s : Program) (handle : Bool) (obtained : ℕ) :
    (s.derefIf handle obtained).task = s.task := by
  unfold derefIf
  split <;> rfl

@[simp] theorem derefIf_derefs (s : Program) (handle : Bool) (obtained : ℕ) :
    AllFresh (s.derefIf handle obtained).handles.derefs ↔
      AllFresh s.handles.derefs ∧ (handle = true → obtained = s.handles.epoch) := by
  unfold derefIf
  split
  · rename_i hhandle
    rw [deref_derefs, hhandle]
    simp
  · rename_i hhandle
    simp [hhandle]

@[simp] theorem setAgent_handles (s : Program) (agent : AgentState) :
    (s.setAgent agent).handles = s.handles := rfl

@[simp] theorem setAgent_items (s : Program) (agent : AgentState) : (s.setAgent agent).items = s.items := rfl

@[simp] theorem setAgent_task (s : Program) (agent : AgentState) : (s.setAgent agent).task = s.task := rfl

/-- The items of the trees belong to the library as it is. -/
structure Current (s : Program) : Prop where
  items : ∀ g ∈ s.items, g = s.handles.epoch
  dialog : ∀ g ∈ s.task.items, g = s.handles.epoch

/-- What a step that does not reload the library does to the handles, where it reads those kept
under the given condition. -/
structure Stays (s s' : Program) (Obtains Reads : Prop) : Prop where
  epoch_eq : s'.handles.epoch = s.handles.epoch
  current : s'.Current
  obtain : Obtains → ∀ g ∈ s'.task.obtained?, g = s.handles.epoch
  carry : ¬ Obtains → ∀ g ∈ s'.task.obtained?, g ∈ s.task.obtained?
  logged : AllFresh s'.handles.derefs ↔
    AllFresh s.handles.derefs ∧ (Reads → ∀ g ∈ s.task.obtained?, g = s.handles.epoch)

variable {p : Platform} {env : Printing} {s s' : Program}

/-- What is left of `SetOidInfoType`, with a node looked up in the given epoch. -/
structure Opens (s s' : Program) (obtained : ℕ) (Reads : Prop) : Prop where
  epoch_eq : s'.handles.epoch = s.handles.epoch
  current : s'.Current
  held : ∀ g ∈ s'.task.obtained?, g = obtained
  logged : AllFresh s'.handles.derefs ↔
    AllFresh s.handles.derefs ∧ (Reads → obtained = s.handles.epoch)

theorem Opens.of_deref (h : Opens (s.deref s.handles.epoch) s' s.handles.epoch False) :
    Opens s s' s.handles.epoch False :=
  ⟨h.epoch_eq, h.current, h.held, h.logged.trans (by simp)⟩

theorem resume_opens (hs : ∀ g ∈ s.items, g = s.handles.epoch) {items : Option ℕ}
    (hitems : ∀ g ∈ items, g = s.handles.epoch) (caller : Caller) (oid : String) (inst : Option String)
    (handle : SmiHandle) (obtained : ℕ) :
    Opens s (s.resume p caller oid inst handle obtained items) obtained (resolve handle oid).isSome := by
  have hreads : AllFresh ((s.derefIf (resolve handle oid).isSome obtained).derefIf
      ((resolve handle oid).bind smiGetNodeType).isSome obtained).handles.derefs ↔
      AllFresh s.handles.derefs ∧ ((resolve handle oid).isSome → obtained = s.handles.epoch) := by
    rw [derefIf_derefs, derefIf_derefs, derefIf_epoch, and_iff_left_iff_imp]
    rintro ⟨-, hnode⟩ htype
    apply hnode
    rw [Option.isSome_bind] at htype
    exact Option.isSome_of_any htype
  have hdialog : ∀ m, Opens s { (s.derefIf (resolve handle oid).isSome obtained).derefIf
      ((resolve handle oid).bind smiGetNodeType).isSome obtained with task := .dialog m obtained items }
      obtained (resolve handle oid).isSome := by
    intro m
    constructor
    · simp
    · constructor
      · simpa using hs
      · simpa [Task.items] using hitems
    · intro g hg
      exact (Option.some.inj hg).symm
    · exact hreads
  cases caller with
  | bgrun flags =>
    have hidle : s.resume p (.bgrun flags) oid inst handle obtained items =
        { (s.derefIf (resolve handle oid).isSome obtained).derefIf
          ((resolve handle oid).bind smiGetNodeType).isSome obtained with task := .idle } := rfl
    rw [hidle]
    constructor
    · simp
    · constructor
      · simpa using hs
      · intro g hg
        cases hg
    · intro g hg
      cases hg
    · exact hreads
  | run flags initSyntax initVal => exact hdialog _
  | getSelectedOid m => exact hdialog _

/-- The node that `SetOidInfoType` looks up is current, whether or not it waits for an instance. -/
theorem setOidInfoType_opens (hs : ∀ g ∈ s.items, g = s.handles.epoch) {items : Option ℕ}
    (hitems : ∀ g ∈ items, g = s.handles.epoch) {caller : Caller} {oid : String}
    (h : s.setOidInfoType p caller oid items = some s') : Opens s s' s.handles.epoch False := by
  -- what goes on at once, and what waits for an instance
  have hresume : ∀ b (t : Program), t.handles = (s.derefIf b s.handles.epoch).handles → t.items = s.items →
      Opens s (t.resume p caller oid none s.agent.mib.handle s.handles.epoch items) s.handles.epoch
        False := by
    intro b t ht htitems
    have hepoch : t.handles.epoch = s.handles.epoch := by rw [ht, derefIf_epoch]
    obtain ⟨hsame, hcurrent, hheld, hlogged⟩ := resume_opens (p := p) (s := t)
      (by rw [htitems, hepoch]; exact hs) (by rw [hepoch]; exact hitems) caller oid none
      s.agent.mib.handle s.handles.epoch
    refine ⟨hsame.trans hepoch, hcurrent, hheld, hlogged.trans ?_⟩
    rw [ht]
    simp
  have hwait : ∀ b agent selecting, Opens s { (s.derefIf b s.handles.epoch).setAgent agent with
      task := .instances (.inl selecting) caller oid s.agent.mib.handle s.handles.epoch items }
      s.handles.epoch False := by
    intro b agent selecting
    constructor
    · simp
    · constructor
      · simpa using hs
      · simpa [Task.items] using hitems
    · intro g hg
      exact (Option.some.inj hg).symm
    · simp
  unfold setOidInfoType at h
  simp only at h
  split at h
  · cases h
    exact hresume _ _ rfl (derefIf_items s _ _)
  · split at h
    · split at h
      · cases h
      · cases h
        exact hresume _ _ rfl (derefIf_items s _ _)
      · cases h
        exact hwait _ _ _
    · cases h
      exact hresume _ _ rfl (derefIf_items s _ _)

theorem Opens.stays {obtained : ℕ} {Obtains Reads Reads' : Prop} (h : Opens s s' obtained Reads)
    (hobtain : Obtains → obtained = s.handles.epoch) (hcarry : ¬ Obtains → s.task.obtained? = some obtained)
    (hreads : (Reads → obtained = s.handles.epoch) ↔
      (Reads' → ∀ g ∈ s.task.obtained?, g = s.handles.epoch)) : Stays s s' Obtains Reads' := by
  refine ⟨h.epoch_eq, h.current, ?_, ?_, h.logged.trans (and_congr_right fun _ => hreads)⟩
  · intro hyes g hg
    exact (h.held g hg).trans (hobtain hyes)
  · intro hno g hg
    rw [h.held g hg, hcarry hno]
    rfl

/-- Looking up a node behind a step in the tree that names it. -/
theorem setOidInfoType_stays (hs : s.Current) {caller : Caller} {oid : String} {items : Option ℕ}
    (hitems : ∀ g ∈ items, g = s.handles.epoch)
    (h : (s.deref s.handles.epoch).setOidInfoType p caller oid items = some s') : Stays s s' True False := by
  have hopens := (setOidInfoType_opens (s := s.deref s.handles.epoch) hs.items hitems h).of_deref
  exact hopens.stays (fun _ => rfl) (absurd trivial) (iff_of_true False.elim False.elim)

/-- A step that reads one handle, or none, and keeps what it waits with. -/
theorem stays_of_handles (b : Bool) (obtained : ℕ) {Reads : Prop} (hs : s.Current)
    (hhandles : s'.handles = (s.derefIf b obtained).handles)
    (hitems : ∀ g ∈ s'.items, g ∈ s.items ∨ g = s.handles.epoch)
    (hdialog : ∀ g ∈ s'.task.items, g ∈ s.task.items)
    (hheld : ∀ g ∈ s'.task.obtained?, g ∈ s.task.obtained?)
    (hreads : (b = true → obtained = s.handles.epoch) ↔
      (Reads → ∀ g ∈ s.task.obtained?, g = s.handles.epoch)) : Stays s s' False Reads := by
  have hepoch : s'.handles.epoch = s.handles.epoch := by rw [hhandles, derefIf_epoch]
  refine ⟨hepoch, ⟨?_, ?_⟩, False.elim, fun _ => hheld, ?_⟩
  · intro g hg
    rw [hepoch]
    exact (hitems g hg).elim (hs.items g) id
  · intro g hg
    rw [hepoch]
    exact hs.dialog g (hdialog g hg)
  · rw [hhandles, derefIf_derefs, hreads]

theorem stays_of_handles_eq (hs : s.Current) (hhandles : s'.handles = s.handles)
    (hitems : ∀ g ∈ s'.items, g ∈ s.items ∨ g = s.handles.epoch)
    (hdialog : ∀ g ∈ s'.task.items, g ∈ s.task.items)
    (hheld : ∀ g ∈ s'.task.obtained?, g ∈ s.task.obtained?) : Stays s s' False False :=
  stays_of_handles false 0 hs hhandles hitems hdialog hheld (by simp)

theorem sessionEvent_stays {e : Event} (hs : s.Current) (h : s.sessionEvent env e = some s') :
    Stays s s' False False := by
  unfold sessionEvent at h
  split at h
  · cases h
  · cases h
  · cases h
  · obtain ⟨session, -, rfl⟩ := Option.map_eq_some_iff.mp h
    refine stays_of_handles _ _ hs rfl ?_ ?_ ?_ (iff_of_true (fun _ => rfl) False.elim)
    · simpa using fun g hg => Or.inl hg
    · simp
    · simp
  · obtain ⟨session, -, rfl⟩ := Option.map_eq_some_iff.mp h
    exact stays_of_handles_eq hs rfl (fun _ => Or.inl) (fun _ => id) (fun _ => id)

theorem startTable_stays {oid : String} (hs : s.Current) (htask : s.task = .idle)
    (h : s.startTable oid = some s') : Stays s s' True False := by
  unfold startTable at h
  split at h
  · cases h
  · cases h
    refine ⟨by simp, ⟨by simpa using hs.items, by simpa using hs.dialog⟩, ?_, absurd trivial, ?_⟩
    · intro _ g hg
      rw [setAgent_task, derefIf_task, htask] at hg
      cases hg
    · simp
  · cases h
    refine ⟨by simp, ⟨by simpa using hs.items, ?_⟩, ?_, absurd trivial, ?_⟩
    · intro g hg
      cases hg
    · intro _ g hg
      exact (Option.some.inj hg).symm
    · simp

theorem enterColumn_spec (view : TableView) (obtained : ℕ) (f : List Char) (nodes : List SmiNode) :
    (s.enterColumn view obtained f nodes).handles = s.handles ∧
    (s.enterColumn view obtained f nodes).items = s.items ∧
    ∃ view' column, (s.enterColumn view obtained f nodes).task = .table view' obtained column := by
  cases nodes with
  | nil => exact ⟨rfl, rfl, _, _, rfl⟩
  | cons node rest => exact ⟨rfl, rfl, _, _, rfl⟩

/-- Reading the row for its columns, in a table view that goes on. -/
theorem enterColumn_stays {view view' : TableView} {obtained : ℕ} {column : Option Column} (hs : s.Current)
    (htask : s.task = .table view obtained column) (f : List Char) (nodes : List SmiNode) :
    Stays s ((s.deref obtained).enterColumn view' obtained f nodes) False True := by
  obtain ⟨hhandles, hitems, view'', column', htask'⟩ :=
    enterColumn_spec (s := s.deref obtained) view' obtained f nodes
  refine stays_of_handles true _ hs hhandles ?_ ?_ ?_ ?_
  · intro g hg
    rw [hitems] at hg
    exact Or.inl hg
  · intro g hg
    rw [htask'] at hg
    cases hg
  · intro g hg
    rw [htask'] at hg
    rw [htask]
    exact hg
  · rw [htask]
    simp [Task.obtained?]

theorem nextReply_stays {view : TableView} {obtained : ℕ} {reply : Reply} (hs : s.Current)
    (htask : s.task = .table view obtained none) (h : s.nextReply view obtained reply = some s') :
    Stays s s' False ({ view with agent := s.agent }.enter reply).state?.isSome := by
  unfold nextReply at h
  split at h
  · cases h
  · rename_i agent hleft
    cases h
    rw [hleft]
    refine stays_of_handles false 0 hs rfl (fun _ => Or.inl) ?_ ?_ ?_
    · intro g hg
      cases hg
    · intro g hg
      cases hg
    · simp [Pass.state?]
  · rename_i view' f hnext
    cases h
    rw [hnext]
    have hreads : Stays s ((s.deref obtained).enterColumn view' obtained f view'.columns) False True :=
      enterColumn_stays hs htask f view'.columns
    exact ⟨hreads.epoch_eq, hreads.current, hreads.obtain, hreads.carry,
      hreads.logged.trans (by simp [Pass.state?])⟩

theorem uiEvent_stays {m : MibSelection} {obtained : ℕ} {items : Option ℕ} {e : UiEvent} (hs : s.Current)
    (htask : s.task = .dialog m obtained items) (h : s.uiEvent p m obtained items e = some s') :
    Stays s s' False (readsType m e) := by
  have hreads : ∀ m', Stays s { s.derefIf (readsType m e) obtained with task := .dialog m' obtained items }
      False (readsType m e) := by
    intro m'
    refine stays_of_handles _ _ hs rfl ?_ ?_ ?_ ?_
    · simpa using fun g hg => Or.inl hg
    · intro g hg
      rw [htask]
      exact hg
    · intro g hg
      rw [htask]
      exact hg
    · rw [htask]
      simp [Task.obtained?]
  unfold uiEvent at h
  split at h
  · cases h
  · obtain ⟨m', -, rfl⟩ := Option.map_eq_some_iff.mp h
    exact hreads m'

/-- Everything a step can do that does not reload the library. -/
theorem step_stays {e : ProgramEvent} (hs : s.Current) (hresponse : ∀ i r, e ≠ .response i r)
    (hrefresh : ∀ mib, e ≠ .refresh mib) (h : s.step p env e = some s') :
    Stays s s' e.Obtains (s.Uses e) := by
  unfold step at h
  unfold Uses
  split at h
  · exact absurd rfl (hresponse _ _)
  · exact sessionEvent_stays hs h
  · exact absurd rfl (hrefresh _)
  · rename_i tree htask
    cases h
    refine stays_of_handles_eq hs rfl ?_ (fun _ => id) (fun _ => id)
    intro g hg
    cases tree with
    | false => exact Or.inl hg
    | true =>
      cases hitems : s.items with
      | none =>
        rw [hitems] at hg
        exact Or.inr (Option.some.inj hg).symm
      | some items =>
        rw [hitems] at hg
        exact Or.inl hg
  · obtain ⟨items, hitems, rfl⟩ := Option.map_eq_some_iff.mp h
    have hfresh := hs.items items hitems
    exact stays_of_handles true _ hs rfl (fun _ => Or.inl) (fun _ => id) (fun _ => id)
      (iff_of_true (fun _ => hfresh) False.elim)
  · rename_i oid htask
    exact startTable_stays hs htask h
  · rename_i reply view obtained htask
    simp only [htask]
    exact nextReply_stays hs htask h
  · rename_i reply view obtained column htask
    simp only [htask]
    cases h
    exact enterColumn_stays hs htask column.f column.rest
  · rename_i flags initOid initSyntax initVal htask
    exact setOidInfoType_stays hs (by simp) h
  · rename_i flags oid htask
    exact setOidInfoType_stays hs (by simp) h
  · rename_i reply selecting caller oid handle obtained items htask
    have hwaits : ∀ answers, Stays s
        { s with task := .instances answers caller oid handle obtained items } False False := by
      intro answers
      refine stays_of_handles_eq hs rfl (fun _ => Or.inl) ?_ ?_
      · intro g hg
        rw [htask]
        exact hg
      · intro g hg
        rw [htask]
        exact hg
    split at h
    · cases h
    · cases h
      exact hwaits _
    · cases h
      exact hwaits _
  · rename_i index ilist caller oid handle obtained items htask
    simp only [htask]
    cases h
    have hdialog := hs.dialog
    rw [htask] at hdialog
    refine (resume_opens hs.items hdialog caller oid _ handle obtained).stays False.elim ?_ ?_
    · intro _
      rw [htask]
      rfl
    · rw [htask]
      simp [Task.obtained?]
  · rename_i oid m obtained items htask
    have hdialog := hs.dialog
    rw [htask] at hdialog
    have hfresh := hdialog items rfl
    subst hfresh
    exact setOidInfoType_stays hs hdialog h
  · rename_i e m obtained items htask
    simp only [htask]
    exact uiEvent_stays hs htask h
  · rename_i m obtained items htask
    simp only [htask]
    split at h
    · rename_i m' hok
      cases h
      have hpart := MibSelection.okButtonPressed_oidPart p m
      rw [hok] at hpart
      have hnode : m'.node = m.node := congrArg (·.2.1) hpart
      refine stays_of_handles _ _ hs rfl ?_ ?_ ?_ ?_
      · simpa using fun g hg => Or.inl hg
      · intro g hg
        cases hg
      · intro g hg
        cases hg
      · rw [htask, hnode]
        simp [Task.obtained?]
    · cases h
  · cases h
    refine stays_of_handles_eq hs rfl (fun _ => Or.inl) ?_ ?_
    · intro g hg
      cases hg
    · intro g hg
      cases hg
  · cases h

theorem reloaded_current (hs : s.Current) {t : Handles} (hle : s.handles.epoch ≤ t.epoch) :
    (s.reloaded t).Current := by
  unfold reloaded
  split
  · constructor
    · intro g hg
      simp only at hg
      split at hg
      · exact (Option.some.inj hg).symm
      · cases hg
    · intro g hg
      exfalso
      revert hg
      cases s.task <;> simp [Task.clearItems, Task.items]
  · have hepoch : t.epoch = s.handles.epoch := by omega
    constructor
    · intro g hg
      exact (hs.items g hg).trans hepoch.symm
    · intro g hg
      exact (hs.dialog g hg).trans hepoch.symm

theorem reloaded_obtained (t : Handles) : (s.reloaded t).task.obtained? = s.task.obtained? := by
  unfold reloaded
  split
  · cases s.task <;> rfl
  · rfl

theorem reloaded_handles (t : Handles) : (s.reloaded t).handles = t := by
  unfold reloaded
  split <;> rfl

theorem step_response {i : ℕ} {r : Response} (hs : s.Current) (h : s.step p env (.response i r) = some s') :
    ∃ q, s.session.pending[i]? = some q ∧ s'.handles = callbackHandles env q.kind r s.agent s.handles ∧
      s'.Current ∧ s'.task.obtained? = s.task.obtained? := by
  unfold step at h
  simp only at h
  split at h
  · rename_i q session hq hsession
    cases h
    have hfollows := callbackHandles_follows env q.kind r s.agent s.handles
    refine ⟨q, hq, reloaded_handles _, ?_, reloaded_obtained _⟩
    exact reloaded_current (s := { s with session }) ⟨hs.items, hs.dialog⟩ hfollows.epoch_le
  · cases h

theorem step_refresh {mib : MibState} (h : s.step p env (.refresh mib) = some s') :
    s'.handles = { s.handles with epoch := s.handles.epoch + 1 } ∧ s'.items = none ∧ s'.task = .idle := by
  unfold step at h
  cases htask : s.task with
  | idle =>
    rw [htask] at h
    cases h
    exact ⟨rfl, rfl, htask⟩
  | _ =>
    rw [htask] at h
    cases h

/-- The program keeps track of the epochs as the general statement asks for. -/
theorem tracked : Tracked (step p env) Current (fun s => s.handles.epoch) (fun s => s.task.obtained?)
    (fun s => s.handles.derefs) (Reloads env) Uses ProgramEvent.Obtains := by
  -- one case for a callback, one for a refresh, one for everything else
  have hcases : ∀ {s s' : Program} {e : ProgramEvent}, s.Current → s.step p env e = some s' →
      (∃ i r, e = .response i r) ∨ (∃ mib, e = .refresh mib) ∨
        (¬ Reloads env s e ∧ Stays s s' e.Obtains (s.Uses e)) := by
    intro s s' e hs h
    by_cases hresponse : ∃ i r, e = .response i r
    · exact Or.inl hresponse
    · by_cases hrefresh : ∃ mib, e = .refresh mib
      · exact Or.inr (Or.inl hrefresh)
      · refine Or.inr (Or.inr ⟨?_, step_stays hs (fun i r he => hresponse ⟨i, r, he⟩)
          (fun mib he => hrefresh ⟨mib, he⟩) h⟩)
        cases e with
        | response i r => exact absurd ⟨i, r, rfl⟩ hresponse
        | refresh mib => exact absurd ⟨mib, rfl⟩ hrefresh
        | _ => exact id
  constructor
  case invariant =>
    intro s s' e hs h
    rcases hcases hs h with ⟨i, r, rfl⟩ | ⟨mib, rfl⟩ | ⟨-, hstays⟩
    · obtain ⟨q, -, -, hcurrent, -⟩ := step_response hs h
      exact hcurrent
    · obtain ⟨-, hitems, htask⟩ := step_refresh h
      constructor
      · intro g hg
        rw [hitems] at hg
        cases hg
      · intro g hg
        rw [htask] at hg
        cases hg
    · exact hstays.current
  case reload =>
    intro s s' e hs h hreloads
    rcases hcases hs h with ⟨i, r, rfl⟩ | ⟨mib, rfl⟩ | ⟨hno, -⟩
    · obtain ⟨q, hq, hhandles, -, -⟩ := step_response hs h
      obtain ⟨q', hq', hlt⟩ := hreloads
      obtain rfl : q = q' := Option.some.inj (hq.symm.trans hq')
      rw [hhandles]
      exact ⟨hlt, id⟩
    · rw [(step_refresh h).1]
      exact ⟨Nat.lt_succ_self _, id⟩
    · exact absurd hreloads hno
  case keep =>
    intro s s' e hs h hno
    rcases hcases hs h with ⟨i, r, rfl⟩ | ⟨mib, rfl⟩ | ⟨-, hstays⟩
    · obtain ⟨q, hq, hhandles, -, -⟩ := step_response hs h
      have hle := (callbackHandles_follows env q.kind r s.agent s.handles).epoch_le
      rw [hhandles]
      exact Nat.le_antisymm (Nat.le_of_not_lt fun hlt => hno ⟨q, hq, hlt⟩) hle
    · exact absurd trivial hno
    · exact hstays.epoch_eq
  case obtain =>
    intro s s' e hs h hobtains g hg
    rcases hcases hs h with ⟨i, r, rfl⟩ | ⟨mib, rfl⟩ | ⟨-, hstays⟩
    · exact hobtains.elim
    · exact hobtains.elim
    · rw [hstays.epoch_eq]
      exact hstays.obtain hobtains g hg
  case carry =>
    intro s s' e hs h hno g hg
    rcases hcases hs h with ⟨i, r, rfl⟩ | ⟨mib, rfl⟩ | ⟨-, hstays⟩
    · obtain ⟨q, -, -, -, hobtained⟩ := step_response hs h
      rw [← hobtained]
      exact hg
    · rw [(step_refresh h).2.2] at hg
      cases hg
    · exact hstays.carry hno g hg
  case use =>
    intro s e _ huse
    unfold Uses at huse
    split at huse
    case h_6 => exact huse.elim
    all_goals
      rename_i htask
      rw [htask]
      rfl
  case logged =>
    intro s s' e hs h
    rcases hcases hs h with ⟨i, r, rfl⟩ | ⟨mib, rfl⟩ | ⟨-, hstays⟩
    · obtain ⟨q, -, hhandles, -, -⟩ := step_response hs h
      rw [hhandles]
      apply (callbackHandles_follows env q.kind r s.agent s.handles).fresh.trans
      exact (and_iff_left False.elim).symm
    · rw [(step_refresh h).1]
      exact (and_iff_left False.elim).symm
    · exact hstays.logged

theorem start_current (agent : AgentState) : (start agent).Current := by
  constructor
  · intro g hg
    exact (Option.some.inj hg).symm
  · intro g hg
    cases hg

/-- The callbacks load modules only while no dialog and no table view keeps handles. -/
def ReloadsIdle (env : Printing) (s : Program) (e : ProgramEvent) : Prop :=
  s.Reloads env e → s.task.obtained? = none

variable (p) (env) in
/-- Main result: every dereference of a run is of a handle obtained after the last reload exactly
if no step uses the handles of a dialog or of a table view behind a reload; it is enough that no
callback reloads the library while there are any. -/
theorem derefs_fresh_iff (agent : AgentState) (es : List ProgramEvent) (s : Program)
    (hrun : exec (step p env) (start agent) es = some s) :
    (AllFresh s.handles.derefs ↔
      ∀ before u after m, es = before ++ u :: after → exec (step p env) (start agent) before = some m →
        m.Uses u →
        ¬ ReloadedSince (step p env) (Reloads env) ProgramEvent.Obtains (start agent) before) ∧
    (Each (step p env) (ReloadsIdle env) (start agent) es → AllFresh s.handles.derefs) := by
  have hheld : ∀ g ∈ (start agent).task.obtained?, g = (start agent).handles.epoch := by
    intro g hg
    cases hg
  constructor
  · exact tracked.allFresh_iff (start_current agent) hheld allFresh_nil hrun
  · intro hidle
    exact tracked.allFresh_of_each (start_current agent) hheld allFresh_nil hidle hrun

end Program

def udpModule : SmiModule :=
  { name := "UDP-MIB", path := "UDP-MIB", language := 2
    nodes := [⟨"udpInDatagrams", [1, 3, 6, 1, 2, 1, 7, 1], .scalar, none, "UDP-MIB"⟩] }

/-- Automatic loading without prompts, with one module loaded and another one not. -/
def loadingAgent : AgentState :=
  { idle with
    mib := MibState.refresh
      { files := fun file =>
          if file = "IP-MIB" then some ipModule
          else if file = "UDP-MIB" then some udpModule
          else none
        total := [⟨"IP-MIB", [[1, 3, 6, 1, 2, 1, 4]], by decide, by decide⟩,
          ⟨"UDP-MIB", [[1, 3, 6, 1, 2, 1, 7]], by decide, by decide⟩]
        automaticLoading := 1, answer := fun _ => .yes, mibpreloads := ["IP-MIB"], wanted := []
        handle := smiInit, loaded := [], unloaded := [], policy := .mibloadDefault, prompts := 0 } }

/-- A walk is under way when the dialog for a SET is opened; its answer arrives before OK. -/
def setDuringWalk : List ProgramEvent :=
  [.session (.walkFrom "1.3.6.1.2.1.7" 0), .run ⟨true, true, false⟩ "1.3.6.1.2.1.4.2" none "",
    .response 0 ⟨-6, ⟨[⟨[1, 3, 6, 1, 2, 1, 7, 1, 0], .cntr32 7⟩], 0, 0⟩, 0, 1⟩, .ok]

theorem derefs_fresh_iff_setDuringWalk :
    ∃ s, exec (Program.step asciiPlatform blank) (.start loadingAgent) setDuringWalk = some s ∧
      (AllFresh s.handles.derefs ↔
        ∀ before u after m, setDuringWalk = before ++ u :: after →
          exec (Program.step asciiPlatform blank) (.start loadingAgent) before = some m →
          m.Uses u → ¬ ReloadedSince (Program.step asciiPlatform blank) (Program.Reloads blank)
            ProgramEvent.Obtains (.start loadingAgent) before) ∧
      (Each (Program.step asciiPlatform blank) (Program.ReloadsIdle blank) (.start loadingAgent)
        setDuringWalk → AllFresh s.handles.derefs) := by
  have hruns : (exec (Program.step asciiPlatform blank) (.start loadingAgent) setDuringWalk).isSome := by
    decide
  obtain ⟨s, hs⟩ := Option.isSome_iff_exists.mp hruns
  exact ⟨s, hs, Program.derefs_fresh_iff asciiPlatform blank loadingAgent setDuringWalk s hs⟩

/-- OK reads the node that the module loaded meanwhile has made invalid. -/
theorem ok_reads_stale_node : ¬ ∀ (p : Platform) (env : Printing) (agent : AgentState)
    (es : List ProgramEvent) (s : Program), exec (Program.step p env) (.start agent) es = some s →
      AllFresh s.handles.derefs := by
  intro h
  have hstale : (exec (Program.step asciiPlatform blank) (.start loadingAgent) setDuringWalk).any
      (fun s => !decide (AllFresh s.handles.derefs)) = true := by decide
  obtain ⟨s, hs, hlog⟩ := (Option.any_eq_true _ _).mp hstale
  have hfresh := h asciiPlatform blank loadingAgent setDuringWalk s hs
  rw [decide_eq_true hfresh] at hlog
  cases hlog

end SnmpB.Selection
