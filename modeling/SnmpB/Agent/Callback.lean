import SnmpB.Agent.State

/-! # The response callback of a query

`AsyncCallback` as the source runs it: the checks on the reason and on the error
status, the loop over the varbinds with its buffer flushed at every tenth
object, the follow-up request of a walk, and the end of the query.
-/
namespace SnmpB.Agent
open Mib

def classTimeout : ℤ := -5
def classInvalidPdu : ℤ := -11
/-- The reasons under which the PDU is looked at: `SNMP_CLASS_ASYNC_RESPONSE`,
`SNMP_CLASS_NOTIFICATION` and `SNMP_CLASS_SESSION_DESTROYED`. -/
def responseReasons : List ℤ := [-6, -7, -8]

theorem not_timeout {reason : ℤ} (h : reason ∈ responseReasons) : reason ≠ classTimeout := by
  rintro rfl
  revert h
  decide

/-- What a callback is called with, and the status of the follow-up request if it makes one.
`fuel` bounds the restarts of one varbind. -/
structure Response where
  reason : ℤ
  pdu : Pdu
  sendStatus : ℤ
  fuel : ℕ

/-- What is left of a callback: the members of `Agent`, the object lines it formatted, and the
follow-up request it sent. -/
structure Returned where
  agent : AgentState
  formatted : List ObjectLine
  reissued : Option Request

/-- How the loop over the varbinds was left: by `goto end`, or at its end with the last varbind. -/
inductive Exit
  | gotoEnd
  | fellThrough (last : Vb)

structure Locals where
  iswalk : Bool
  pduError : ℕ
  pduIndex : ℕ

namespace AgentState

def cleanup (a : AgentState) : AgentState :=
  { a with
    query := a.query ++ [a.msg]
    mib := { a.mib with policy := .mibloadDefault }
    walkInProgress := false
    actionStop := false }

def stoppedText : String := "<font color=red>-----SNMP query stopped-----</font><br>"
def finishedText : String := "-----SNMP query finished-----<br>"

def totalsText (requests objects : ℕ) : String :=
  s!"<font color=#009000>Total # of Requests = {requests}<br>Total # of Objects = {objects}</font>"

def endQuery (a : AgentState) : AgentState :=
  cleanup { a with
    msg := a.msg ++ [.text (if a.stop then stoppedText else finishedText),
      .text (totalsText a.requests a.objects)] }

def failQuery (a : AgentState) (html : String) : AgentState := cleanup { a with msg := [.text html] }

/-- "Buffer each 10 objects before displaying". -/
def flush (a : AgentState) : AgentState :=
  if a.objects % 10 = 0 then { a with query := a.query ++ [a.msg], msg := [] }
  else { a with msg := a.msg ++ [.text "<br>"] }

end AgentState

def timeoutText : String := "<font color=red>Timeout</font>"
def emptyPduText : String := "<font color=red>Pdu is empty</font>"

section
variable (env : Printing)

def noResponseText (reason : ℤ) : String :=
  s!"<font color=red>No response received: ({reason}) {env.errorMsg reason}</font>"

def errorText (pduError : ℕ) : String := s!"<font color=red>{env.errorMsg pduError}</font><br>"

def couldNotSendText (kind : String) (status : ℤ) : String :=
  s!"<font color=red>Could not send {kind} request: {env.errorMsg status}</font>"

def isException (vb : Vb) : Bool :=
  vb.value.getSyntax == .noSuchObject || vb.value.getSyntax == .noSuchInstance

/-- `vb_error || (pdu_error && (z+1 == pdu_index))`. -/
def Locals.failed (ctx : Locals) (z : ℕ) (vb : Vb) : Bool :=
  isException vb || (ctx.pduError != 0 && z + 1 == ctx.pduIndex)

def Locals.failure (ctx : Locals) (vb : Vb) : String :=
  if ctx.pduError ≠ 0 then env.errorMsg ctx.pduError
  else if vb.value.getSyntax = .noSuchObject then "No Such Object"
  else "No Such Instance"

/-- `node->name` with the remaining part behind it, or the OID when there is no node. -/
def printedName (node : Option (SmiNode × List Char)) (vb : Vb) : String :=
  match node with
  | some (node, f) => node.name ++ String.ofList f
  | none => vb.oid.getPrintable

def printedValue (mib : MibState) (node : Option (SmiNode × List Char)) (vb : Vb) : String :=
  match node with
  | some (node, _) => toHtmlEscaped (env.printableValue mib.handle node vb)
  | none => env.vbPrintableValue vb

def objectLine (ctx : Locals) (z : ℕ) (vb : Vb) (number : ℕ) (res : Resolved) : ObjectLine :=
  { number, name := printedName res.node vb
    outcome :=
      if ctx.failed z vb then .error (ctx.failure env vb)
      else .value (printedValue env res.mib res.node vb) }

/-- The varbind leaves the loop before it is counted. -/
def Locals.outOfScope (ctx : Locals) (theoid : Oid) (vb : Vb) : Bool :=
  vb.value.getSyntax == .endOfMibView ||
    (ctx.iswalk && Oid.nCompare vb.oid theoid.length theoid != 0)

/-- Counting and printing one varbind; an error at a known node leaves the loop. -/
def formatVarbind (fuel : ℕ) (ctx : Locals) (z : ℕ) (vb : Vb) (a : AgentState) :
    Option (AgentState × ObjectLine × Bool) :=
  match Loop.run (nodeRestart vb) (fuel + 1) ⟨a.mib, []⟩ with
  | none => none
  | some res =>
    let line := objectLine env ctx z vb (a.objects + 1) res
    some ({ a with
        objects := a.objects + 1
        mib := res.mib
        msg := a.msg ++ res.loading.map .loading ++ [.line line] },
      line, ctx.failed z vb && res.node.isSome)

/-- The loop over the varbinds from index `z` on; `last` is the varbind got before. -/
def varbindLoop (fuel : ℕ) (ctx : Locals) :
    List Vb → ℕ → Vb → AgentState → Option (AgentState × List ObjectLine × Exit)
  | [], _, last, a => some (a, [], .fellThrough last)
  | vb :: rest, z, _, a =>
    if ctx.outOfScope a.theoid vb then some (a, [], .gotoEnd)
    else
      match formatVarbind env fuel ctx z vb a with
      | none => none
      | some (a, line, true) => some (a, [line], .gotoEnd)
      | some (a, line, false) =>
        match varbindLoop fuel ctx rest (z + 1) vb a.flush with
        | none => none
        | some (a, lines, exit) => some (a, line :: lines, exit)

/-- One invalid varbind makes the PDU invalid, and it is refused before anything is sent. -/
def pduStatus (vblist : List Vb) (status : ℤ) : ℤ :=
  if vblist.any (·.oid.isEmpty) then classInvalidPdu else status

/-- "Walk request, reissue a get_bulk": the last varbind becomes the seed of the request. -/
def reissue (last : Vb) (status : ℤ) (a : AgentState) : AgentState × Option Request :=
  if pduStatus [last] status = 0 then (a, some (a.bulkRequest [last]))
  else (a.failQuery (couldNotSendText env "GETBULK" (pduStatus [last] status)), none)

def afterLoop (iswalk : Bool) (status : ℤ) (exit : Exit) (a : AgentState) :
    AgentState × Option Request :=
  match exit with
  | .fellThrough last => if iswalk && !a.stop then reissue env last status a else (a.endQuery, none)
  | .gotoEnd => (a.endQuery, none)

def Response.locals (iswalk : Bool) (r : Response) : Locals :=
  ⟨iswalk, r.pdu.errorStatus, if r.pdu.errorStatus = 0 then 0 else r.pdu.errorIndex.toNat⟩

/-- `start_index = objects = pdu_index-1`, when there is an error index. -/
def Response.startObjects (r : Response) (a : AgentState) : ℕ :=
  if r.pdu.errorStatus = 0 then a.objects else r.pdu.errorIndex.toNat - 1

def Response.handled (iswalk : Bool) (r : Response) : List Vb :=
  r.pdu.vblist.drop ((r.locals iswalk).pduIndex - 1)

/-- The part of the callback behind the checks on the reason and the error status. -/
def handleVarbinds (iswalk : Bool) (r : Response) (a : AgentState) : Option Returned :=
  let a := { a with objects := r.startObjects a }
  if r.pdu.vblist = [] then some ⟨a.failQuery emptyPduText, [], none⟩
  else
    match varbindLoop env r.fuel (r.locals iswalk) (r.handled iswalk) ((r.locals iswalk).pduIndex - 1)
        Vb.empty { a with requests := a.requests + 1 } with
    | none => none
    | some (a, lines, exit) =>
      let (a, reissued) := afterLoop env iswalk r.sendStatus exit a
      some ⟨a, lines, reissued⟩

/-- `Agent::AsyncCallback`; `none` when a varbind is restarted more than `fuel` times. -/
def asyncCallback (iswalk : Bool) (r : Response) (a : AgentState) : Option Returned :=
  if r.reason = classTimeout then some ⟨a.failQuery timeoutText, [], none⟩
  else if r.reason ∉ responseReasons then
    some ⟨a.failQuery (noResponseText env r.reason), [], none⟩
  else if iswalk ∧ r.pdu.errorStatus = noSuchName then some ⟨a.endQuery, [], none⟩
  else if r.pdu.errorStatus ≠ 0 ∧ r.pdu.errorIndex ≤ 0 then
    some ⟨a.failQuery (errorText env r.pdu.errorStatus), [], none⟩
  else handleVarbinds env iswalk r a

variable {env} in
theorem afterLoop_cases (iswalk : Bool) (status : ℤ) (exit : Exit) (a : AgentState) :
    ((∀ last, exit = .fellThrough last → ¬(iswalk = true ∧ a.stop = false)) ∧
      afterLoop env iswalk status exit a = (a.endQuery, none)) ∨
    (∃ last, exit = .fellThrough last ∧ (iswalk = true ∧ a.stop = false) ∧
      ((pduStatus [last] status = 0 ∧
          afterLoop env iswalk status exit a = (a, some (a.bulkRequest [last]))) ∨
        (pduStatus [last] status ≠ 0 ∧ ∃ html,
          afterLoop env iswalk status exit a = (a.failQuery html, none)))) := by
  cases exit with
  | gotoEnd => exact Or.inl ⟨(fun _ h => by cases h), rfl⟩
  | fellThrough last =>
    by_cases hgo : iswalk = true ∧ a.stop = false
    · have hafter : afterLoop env iswalk status (.fellThrough last) a = reissue env last status a := by
        simp [afterLoop, hgo.1, hgo.2]
      refine Or.inr ⟨last, rfl, hgo, ?_⟩
      rw [hafter, reissue]
      split
      · rename_i hsent
        exact Or.inl ⟨hsent, rfl⟩
      · rename_i hrefused
        exact Or.inr ⟨hrefused, _, rfl⟩
    · refine Or.inl ⟨fun _ _ => hgo, ?_⟩
      have hno : (iswalk && !a.stop) = false := by simpa using hgo
      simp [afterLoop, hno]

/-- The branches that assign an error text to the buffer before any varbind is looked at. -/
def Response.overwrites (iswalk : Bool) (r : Response) : Prop :=
  r.reason ∉ responseReasons ∨
  (¬(iswalk ∧ r.pdu.errorStatus = noSuchName) ∧
    ((r.pdu.errorStatus ≠ 0 ∧ r.pdu.errorIndex ≤ 0) ∨ r.pdu.vblist = []))

def Response.enterLoop (r : Response) (a : AgentState) : AgentState :=
  { a with requests := a.requests + 1, objects := r.startObjects a }

variable {env} in
theorem handleVarbinds_eq {iswalk : Bool} {r : Response} {a : AgentState} (hvbs : r.pdu.vblist ≠ []) :
    handleVarbinds env iswalk r a =
      (varbindLoop env r.fuel (r.locals iswalk) (r.handled iswalk) ((r.locals iswalk).pduIndex - 1)
        Vb.empty (r.enterLoop a)).map fun (a', lines, exit) =>
          ⟨(afterLoop env iswalk r.sendStatus exit a').1, lines,
            (afterLoop env iswalk r.sendStatus exit a').2⟩ := by
  unfold handleVarbinds Response.enterLoop
  simp only [if_neg hvbs]
  split
  · rename_i hloop
    rw [hloop]
    rfl
  · rename_i hloop
    rw [hloop]
    rfl

/-- Everything a callback can do. -/
theorem asyncCallback_cases {iswalk : Bool} {r : Response} {a : AgentState} {ret : Returned}
    (h : asyncCallback env iswalk r a = some ret) :
    (r.overwrites iswalk ∧ ∃ objects html,
      ret = ⟨AgentState.failQuery { a with objects } html, [], none⟩) ∨
    (¬r.overwrites iswalk ∧ (iswalk = true ∧ r.pdu.errorStatus = noSuchName) ∧
      ret = ⟨a.endQuery, [], none⟩) ∨
    (¬r.overwrites iswalk ∧ ¬(iswalk = true ∧ r.pdu.errorStatus = noSuchName) ∧
      ∃ a' lines exit,
        varbindLoop env r.fuel (r.locals iswalk) (r.handled iswalk) ((r.locals iswalk).pduIndex - 1)
          Vb.empty (r.enterLoop a) = some (a', lines, exit) ∧
        ret = ⟨(afterLoop env iswalk r.sendStatus exit a').1, lines,
          (afterLoop env iswalk r.sendStatus exit a').2⟩) := by
  unfold asyncCallback at h
  split at h
  · rename_i htimeout
    cases h
    exact Or.inl ⟨Or.inl (by rw [htimeout]; decide), a.objects, _, rfl⟩
  · split at h
    · rename_i hreason
      cases h
      exact Or.inl ⟨Or.inl hreason, a.objects, _, rfl⟩
    · rename_i hreason
      split at h
      · rename_i hend
        cases h
        refine Or.inr (Or.inl ⟨?_, hend, rfl⟩)
        rintro (hno | ⟨hnot, -⟩)
        · exact hreason hno
        · exact hnot hend
      · rename_i hwalk
        split at h
        · rename_i herror
          cases h
          exact Or.inl ⟨Or.inr ⟨hwalk, Or.inl herror⟩, a.objects, _, rfl⟩
        · rename_i herror
          unfold handleVarbinds at h
          simp only at h
          split at h
          · rename_i hempty
            cases h
            exact Or.inl ⟨Or.inr ⟨hwalk, Or.inr hempty⟩, r.startObjects a, _, rfl⟩
          · rename_i hempty
            split at h
            · cases h
            · rename_i a' lines exit hloop
              cases h
              refine Or.inr (Or.inr ⟨?_, hwalk, a', lines, exit, hloop, rfl⟩)
              rintro (hno | ⟨-, herr | hnil⟩)
              · exact hreason hno
              · exact herror herr
              · exact hempty hnil

end

end SnmpB.Agent
