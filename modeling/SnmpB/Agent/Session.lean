import SnmpB.Agent.Table
import SnmpB.Agent.Walk

/-! # A session: user actions and callbacks in any order

All requests in flight share the members of `Agent`. A session interleaves the
actions of the user with the callbacks of the requests, each callback run to its
end. While a table view waits for its synchronous answers the user interface is
frozen, but callbacks still arrive.
-/
namespace SnmpB.Agent
open Mib

variable (env : Printing)

def setLoop (ctx : Locals) : List Vb → ℕ → AgentState → AgentState × List ObjectLine
  | [], _, a => (a, [])
  | vb :: rest, z, a =>
    if vb.value.getSyntax = .endOfMibView then (a, [])
    else
      let node := nodeOf a.mib vb
      let line := objectLine env ctx z vb (a.objects + 1) ⟨a.mib, [], node⟩
      let a := { a with objects := a.objects + 1, msg := a.msg ++ [.line line] }
      if ctx.failed z vb && node.isSome then (a, [line])
      else
        let (a, lines) := setLoop ctx rest (z + 1) a.flush
        (a, line :: lines)

def setFinishedText : String := "-----SNMP set finished-----<br>"

def asyncCallbackSet (r : Response) (a : AgentState) : AgentState × List ObjectLine :=
  let append (a : AgentState) : AgentState := { a with query := a.query ++ [a.msg] }
  let fail (a : AgentState) (html : String) : AgentState × List ObjectLine :=
    (append { a with msg := [.text html] }, [])
  if r.reason = classTimeout then fail a timeoutText
  else if r.reason ∉ responseReasons then fail a (noResponseText env r.reason)
  else if r.pdu.errorStatus ≠ 0 ∧ r.pdu.errorIndex ≤ 0 then fail a (errorText env r.pdu.errorStatus)
  else
    let a := { a with objects := r.startObjects a }
    if r.pdu.vblist = [] then fail a emptyPduText
    else
      let ctx := r.locals false
      let (a, lines) := setLoop env ctx (r.handled false) (ctx.pduIndex - 1) a
      (append { a with msg := a.msg ++ [.text setFinishedText] }, lines)

/-- `GetSyncValue`: the value as an `unsigned long`, 0 when there is none. -/
def getSyncValue (oid : String) (reply : Reply) (a : AgentState) : AgentState × ℕ :=
  match setup a oid false with
  | none => (a, 0)
  | some (a, vblist) =>
    if pduStatus vblist reply.status ≠ 0 then (a, 0)
    else
      match (reply.getVb Vb.empty).value with
      | .int32 v => (a, (v % 2 ^ 64).toNat)
      | .cntr32 v | .gauge32 v | .timeticks v => (a, v)
      | _ => (a, 0)

inductive CallbackKind
  | walk | query | set
  deriving DecidableEq, Repr

structure Pending where
  query : ℕ
  kind : CallbackKind
  request : Request
  deriving DecidableEq

/-- The agent with the requests in flight, the number of queries started, and what each query
has requested and formatted so far. -/
structure Session where
  agent : AgentState
  view : Option TableView
  pending : List Pending
  started : ℕ
  issued : List (ℕ × Request)
  formatted : List (ℕ × ObjectLine)

inductive Event
  | walkFrom (oid : String) (status : ℤ)
  | get (oid : String) (usevblist : Bool) (status : ℤ)
  | getNext (oid : String) (usevblist : Bool) (status : ℤ)
  | getBulk (oid : String) (usevblist : Bool) (status : ℤ)
  | set (oid : String) (usevblist : Bool) (status : ℤ)
  | stop
  | varbindsBuildList (vblist : List Vb)
  | selectAgentProfile (profile : Option AgentProfile)
  | tableViewFrom (oid : String)
  | tableReply (reply : Reply) (cells : ℕ → Reply)
  | selectTableInstance (oid : String)
  | getSyncValue (oid : String) (reply : Reply)
  | response (i : ℕ) (r : Response)

/-- A start function: the OID and the flag it calls `Setup` with. -/
def Event.starts : Event → Option (String × Bool)
  | .walkFrom oid _ => some (oid, false)
  | .get oid usevblist _ | .getNext oid usevblist _ | .getBulk oid usevblist _ | .set oid usevblist _ =>
    some (oid, usevblist)
  | _ => none

/-- What can happen while a table view waits for an answer. -/
def Event.asynchronous : Event → Bool
  | .tableReply .. | .response .. => true
  | _ => false

namespace Session

def idle (agent : AgentState) : Session := ⟨agent, none, [], 0, [], []⟩

def issuedBy (s : Session) (query : ℕ) : List Request :=
  s.issued.filterMap fun x => if x.1 = query then some x.2 else none

def formattedBy (s : Session) (query : ℕ) : List ObjectLine :=
  s.formatted.filterMap fun x => if x.1 = query then some x.2 else none

def Outstanding (s : Session) (query : ℕ) : Prop :=
  ∃ p ∈ s.pending, p.query = query ∧ p.kind = .walk

/-- The result of a start function: a request that was sent opens a query. -/
def start (s : Session) (kind : CallbackKind) : AgentState × Option Request → Session
  | (agent, none) => { s with agent }
  | (agent, some request) =>
    { s with
      agent, pending := s.pending ++ [⟨s.started, kind, request⟩], started := s.started + 1
      issued := s.issued ++ [(s.started, request)] }

def returned (s : Session) (i : ℕ) (p : Pending) (ret : Returned) : Session :=
  { s with
    agent := ret.agent
    pending := s.pending.eraseIdx i ++ (ret.reissued.map fun request => { p with request }).toList
    issued := s.issued ++ (ret.reissued.map fun request => (p.query, request)).toList
    formatted := s.formatted ++ ret.formatted.map fun line => (p.query, line) }

def callback (kind : CallbackKind) (r : Response) (a : AgentState) : Option Returned :=
  match kind with
  | .walk => asyncCallback env true r a
  | .query => asyncCallback env false r a
  | .set => some ⟨(asyncCallbackSet env r a).1, (asyncCallbackSet env r a).2, none⟩

/-- The steps of a table view; it works on the members as the callbacks have left them. -/
def tablePass (s : Session) (t : TableView) (reply : Reply) (cells : ℕ → Reply) : Option Session :=
  match { t with agent := s.agent }.pass env reply cells with
  | .outOfBounds => none
  | .left agent => some { s with agent, view := none }
  | .next t => some { s with agent := t.agent, view := some t }

/-- One event; none where it cannot happen, and where the program crashes or does not return. -/
def step (s : Session) (e : Event) : Option Session :=
  if s.view.isSome ∧ e.asynchronous = false then none
  else
    match e with
    | .walkFrom oid status => some (s.start .walk (SnmpB.Agent.walkFrom env oid status s.agent))
    | .get oid usevblist status => some (s.start .query (SnmpB.Agent.get env oid usevblist status s.agent))
    | .getNext oid usevblist status =>
      some (s.start .query (SnmpB.Agent.getNext env oid usevblist status s.agent))
    | .getBulk oid usevblist status =>
      some (s.start .query (SnmpB.Agent.getBulk env oid usevblist status s.agent))
    | .set oid usevblist status => some (s.start .set (SnmpB.Agent.set env oid usevblist status s.agent))
    | .stop => some { s with agent := s.agent.stopQuery }
    | .varbindsBuildList vblist => some { s with agent := { s.agent with vblist } }
    | .selectAgentProfile profile => some { s with agent := { s.agent with profile } }
    | .tableViewFrom oid =>
      match SnmpB.Agent.tableViewFrom oid s.agent with
      | none => none
      | some (.inl agent) => some { s with agent }
      | some (.inr t) => some { s with agent := t.agent, view := some t }
    | .tableReply reply cells =>
      match s.view with
      | none => none
      | some t => s.tablePass env t reply cells
    | .selectTableInstance oid =>
      match SnmpB.Agent.selectTableInstance oid s.agent with
      | none => none
      | some (.inl agent) => some { s with agent }
      | some (.inr selecting) => some { s with agent := selecting.agent }
    | .getSyncValue oid reply => some { s with agent := (SnmpB.Agent.getSyncValue oid reply s.agent).1 }
    | .response i r =>
      match s.pending[i]? with
      | none => none
      | some p => (callback env p.kind r s.agent).map (s.returned i p)

end Session

variable {env : Printing}

/-! ## What the operations leave alone -/

def theoidAfterSetup (a : AgentState) (oid : String) : Oid :=
  if (setup a oid false).isSome then Oid.ofText oid else a.theoid

theorem getSyncValue_frame (oid : String) (reply : Reply) (a : AgentState) :
    (getSyncValue oid reply a).1 = { a with theoid := theoidAfterSetup a oid } := by
  unfold getSyncValue theoidAfterSetup
  split
  · rename_i hsetup
    rw [hsetup]
    rfl
  · rename_i a' vblist hsetup
    rw [hsetup]
    obtain rfl := setup_some hsetup
    split
    · rfl
    · split <;> rfl

theorem selectTableInstance_frame {oid : String} {a a' : AgentState}
    (h : (selectTableInstance oid a).map (Sum.elim id Selecting.agent) = some a') :
    a' = { a with theoid := theoidAfterSetup a oid } := by
  unfold selectTableInstance at h
  unfold theoidAfterSetup
  split at h
  · rename_i hsetup
    cases h
    rw [hsetup]
    rfl
  · rename_i a₁ vblist hsetup
    rw [hsetup]
    obtain rfl := setup_some hsetup
    obtain ⟨x, hx, rfl⟩ := Option.map_eq_some_iff.mp h
    obtain ⟨pnode, -, rfl⟩ := Option.map_eq_some_iff.mp hx
    split <;> rfl

theorem tableViewFrom_frame {oid : String} {a a' : AgentState}
    (h : (tableViewFrom oid a).map (Sum.elim id TableView.agent) = some a') :
    ∃ theoid query requests objects msg, a' = { a with theoid, query, requests, objects, msg } := by
  unfold tableViewFrom at h
  split at h
  · cases h
    exact ⟨a.theoid, a.query, a.requests, a.objects, a.msg, rfl⟩
  · rename_i a₁ vblist hsetup
    obtain rfl := setup_some hsetup
    simp only at h
    split at h
    · cases h
    · split at h
      · cases h
        exact ⟨_, _, _, _, _, rfl⟩
      · obtain ⟨x, hx, rfl⟩ := Option.map_eq_some_iff.mp h
        obtain ⟨entry, -, rfl⟩ := Option.map_eq_some_iff.mp hx
        exact ⟨_, _, _, _, _, rfl⟩

theorem Session.tablePass_frame {s s' : Session} {t : TableView} {reply : Reply} {cells : ℕ → Reply}
    (h : s.tablePass env t reply cells = some s') :
    ∃ msg query view, s' = { s with agent := { s.agent with msg, query }, view } := by
  unfold Session.tablePass TableView.pass at h
  simp only at h
  split at h
  · cases h
  · rename_i agent hpass
    cases h
    split at hpass
    · cases hpass
      exact ⟨_, _, none, rfl⟩
    · split at hpass
      · cases hpass
      · split at hpass
        · cases hpass
          exact ⟨_, _, none, rfl⟩
        · split at hpass
          · cases hpass
            exact ⟨_, _, none, rfl⟩
          · cases hpass
  · rename_i t' hpass
    cases h
    split at hpass
    · cases hpass
    · split at hpass
      · cases hpass
      · split at hpass
        · cases hpass
        · split at hpass
          · cases hpass
          · cases hpass
            exact ⟨_, s.agent.query, some _, rfl⟩

theorem setLoop_buffered (ctx : Locals) (vbs : List Vb) (z : ℕ) (a : AgentState) :
    (setLoop env ctx vbs z a).1.buffered = a.buffered ++ (setLoop env ctx vbs z a).2 := by
  induction vbs generalizing z a with
  | nil => exact (List.append_nil _).symm
  | cons vb rest ih =>
    rw [setLoop]
    split
    · exact (List.append_nil _).symm
    · simp only
      split
      · simp [AgentState.buffered, AgentState.displayed]
      · simp only [ih, AgentState.flush_buffered]
        simp [AgentState.buffered, AgentState.displayed]

theorem setLoop_frame (ctx : Locals) (vbs : List Vb) (z : ℕ) (a : AgentState) :
    ∃ objects msg query, (setLoop env ctx vbs z a).1 = { a with objects, msg, query } := by
  induction vbs generalizing z a with
  | nil => exact ⟨a.objects, a.msg, a.query, rfl⟩
  | cons vb rest ih =>
    rw [setLoop]
    split
    · exact ⟨a.objects, a.msg, a.query, rfl⟩
    · simp only
      split
      · exact ⟨_, _, a.query, rfl⟩
      · obtain ⟨msg, query, hflush⟩ := AgentState.flush_frame { a with
          objects := a.objects + 1
          msg := a.msg ++ [.line (objectLine env ctx z vb (a.objects + 1) ⟨a.mib, [], nodeOf a.mib vb⟩)] }
        rw [hflush]
        obtain ⟨objects, msg', query', hrest⟩ := ih (z + 1) { a with objects := a.objects + 1, msg, query }
        exact ⟨objects, msg', query', hrest⟩

/-- Everything the callback of a SET can do. -/
theorem asyncCallbackSet_cases (r : Response) (a : AgentState) :
    (r.overwrites false ∧ ∃ objects html, asyncCallbackSet env r a =
      ({ a with objects, msg := [.text html], query := a.query ++ [[.text html]] }, [])) ∨
    (¬r.overwrites false ∧ ∃ a' lines,
      setLoop env (r.locals false) (r.handled false) ((r.locals false).pduIndex - 1)
        { a with objects := r.startObjects a } = (a', lines) ∧
      asyncCallbackSet env r a =
        ({ a' with
            msg := a'.msg ++ [.text setFinishedText]
            query := a'.query ++ [a'.msg ++ [.text setFinishedText]] }, lines)) := by
  have hnotWalk : ¬(false = true ∧ r.pdu.errorStatus = noSuchName) := fun hwalk => absurd hwalk.1 Bool.false_ne_true
  unfold asyncCallbackSet
  simp only
  split
  · rename_i htimeout
    exact Or.inl ⟨Or.inl (by rw [htimeout]; decide), a.objects, _, rfl⟩
  · split
    · rename_i hreason
      exact Or.inl ⟨Or.inl hreason, a.objects, _, rfl⟩
    · rename_i hreason
      split
      · rename_i herror
        exact Or.inl ⟨Or.inr ⟨hnotWalk, Or.inl herror⟩, a.objects, _, rfl⟩
      · rename_i herror
        split
        · rename_i hempty
          exact Or.inl ⟨Or.inr ⟨hnotWalk, Or.inr hempty⟩, r.startObjects a, _, rfl⟩
        · rename_i hempty
          refine Or.inr ⟨?_, _, _, rfl, rfl⟩
          rintro (hno | ⟨-, herr | hnil⟩)
          · exact hreason hno
          · exact herror herr
          · exact hempty hnil

theorem asyncCallbackSet_frame (r : Response) (a : AgentState) :
    ∃ objects msg query, (asyncCallbackSet env r a).1 = { a with objects, msg, query } := by
  rcases @asyncCallbackSet_cases env r a with ⟨-, objects, html, hset⟩ | ⟨-, a', lines, hloop, hset⟩
  · rw [hset]
    exact ⟨objects, _, _, rfl⟩
  · obtain ⟨objects, msg, query, hframe⟩ := @setLoop_frame env (r.locals false) (r.handled false)
      ((r.locals false).pduIndex - 1) { a with objects := r.startObjects a }
    rw [hloop] at hframe
    obtain rfl : a' = { a with objects, msg, query } := hframe
    rw [hset]
    exact ⟨objects, _, _, rfl⟩

theorem asyncCallback_frame {iswalk : Bool} {r : Response} {a : AgentState} {ret : Returned}
    (h : asyncCallback env iswalk r a = some ret) :
    ∃ mib requests objects msg query walkInProgress actionStop,
      ret.agent = { a with mib, requests, objects, msg, query, walkInProgress, actionStop } := by
  rcases asyncCallback_cases env h with ⟨-, objects, html, rfl⟩ | ⟨-, -, rfl⟩ |
    ⟨-, -, a', lines, exit, hloop, rfl⟩
  · exact ⟨_, a.requests, objects, _, _, false, false, rfl⟩
  · exact ⟨_, a.requests, a.objects, _, _, false, false, rfl⟩
  · obtain ⟨mib, objects, msg, query, rfl⟩ := varbindLoop_frame hloop
    rcases afterLoop_cases iswalk r.sendStatus exit { r.enterLoop a with mib, objects, msg, query } with
      ⟨-, hafter⟩ | ⟨last, -, -, ⟨-, hafter⟩ | ⟨-, html, hafter⟩⟩
    · rw [hafter]
      exact ⟨_, _, _, _, _, false, false, rfl⟩
    · rw [hafter]
      exact ⟨mib, _, objects, msg, query, a.walkInProgress, a.actionStop, rfl⟩
    · rw [hafter]
      exact ⟨_, _, _, _, _, false, false, rfl⟩

/-- A follow-up request is sent for a walk only, and never under the stop flag. -/
theorem asyncCallback_reissued {iswalk : Bool} {r : Response} {a : AgentState} {ret : Returned}
    (h : asyncCallback env iswalk r a = some ret) (hreissued : ret.reissued.isSome) :
    iswalk = true ∧ a.stop = false := by
  rcases asyncCallback_cases env h with ⟨-, objects, html, rfl⟩ | ⟨-, -, rfl⟩ |
    ⟨-, -, a', lines, exit, hloop, rfl⟩
  · cases hreissued
  · cases hreissued
  · obtain ⟨mib, objects, msg, query, rfl⟩ := varbindLoop_frame hloop
    rcases afterLoop_cases iswalk r.sendStatus exit { r.enterLoop a with mib, objects, msg, query } with
      ⟨-, hafter⟩ | ⟨last, -, hgo, -⟩
    · rw [hafter] at hreissued
      cases hreissued
    · exact hgo

namespace Session

theorem callback_stop {kind : CallbackKind} {r : Response} {a : AgentState} {ret : Returned}
    (h : callback env kind r a = some ret) :
    ret.agent.stop = a.stop ∧ (ret.reissued.isSome → kind = .walk ∧ a.stop = false) := by
  cases kind with
  | walk =>
    obtain ⟨mib, requests, objects, msg, query, walk, action, hframe⟩ := asyncCallback_frame h
    exact ⟨by rw [hframe], fun hre => ⟨rfl, (asyncCallback_reissued h hre).2⟩⟩
  | query =>
    obtain ⟨mib, requests, objects, msg, query, walk, action, hframe⟩ := asyncCallback_frame h
    exact ⟨by rw [hframe], fun hre => absurd (asyncCallback_reissued h hre).1 (by decide)⟩
  | set =>
    obtain ⟨objects, msg, query, hframe⟩ := @asyncCallbackSet_frame env r a
    have hstop : (asyncCallbackSet env r a).1.stop = a.stop := by rw [hframe]
    cases h
    exact ⟨hstop, fun hre => by cases hre⟩

/-- The start functions in one: a request that was sent opens a query, and nothing happens where
`Setup` fails. -/
theorem step_starts {s s' : Session} {e : Event} {oid : String} {usevblist : Bool}
    (he : e.starts = some (oid, usevblist)) (h : s.step env e = some s') :
    ∃ kind ret, s' = s.start kind ret ∧ (setup s.agent oid usevblist = none → ret = (s.agent, none)) := by
  unfold step at h
  split at h
  · cases h
  · cases e with
    | walkFrom oid' status =>
      cases he
      refine ⟨_, _, (Option.some.inj h).symm, ?_⟩
      intro hrefused
      rw [SnmpB.Agent.walkFrom, hrefused]
    | get oid' usevblist' status | getNext oid' usevblist' status | set oid' usevblist' status =>
      cases he
      refine ⟨_, _, (Option.some.inj h).symm, ?_⟩
      intro hrefused
      simp only [SnmpB.Agent.get, SnmpB.Agent.getNext, SnmpB.Agent.set, startSingle, hrefused]
    | getBulk oid' usevblist' status =>
      cases he
      refine ⟨_, _, (Option.some.inj h).symm, ?_⟩
      intro hrefused
      rw [SnmpB.Agent.getBulk, hrefused]
    | _ => cases he

/-- What an event that neither starts nor answers a query leaves alone. -/
structure Kept (a a' : AgentState) : Prop where
  stop : a.stop = true → a'.stop = true
  walkInProgress : a'.walkInProgress = a.walkInProgress
  actionStop : a'.actionStop = a.actionStop

theorem step_keeps {s s' : Session} {e : Event} (he : e.starts = none) (hr : ∀ i r, e ≠ .response i r)
    (h : s.step env e = some s') :
    ∃ agent view, s' = { s with agent, view } ∧ Kept s.agent agent := by
  unfold step at h
  split at h
  · cases h
  · cases e with
    | stop => exact ⟨_, s.view, (Option.some.inj h).symm, fun _ => rfl, rfl, rfl⟩
    | varbindsBuildList vblist => exact ⟨_, s.view, (Option.some.inj h).symm, id, rfl, rfl⟩
    | selectAgentProfile profile => exact ⟨_, s.view, (Option.some.inj h).symm, id, rfl, rfl⟩
    | tableViewFrom oid =>
      simp only at h
      split at h
      · cases h
      · rename_i agent hview
        obtain ⟨theoid, query, requests, objects, msg, hframe⟩ :=
          tableViewFrom_frame (congrArg (Option.map _) hview)
        refine ⟨agent, s.view, (Option.some.inj h).symm, ?_⟩
        rw [show agent = _ from hframe]
        exact ⟨id, rfl, rfl⟩
      · rename_i t hview
        obtain ⟨theoid, query, requests, objects, msg, hframe⟩ :=
          tableViewFrom_frame (congrArg (Option.map _) hview)
        refine ⟨t.agent, some t, (Option.some.inj h).symm, ?_⟩
        rw [show t.agent = _ from hframe]
        exact ⟨id, rfl, rfl⟩
    | tableReply reply cells =>
      simp only at h
      split at h
      · cases h
      · obtain ⟨msg, query, view, rfl⟩ := tablePass_frame h
        exact ⟨_, view, rfl, id, rfl, rfl⟩
    | selectTableInstance oid =>
      simp only at h
      split at h
      · cases h
      · rename_i agent hselect
        have hframe := selectTableInstance_frame (congrArg (Option.map _) hselect)
        refine ⟨agent, s.view, (Option.some.inj h).symm, ?_⟩
        rw [show agent = _ from hframe]
        exact ⟨id, rfl, rfl⟩
      · rename_i selecting hselect
        have hframe := selectTableInstance_frame (congrArg (Option.map _) hselect)
        refine ⟨selecting.agent, s.view, (Option.some.inj h).symm, ?_⟩
        rw [show selecting.agent = _ from hframe]
        exact ⟨id, rfl, rfl⟩
    | getSyncValue oid reply =>
      refine ⟨_, s.view, (Option.some.inj h).symm, ?_⟩
      rw [getSyncValue_frame]
      exact ⟨id, rfl, rfl⟩
    | response i r => exact absurd rfl (hr i r)
    | _ => cases he

theorem step_response {s s' : Session} {i : ℕ} {r : Response}
    (h : s.step env (.response i r) = some s') :
    ∃ p ret, s.pending[i]? = some p ∧ callback env p.kind r s.agent = some ret ∧
      s' = s.returned i p ret := by
  unfold step at h
  rw [if_neg (by simp [Event.asynchronous])] at h
  simp only at h
  split at h
  · cases h
  · rename_i p hp
    obtain ⟨ret, hret, rfl⟩ := Option.map_eq_some_iff.mp h
    exact ⟨p, ret, hp, hret, rfl⟩

/-- Everything a step can do. -/
theorem step_cases {s s' : Session} {e : Event} (h : s.step env e = some s') :
    (∃ oid usevblist kind ret, e.starts = some (oid, usevblist) ∧ s' = s.start kind ret ∧
      (setup s.agent oid usevblist = none → ret = (s.agent, none))) ∨
    (∃ i r p ret, e = .response i r ∧ s.pending[i]? = some p ∧
      callback env p.kind r s.agent = some ret ∧ s' = s.returned i p ret) ∨
    (∃ agent view, s' = { s with agent, view } ∧ Kept s.agent agent) := by
  cases hstarts : e.starts with
  | some x =>
    obtain ⟨oid, usevblist⟩ := x
    obtain ⟨kind, ret, hs', hrefused⟩ := step_starts hstarts h
    exact Or.inl ⟨oid, usevblist, kind, ret, rfl, hs', hrefused⟩
  | none =>
    by_cases hresponse : ∃ i r, e = .response i r
    · obtain ⟨i, r, rfl⟩ := hresponse
      obtain ⟨p, ret, hp, hret, hs'⟩ := step_response h
      exact Or.inr (Or.inl ⟨i, r, p, ret, rfl, hp, hret, hs'⟩)
    · exact Or.inr (Or.inr (step_keeps hstarts (fun i r heq => hresponse ⟨i, r, heq⟩) h))

theorem mem_returned_pending {s : Session} {i : ℕ} {p q : Pending} {ret : Returned}
    (hp : s.pending[i]? = some p) (hq : q ∈ (s.returned i p ret).pending) :
    ∃ q' ∈ s.pending, q'.query = q.query ∧ q'.kind = q.kind := by
  rcases List.mem_append.mp hq with hq | hq
  · exact ⟨q, List.mem_of_mem_eraseIdx hq, rfl, rfl⟩
  · obtain ⟨request, -, rfl⟩ := Option.map_eq_some_iff.mp (Option.mem_toList.mp hq)
    exact ⟨p, List.mem_of_getElem? hp, rfl, rfl⟩

/-- Queries are numbered in the order they start. -/
structure Numbered (s : Session) : Prop where
  pending : ∀ p ∈ s.pending, p.query < s.started
  issued : ∀ x ∈ s.issued, x.1 < s.started
  formatted : ∀ x ∈ s.formatted, x.1 < s.started

theorem Numbered.idle (agent : AgentState) : (Session.idle agent).Numbered := by
  constructor <;>
  · intro x hx
    cases hx

theorem Numbered.start {s : Session} (hs : s.Numbered) (kind : CallbackKind)
    (ret : AgentState × Option Request) : (s.start kind ret).Numbered := by
  obtain ⟨agent, sent⟩ := ret
  cases sent with
  | none => exact ⟨hs.pending, hs.issued, hs.formatted⟩
  | some request =>
    refine ⟨?_, ?_, fun x hx => (hs.formatted x hx).trans (Nat.lt_succ_self _)⟩
    · intro q hq
      rcases List.mem_append.mp hq with hq | hq
      · exact (hs.pending q hq).trans (Nat.lt_succ_self _)
      · obtain rfl := List.mem_singleton.mp hq
        exact Nat.lt_succ_self _
    · intro x hx
      rcases List.mem_append.mp hx with hx | hx
      · exact (hs.issued x hx).trans (Nat.lt_succ_self _)
      · obtain rfl := List.mem_singleton.mp hx
        exact Nat.lt_succ_self _

theorem Numbered.returned {s : Session} (hs : s.Numbered) {i : ℕ} {p : Pending}
    (hp : s.pending[i]? = some p) (ret : Returned) : (s.returned i p ret).Numbered := by
  have hquery := hs.pending p (List.mem_of_getElem? hp)
  refine ⟨?_, ?_, ?_⟩
  · intro q hq
    obtain ⟨q', hq', hsame, -⟩ := mem_returned_pending hp hq
    rw [← hsame]
    exact hs.pending q' hq'
  · intro x hx
    rcases List.mem_append.mp hx with hx | hx
    · exact hs.issued x hx
    · obtain ⟨request, -, rfl⟩ := Option.map_eq_some_iff.mp (Option.mem_toList.mp hx)
      exact hquery
  · intro x hx
    rcases List.mem_append.mp hx with hx | hx
    · exact hs.formatted x hx
    · obtain ⟨line, -, rfl⟩ := List.mem_map.mp hx
      exact hquery

theorem Numbered.step {s s' : Session} {e : Event} (hs : s.Numbered) (h : s.step env e = some s') :
    s'.Numbered := by
  rcases step_cases h with ⟨oid, usevblist, kind, ret, -, rfl, -⟩ | ⟨i, r, p, ret, -, hp, -, rfl⟩ |
    ⟨agent, view, rfl, -⟩
  · exact hs.start kind ret
  · exact hs.returned hp ret
  · exact ⟨hs.pending, hs.issued, hs.formatted⟩

theorem numbered_of_exec {agent : AgentState} {es : List Event} {s : Session}
    (h : Runs.exec (Session.step env) (Session.idle agent) es = some s) : s.Numbered :=
  Runs.exec_invariant (fun _ _ _ hm hstep => hm.step hstep) (Numbered.idle agent) h

end Session

end SnmpB.Agent
