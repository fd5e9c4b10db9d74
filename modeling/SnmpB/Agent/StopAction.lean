import SnmpB.Agent.Alone

/-! # The Stop action while a walk runs

`WalkFrom` enables the Stop action and marks the tree before it knows whether
its request was sent. The end of any query but a SET disables both again. They
tell of a walk in flight only as long as a walk is alone and can be sent.
-/
namespace SnmpB.Agent

variable {env : Printing}

/-- The main window as it comes up. -/
def AgentState.launch (a : AgentState) : AgentState := { a with walkInProgress := false, actionStop := false }

def walkIn (pending : List Pending) : Bool := pending.any fun p => decide (p.kind = .walk)

namespace Session

def walking (s : Session) : Bool := walkIn s.pending

/-- The flag of the tree and the Stop action tell whether a walk is outstanding. -/
structure ShowsWalk (s : Session) : Prop where
  walkInProgress : s.agent.walkInProgress = s.walking
  actionStop : s.agent.actionStop = s.walking

end Session

/-- A walk can be sent or joins another one. A query ends while no walk is outstanding, and a walk
ends as the last one. -/
def Event.KeepsShowing (e : Event) (s : Session) : Prop :=
  match e with
  | .walkFrom oid status =>
    ∀ x, setup s.agent oid false = some x → pduStatus x.2 status = 0 ∨ s.walking = true
  | .response i r =>
    ∀ p, s.pending[i]? = some p → p.kind = .set ∨ (p.kind = .walk ∧ r.sends true s.agent) ∨
      walkIn (s.pending.eraseIdx i) = false
  | _ => True

/-! ## What the operations do to the flag and the action -/

theorem send_kept (name : String) (request : Request) (status : ℤ) (a : AgentState) :
    (send env name request status a).1.walkInProgress = a.walkInProgress ∧
    (send env name request status a).1.actionStop = a.actionStop := by
  unfold send
  split <;> exact ⟨rfl, rfl⟩

theorem send_isSome {name : String} {request : Request} {status : ℤ} {a : AgentState} :
    (send env name request status a).2.isSome ↔ pduStatus request.vblist status = 0 := by
  unfold send
  split
  · rename_i hsent
    exact iff_of_true rfl hsent
  · rename_i hrefused
    exact iff_of_false Bool.false_ne_true hrefused

theorem walkFrom_shows (oid : String) (status : ℤ) (a : AgentState) :
    (setup a oid false = none ∧ walkFrom env oid status a = (a, none)) ∨
    ∃ x, setup a oid false = some x ∧ (walkFrom env oid status a).1.walkInProgress = true ∧
      (walkFrom env oid status a).1.actionStop = true ∧
      ((walkFrom env oid status a).2.isSome ↔ pduStatus x.2 status = 0) := by
  unfold walkFrom
  cases hsetup : setup a oid false with
  | none => exact Or.inl ⟨rfl, rfl⟩
  | some x =>
    obtain ⟨a', vblist⟩ := x
    have hkept := @send_kept env "GETBULK" (a'.bulkRequest vblist) status
      { a'.clear startedText with walkInProgress := true, actionStop := true }
    exact Or.inr ⟨_, rfl, hkept.1, hkept.2, send_isSome⟩

theorem startSingle_kept (header name : String) (kind : RequestKind) (oid : String) (usevblist : Bool)
    (status : ℤ) (a : AgentState) :
    (startSingle env header name kind oid usevblist status a).1.walkInProgress = a.walkInProgress ∧
    (startSingle env header name kind oid usevblist status a).1.actionStop = a.actionStop := by
  unfold startSingle
  split
  · exact ⟨rfl, rfl⟩
  · rename_i hsetup
    obtain rfl := setup_some hsetup
    exact send_kept name _ status _

theorem getBulk_kept (oid : String) (usevblist : Bool) (status : ℤ) (a : AgentState) :
    (getBulk env oid usevblist status a).1.walkInProgress = a.walkInProgress ∧
    (getBulk env oid usevblist status a).1.actionStop = a.actionStop := by
  unfold getBulk
  split
  · exact ⟨rfl, rfl⟩
  · rename_i hsetup
    obtain rfl := setup_some hsetup
    exact send_kept "GETBULK" _ status _

/-- A callback sends a follow-up request and leaves the flag and the action alone, or ends its
query and clears both. -/
theorem asyncCallback_shows {iswalk : Bool} {r : Response} {a : AgentState} {ret : Returned}
    (h : asyncCallback env iswalk r a = some ret) :
    (r.sends iswalk a ∧ ret.reissued.isSome ∧ ret.agent.walkInProgress = a.walkInProgress ∧
      ret.agent.actionStop = a.actionStop) ∨
    (¬ r.sends iswalk a ∧ ret.reissued = none ∧ ret.agent.walkInProgress = false ∧
      ret.agent.actionStop = false) := by
  rcases asyncCallback_cases env h with ⟨hover, objects, html, rfl⟩ | ⟨-, hend, rfl⟩ |
    ⟨-, -, a', lines, exit, hloop, rfl⟩
  · exact Or.inr ⟨fun hsends => hsends.1 hover, rfl, rfl, rfl⟩
  · exact Or.inr ⟨fun hsends => hsends.2.1 hend, rfl, rfl, rfl⟩
  · obtain ⟨mib, objects, msg, query, rfl⟩ := varbindLoop_frame hloop
    rcases afterLoop_cases iswalk r.sendStatus exit { r.enterLoop a with mib, objects, msg, query } with
      ⟨hno, hafter⟩ | ⟨last, rfl, hgo, ⟨hsend, hafter⟩ | ⟨hrefused, html, hafter⟩⟩
    · rw [hafter]
      refine Or.inr ⟨?_, rfl, rfl, rfl⟩
      rintro ⟨-, -, hgo, hthrough, -⟩
      have hexit := varbindLoop_exit hloop
      rw [if_pos (show walksThrough _ _ (r.enterLoop a).theoid _ _ (r.enterLoop a).mib = true from
        hthrough)] at hexit
      exact hno _ hexit hgo
    · rw [hafter] at h ⊢
      exact Or.inl ⟨(asyncCallback_sends h rfl).1, rfl, rfl, rfl⟩
    · obtain ⟨-, rfl⟩ := varbindLoop_fellThrough hloop
      rw [hafter]
      refine Or.inr ⟨?_, rfl, rfl, rfl⟩
      rintro ⟨-, -, -, -, hsend⟩
      exact hrefused hsend

/-! ## One step -/

theorem walkIn_eraseIdx {pending : List Pending} {i : ℕ} {p : Pending} (hp : pending[i]? = some p) :
    walkIn pending = (decide (p.kind = .walk) || walkIn (pending.eraseIdx i)) := by
  obtain ⟨hi, rfl⟩ := List.getElem?_eq_some_iff.mp hp
  exact ((List.getElem_cons_eraseIdx_perm hi).any_eq).symm

namespace Session

theorem showsWalk_iff {s : Session} {shown : Bool} (hflag : s.agent.walkInProgress = shown)
    (haction : s.agent.actionStop = shown) : s.ShowsWalk ↔ shown = s.walking := by
  constructor
  · intro h
    exact hflag.symm.trans h.walkInProgress
  · rintro rfl
    exact ⟨hflag, haction⟩

theorem ShowsWalk.start {s : Session} (hs : s.ShowsWalk) {kind : CallbackKind} (hkind : kind ≠ .walk)
    {ret : AgentState × Option Request} (hkept : ret.1.walkInProgress = s.agent.walkInProgress ∧
      ret.1.actionStop = s.agent.actionStop) : (s.start kind ret).ShowsWalk := by
  obtain ⟨agent, sent⟩ := ret
  cases sent with
  | none => exact ⟨hkept.1.trans hs.walkInProgress, hkept.2.trans hs.actionStop⟩
  | some request =>
    have hsame : (s.start kind (agent, some request)).walking = s.walking := by
      simp [walking, Session.start, walkIn, hkind]
    exact ⟨(hkept.1.trans hs.walkInProgress).trans hsame.symm, (hkept.2.trans hs.actionStop).trans hsame.symm⟩

theorem walkFrom_showsWalk_iff {s : Session} (hs : s.ShowsWalk) (oid : String) (status : ℤ) :
    (s.start .walk (SnmpB.Agent.walkFrom env oid status s.agent)).ShowsWalk ↔
      (Event.walkFrom oid status).KeepsShowing s := by
  rcases @walkFrom_shows env oid status s.agent with ⟨hnone, hret⟩ | ⟨x, hx, hflag, haction, hsent⟩
  · rw [hret]
    apply iff_of_true hs
    intro x hx
    rw [hnone] at hx
    cases hx
  · have hcond : (Event.walkFrom oid status).KeepsShowing s ↔
        pduStatus x.2 status = 0 ∨ s.walking = true :=
      ⟨fun h => h x hx, fun h x' hx' => Option.some.inj (hx.symm.trans hx') ▸ h⟩
    rw [hcond, ← hsent]
    generalize SnmpB.Agent.walkFrom env oid status s.agent = ret at hflag haction ⊢
    obtain ⟨agent, sent⟩ := ret
    cases sent with
    | none =>
      rw [showsWalk_iff (s := s.start .walk (agent, none)) hflag haction]
      exact ⟨fun h => Or.inr h.symm, fun h => (h.resolve_left Bool.false_ne_true).symm⟩
    | some request =>
      rw [showsWalk_iff (s := s.start .walk (agent, some request)) hflag haction]
      simp [walking, Session.start, walkIn]

theorem returned_walking (s : Session) (i : ℕ) (p : Pending) (ret : Returned) :
    (s.returned i p ret).walking =
      (walkIn (s.pending.eraseIdx i) || (ret.reissued.isSome && decide (p.kind = .walk))) := by
  unfold walking returned
  cases ret.reissued <;> simp [walkIn]

theorem returned_showsWalk_iff {s : Session} (hs : s.ShowsWalk) {i : ℕ} {r : Response} {p : Pending}
    {ret : Returned} (hp : s.pending[i]? = some p) (h : callback env p.kind r s.agent = some ret) :
    (s.returned i p ret).ShowsWalk ↔ (Event.response i r).KeepsShowing s := by
  have hcond : (Event.response i r).KeepsShowing s ↔ p.kind = .set ∨
      (p.kind = .walk ∧ r.sends true s.agent) ∨ walkIn (s.pending.eraseIdx i) = false :=
    ⟨fun h => h p hp, fun h p' hp' => Option.some.inj (hp.symm.trans hp') ▸ h⟩
  have hbefore : s.walking = _ := walkIn_eraseIdx hp
  have hafter := returned_walking s i p ret
  -- a callback that ends its query clears both, whatever is left in flight
  have hends : ret.agent.walkInProgress = false → ret.agent.actionStop = false → ret.reissued = none →
      ((s.returned i p ret).ShowsWalk ↔ walkIn (s.pending.eraseIdx i) = false) := by
    intro hflag haction hre
    rw [hre, Option.isSome_none, Bool.false_and, Bool.or_false] at hafter
    rw [showsWalk_iff (s := s.returned i p ret) hflag haction, hafter]
    exact eq_comm
  rw [hcond]
  cases hkind : p.kind with
  | walk =>
    rw [hkind] at h hbefore hafter
    rcases asyncCallback_shows h with ⟨hsends, hre, hflag, haction⟩ | ⟨hnot, hre, hflag, haction⟩
    · refine iff_of_true ?_ (Or.inr (Or.inl ⟨rfl, hsends⟩))
      rw [hre] at hafter
      have hsame : s.walking = (s.returned i p ret).walking := by simp [hbefore, hafter]
      exact ⟨(hflag.trans hs.walkInProgress).trans hsame, (haction.trans hs.actionStop).trans hsame⟩
    · rw [hends hflag haction hre]
      simp [hnot]
  | query =>
    rw [hkind] at h
    rcases asyncCallback_shows h with ⟨hsends, -⟩ | ⟨-, hre, hflag, haction⟩
    · exact absurd hsends.2.2.1.1 Bool.false_ne_true
    · rw [hends hflag haction hre]
      simp
  | set =>
    rw [hkind] at h hbefore hafter
    refine iff_of_true ?_ (Or.inl rfl)
    obtain ⟨objects, msg, query, hframe⟩ := @asyncCallbackSet_frame env r s.agent
    cases h
    have hsame := hbefore.trans ((Bool.or_comm _ _).trans hafter.symm)
    constructor
    · exact ((congrArg AgentState.walkInProgress hframe).trans hs.walkInProgress).trans hsame
    · exact ((congrArg AgentState.actionStop hframe).trans hs.actionStop).trans hsame

/-- One step keeps the flag and the action right exactly under the condition. -/
theorem step_showsWalk_iff {s s' : Session} {e : Event} (hs : s.ShowsWalk) (h : s.step env e = some s') :
    s'.ShowsWalk ↔ e.KeepsShowing s := by
  by_cases hstarts : e.starts = none
  · by_cases hresponse : ∃ i r, e = .response i r
    · obtain ⟨i, r, rfl⟩ := hresponse
      obtain ⟨p, ret, hp, hret, rfl⟩ := step_response h
      exact returned_showsWalk_iff hs hp hret
    · obtain ⟨agent, view, rfl, hkept⟩ := step_keeps hstarts (fun i r he => hresponse ⟨i, r, he⟩) h
      have hshows : ({ s with agent, view } : Session).ShowsWalk :=
        ⟨hkept.walkInProgress.trans hs.walkInProgress, hkept.actionStop.trans hs.actionStop⟩
      apply iff_of_true hshows
      cases e with
      | walkFrom oid status => cases hstarts
      | response i r => exact absurd ⟨i, r, rfl⟩ hresponse
      | _ => trivial
  · unfold step at h
    split at h
    · cases h
    · cases e with
      | walkFrom oid status =>
        cases h
        exact walkFrom_showsWalk_iff hs oid status
      | get oid usevblist status | getNext oid usevblist status | set oid usevblist status =>
        cases h
        exact iff_of_true (hs.start (by decide) (startSingle_kept _ _ _ oid usevblist status s.agent)) trivial
      | getBulk oid usevblist status =>
        cases h
        exact iff_of_true (hs.start (by decide) (getBulk_kept oid usevblist status s.agent)) trivial
      | _ => exact absurd rfl hstarts

/-- Main result: the flag of the tree and the Stop action are right in every state of a run exactly
if every step meets the condition. -/
theorem showsWalk_iff_each {agent : AgentState} {es : List Event} {s : Session}
    (h : Runs.exec (Session.step env) (Session.idle agent.launch) es = some s) :
    Runs.Each (Session.step env) (fun m e => e.KeepsShowing m) (Session.idle agent.launch) es ↔
      ∀ m ∈ Runs.trace (Session.step env) id (Session.idle agent.launch) es, m.ShowsWalk :=
  Runs.each_iff_trace (fun _ _ _ hs hstep => step_showsWalk_iff hs hstep) ⟨rfl, rfl⟩ h

def walkAnswered : List Event :=
  [.walkFrom "1.3.6" 0, .stop, .response 0 (answered [⟨[1, 3, 6, 1], .int32 0⟩]), .get "1.3.6.1" false 0,
    .response 0 timedOut]

theorem showsWalk_iff_each_answered :
    ∃ s, Runs.exec (Session.step blank) (Session.idle SnmpB.Agent.idle.launch) walkAnswered = some s ∧
      (Runs.Each (Session.step blank) (fun m e => e.KeepsShowing m) (Session.idle SnmpB.Agent.idle.launch)
          walkAnswered ↔
        ∀ m ∈ Runs.trace (Session.step blank) id (Session.idle SnmpB.Agent.idle.launch) walkAnswered,
          m.ShowsWalk) :=
  ⟨_, rfl, showsWalk_iff_each rfl⟩

/-- The GET times out while the walk waits for its answer. -/
theorem get_hides_walk :
    ¬ ∀ (env : Printing) (agent : AgentState) (es : List Event) (s : Session),
      Runs.exec (Session.step env) (Session.idle agent.launch) es = some s → s.ShowsWalk := by
  intro h
  have hanswer := h blank SnmpB.Agent.idle
    [.walkFrom "1.3.6" 0, .get "1.3.6.1.2.1.1.1.0" false 0, .response 1 timedOut] _ rfl
  exact Bool.false_ne_true hanswer.actionStop

end Session

end SnmpB.Agent
