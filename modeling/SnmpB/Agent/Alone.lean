import SnmpB.Agent.Stop

/-! # A walk among other operations

The walk run alone sees its own responses and `Stop`, and nothing else. In a
session it does the same as long as no other operation gets past `Setup` while
it is outstanding and its follow-up requests find the parameters of its profile.
-/
namespace SnmpB.Agent
open Mib

variable {env : Printing}

inductive WalkEvent
  | stop
  | response (r : Response)

def Query.alone (env : Printing) (q : Query) : WalkEvent → Option Query
  | .stop => some { q with agent := q.agent.stopQuery }
  | .response r => q.step env true r

/-- The part of an event that concerns the walk in flight. -/
def Event.ofWalk : Event → Option WalkEvent
  | .stop => some .stop
  | .response _ r => some (.response r)
  | _ => none

/-! ## The settings a callback does not read -/

def AgentState.withSettings (a : AgentState) (profile : Option AgentProfile) (vblist : List Vb) :
    AgentState :=
  { a with profile, vblist }

/-- The same callback under other settings: only the parameters of a follow-up request differ. -/
def Returned.withSettings (ret : Returned) (profile : Option AgentProfile) (vblist : List Vb) : Returned :=
  { agent := ret.agent.withSettings profile vblist
    formatted := ret.formatted
    reissued := ret.reissued.map fun request =>
      (ret.agent.withSettings profile vblist).bulkRequest request.vblist }

section
variable (profile : Option AgentProfile) (vblist : List Vb)

theorem flush_withSettings (a : AgentState) :
    (a.withSettings profile vblist).flush = a.flush.withSettings profile vblist := by
  unfold AgentState.flush
  split
  · rename_i htenth
    exact (if_pos htenth).symm ▸ rfl
  · rename_i htenth
    exact (if_neg htenth).symm ▸ rfl

theorem formatVarbind_withSettings (fuel : ℕ) (ctx : Locals) (z : ℕ) (vb : Vb) (a : AgentState) :
    formatVarbind env fuel ctx z vb (a.withSettings profile vblist) =
      (formatVarbind env fuel ctx z vb a).map fun x => (x.1.withSettings profile vblist, x.2) := by
  unfold formatVarbind
  rw [show (a.withSettings profile vblist).mib = a.mib from rfl]
  cases Loop.run (nodeRestart vb) (fuel + 1) ⟨a.mib, []⟩ <;> rfl

theorem varbindLoop_withSettings (fuel : ℕ) (ctx : Locals) (vbs : List Vb) (z : ℕ) (last : Vb)
    (a : AgentState) :
    varbindLoop env fuel ctx vbs z last (a.withSettings profile vblist) =
      (varbindLoop env fuel ctx vbs z last a).map fun x => (x.1.withSettings profile vblist, x.2) := by
  induction vbs generalizing z last a with
  | nil => rfl
  | cons vb rest ih =>
    rw [varbindLoop, varbindLoop, formatVarbind_withSettings]
    rw [show (a.withSettings profile vblist).theoid = a.theoid from rfl]
    split
    · rfl
    · cases formatVarbind env fuel ctx z vb a with
      | none => rfl
      | some x =>
        obtain ⟨a', line, left⟩ := x
        cases left with
        | true => rfl
        | false =>
          simp only [Option.map_some]
          rw [flush_withSettings, ih]
          cases varbindLoop env fuel ctx rest (z + 1) vb a'.flush <;> rfl

theorem afterLoop_withSettings (iswalk : Bool) (status : ℤ) (exit : Exit) (a : AgentState) :
    afterLoop env iswalk status exit (a.withSettings profile vblist) =
      ((afterLoop env iswalk status exit a).1.withSettings profile vblist,
        (afterLoop env iswalk status exit a).2.map fun request =>
          ((afterLoop env iswalk status exit a).1.withSettings profile vblist).bulkRequest
            request.vblist) := by
  cases exit with
  | gotoEnd => rfl
  | fellThrough last =>
    simp only [afterLoop, reissue]
    rw [show (a.withSettings profile vblist).stop = a.stop from rfl]
    split
    · split <;> rfl
    · rfl

theorem asyncCallback_withSettings (iswalk : Bool) (r : Response) (a : AgentState) :
    asyncCallback env iswalk r (a.withSettings profile vblist) =
      (asyncCallback env iswalk r a).map fun ret => ret.withSettings profile vblist := by
  unfold asyncCallback
  split
  · rfl
  · split
    · rfl
    · split
      · rfl
      · split
        · rfl
        · by_cases hvbs : r.pdu.vblist = []
          · simp only [handleVarbinds, hvbs, ↓reduceIte]
            rfl
          · rw [handleVarbinds_eq hvbs, handleVarbinds_eq hvbs, Option.map_map]
            rw [show r.enterLoop (a.withSettings profile vblist) =
              (r.enterLoop a).withSettings profile vblist from rfl, varbindLoop_withSettings,
              Option.map_map]
            congr 1
            funext x
            simp only [Function.comp_apply, afterLoop_withSettings]
            rfl

end

def Response.sends (iswalk : Bool) (r : Response) (a : AgentState) : Prop :=
  ¬r.overwrites iswalk ∧ ¬(iswalk = true ∧ r.pdu.errorStatus = noSuchName) ∧
  (iswalk = true ∧ a.stop = false) ∧
  walksThrough r.fuel (r.locals iswalk) a.theoid (r.handled iswalk) ((r.locals iswalk).pduIndex - 1)
    a.mib = true ∧
  pduStatus [lastVb (r.handled iswalk) Vb.empty] r.sendStatus = 0

theorem asyncCallback_sends {iswalk : Bool} {r : Response} {a : AgentState} {ret : Returned}
    {request : Request} (h : asyncCallback env iswalk r a = some ret) (hre : ret.reissued = some request) :
    r.sends iswalk a ∧ a.bulkRequest request.vblist = request ∧
      ret.agent.bulkRequest request.vblist = request := by
  rcases asyncCallback_cases env h with ⟨-, objects, html, rfl⟩ | ⟨-, -, rfl⟩ |
    ⟨hover, hwalk, a', lines, exit, hloop, rfl⟩
  · cases hre
  · cases hre
  · have hkept := varbindLoop_frame hloop
    rcases afterLoop_cases iswalk r.sendStatus exit a' with ⟨-, hafter⟩ |
      ⟨last, rfl, hgo, ⟨hsend, hafter⟩ | ⟨-, html, hafter⟩⟩
    · rw [hafter] at hre
      cases hre
    · obtain ⟨hthrough, rfl⟩ := varbindLoop_fellThrough hloop
      obtain ⟨mib, objects, msg, query, rfl⟩ := hkept
      refine ⟨⟨hover, hwalk, hgo, hthrough, hsend⟩, ?_⟩
      rw [hafter] at hre ⊢
      cases hre
      exact ⟨rfl, rfl⟩
    · rw [hafter] at hre
      cases hre

theorem bulkRequest_congr {a b : AgentState} {request : Request}
    (ha : a.bulkRequest request.vblist = request) (hb : b.bulkRequest request.vblist = request)
    (vblist : List Vb) : a.bulkRequest vblist = b.bulkRequest vblist := by
  have hsame := ha.trans hb.symm
  simp only [AgentState.bulkRequest, Request.mk.injEq, true_and] at hsame
  simp only [AgentState.bulkRequest, hsame]

/-! ## The walk in a session and the walk alone -/

/-- What an event does to a walk in flight: a query started, a table view opened, another root
OID set up, or a follow-up request sent with parameters other than the walk's. -/
def Event.Disturbs (e : Event) (s : Session) : Prop :=
  match e with
  | .tableViewFrom oid => (setup s.agent oid false).isSome
  | .selectTableInstance oid | .getSyncValue oid _ =>
    (setup s.agent oid false).isSome ∧ Oid.ofText oid ≠ s.agent.theoid
  | .response i r =>
    ∃ p, s.pending[i]? = some p ∧ r.sends true s.agent ∧ s.agent.bulkRequest p.request.vblist ≠ p.request
  | e => e.Restarts s.agent

/-- The session agrees with the walk run alone: on every member of `Agent` but the settings, on
what the walk has requested and on what it has formatted. -/
structure Agrees (walk : ℕ) (s : Session) (q : Query) : Prop where
  agent : s.agent = q.agent.withSettings s.agent.profile s.agent.vblist
  issued : s.issuedBy walk = q.issued
  formatted : s.formattedBy walk = q.formatted

structure Undisturbed (walk : ℕ) (s : Session) (q : Query) : Prop extends Agrees walk s q where
  view : s.view = none
  pending : s.pending = (q.outstanding.map fun request => ⟨walk, .walk, request⟩).toList
  requested : ∀ request, q.outstanding = some request → q.agent.bulkRequest request.vblist = request

theorem issuedBy_returned {s : Session} {i : ℕ} {p : Pending} {ret : Returned} {walk : ℕ}
    (hquery : p.query = walk) :
    (s.returned i p ret).issuedBy walk = s.issuedBy walk ++ ret.reissued.toList := by
  apply (Session.issuedBy_append s walk _).trans
  cases ret.reissued with
  | none => rfl
  | some request => simp [hquery]

theorem formattedBy_returned {s : Session} {i : ℕ} {p : Pending} {ret : Returned} {walk : ℕ}
    (hquery : p.query = walk) :
    (s.returned i p ret).formattedBy walk = s.formattedBy walk ++ ret.formatted := by
  refine List.filterMap_append.trans (congrArg (s.formattedBy walk ++ ·) ?_)
  rw [List.filterMap_map]
  simp [hquery]

theorem Undisturbed.response {walk : ℕ} {s s' : Session} {q : Query} {i : ℕ} {r : Response}
    (hs : Undisturbed walk s q) (hcond : ¬ (Event.response i r).Disturbs s)
    (h : s.step env (.response i r) = some s') :
    ∃ q', q.alone env (.response r) = some q' ∧ Undisturbed walk s' q' := by
  obtain ⟨p, ret, hp, hret, rfl⟩ := Session.step_response h
  cases hout : q.outstanding with
  | none =>
    rw [hs.pending, hout] at hp
    cases hp
  | some request =>
    have hpending : s.pending = [⟨walk, .walk, request⟩] := by
      rw [hs.pending, hout]
      rfl
    have hi : i = 0 := by
      have hlt := (List.getElem?_eq_some_iff.mp hp).1
      rw [hpending] at hlt
      exact Nat.lt_one_iff.mp hlt
    subst hi
    obtain rfl : ⟨walk, .walk, request⟩ = p := by
      rw [hpending] at hp
      exact Option.some.inj hp
    have hreturned : asyncCallback env true r s.agent = some ret := hret
    have halone := hreturned
    rw [hs.agent, asyncCallback_withSettings] at halone
    obtain ⟨retq, hretq, rfl⟩ := Option.map_eq_some_iff.mp halone
    -- a follow-up request has the parameters it has alone
    have hreissued : (retq.withSettings s.agent.profile s.agent.vblist).reissued = retq.reissued := by
      cases hre : retq.reissued with
      | none => rw [Returned.withSettings, hre, Option.map_none]
      | some request' =>
        have hre' : (retq.withSettings s.agent.profile s.agent.vblist).reissued =
            some (s.agent.bulkRequest request'.vblist) := by
          rw [Returned.withSettings, hre, Option.map_some]
          rfl
        have hsends := (asyncCallback_sends hreturned hre').1
        have hparameters : s.agent.bulkRequest request.vblist = request := by
          by_contra hne
          exact hcond ⟨_, hp, hsends, hne⟩
        have hsame := bulkRequest_congr hparameters (hs.requested request hout) request'.vblist
        rw [hre', hsame, (asyncCallback_sends hretq hre).2.1]
    refine ⟨_, Query.step_of_asyncCallback hout hretq, ?_⟩
    refine { agent := rfl, issued := ?_, formatted := ?_, view := hs.view, pending := ?_, requested := ?_ }
    · rw [issuedBy_returned rfl, hreissued, hs.issued]
    · rw [formattedBy_returned rfl, hs.formatted]
      rfl
    · change s.pending.eraseIdx 0 ++ _ = _
      rw [hpending, hreissued]
      rfl
    · intro request' hre
      exact (asyncCallback_sends hretq hre).2.2

theorem theoidAfterSetup_eq {a : AgentState} {oid : String}
    (h : ¬ ((setup a oid false).isSome ∧ Oid.ofText oid ≠ a.theoid)) : theoidAfterSetup a oid = a.theoid := by
  unfold theoidAfterSetup
  split
  · rename_i hsome
    by_contra hne
    exact h ⟨hsome, hne⟩
  · rfl

theorem Undisturbed.step {walk : ℕ} {s s' : Session} {q : Query} {e : Event}
    (hs : Undisturbed walk s q) (hcond : ¬ e.Disturbs s) (h : s.step env e = some s') :
    ∃ q', Runs.exec (Query.alone env) q e.ofWalk.toList = some q' ∧ Undisturbed walk s' q' := by
  have hrefused : ∀ oid usevblist, e.starts = some (oid, usevblist) → ¬ e.Restarts s.agent → s' = s := by
    intro oid usevblist hstarts hnot
    obtain ⟨kind, ret, rfl, hret⟩ := Session.step_starts hstarts h
    have hnone : setup s.agent oid usevblist = none := by
      by_contra hne
      exact hnot ⟨oid, usevblist, hstarts, Option.isSome_iff_ne_none.mpr hne⟩
    rw [hret hnone]
    rfl
  cases e with
  | walkFrom oid status =>
    obtain rfl := hrefused oid false rfl hcond
    exact ⟨q, rfl, hs⟩
  | get oid usevblist status | getNext oid usevblist status | getBulk oid usevblist status
  | set oid usevblist status =>
    obtain rfl := hrefused oid usevblist rfl hcond
    exact ⟨q, rfl, hs⟩
  | response i r =>
    obtain ⟨q', hq', hs'⟩ := hs.response hcond h
    exact ⟨q', Runs.exec_cons.mpr ⟨q', hq', rfl⟩, hs'⟩
  | stop =>
    rw [Session.step, if_neg (by simp [hs.view])] at h
    cases h
    exact ⟨_, rfl, { hs with agent := congrArg AgentState.stopQuery hs.agent }⟩
  | varbindsBuildList vblist =>
    rw [Session.step, if_neg (by simp [hs.view])] at h
    cases h
    exact ⟨q, rfl, { hs with agent := congrArg (fun a => a.withSettings a.profile vblist) hs.agent }⟩
  | selectAgentProfile profile =>
    rw [Session.step, if_neg (by simp [hs.view])] at h
    cases h
    exact ⟨q, rfl, { hs with agent := congrArg (fun a => a.withSettings profile a.vblist) hs.agent }⟩
  | tableViewFrom oid =>
    rw [Session.step, if_neg (by simp [hs.view])] at h
    have hnone : setup s.agent oid false = none := Option.not_isSome_iff_eq_none.mp hcond
    have hview : tableViewFrom oid s.agent = some (.inl s.agent) := by rw [tableViewFrom, hnone]
    simp only [hview] at h
    cases h
    exact ⟨q, rfl, hs⟩
  | tableReply reply cells =>
    rw [Session.step, if_neg (by simp [hs.view])] at h
    simp only [hs.view] at h
    cases h
  | selectTableInstance oid =>
    have htheoid := theoidAfterSetup_eq hcond
    have hsame : ∀ agent, (selectTableInstance oid s.agent).map (Sum.elim id Selecting.agent) =
        some agent → agent = s.agent := by
      intro agent hagent
      rw [selectTableInstance_frame hagent, htheoid]
    rw [Session.step, if_neg (by simp [hs.view])] at h
    split at h
    · cases h
    · rename_i agent hselect
      obtain rfl := hsame agent (congrArg (Option.map _) hselect)
      cases h
      exact ⟨q, rfl, hs⟩
    · rename_i selecting hselect
      have hagent := hsame selecting.agent (congrArg (Option.map _) hselect)
      cases h
      rw [hagent]
      exact ⟨q, rfl, hs⟩
  | getSyncValue oid reply =>
    rw [Session.step, if_neg (by simp [hs.view])] at h
    cases h
    rw [getSyncValue_frame, theoidAfterSetup_eq hcond]
    exact ⟨q, rfl, hs⟩

theorem Undisturbed.start {agent : AgentState} {before : List Event} {s₀ s₁ : Session} {oid : String}
    {status : ℤ} {request : Request}
    (hbefore : Runs.exec (Session.step env) (Session.idle agent) before = some s₀)
    (hnone : s₀.pending = []) (hstart : s₀.step env (.walkFrom oid status) = some s₁)
    (hsent : s₁.pending = [⟨s₀.started, .walk, request⟩]) :
    Undisturbed s₀.started s₁ (Query.start s₁.agent request) := by
  have hnumbered := Session.numbered_of_exec hbefore
  have hissued : s₀.issuedBy s₀.started = [] := by
    rw [Session.issuedBy, List.filterMap_eq_nil_iff]
    intro x hx
    exact if_neg (Nat.ne_of_lt (hnumbered.issued x hx))
  have hformatted : s₀.formattedBy s₀.started = [] := by
    rw [Session.formattedBy, List.filterMap_eq_nil_iff]
    intro x hx
    exact if_neg (Nat.ne_of_lt (hnumbered.formatted x hx))
  unfold Session.step at hstart
  split at hstart
  · cases hstart
  · rename_i hview
    have hclosed : s₀.view = none := by
      by_contra hne
      exact hview ⟨Option.isSome_iff_ne_none.mpr hne, rfl⟩
    simp only at hstart
    cases hwalk : walkFrom env oid status s₀.agent with
    | mk agent' sent =>
      rw [hwalk] at hstart
      cases hstart
      cases sent with
      | none =>
        rw [Session.start, hnone] at hsent
        cases hsent
      | some request' =>
        have hrequest : request' = request := by
          rw [Session.start, hnone] at hsent
          cases hsent
          rfl
        subst hrequest
        obtain ⟨-, -, -, -, hbulk⟩ := walkFrom_some env hwalk
        refine
          { agent := rfl
            issued := ?_
            formatted := hformatted
            view := hclosed
            pending := hsent
            requested := ?_ }
        · apply (Session.issuedBy_append s₀ s₀.started _).trans
          rw [hissued]
          simp [Query.start]
        · intro request' hrequest
          cases hrequest
          rw [hbulk]
          rfl

/-- Main result: in every run of a walk in progress that nothing disturbs, the session does for
the walk what the walk does alone, and no other query is in flight to take its responses. -/
theorem walk_runs_as_alone {agent : AgentState} {before during : List Event} {s₀ s₁ s : Session}
    {oid : String} {status : ℤ} {request : Request}
    (hbefore : Runs.exec (Session.step env) (Session.idle agent) before = some s₀)
    (hnone : s₀.pending = []) (hstart : s₀.step env (.walkFrom oid status) = some s₁)
    (hsent : s₁.pending = [⟨s₀.started, .walk, request⟩])
    (hduring : Runs.exec (Session.step env) s₁ during = some s)
    (hcond : Runs.Each (Session.step env) (fun m e => ¬ e.Disturbs m) s₁ during) :
    ∃ q, Runs.exec (Query.alone env) (Query.start s₁.agent request)
        (during.filterMap Event.ofWalk) = some q ∧
      Agrees s₀.started s q ∧ ∀ p ∈ s.pending, p.query = s₀.started := by
  suffices h : ∀ q₁, Undisturbed s₀.started s₁ q₁ → ∃ q,
      Runs.exec (Query.alone env) q₁ (during.filterMap Event.ofWalk) = some q ∧
        Undisturbed s₀.started s q by
    obtain ⟨q, hq, hs⟩ := h _ (Undisturbed.start hbefore hnone hstart hsent)
    refine ⟨q, hq, hs.toAgrees, ?_⟩
    intro p hp
    rw [hs.pending] at hp
    obtain ⟨request', -, rfl⟩ := Option.map_eq_some_iff.mp (Option.mem_toList.mp hp)
    rfl
  clear hsent hstart
  induction during generalizing s₁ with
  | nil =>
    intro q₁ hs
    cases hduring
    exact ⟨q₁, rfl, hs⟩
  | cons e during ih =>
    intro q₁ hs
    obtain ⟨m, hm, hrest⟩ := Runs.exec_cons.mp hduring
    obtain ⟨q₂, hq₂, hs₂⟩ := hs.step hcond.1 hm
    obtain ⟨q, hq, hend⟩ := ih hrest (hcond.2 m hm) q₂ hs₂
    refine ⟨q, ?_, hend⟩
    rw [List.filterMap_cons]
    cases hevent : e.ofWalk with
    | none =>
      rw [hevent] at hq₂
      cases hq₂
      exact hq
    | some w =>
      rw [hevent] at hq₂
      obtain ⟨q', hq', hnil⟩ := Runs.exec_cons.mp hq₂
      cases hnil
      exact Runs.exec_cons.mpr ⟨q₂, hq', hq⟩

def calmEvents : List Event :=
  [.selectAgentProfile (some ⟨false, 0, 10⟩), .selectAgentProfile (some ⟨true, 0, 10⟩),
    .getSyncValue "1.3.6" ⟨classTimeout, ⟨[], 0, 0⟩⟩,
    .response 0 (answered [⟨[1, 3, 6, 1], .int32 0⟩])]

theorem calmEvents_calm : Runs.Each (Session.step blank) (fun m e => ¬ e.Disturbs m)
    Session.walkSession calmEvents := by
  refine ⟨?_, fun m₁ h₁ => ⟨?_, fun m₂ h₂ => ⟨?_, fun m₃ h₃ => ⟨?_, fun _ _ => trivial⟩⟩⟩⟩
  · rintro ⟨oid, usevblist, hstarts, -⟩
    cases hstarts
  · rintro ⟨oid, usevblist, hstarts, -⟩
    cases hstarts
  · cases h₁
    cases h₂
    rintro ⟨-, hother⟩
    exact hother rfl
  · cases h₁
    cases h₂
    cases h₃
    rintro ⟨p, hp, -, hparameters⟩
    cases hp
    exact hparameters rfl

theorem walk_runs_as_alone_calm :
    ∃ s q, Runs.exec (Session.step blank) Session.walkSession calmEvents = some s ∧
      Runs.exec (Query.alone blank) (Query.start Session.walkSession.agent walkRequest)
        (calmEvents.filterMap Event.ofWalk) = some q ∧
      Agrees 0 s q ∧ ∀ p ∈ s.pending, p.query = 0 := by
  have hbefore : Runs.exec (Session.step blank) (Session.idle idle) [] = some (Session.idle idle) := rfl
  have hstart : (Session.idle idle).step blank (.walkFrom "1.3.6" 0) = some Session.walkSession := rfl
  obtain ⟨q, hq⟩ := walk_runs_as_alone hbefore rfl hstart rfl rfl calmEvents_calm
  exact ⟨_, q, rfl, hq⟩

/-- A GET sent before the walk is answered moves the root of the walk. -/
def getBetween : List Event :=
  [.get "1.3.6.1.2.1.1.1.0" false 0, .response 0 (answered [⟨[1, 3, 6, 1], .int32 0⟩])]

theorem get_disturbs_walk :
    ¬ ∀ (env : Printing) (agent : AgentState) (before during : List Event) (s₀ s₁ s : Session)
      (oid : String) (status : ℤ) (request : Request),
      Runs.exec (Session.step env) (Session.idle agent) before = some s₀ → s₀.pending = [] →
      s₀.step env (.walkFrom oid status) = some s₁ →
      s₁.pending = [⟨s₀.started, .walk, request⟩] →
      Runs.exec (Session.step env) s₁ during = some s →
      Runs.Each (Session.step env) (fun m _ => m.Outstanding s₀.started) s₁ during →
      ∃ q, Runs.exec (Query.alone env) (Query.start s₁.agent request)
        (during.filterMap Event.ofWalk) = some q ∧ Agrees s₀.started s q := by
  intro h
  have hongoing : Runs.Each (Session.step blank) (fun m _ => m.Outstanding 0) Session.walkSession
      getBetween := by
    refine ⟨Session.walkSession_outstanding, fun m hm => ⟨?_, fun _ _ => trivial⟩⟩
    cases hm
    exact ⟨⟨0, .walk, walkRequest⟩, List.mem_cons_self, rfl, rfl⟩
  obtain ⟨q, hq, hagrees⟩ := h blank idle [] getBetween (Session.idle idle) Session.walkSession _ "1.3.6" 0
    walkRequest rfl rfl rfl rfl rfl hongoing
  cases hq
  have htheoid := congrArg AgentState.theoid hagrees.agent
  revert htheoid
  decide

end SnmpB.Agent
