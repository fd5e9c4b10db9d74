import SnmpB.Agent.Query

/-! # The output buffer of a query

Object lines wait in `msg` until the next flush. Every branch that appends keeps
them; the branches that assign an error text to `msg` lose what is pending, and
they all end the query.
-/
namespace SnmpB.Agent
open Mib

/-- The lines on display followed by those that wait in the buffer. -/
def AgentState.buffered (a : AgentState) : List ObjectLine := a.displayed ++ linesOf a.msg

namespace AgentState

@[simp] theorem cleanup_displayed (a : AgentState) : a.cleanup.displayed = a.buffered := by
  simp [cleanup, displayed, buffered]

@[simp] theorem endQuery_displayed (a : AgentState) : a.endQuery.displayed = a.buffered := by
  rw [endQuery, cleanup_displayed, buffered, linesOf_append, buffered]
  simp [displayed, linesOf]

@[simp] theorem failQuery_displayed (a : AgentState) (html : String) :
    (a.failQuery html).displayed = a.displayed := by
  rw [failQuery, cleanup_displayed, buffered, linesOf_text, List.append_nil]
  rfl

theorem flush_buffered (a : AgentState) : a.flush.buffered = a.buffered := by
  unfold flush
  split <;> simp [buffered, displayed]

theorem flush_frame (a : AgentState) : ∃ msg query, a.flush = { a with msg, query } := by
  unfold flush
  split
  · exact ⟨_, _, rfl⟩
  · exact ⟨_, a.query, rfl⟩

@[simp] theorem flush_objects (a : AgentState) : a.flush.objects = a.objects := by
  obtain ⟨msg, query, h⟩ := a.flush_frame
  rw [h]

@[simp] theorem flush_mib (a : AgentState) : a.flush.mib = a.mib := by
  obtain ⟨msg, query, h⟩ := a.flush_frame
  rw [h]

@[simp] theorem flush_theoid (a : AgentState) : a.flush.theoid = a.theoid := by
  obtain ⟨msg, query, h⟩ := a.flush_frame
  rw [h]

theorem flush_pending {a : AgentState} (h : linesOf a.msg ≠ []) :
    linesOf a.flush.msg = [] ↔ a.objects % 10 = 0 := by
  unfold flush
  split
  · rename_i htenth
    simp [htenth]
  · rename_i htenth
    simp [htenth, h]

end AgentState

variable {env : Printing}

theorem formatVarbind_some {fuel : ℕ} {ctx : Locals} {z : ℕ} {vb : Vb} {a a' : AgentState}
    {line : ObjectLine} {left : Bool} (h : formatVarbind env fuel ctx z vb a = some (a', line, left)) :
    ∃ res, Loop.run (nodeRestart vb) (fuel + 1) ⟨a.mib, []⟩ = some res ∧
      line = objectLine env ctx z vb (a.objects + 1) res ∧ left = (ctx.failed z vb && res.node.isSome) ∧
      a' = { a with objects := a.objects + 1, mib := res.mib
                    msg := a.msg ++ res.loading.map .loading ++ [.line line] } := by
  unfold formatVarbind at h
  split at h
  · cases h
  · rename_i res hres
    cases h
    exact ⟨res, hres, rfl, rfl, rfl⟩

theorem formatVarbind_buffered {fuel : ℕ} {ctx : Locals} {z : ℕ} {vb : Vb} {a a' : AgentState}
    {line : ObjectLine} {left : Bool} (h : formatVarbind env fuel ctx z vb a = some (a', line, left)) :
    a'.buffered = a.buffered ++ [line] ∧ a'.objects = a.objects + 1 ∧ linesOf a'.msg ≠ [] := by
  obtain ⟨res, -, -, -, rfl⟩ := formatVarbind_some h
  simp [AgentState.buffered, AgentState.displayed]

/-- The loop loses no line, whichever way it is left. -/
theorem varbindLoop_buffered {fuel : ℕ} {ctx : Locals} {vbs : List Vb} {z : ℕ} {last : Vb}
    {a a' : AgentState} {lines : List ObjectLine} {exit : Exit}
    (h : varbindLoop env fuel ctx vbs z last a = some (a', lines, exit)) :
    a'.buffered = a.buffered ++ lines := by
  induction vbs generalizing z last a lines with
  | nil =>
    cases h
    simp
  | cons vb rest ih =>
    rw [varbindLoop] at h
    split at h
    · cases h
      simp
    · split at h
      · cases h
      · rename_i a₁ line hformat
        cases h
        exact (formatVarbind_buffered hformat).1
      · rename_i a₁ line hformat
        split at h
        · cases h
        · rename_i a₂ lines' exit' hrest
          cases h
          rw [ih hrest, AgentState.flush_buffered, (formatVarbind_buffered hformat).1,
            List.append_assoc, List.singleton_append]

/-- The loop runs to its end: every varbind is in scope and none fails at a known node. -/
def walksThrough (fuel : ℕ) (ctx : Locals) (theoid : Oid) : List Vb → ℕ → MibState → Bool
  | [], _, _ => true
  | vb :: rest, z, mib =>
    !ctx.outOfScope theoid vb &&
      match Loop.run (nodeRestart vb) (fuel + 1) ⟨mib, []⟩ with
      | none => false
      | some res =>
        !(ctx.failed z vb && res.node.isSome) && walksThrough fuel ctx theoid rest (z + 1) res.mib

def lastVb (vbs : List Vb) (last : Vb) : Vb := vbs.getLast?.getD last

theorem lastVb_cons (vb : Vb) (rest : List Vb) (last : Vb) : lastVb (vb :: rest) last = lastVb rest vb := by
  cases rest with
  | nil => rfl
  | cons vb' rest =>
    have hsome := List.getLast?_eq_getLast_of_ne_nil (List.cons_ne_nil vb' rest)
    simp only [lastVb, List.getLast?_cons_cons, hsome, Option.getD_some]

theorem varbindLoop_exit {fuel : ℕ} {ctx : Locals} {vbs : List Vb} {z : ℕ} {last : Vb}
    {a a' : AgentState} {lines : List ObjectLine} {exit : Exit}
    (h : varbindLoop env fuel ctx vbs z last a = some (a', lines, exit)) :
    exit = if walksThrough fuel ctx a.theoid vbs z a.mib then .fellThrough (lastVb vbs last)
      else .gotoEnd := by
  induction vbs generalizing z last a lines with
  | nil =>
    cases h
    rfl
  | cons vb rest ih =>
    rw [varbindLoop] at h
    split at h
    · rename_i hout
      cases h
      simp [walksThrough, hout]
    · rename_i hin
      split at h
      · cases h
      · rename_i a₁ line hformat
        cases h
        obtain ⟨res, hres, -, hleft, -⟩ := formatVarbind_some hformat
        simp [walksThrough, hres, ← hleft]
      · rename_i a₁ line hformat
        obtain ⟨res, hres, -, hleft, rfl⟩ := formatVarbind_some hformat
        split at h
        · cases h
        · rename_i a₂ lines' exit' hrest
          cases h
          have hsame := ih hrest
          rw [AgentState.flush_theoid, AgentState.flush_mib] at hsame
          rw [lastVb_cons, walksThrough, hres]
          simpa [hin, ← hleft] using hsame

theorem varbindLoop_fellThrough {fuel : ℕ} {ctx : Locals} {vbs : List Vb} {z : ℕ} {last seed : Vb}
    {a a' : AgentState} {lines : List ObjectLine}
    (h : varbindLoop env fuel ctx vbs z last a = some (a', lines, .fellThrough seed)) :
    walksThrough fuel ctx a.theoid vbs z a.mib = true ∧ seed = lastVb vbs last := by
  have hexit := varbindLoop_exit h
  split at hexit
  · rename_i hwt
    cases hexit
    exact ⟨hwt, rfl⟩
  · cases hexit

/-- A loop that runs to its end prints every varbind, and it leaves a line pending unless the
last one was the tenth object. -/
theorem varbindLoop_pending {fuel : ℕ} {ctx : Locals} {vbs : List Vb} {z : ℕ} {last seed : Vb}
    {a a' : AgentState} {lines : List ObjectLine}
    (h : varbindLoop env fuel ctx vbs z last a = some (a', lines, .fellThrough seed)) :
    linesOf a'.msg = [] ↔
      if vbs = [] then linesOf a.msg = [] else (a.objects + vbs.length) % 10 = 0 := by
  induction vbs generalizing z last a lines with
  | nil =>
    cases h
    simp
  | cons vb rest ih =>
    rw [varbindLoop] at h
    split at h
    · cases h
    · split at h
      · cases h
      · cases h
      · rename_i a₁ line hformat
        obtain ⟨-, hobjects, hpending⟩ := formatVarbind_buffered hformat
        split at h
        · cases h
        · rename_i a₂ lines' exit' hrest
          cases h
          rw [ih hrest, if_neg (List.cons_ne_nil vb rest), AgentState.flush_objects, hobjects,
            AgentState.flush_pending hpending, hobjects]
          split
          · rename_i hnil
            simp [hnil]
          · rw [List.length_cons, Nat.add_assoc a.objects, Nat.add_comm 1]

def Response.refused (iswalk : Bool) (r : Response) (a : AgentState) : Prop :=
  ¬r.overwrites iswalk ∧ ¬(iswalk = true ∧ r.pdu.errorStatus = noSuchName) ∧
  (iswalk = true ∧ a.stop = false) ∧
  walksThrough r.fuel (r.locals iswalk) a.theoid (r.handled iswalk) ((r.locals iswalk).pduIndex - 1)
    a.mib = true ∧
  pduStatus [lastVb (r.handled iswalk) Vb.empty] r.sendStatus ≠ 0

/-- A callback spares the buffer: when it takes a branch that assigns an error text, no object
line is pending there. -/
def Response.spares (iswalk : Bool) (r : Response) (a : AgentState) : Prop :=
  (r.overwrites iswalk → linesOf a.msg = []) ∧
  (r.refused iswalk a →
    if r.handled iswalk = [] then linesOf a.msg = []
    else (r.startObjects a + (r.handled iswalk).length) % 10 = 0)

/-- What is on display, with what waits in the buffer of a query that goes on. -/
def shownLines (a : AgentState) (outstanding : Bool) : List ObjectLine :=
  if outstanding then a.buffered else a.displayed

theorem enterLoop_buffered (r : Response) (a : AgentState) : (r.enterLoop a).buffered = a.buffered := rfl

theorem varbindLoop_frame {fuel : ℕ} {ctx : Locals} {vbs : List Vb} {z : ℕ} {last : Vb}
    {a a' : AgentState} {lines : List ObjectLine} {exit : Exit}
    (h : varbindLoop env fuel ctx vbs z last a = some (a', lines, exit)) :
    ∃ mib objects msg query, a' = { a with mib, objects, msg, query } := by
  induction vbs generalizing z last a lines with
  | nil =>
    cases h
    exact ⟨_, _, _, _, rfl⟩
  | cons vb rest ih =>
    rw [varbindLoop] at h
    split at h
    · cases h
      exact ⟨_, _, _, _, rfl⟩
    · split at h
      · cases h
      · rename_i a₁ line hformat
        cases h
        obtain ⟨res, -, -, -, rfl⟩ := formatVarbind_some hformat
        exact ⟨res.mib, a.objects + 1, _, a.query, rfl⟩
      · rename_i a₁ line hformat
        obtain ⟨res, -, -, -, rfl⟩ := formatVarbind_some hformat
        split at h
        · cases h
        · rename_i a₂ lines' exit' hrest
          cases h
          obtain ⟨mib, objects, msg, query, rfl⟩ := ih hrest
          obtain ⟨msg', query', hflush⟩ := AgentState.flush_frame
            { a with objects := a.objects + 1, mib := res.mib
                     msg := a.msg ++ res.loading.map .loading ++ [.line line] }
          exact ⟨mib, objects, msg, query, by rw [hflush]⟩

/-- One callback: nothing is lost exactly when it spares the buffer, and a callback that does
not spare it is the last one of its query. -/
theorem asyncCallback_shown {iswalk : Bool} {r : Response} {a : AgentState} {ret : Returned}
    (h : asyncCallback env iswalk r a = some ret) :
    (shownLines ret.agent ret.reissued.isSome = a.buffered ++ ret.formatted ↔ r.spares iswalk a) ∧
    (ret.reissued.isSome → r.spares iswalk a) := by
  rcases asyncCallback_cases env h with ⟨hover, objects, html, rfl⟩ | ⟨hover, hend, rfl⟩ |
    ⟨hover, hwalk, a', lines, exit, hloop, rfl⟩
  · -- an early error text: only the display is left
    have hdisplayed : shownLines (AgentState.failQuery { a with objects } html) false = a.displayed :=
      AgentState.failQuery_displayed _ html
    have hspares : r.spares iswalk a ↔ linesOf a.msg = [] :=
      ⟨fun hs => hs.1 hover, fun hnil => ⟨fun _ => hnil, fun hrefused => absurd hover hrefused.1⟩⟩
    refine ⟨?_, by simp⟩
    rw [Option.isSome_none, hdisplayed, hspares, AgentState.buffered, List.append_nil]
    exact List.self_eq_append_right
  · have hspares : r.spares iswalk a :=
      ⟨fun ho => absurd ho hover, fun hrefused => absurd hend hrefused.2.1⟩
    simp [shownLines, hspares]
  · have hkeep := varbindLoop_buffered hloop
    rw [enterLoop_buffered] at hkeep
    obtain ⟨mib, objects, msg, query, hframe⟩ := varbindLoop_frame hloop
    have hstop : a'.stop = a.stop := by rw [hframe]; rfl
    rcases afterLoop_cases iswalk r.sendStatus exit a' with ⟨hno, hafter⟩ |
      ⟨last, rfl, hgo, ⟨hsend, hafter⟩ | ⟨hsend, html, hafter⟩⟩
    · have hspares : r.spares iswalk a := by
        refine ⟨fun ho => absurd ho hover, fun hrefused => ?_⟩
        have hexit := varbindLoop_exit hloop
        rw [if_pos (show walksThrough _ _ (r.enterLoop a).theoid _ _ (r.enterLoop a).mib = true from
          hrefused.2.2.2.1)] at hexit
        exact absurd ⟨hrefused.2.2.1.1, hstop.trans hrefused.2.2.1.2⟩ (hno _ hexit)
      rw [hafter]
      simp [shownLines, hspares, hkeep]
    all_goals
      obtain ⟨hwt, rfl⟩ := varbindLoop_fellThrough hloop
      rw [hstop] at hgo
    · have hspares : r.spares iswalk a :=
        ⟨fun ho => absurd ho hover, fun hrefused => absurd hsend hrefused.2.2.2.2⟩
      rw [hafter]
      simp [shownLines, hspares, hkeep]
    · -- the refused follow-up: the lines pending after the loop are lost
      have hspares : r.spares iswalk a ↔ linesOf a'.msg = [] := by
        rw [varbindLoop_pending hloop]
        exact ⟨fun hs => hs.2 ⟨hover, hwalk, hgo, hwt, hsend⟩,
          fun hs => ⟨fun ho => absurd ho hover, fun _ => hs⟩⟩
      rw [hafter]
      refine ⟨?_, by simp⟩
      rw [hspares, ← hkeep, AgentState.buffered]
      simp only [shownLines, Option.isSome_none, Bool.false_eq_true, ↓reduceIte,
        AgentState.failQuery_displayed]
      exact List.self_eq_append_right

theorem query_outstanding {iswalk : Bool} {a : AgentState} {request : Request} (hs : Started a)
    {rs : List Response} {q : Query}
    (h : Runs.exec (Query.step env iswalk) (Query.start a request) rs = some q)
    (hout : q.outstanding.isSome) :
    q.agent.buffered = q.formatted ∧
    Runs.Each (Query.step env iswalk) (fun m r => r.spares iswalk m.agent) (Query.start a request) rs := by
  induction rs using List.reverseRecOn generalizing q with
  | nil =>
    cases h
    simp [AgentState.buffered, Query.start, hs.displayed, hs.msg, Runs.Each]
  | append_singleton rs r ih =>
    obtain ⟨m, hm, hstep⟩ := Runs.exec_snoc.mp h
    obtain ⟨⟨pending, hpending⟩, ret, hret, rfl⟩ := Query.step_some hstep
    obtain ⟨hbuffered, heach⟩ := ih hm (by simp [hpending])
    obtain ⟨hshown, hlast⟩ := asyncCallback_shown hret
    have hspares := hlast hout
    have hkept := hshown.mpr hspares
    rw [shownLines, if_pos hout, hbuffered] at hkept
    exact ⟨hkept, (Runs.each_snoc hm).mpr ⟨heach, hspares⟩⟩

/-- Main result: over all callbacks of a query, every line formatted is shown once and in
order exactly when no callback assigns an error text over pending lines. -/
theorem query_shown_iff {iswalk : Bool} {a : AgentState} {request : Request} (hs : Started a)
    {rs : List Response} {q : Query}
    (h : Runs.exec (Query.step env iswalk) (Query.start a request) rs = some q) :
    shownLines q.agent q.outstanding.isSome = q.formatted ↔
      Runs.Each (Query.step env iswalk) (fun m r => r.spares iswalk m.agent) (Query.start a request)
        rs := by
  induction rs using List.reverseRecOn with
  | nil =>
    cases h
    simp [shownLines, AgentState.buffered, Query.start, hs.displayed, hs.msg, Runs.Each]
  | append_singleton rs r =>
    obtain ⟨m, hm, hstep⟩ := Runs.exec_snoc.mp h
    obtain ⟨⟨pending, hpending⟩, ret, hret, rfl⟩ := Query.step_some hstep
    obtain ⟨hbuffered, heach⟩ := query_outstanding hs hm (by simp [hpending])
    rw [Runs.each_snoc hm, ← hbuffered, (asyncCallback_shown hret).1]
    exact ⟨fun hspares => ⟨heach, hspares⟩, fun hall => hall.2⟩

def tenthThenTimeout : List Response :=
  [answered ((List.range 10).map fun i => ⟨[1, 3, 6, i], .int32 0⟩), timedOut]

def oneThenTimeout : List Response := [answered [⟨[1, 3, 6, 1], .int32 0⟩], timedOut]

theorem query_shown_iff_tenth :
    ∃ q, Runs.exec (Query.step blank true) (Query.start walking walkRequest) tenthThenTimeout = some q ∧
      (shownLines q.agent q.outstanding.isSome = q.formatted ↔
        Runs.Each (Query.step blank true) (fun m r => r.spares true m.agent)
          (Query.start walking walkRequest) tenthThenTimeout) :=
  ⟨_, rfl, query_shown_iff (walkFrom_some blank idle_walkFrom).1 rfl⟩

/-- The line of the first response is still in the buffer when the second one times out. -/
theorem timeout_loses_line :
    ¬ ∀ (env : Printing) (iswalk : Bool) (a : AgentState) (request : Request) (rs : List Response)
      (q : Query), Started a →
      Runs.exec (Query.step env iswalk) (Query.start a request) rs = some q →
      shownLines q.agent q.outstanding.isSome = q.formatted := by
  intro h
  have hsome : (Runs.exec (Query.step blank true) (Query.start walking walkRequest)
      oneThenTimeout).isSome := by decide
  have hshown := h blank true walking walkRequest oneThenTimeout _
    (walkFrom_some blank idle_walkFrom).1 (Option.some_get hsome).symm
  revert hshown
  decide +revert

end SnmpB.Agent
