import SnmpB.Agent.Session

/-! # Responses with an error status

The error index tells which varbind the agent refused. The loops begin there, and
both callbacks show this varbind as the error.
-/
namespace SnmpB.Agent
open Mib

def CallbackKind.iswalk : CallbackKind → Bool
  | .walk => true
  | .query | .set => false

/-- The varbind the error index points at. -/
def Response.failing (r : Response) : Option Vb := r.pdu.vblist[r.pdu.errorIndex.toNat - 1]?

/-- The node a varbind is printed with, once the modules for it are loaded; the response to a SET
loads none. -/
def CallbackKind.Resolves (kind : CallbackKind) (mib : MibState) (vb : Vb) (res : Resolved) : Prop :=
  match kind with
  | .set => res = ⟨mib, [], nodeOf mib vb⟩
  | .walk | .query => ∃ fuel, Loop.run (nodeRestart vb) fuel ⟨mib, []⟩ = some res

/-- A v1 agent ends a walk with `noSuchName`. -/
def Response.endsWalk (iswalk : Bool) (r : Response) : Prop := iswalk = true ∧ r.pdu.errorStatus = noSuchName

instance (iswalk : Bool) (r : Response) : Decidable (r.endsWalk iswalk) := instDecidableAnd

variable {env : Printing}

def Response.errorLine (env : Printing) (r : Response) (vb : Vb) (res : Resolved) : ObjectLine :=
  { number := r.pdu.errorIndex.toNat, name := printedName res.node vb
    outcome := .error (env.errorMsg r.pdu.errorStatus) }

/-- These lines are shown behind what waits in the buffer, and nothing else is asked for. -/
structure EndsWith (lines : List ObjectLine) (a : AgentState) (ret : Returned) : Prop where
  formatted : ret.formatted = lines
  displayed : ret.agent.displayed = a.buffered ++ lines
  last : ret.reissued = none

variable {iswalk : Bool} {r : Response} {a : AgentState} {vb : Vb}

theorem locals_error (hstatus : r.pdu.errorStatus ≠ 0) :
    r.locals iswalk = ⟨iswalk, r.pdu.errorStatus, r.pdu.errorIndex.toNat⟩ := by
  unfold Response.locals
  rw [if_neg hstatus]

theorem vblist_ne_nil (hvb : r.failing = some vb) : r.pdu.vblist ≠ [] := by
  intro hnil
  rw [Response.failing, hnil] at hvb
  cases hvb

/-- The loops begin at the varbind that failed. -/
theorem handled_error (hstatus : r.pdu.errorStatus ≠ 0) (hvb : r.failing = some vb) :
    r.handled iswalk = vb :: r.pdu.vblist.drop (r.pdu.errorIndex.toNat - 1 + 1) := by
  obtain ⟨hlt, hget⟩ := List.getElem?_eq_some_iff.mp hvb
  unfold Response.handled
  rw [locals_error hstatus, List.drop_eq_getElem_cons hlt, hget]

theorem handled_error_beyond (hstatus : r.pdu.errorStatus ≠ 0) (hbeyond : r.pdu.vblist.length < r.pdu.errorIndex) :
    r.handled iswalk = [] := by
  unfold Response.handled
  rw [locals_error hstatus, List.drop_eq_nil_iff]
  simp only
  omega

theorem objectLine_error (hstatus : r.pdu.errorStatus ≠ 0) (hindex : 1 ≤ r.pdu.errorIndex) (vb : Vb) (res : Resolved) :
    objectLine env (r.locals iswalk) ((r.locals iswalk).pduIndex - 1) vb (r.startObjects a + 1) res =
      r.errorLine env vb res ∧
    (r.locals iswalk).failed ((r.locals iswalk).pduIndex - 1) vb = true := by
  have hnumber : r.pdu.errorIndex.toNat - 1 + 1 = r.pdu.errorIndex.toNat := by omega
  have hfailed : (r.locals iswalk).failed ((r.locals iswalk).pduIndex - 1) vb = true := by
    rw [locals_error hstatus]
    simp [Locals.failed, hstatus, hnumber]
  refine ⟨?_, hfailed⟩
  unfold objectLine Response.errorLine
  rw [if_pos hfailed, Response.startObjects, if_neg hstatus, hnumber, locals_error hstatus, Locals.failure,
    if_pos hstatus]

/-- There is nothing to go on with behind the last varbind. -/
theorem drop_last (hindex : 1 ≤ r.pdu.errorIndex) (hlast : (r.pdu.vblist.length : ℤ) = r.pdu.errorIndex) :
    r.pdu.vblist.drop (r.pdu.errorIndex.toNat - 1 + 1) = [] := by
  rw [List.drop_eq_nil_iff]
  omega

theorem not_nonpositive (hindex : 1 ≤ r.pdu.errorIndex) :
    ¬ (r.pdu.errorStatus ≠ 0 ∧ r.pdu.errorIndex ≤ 0) := by
  rintro ⟨-, hno⟩
  omega

/-! ## The callback of a walk or a query -/

theorem asyncCallback_endsWalk (hreason : r.reason ∈ responseReasons) (hend : r.endsWalk iswalk) :
    asyncCallback env iswalk r a = some ⟨a.endQuery, [], none⟩ := by
  unfold asyncCallback
  rw [if_neg (not_timeout hreason), if_neg (not_not.mpr hreason)]
  exact if_pos hend

theorem asyncCallback_error (hreason : r.reason ∈ responseReasons) (hindex : 1 ≤ r.pdu.errorIndex)
    (hend : ¬ r.endsWalk iswalk) : asyncCallback env iswalk r a = handleVarbinds env iswalk r a := by
  have hgoing : ¬ (iswalk = true ∧ r.pdu.errorStatus = noSuchName) := hend
  unfold asyncCallback
  rw [if_neg (not_timeout hreason), if_neg (not_not.mpr hreason), if_neg hgoing, if_neg (not_nonpositive hindex)]

theorem afterLoop_ends {status : ℤ} {exit : Exit} (h : exit = .gotoEnd ∨ iswalk = false) :
    afterLoop env iswalk status exit a = (a.endQuery, none) := by
  cases exit with
  | gotoEnd => rfl
  | fellThrough last =>
    have hquery : iswalk = false := h.resolve_left nofun
    rw [afterLoop, hquery, Bool.false_and]
    rfl

/-- The loop is left behind the first varbind when it failed at a known node, and ends there when it is
the last one. -/
theorem varbindLoop_failed {fuel : ℕ} {ctx : Locals} {rest : List Vb} {z : ℕ} {last : Vb} {res : Resolved}
    (hin : ctx.outOfScope a.theoid vb = false) (hfailed : ctx.failed z vb = true)
    (hrun : Loop.run (nodeRestart vb) (fuel + 1) ⟨a.mib, []⟩ = some res) (hleft : res.node.isSome ∨ rest = []) :
    ∃ a' exit, varbindLoop env fuel ctx (vb :: rest) z last a =
        some (a', [objectLine env ctx z vb (a.objects + 1) res], exit) ∧
      (exit = .gotoEnd ∨ res.node.isSome = false) := by
  have hscope : ¬ ctx.outOfScope a.theoid vb = true := by simp [hin]
  have hformat : ∃ counted, formatVarbind env fuel ctx z vb a =
      some (counted, objectLine env ctx z vb (a.objects + 1) res, res.node.isSome) := by
    unfold formatVarbind
    rw [hrun, hfailed]
    exact ⟨_, rfl⟩
  obtain ⟨counted, hformat⟩ := hformat
  rw [varbindLoop, if_neg hscope, hformat]
  cases hnode : res.node.isSome with
  | true => exact ⟨counted, .gotoEnd, rfl, Or.inl rfl⟩
  | false =>
    obtain rfl : rest = [] := hleft.resolve_left (by simp [hnode])
    exact ⟨counted.flush, .fellThrough vb, rfl, Or.inr rfl⟩

theorem asyncCallback_shows_error {res : Resolved} (hreason : r.reason ∈ responseReasons)
    (hstatus : r.pdu.errorStatus ≠ 0) (hindex : 1 ≤ r.pdu.errorIndex) (hend : ¬ r.endsWalk iswalk)
    (hvb : r.failing = some vb) (hin : (r.locals iswalk).outOfScope a.theoid vb = false)
    (hrun : Loop.run (nodeRestart vb) (r.fuel + 1) ⟨a.mib, []⟩ = some res)
    (hlast : res.node.isSome ∨ ((r.pdu.vblist.length : ℤ) = r.pdu.errorIndex ∧ iswalk = false)) :
    ∃ ret, asyncCallback env iswalk r a = some ret ∧ EndsWith [r.errorLine env vb res] a ret := by
  have hleft : res.node.isSome ∨ r.pdu.vblist.drop (r.pdu.errorIndex.toNat - 1 + 1) = [] :=
    hlast.imp_right fun hboth => drop_last hindex hboth.1
  obtain ⟨hline, hfailed⟩ := @objectLine_error env iswalk r a hstatus hindex vb res
  obtain ⟨a', exit, hloop, hexit⟩ := @varbindLoop_failed env (r.enterLoop a) vb r.fuel (r.locals iswalk) _ _
    Vb.empty res hin hfailed hrun hleft
  have hobjects : (r.enterLoop a).objects + 1 = r.startObjects a + 1 := rfl
  rw [hobjects, hline] at hloop
  have hafter : afterLoop env iswalk r.sendStatus exit a' = (a'.endQuery, none) := by
    apply afterLoop_ends
    rcases hexit with hgoto | hnode
    · exact Or.inl hgoto
    · exact Or.inr (hlast.resolve_left (by simp [hnode])).2
  have hkept := varbindLoop_buffered hloop
  rw [asyncCallback_error hreason hindex hend, handleVarbinds_eq (vblist_ne_nil hvb), handled_error hstatus hvb, hloop]
  simp only [Option.map_some, hafter]
  refine ⟨_, rfl, rfl, ?_, rfl⟩
  rw [AgentState.endQuery_displayed, hkept]
  rfl

theorem asyncCallback_shows_nothing (hreason : r.reason ∈ responseReasons) (hstatus : r.pdu.errorStatus ≠ 0)
    (hindex : 1 ≤ r.pdu.errorIndex) (hvb : r.failing = some vb)
    (hnot : r.endsWalk iswalk ∨ (r.locals iswalk).outOfScope a.theoid vb = true) :
    ∃ ret, asyncCallback env iswalk r a = some ret ∧ EndsWith [] a ret := by
  by_cases hend : r.endsWalk iswalk
  · refine ⟨_, asyncCallback_endsWalk hreason hend, rfl, ?_, rfl⟩
    rw [AgentState.endQuery_displayed, List.append_nil]
  · have hout : (r.locals iswalk).outOfScope (r.enterLoop a).theoid vb = true := hnot.resolve_left hend
    rw [asyncCallback_error hreason hindex hend, handleVarbinds_eq (vblist_ne_nil hvb), handled_error hstatus hvb,
      varbindLoop, if_pos hout]
    refine ⟨_, rfl, rfl, ?_, rfl⟩
    rw [List.append_nil]
    exact AgentState.endQuery_displayed _

theorem asyncCallback_error_beyond (hreason : r.reason ∈ responseReasons) (hstatus : r.pdu.errorStatus ≠ 0)
    (hbeyond : r.pdu.vblist.length < r.pdu.errorIndex) :
    ∃ ret, asyncCallback env iswalk r a = some ret ∧ ret.formatted = [] ∧ ret.reissued = none := by
  by_cases hend : r.endsWalk iswalk
  · exact ⟨_, asyncCallback_endsWalk hreason hend, rfl, rfl⟩
  · rw [asyncCallback_error hreason (by omega) hend]
    by_cases hvbs : r.pdu.vblist = []
    · refine ⟨_, by rw [handleVarbinds, if_pos hvbs], rfl, rfl⟩
    · rw [handleVarbinds_eq hvbs, handled_error_beyond hstatus hbeyond, varbindLoop]
      refine ⟨_, rfl, rfl, ?_⟩
      -- a request with an empty varbind is refused
      rcases @afterLoop_cases env iswalk r.sendStatus (.fellThrough Vb.empty) (r.enterLoop a) with
        ⟨-, hafter⟩ | ⟨last, hempty, -, ⟨hsend, -⟩ | ⟨-, html, hafter⟩⟩
      · simp only [hafter]
      · cases hempty
        cases hsend
      · simp only [hafter]

/-! ## The callback of a SET -/

theorem asyncCallbackSet_error (hreason : r.reason ∈ responseReasons) (hindex : 1 ≤ r.pdu.errorIndex)
    (hvbs : r.pdu.vblist ≠ []) :
    (asyncCallbackSet env r a).1.displayed = a.buffered ++ (asyncCallbackSet env r a).2 ∧
    (asyncCallbackSet env r a).2 = (setLoop env (r.locals false) (r.handled false) ((r.locals false).pduIndex - 1)
      { a with objects := r.startObjects a }).2 := by
  rcases @asyncCallbackSet_cases env r a with ⟨hover, -⟩ | ⟨-, a', lines, hloop, hset⟩
  · rcases hover with hno | ⟨-, herror | hempty⟩
    · exact absurd hreason hno
    · exact absurd herror (not_nonpositive hindex)
    · exact absurd hempty hvbs
  · have hkept := @setLoop_buffered env (r.locals false) (r.handled false) ((r.locals false).pduIndex - 1)
      { a with objects := r.startObjects a }
    rw [hset, hloop]
    rw [hloop] at hkept
    refine ⟨?_, rfl⟩
    simp only [AgentState.buffered, AgentState.displayed, List.flatMap_append, List.flatMap_cons, List.flatMap_nil,
      linesOf_append, linesOf_text, List.append_nil] at hkept ⊢
    exact hkept

theorem setLoop_failed {ctx : Locals} {rest : List Vb} {z : ℕ} (hin : ctx.outOfScope a.theoid vb = false)
    (hfailed : ctx.failed z vb = true) (hleft : (nodeOf a.mib vb).isSome ∨ rest = []) :
    (setLoop env ctx (vb :: rest) z a).2 =
      [objectLine env ctx z vb (a.objects + 1) ⟨a.mib, [], nodeOf a.mib vb⟩] := by
  have hscope : vb.value.getSyntax ≠ .endOfMibView := by
    intro hview
    simp [Locals.outOfScope, hview] at hin
  rw [setLoop, if_neg hscope]
  simp only [hfailed, Bool.true_and]
  cases hnode : (nodeOf a.mib vb).isSome with
  | true => rfl
  | false =>
    obtain rfl : rest = [] := hleft.resolve_left (by simp [hnode])
    rfl

theorem asyncCallbackSet_ends {lines : List ObjectLine} (hreason : r.reason ∈ responseReasons)
    (hindex : 1 ≤ r.pdu.errorIndex) (hvbs : r.pdu.vblist ≠ [])
    (hloop : (setLoop env (r.locals false) (r.handled false) ((r.locals false).pduIndex - 1)
      { a with objects := r.startObjects a }).2 = lines) :
    ∃ ret, Session.callback env .set r a = some ret ∧ EndsWith lines a ret := by
  obtain ⟨hdisplayed, hlines⟩ := @asyncCallbackSet_error env r a hreason hindex hvbs
  rw [hlines, hloop] at hdisplayed
  exact ⟨_, rfl, hlines.trans hloop, hdisplayed, rfl⟩

theorem asyncCallbackSet_shows_error (hreason : r.reason ∈ responseReasons) (hstatus : r.pdu.errorStatus ≠ 0)
    (hindex : 1 ≤ r.pdu.errorIndex) (hvb : r.failing = some vb)
    (hin : (r.locals false).outOfScope a.theoid vb = false)
    (hlast : (nodeOf a.mib vb).isSome ∨ (r.pdu.vblist.length : ℤ) = r.pdu.errorIndex) :
    ∃ ret, Session.callback env .set r a = some ret ∧
      EndsWith [r.errorLine env vb ⟨a.mib, [], nodeOf a.mib vb⟩] a ret := by
  have hleft : (nodeOf a.mib vb).isSome ∨ r.pdu.vblist.drop (r.pdu.errorIndex.toNat - 1 + 1) = [] :=
    hlast.imp_right (drop_last hindex)
  obtain ⟨hline, hfailed⟩ := @objectLine_error env false r a hstatus hindex vb ⟨a.mib, [], nodeOf a.mib vb⟩
  apply asyncCallbackSet_ends hreason hindex (vblist_ne_nil hvb)
  have hloop := @setLoop_failed env { a with objects := r.startObjects a } vb _ _ _ hin hfailed hleft
  rw [handled_error hstatus hvb, hloop, ← hline]

theorem asyncCallbackSet_shows_nothing (hreason : r.reason ∈ responseReasons) (hstatus : r.pdu.errorStatus ≠ 0)
    (hindex : 1 ≤ r.pdu.errorIndex) (hvb : r.failing = some vb)
    (hout : (r.locals false).outOfScope a.theoid vb = true) :
    ∃ ret, Session.callback env .set r a = some ret ∧ EndsWith [] a ret := by
  have hview : vb.value.getSyntax = .endOfMibView := by
    simpa [Locals.outOfScope, locals_error hstatus] using hout
  apply asyncCallbackSet_ends hreason hindex (vblist_ne_nil hvb)
  rw [handled_error hstatus hvb, setLoop, if_pos hview]

theorem asyncCallbackSet_error_beyond (hstatus : r.pdu.errorStatus ≠ 0)
    (hbeyond : r.pdu.vblist.length < r.pdu.errorIndex) :
    ∃ ret, Session.callback env .set r a = some ret ∧ ret.formatted = [] ∧ ret.reissued = none := by
  refine ⟨_, rfl, ?_, rfl⟩
  rcases @asyncCallbackSet_cases env r a with ⟨-, objects, html, hset⟩ | ⟨-, a', lines, hloop, hset⟩
  · rw [hset]
  · rw [handled_error_beyond hstatus hbeyond, setLoop] at hloop
    cases hloop
    rw [hset]

/-! ## Every callback -/

theorem callback_shows_nothing {kind : CallbackKind} (hreason : r.reason ∈ responseReasons)
    (hstatus : r.pdu.errorStatus ≠ 0) (hindex : 1 ≤ r.pdu.errorIndex) (hvb : r.failing = some vb)
    (hnot : r.endsWalk kind.iswalk ∨ (r.locals kind.iswalk).outOfScope a.theoid vb = true) :
    ∃ ret, Session.callback env kind r a = some ret ∧ EndsWith [] a ret := by
  cases kind with
  | walk => exact asyncCallback_shows_nothing hreason hstatus hindex hvb hnot
  | query => exact asyncCallback_shows_nothing hreason hstatus hindex hvb hnot
  | set =>
    have hout := hnot.resolve_left fun hend => nomatch hend.1
    exact asyncCallbackSet_shows_nothing hreason hstatus hindex hvb hout

theorem callback_error_beyond (kind : CallbackKind) (hreason : r.reason ∈ responseReasons)
    (hstatus : r.pdu.errorStatus ≠ 0) (hbeyond : r.pdu.vblist.length < r.pdu.errorIndex) :
    ∃ ret, Session.callback env kind r a = some ret ∧ ret.formatted = [] ∧ ret.reissued = none := by
  cases kind with
  | walk => exact asyncCallback_error_beyond hreason hstatus hbeyond
  | query => exact asyncCallback_error_beyond hreason hstatus hbeyond
  | set => exact asyncCallbackSet_error_beyond hstatus hbeyond

theorem callback_shows_error {kind : CallbackKind} {res : Resolved} (hreason : r.reason ∈ responseReasons)
    (hstatus : r.pdu.errorStatus ≠ 0) (hindex : 1 ≤ r.pdu.errorIndex) (hend : ¬ r.endsWalk kind.iswalk)
    (hvb : r.failing = some vb) (hin : (r.locals kind.iswalk).outOfScope a.theoid vb = false)
    (hres : kind.Resolves a.mib vb res)
    (hlast : res.node.isSome ∨ ((r.pdu.vblist.length : ℤ) = r.pdu.errorIndex ∧ kind.iswalk = false)) :
    ∃ least, ∀ fuel ≥ least, ∃ ret, Session.callback env kind { r with fuel } a = some ret ∧
      EndsWith [r.errorLine env vb res] a ret := by
  have hloads : ∀ {iswalk : Bool}, ¬ r.endsWalk iswalk → (r.locals iswalk).outOfScope a.theoid vb = false →
      (∃ fuel, Loop.run (nodeRestart vb) fuel ⟨a.mib, []⟩ = some res) →
      (res.node.isSome ∨ ((r.pdu.vblist.length : ℤ) = r.pdu.errorIndex ∧ iswalk = false)) →
      ∃ least, ∀ fuel ≥ least, ∃ ret, asyncCallback env iswalk { r with fuel } a = some ret ∧
        EndsWith [r.errorLine env vb res] a ret := by
    rintro iswalk hend hin ⟨least, hrun⟩ hlast
    refine ⟨least, fun fuel hfuel => ?_⟩
    exact @asyncCallback_shows_error env iswalk { r with fuel } a vb res hreason hstatus hindex hend hvb hin
      (Loop.run_mono hrun (Nat.le_succ_of_le hfuel)) hlast
  cases kind with
  | walk => exact hloads hend hin hres hlast
  | query => exact hloads hend hin hres hlast
  | set =>
    obtain rfl : res = ⟨a.mib, [], nodeOf a.mib vb⟩ := hres
    refine ⟨0, fun fuel _ => ?_⟩
    exact @asyncCallbackSet_shows_error env { r with fuel } a vb hreason hstatus hindex hvb hin
      (hlast.imp_right And.left)

/-- Main result: exactly the varbind at the error index is shown, as the error, and nothing else is asked
for. The end of a v1 walk and a varbind out of scope show nothing; without a known node the loop goes on,
so that it has to be the last varbind. With an index behind the last one nothing is asked for. -/
theorem error_response_ends (kind : CallbackKind) (hreason : r.reason ∈ responseReasons)
    (hstatus : r.pdu.errorStatus ≠ 0) (hindex : 1 ≤ r.pdu.errorIndex) :
    (∀ vb, r.failing = some vb →
      if r.endsWalk kind.iswalk ∨ (r.locals kind.iswalk).outOfScope a.theoid vb = true then
        ∃ ret, Session.callback env kind r a = some ret ∧ EndsWith [] a ret
      else
        ∀ res, kind.Resolves a.mib vb res →
          (res.node.isSome ∨ ((r.pdu.vblist.length : ℤ) = r.pdu.errorIndex ∧ kind.iswalk = false)) →
          ∃ least, ∀ fuel ≥ least, ∃ ret, Session.callback env kind { r with fuel } a = some ret ∧
            EndsWith [r.errorLine env vb res] a ret) ∧
    (r.pdu.vblist.length < r.pdu.errorIndex →
      ∃ ret, Session.callback env kind r a = some ret ∧ ret.formatted = [] ∧ ret.reissued = none) := by
  refine ⟨?_, callback_error_beyond kind hreason hstatus⟩
  intro vb hvb
  split
  · rename_i hnot
    exact callback_shows_nothing hreason hstatus hindex hvb hnot
  · rename_i hin
    obtain ⟨hend, hscope⟩ := not_or.mp hin
    intro res hres hlast
    exact callback_shows_error hreason hstatus hindex hend hvb (Bool.eq_false_iff.mpr hscope) hres hlast

def refused (errorStatus : ℕ) (errorIndex : ℤ) (vblist : List Vb) : Response :=
  ⟨-6, ⟨vblist, errorStatus, errorIndex⟩, 0, 0⟩

/-- `genErr` on the second of three varbinds. -/
def refusedSecond : Response :=
  refused 5 2 [⟨[1, 3, 6, 1], .int32 0⟩, ⟨[1, 3, 6, 2], .int32 0⟩, ⟨[1, 3, 6, 3], .int32 0⟩]

theorem error_response_ends_second :
    refusedSecond.reason ∈ responseReasons ∧ refusedSecond.pdu.errorStatus ≠ 0 ∧ 1 ≤ refusedSecond.pdu.errorIndex ∧
      refusedSecond.failing = some ⟨[1, 3, 6, 2], .int32 0⟩ ∧
      ∃ least, ∀ fuel ≥ least, ∃ ret, Session.callback blank .walk { refusedSecond with fuel } walking = some ret ∧
        EndsWith [⟨2, "iso.3.6.2", .error ""⟩] walking ret := by
  refine ⟨by decide, by decide, by decide, rfl, ?_⟩
  have hshown := (@error_response_ends blank refusedSecond walking .walk (by decide) (by decide) (by decide)).1 _ rfl
  rw [if_neg (by decide)] at hshown
  have hline : refusedSecond.errorLine blank ⟨[1, 3, 6, 2], .int32 0⟩
      ⟨walking.mib, [], nodeOf walking.mib ⟨[1, 3, 6, 2], .int32 0⟩⟩ = ⟨2, "iso.3.6.2", .error ""⟩ := by decide
  rw [← hline]
  exact hshown _ ⟨1, rfl⟩ (Or.inl (by decide))

/-- The varbind at the error index is the only one shown, and nothing else is asked for. -/
def ShowsError (env : Printing) (r : Response) (ret : Returned) : Prop :=
  ∃ name, ret.formatted = [⟨r.pdu.errorIndex.toNat, name, .error (env.errorMsg r.pdu.errorStatus)⟩] ∧
    ret.reissued = none

def named : Printing := ⟨fun _ _ _ => "", fun _ => "", fun _ => "genErr"⟩

/-- No node is known for the first of two varbinds. -/
def refusedUnknown : Response := refused 5 1 [⟨besideProduct, .int32 0⟩, ⟨[1, 3, 6, 2], .int32 0⟩]

def refusedBeyond : Response := refused 5 2 [⟨[1, 3, 6, 2], .int32 0⟩]

theorem refusedUnknown_shows_both : ∃ ret, Session.callback blank .query refusedUnknown walking.withProduct = some ret ∧
    ret.formatted.length = 2 := by
  have hsome : (Session.callback blank .query refusedUnknown walking.withProduct).isSome := by decide
  refine ⟨_, (Option.some_get hsome).symm, ?_⟩
  decide +revert

theorem refusedBeyond_shows_no_error : ∃ ret, Session.callback named .query refusedBeyond walking = some ret ∧
    ∀ chunk ∈ ret.agent.query.flatten, ¬ "genErr".toList <:+: chunk.html.toList := by
  have hsome : (Session.callback named .query refusedBeyond walking).isSome := by decide
  refine ⟨_, (Option.some_get hsome).symm, ?_⟩
  decide +kernel +revert

/-- Not every varbind at an error index is shown: the end of a v1 walk, a varbind out of scope, one
without a node, and an index behind the last one. -/
theorem error_response_not_always :
    (¬ ∀ env kind r a, r.reason ∈ responseReasons → r.pdu.errorStatus ≠ 0 → 1 ≤ r.pdu.errorIndex →
      ∀ vb, r.failing = some vb → ∀ ret, Session.callback env kind r a = some ret → ShowsError env r ret) ∧
    (¬ ∀ env kind r a, r.reason ∈ responseReasons → r.pdu.errorStatus ≠ 0 → 1 ≤ r.pdu.errorIndex →
      ¬ r.endsWalk kind.iswalk →
      ∀ vb, r.failing = some vb → ∀ ret, Session.callback env kind r a = some ret → ShowsError env r ret) ∧
    (¬ ∀ env kind r a, r.reason ∈ responseReasons → r.pdu.errorStatus ≠ 0 → 1 ≤ r.pdu.errorIndex →
      ¬ r.endsWalk kind.iswalk → ∀ vb, r.failing = some vb → (r.locals kind.iswalk).outOfScope a.theoid vb = false →
      ∀ ret, Session.callback env kind r a = some ret → ShowsError env r ret) ∧
    ¬ ∀ env kind r a, r.reason ∈ responseReasons → r.pdu.errorStatus ≠ 0 →
      (r.pdu.vblist.length : ℤ) < r.pdu.errorIndex → ∀ ret, Session.callback env kind r a = some ret →
      ∃ chunk ∈ ret.agent.query.flatten, (env.errorMsg r.pdu.errorStatus).toList <:+: chunk.html.toList := by
  refine ⟨?_, ?_, ?_, ?_⟩
  · intro h
    obtain ⟨name, hshown, -⟩ := h blank .walk (refused noSuchName 1 [⟨[1, 3, 6, 2], .null⟩]) walking (by decide)
      (by decide) (by decide) _ rfl _ rfl
    cases hshown
  · intro h
    obtain ⟨name, hshown, -⟩ := h blank .query (refused 5 1 [⟨[1, 3, 6, 2], .endOfMibView⟩]) walking (by decide)
      (by decide) (by decide) (by decide) _ rfl _ rfl
    cases hshown
  · intro h
    obtain ⟨ret, hret, hboth⟩ := refusedUnknown_shows_both
    obtain ⟨name, hshown, -⟩ := h blank .query refusedUnknown walking.withProduct (by decide) (by decide) (by decide) (by decide)
      _ rfl (by decide) ret hret
    rw [hshown] at hboth
    cases hboth
  · intro h
    obtain ⟨ret, hret, hnone⟩ := refusedBeyond_shows_no_error
    obtain ⟨chunk, hchunk, hshown⟩ := h named .query refusedBeyond walking (by decide) (by decide) (by decide) ret hret
    exact hnone chunk hchunk hshown

end SnmpB.Agent
