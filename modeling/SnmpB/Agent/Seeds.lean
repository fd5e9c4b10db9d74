import SnmpB.Agent.Table
import SnmpB.Agent.Walk

/-! # The OIDs requests are seeded with

A walk, a table view and an instance selection go on from the answer they got.
None of them compares the OID of an answer with the one requested, so the agent
decides about the order of the seeds.
-/
namespace SnmpB.Agent
open Mib

variable (env : Printing)

def Query.follow (q : Query) (r : Response) : Option Query :=
  (q.step env true r).filter fun q => q.outstanding.isSome

def Query.seed (q : Query) : Oid := (q.outstanding.map Request.seed).getD []

/-- The varbind a walk goes on from. -/
def Query.answer (_ : Query) (r : Response) : Oid := (lastVb (r.handled true) Vb.empty).oid

def TableView.follow (t : TableView) (replies : Reply × (ℕ → Reply)) : Option TableView :=
  (t.pass env replies.1 replies.2).state?

def TableView.seed (t : TableView) : Oid := t.tvb.oid

def TableView.answer (t : TableView) (replies : Reply × (ℕ → Reply)) : Oid :=
  (replies.1.getVb t.tvb).oid

def Selecting.follow (s : Selecting) (reply : Reply) : Option Selecting := (s.pass reply).state?

def Selecting.seed (s : Selecting) : Oid := s.tvb.oid

def Selecting.answer (s : Selecting) (reply : Reply) : Oid := (reply.getVb s.tvb).oid

/-- The requests of a loop over a subtree are seeded with its root and then with the OIDs of the
answers, all in the subtree; their order is the order of the answers. -/
structure SeedsFollowAnswers {σ ε : Type} (step : σ → ε → Option σ) (seed : σ → Oid)
    (answer : σ → ε → Oid) (root : Oid) (s : σ) : Prop where
  starts : seed s = root
  follows : ∀ es s₁ e s₂, Runs.exec step s es = some s₁ → step s₁ e = some s₂ → seed s₂ = answer s₁ e
  inScope : ∀ es s', Runs.exec step s es = some s' → ∀ x ∈ (Runs.trace step seed s es).tail, root <+: x
  increasing_iff : ∀ es s', Runs.exec step s es = some s' →
    ((Runs.trace step seed s es).Pairwise (· < ·) ↔
      Runs.Each step (fun s e => seed s < answer s e) s es)

theorem seedsFollowAnswers_of {σ ε : Type} {step : σ → ε → Option σ} {seed : σ → Oid}
    {answer : σ → ε → Oid} {root : Oid} {s : σ} {I : σ → Prop} (hs : I s) (hstart : seed s = root)
    (hanswer : ∀ s e s', step s e = some s' → seed s' = answer s e)
    (hstep : ∀ s e s', I s → step s e = some s' → I s' ∧ root <+: seed s') :
    SeedsFollowAnswers step seed answer root s where
  starts := hstart
  follows := by
    intro es s₁ e s₂ _ h
    exact hanswer s₁ e s₂ h
  inScope := by
    intro es s' _
    exact Runs.trace_tail hstep hs es
  increasing_iff := by
    intro es s' h
    rw [← List.isChain_iff_pairwise]
    exact Runs.trace_isChain_iff hanswer h

variable {env}

theorem walksThrough_inScope {fuel : ℕ} {ctx : Locals} {theoid : Oid} {vbs : List Vb} {z : ℕ}
    {mib : MibState} (h : walksThrough fuel ctx theoid vbs z mib = true) :
    ∀ vb ∈ vbs, ctx.outOfScope theoid vb = false := by
  induction vbs generalizing z mib with
  | nil =>
    intro vb hvb
    cases hvb
  | cons vb rest ih =>
    rw [walksThrough, Bool.and_eq_true] at h
    obtain ⟨hin, hrest⟩ := h
    split at hrest
    · cases hrest
    · rw [Bool.and_eq_true] at hrest
      intro vb' hvb'
      rcases List.mem_cons.mp hvb' with rfl | hvb'
      · simpa using hin
      · exact ih hrest.2 vb' hvb'

theorem lastVb_mem {vbs : List Vb} (h : (lastVb vbs Vb.empty).oid ≠ []) : lastVb vbs Vb.empty ∈ vbs := by
  cases hlast : vbs.getLast? with
  | none =>
    rw [lastVb, hlast] at h
    exact absurd rfl h
  | some last =>
    rw [lastVb, hlast]
    exact List.mem_of_getLast? hlast

theorem Query.follow_some {q q' : Query} {r : Response} (h : q.follow env r = some q') :
    q'.seed = q.answer r ∧ q'.agent.theoid = q.agent.theoid ∧ q.agent.theoid <+: q'.seed := by
  obtain ⟨hstep, hout⟩ := Option.filter_eq_some_iff.mp h
  obtain ⟨-, ret, hret, rfl⟩ := Query.step_some hstep
  rcases asyncCallback_cases env hret with ⟨-, objects, html, rfl⟩ | ⟨-, -, rfl⟩ |
    ⟨-, -, a', lines, exit, hloop, rfl⟩
  · cases hout
  · cases hout
  · obtain ⟨mib, objects, msg, query, hframe⟩ := varbindLoop_frame hloop
    have htheoid : a'.theoid = q.agent.theoid := by rw [hframe]; rfl
    rcases afterLoop_cases true r.sendStatus exit a' with ⟨-, hafter⟩ |
      ⟨last, rfl, -, ⟨hsend, hafter⟩ | ⟨-, html, hafter⟩⟩
    · rw [hafter] at hout
      cases hout
    · obtain ⟨hthrough, rfl⟩ := varbindLoop_fellThrough hloop
      have hseed : (lastVb (r.handled true) Vb.empty).oid ≠ [] := by
        intro hempty
        simp [pduStatus, hempty, classInvalidPdu] at hsend
      have hscope := walksThrough_inScope hthrough _ (lastVb_mem hseed)
      simp only [Locals.outOfScope, Bool.or_eq_false_iff, Response.locals, Bool.true_and,
        bne_eq_false_iff_eq] at hscope
      rw [hafter]
      exact ⟨rfl, htheoid, (Oid.nCompare_root _ _).mp hscope.2⟩
    · rw [hafter] at hout
      cases hout

theorem TableView.follow_some {t t' : TableView} {replies : Reply × (ℕ → Reply)}
    (h : t.follow env replies = some t') :
    t'.seed = t.answer replies ∧ t'.poid = t.poid ∧ t'.first = false ∧
    (t.poid <+: t.roid → t.poid <+: t'.roid ∧ t.poid <+: t'.seed) := by
  obtain ⟨htvb, hpoid, hfirst, hcolumn, hscope⟩ := TableView.pass_next h
  refine ⟨congrArg Vb.oid htvb, hpoid, hfirst, ?_⟩
  intro hroot
  have hroid : t.poid <+: t'.roid := by
    unfold TableView.columnOid at hcolumn
    split at hcolumn
    · obtain ⟨subid, -, hroid⟩ := Option.map_eq_some_iff.mp hcolumn
      rw [← hroid]
      exact hroot.trans (List.prefix_append _ _)
    · rw [← Option.some.inj hcolumn]
      exact hroot
  exact ⟨hroid, hroid.trans hscope⟩

theorem Selecting.follow_some {s s' : Selecting} {reply : Reply} (h : s.follow reply = some s') :
    s'.seed = s.answer reply ∧ s'.roid = s.roid ∧ s.roid <+: s'.seed := by
  obtain ⟨htvb, hroid, hscope⟩ := Selecting.pass_next h
  exact ⟨congrArg Vb.oid htvb, hroid, hscope⟩

theorem tableViewFrom_some {oid : String} {a : AgentState} {t : TableView}
    (h : tableViewFrom oid a = some (.inr t)) : t.roid = t.poid ∧ t.tvb = ⟨t.poid, .null⟩ ∧ t.first = true := by
  unfold tableViewFrom at h
  split at h
  · cases h
  · simp only at h
    split at h
    · cases h
    · split at h
      · cases h
      · obtain ⟨entry, -, hentry⟩ := Option.map_eq_some_iff.mp h
        obtain rfl := Sum.inr.inj hentry
        exact ⟨rfl, rfl, rfl⟩

theorem selectTableInstance_some {oid : String} {a : AgentState} {s : Selecting}
    (h : selectTableInstance oid a = some (.inr s)) :
    s.roid = Oid.ofText oid ∧ s.tvb = ⟨Oid.ofText oid, .null⟩ := by
  unfold selectTableInstance at h
  split at h
  · cases h
  · obtain ⟨pnode, -, hpnode⟩ := Option.map_eq_some_iff.mp h
    split at hpnode
    · cases hpnode
    · obtain rfl := Sum.inr.inj hpnode
      exact ⟨rfl, rfl⟩

/-- Main result: against any agent, all three loops seed their requests with the OIDs of the
answers, and these are increasing exactly when the agent's answers are. -/
theorem seeds_follow_answers (env : Printing) (oid : String) (a : AgentState) :
    (∀ status a' request, walkFrom env oid status a = (a', some request) →
      SeedsFollowAnswers (Query.follow env) Query.seed Query.answer (Oid.ofText oid)
        (Query.start a' request)) ∧
    (∀ t, tableViewFrom oid a = some (.inr t) →
      SeedsFollowAnswers (TableView.follow env) TableView.seed TableView.answer t.poid t) ∧
    (∀ s, selectTableInstance oid a = some (.inr s) →
      SeedsFollowAnswers Selecting.follow Selecting.seed Selecting.answer (Oid.ofText oid) s) := by
  refine ⟨?_, ?_, ?_⟩
  · intro status a' request hstart
    obtain ⟨-, htheoid, -, -, hrequest⟩ := walkFrom_some env hstart
    apply seedsFollowAnswers_of (I := fun q => q.agent.theoid = Oid.ofText oid) htheoid
    · change request.seed = Oid.ofText oid
      rw [hrequest]
      by_cases hoid : Oid.ofText oid = []
      · rw [if_pos hoid, hoid]
        rfl
      · rw [if_neg hoid]
        rfl
    · intro q r q' h
      exact (Query.follow_some h).1
    · intro q r q' hroot h
      obtain ⟨-, hkept, hbelow⟩ := Query.follow_some h
      rw [hroot] at hkept hbelow
      exact ⟨hkept, hbelow⟩
  · intro t ht
    obtain ⟨hroid, htvb, -⟩ := tableViewFrom_some ht
    apply seedsFollowAnswers_of
      (I := fun t' : TableView => t'.poid = t.poid ∧ t'.poid <+: t'.roid) ⟨rfl, hroid ▸ List.prefix_rfl⟩
    · rw [TableView.seed, htvb]
    · intro t₁ replies t₂ h
      exact (TableView.follow_some h).1
    · rintro t₁ replies t₂ ⟨hpoid, hbegins⟩ h
      obtain ⟨-, hpoid', -, hbelow⟩ := TableView.follow_some h
      obtain ⟨hroid₂, hseed⟩ := hbelow hbegins
      exact ⟨⟨hpoid'.trans hpoid, hpoid' ▸ hroid₂⟩, hpoid ▸ hseed⟩
  · intro s hs
    obtain ⟨hroid, htvb⟩ := selectTableInstance_some hs
    apply seedsFollowAnswers_of (I := fun s' : Selecting => s'.roid = Oid.ofText oid) hroid
    · rw [Selecting.seed, htvb]
    · intro s₁ reply s₂ h
      exact (Selecting.follow_some h).1
    · intro s₁ reply s₂ hroot h
      obtain ⟨-, hkept, hbelow⟩ := Selecting.follow_some h
      exact ⟨hkept.trans hroot, hroot ▸ hbelow⟩

def tableModule : SmiModule :=
  { name := "TABLE-MIB", path := "TABLE-MIB", language := 0
    nodes := [⟨"aTable", [1, 3, 6], .table, none, "TABLE-MIB"⟩,
      ⟨"anEntry", [1, 3, 6, 1], .row, none, "TABLE-MIB"⟩,
      ⟨"aColumn", [1, 3, 6, 1, 1], .column, none, "TABLE-MIB"⟩] }

def tableSession : AgentState :=
  { idle with mib := { idle.mib with handle := ⟨[wellKnown, tableModule], ["", "TABLE-MIB"]⟩ } }

def viewing : TableView :=
  let a := { tableSession with
    theoid := [1, 3, 6, 1], query := [[.text startedText], [.text collectingText]] }
  let pnode : SmiNode := ⟨"anEntry", [1, 3, 6, 1], .row, none, "TABLE-MIB"⟩
  { agent := { a with msg := tableHeader (a.mib.handle.childNodes pnode) }, pnode, poid := [1, 3, 6, 1]
    roid := [1, 3, 6, 1], first := true, tvb := ⟨[1, 3, 6, 1], .null⟩, rows := 0 }

def selecting : Selecting :=
  ⟨{ tableSession with theoid := [1, 3, 6, 1, 1] }, [1, 3, 6, 1, 1], ⟨[1, 3, 6, 1, 1], .null⟩, []⟩

theorem tableSession_view : tableViewFrom "1.3.6.1" tableSession = some (.inr viewing) := rfl

theorem tableSession_select : selectTableInstance "1.3.6.1.1" tableSession = some (.inr selecting) := rfl

theorem seeds_follow_answers_session :
    SeedsFollowAnswers (Query.follow blank) Query.seed Query.answer (Oid.ofText "1.3.6")
      (Query.start walking walkRequest) ∧
    SeedsFollowAnswers (TableView.follow blank) TableView.seed TableView.answer viewing.poid viewing ∧
    SeedsFollowAnswers Selecting.follow Selecting.seed Selecting.answer (Oid.ofText "1.3.6.1.1")
      selecting :=
  ⟨(seeds_follow_answers blank "1.3.6" idle).1 0 walking walkRequest idle_walkFrom,
    (seeds_follow_answers blank "1.3.6.1" tableSession).2.1 viewing tableSession_view,
    (seeds_follow_answers blank "1.3.6.1.1" tableSession).2.2 selecting tableSession_select⟩

/-- An agent that answers every request with the same instance. -/
def stuckVb : Vb := ⟨[1, 3, 6, 1, 1, 5], .int32 0⟩

def stuckReply : Reply := ⟨0, ⟨[stuckVb], 0, 0⟩⟩

/-- All three loops go on from an answer that does not increase. -/
theorem stuck_agent_followed :
    (¬ ∀ env oid status a a' request rs q, walkFrom env oid status a = (a', some request) →
      Runs.exec (Query.follow env) (Query.start a' request) rs = some q →
      (Runs.trace (Query.follow env) Query.seed (Query.start a' request) rs).Pairwise (· < ·)) ∧
    (¬ ∀ env oid a t replies t', tableViewFrom oid a = some (.inr t) →
      Runs.exec (TableView.follow env) t replies = some t' →
      (Runs.trace (TableView.follow env) TableView.seed t replies).Pairwise (· < ·)) ∧
    (¬ ∀ oid a s replies s', selectTableInstance oid a = some (.inr s) →
      Runs.exec Selecting.follow s replies = some s' →
      (Runs.trace Selecting.follow Selecting.seed s replies).Pairwise (· < ·)) := by
  refine ⟨?_, ?_, ?_⟩
  · intro h
    have hincreasing := h blank "1.3.6" 0 idle walking walkRequest
      [answered [stuckVb], answered [stuckVb]] _ idle_walkFrom rfl
    revert hincreasing
    decide
  · intro h
    have hincreasing := h blank "1.3.6.1" tableSession viewing
      [(stuckReply, fun _ => stuckReply), (stuckReply, fun _ => stuckReply)] _ tableSession_view rfl
    revert hincreasing
    decide
  · intro h
    have hincreasing := h "1.3.6.1.1" tableSession selecting [stuckReply, stuckReply] _
      tableSession_select rfl
    revert hincreasing
    decide

end SnmpB.Agent
