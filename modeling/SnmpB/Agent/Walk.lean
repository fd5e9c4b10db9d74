import SnmpB.Library.PrefixInterval
import SnmpB.Agent.Buffer

/-! # A walk of a well-behaved agent

The agent is a map sorted by OID. It answers with a block of successors of the
seed, cut anywhere behind the first one, and says so when there are none left. A
walk then shows the instances below its root, in order, and stops.
-/
namespace SnmpB.Agent
open Mib PrefixInterval

structure Database where
  instances : List Vb
  sorted : instances.Pairwise fun a b => a.oid < b.oid
  named : ∀ vb ∈ instances, vb.oid ≠ []
  plain : ∀ vb ∈ instances,
    vb.value.getSyntax ∉ [SnmpSyntax.noSuchObject, .noSuchInstance, .endOfMibView]

namespace Database

def after (db : Database) (seed : Oid) : List Vb := db.instances.filter fun vb => decide (seed < vb.oid)

def below (db : Database) (root : Oid) : List Vb :=
  db.instances.filter fun vb => root.isPrefixOf vb.oid && vb.oid != root

/-- A block of successors, followed by `endOfMibView` only when none is left. -/
def AnswersBlock (db : Database) (seed : Oid) (pdu : Pdu) : Prop :=
  pdu.errorStatus = 0 ∧ pdu.vblist ≠ [] ∧
  ∃ taken rest ends, db.after seed = taken ++ rest ∧ pdu.vblist = taken ++ ends ∧
    (∀ e ∈ ends, e.value = .endOfMibView) ∧ (ends = [] ∨ rest = [])

/-- The answers to a GETBULK seeded with an OID. To a v1 agent it is sent as GETNEXT, which
has one successor or `noSuchName` for an answer. -/
def Answers (db : Database) (v1 : Bool) (seed : Oid) (pdu : Pdu) : Prop :=
  if v1 then (db.after seed = [] ∧ pdu.errorStatus = noSuchName) ∨
    ∃ vb rest, db.after seed = vb :: rest ∧ pdu.errorStatus = 0 ∧ pdu.vblist = [vb]
  else db.AnswersBlock seed pdu

end Database

def Request.seed (request : Request) : Oid := (request.vblist.headD Vb.empty).oid

/-- The node printed for a varbind while nothing is loaded automatically. -/
def nodeOf (mib : MibState) (vb : Vb) : Option (SmiNode × List Char) :=
  (getNodeFromOid mib.handle vb.oid).map fun node =>
    (node, Oid.restOf (Oid.dotted node.oid) (Oid.dotted vb.oid))

def walkLine (env : Printing) (mib : MibState) (n : ℕ) (vb : Vb) : ObjectLine :=
  { number := n + 1, name := printedName (nodeOf mib vb) vb
    outcome := .value (printedValue env mib (nodeOf mib vb) vb) }

theorem nodeRestart_off {mib : MibState} (hoff : mib.automaticLoading = 3) (vb : Vb)
    (loading : List String) :
    nodeRestart vb ⟨mib, loading⟩ = .inr ⟨mib, loading, nodeOf mib vb⟩ := by
  have hnone : ∀ text, mib.loadBestModule text = ("", mib) := by
    intro text
    rw [MibState.loadBestModule, if_pos (Or.inl hoff)]
  have hload : ∀ text next, loadOr text ⟨mib, loading⟩ next = next ⟨mib, loading⟩ := by
    intro text next
    rw [loadOr, hnone text]
    rfl
  unfold nodeRestart nodeOf
  simp only [hload]
  cases getNodeFromOid mib.handle vb.oid with
  | none => rfl
  | some node => simp only [ite_self, Option.map_some]

variable {env : Printing}

def walkLocals : Locals := ⟨true, 0, 0⟩

def inScope (root : Oid) (vb : Vb) : Bool := !walkLocals.outOfScope root vb

theorem inScope_iff {root : Oid} {vb : Vb} :
    inScope root vb = true ↔ vb.value.getSyntax ≠ .endOfMibView ∧ root <+: vb.oid := by
  rw [← Oid.nCompare_root vb.oid root]
  simp [inScope, walkLocals, Locals.outOfScope]

theorem Database.plain_value {db : Database} {vb : Vb} (h : vb ∈ db.instances) :
    isException vb = false ∧ vb.value.getSyntax ≠ .endOfMibView := by
  have hplain := db.plain vb h
  simp only [List.mem_cons, List.not_mem_nil, or_false, not_or] at hplain
  simp [isException, hplain]

theorem inScope_of_plain {db : Database} {vb : Vb} (hvb : vb ∈ db.instances) (root : Oid) :
    inScope root vb = root.isPrefixOf vb.oid := by
  rw [Bool.eq_iff_iff, inScope_iff, List.isPrefixOf_iff_prefix]
  exact and_iff_right (Database.plain_value hvb).2

theorem formatVarbind_off {fuel z : ℕ} {vb : Vb} {a : AgentState}
    (hoff : a.mib.automaticLoading = 3) (hvb : isException vb = false) :
    formatVarbind env fuel walkLocals z vb a =
      some ({ a with objects := a.objects + 1
                     msg := a.msg ++ [.line (walkLine env a.mib a.objects vb)] },
        walkLine env a.mib a.objects vb, false) := by
  have hfailed : walkLocals.failed z vb = false := by simp [Locals.failed, walkLocals, hvb]
  have hrun : Loop.run (nodeRestart vb) (fuel + 1) ⟨a.mib, []⟩ =
      some ⟨a.mib, [], nodeOf a.mib vb⟩ := by
    rw [Loop.run, nodeRestart_off hoff]
  rw [formatVarbind, hrun]
  simp [objectLine, hfailed, walkLine]

/-- The loop over varbinds without exceptions prints those in scope, up to the first one that
is not. -/
theorem varbindLoop_walk {fuel z : ℕ} {vbs : List Vb} {last : Vb} {a : AgentState}
    (hoff : a.mib.automaticLoading = 3)
    (hvbs : ∀ vb ∈ vbs, inScope a.theoid vb = true → isException vb = false) :
    ∃ a', varbindLoop env fuel walkLocals vbs z last a =
        some (a', (vbs.takeWhile (inScope a.theoid)).mapIdx
          fun i => walkLine env a.mib (a.objects + i),
          if vbs.all (inScope a.theoid) then .fellThrough (lastVb vbs last) else .gotoEnd) ∧
      a'.mib = a.mib ∧ a'.objects = a.objects + (vbs.takeWhile (inScope a.theoid)).length := by
  induction vbs generalizing z last a with
  | nil => exact ⟨a, rfl, rfl, rfl⟩
  | cons vb rest ih =>
    cases hin : inScope a.theoid vb with
    | false =>
      have hout : walkLocals.outOfScope a.theoid vb = true := by simpa [inScope] using hin
      refine ⟨a, ?_, rfl, ?_⟩
      · rw [varbindLoop, if_pos hout]
        simp [hin]
      · simp [hin]
    | true =>
      have hout : ¬ walkLocals.outOfScope a.theoid vb = true := by simpa [inScope] using hin
      have hformat : formatVarbind env fuel walkLocals z vb a = _ :=
        formatVarbind_off hoff (hvbs vb List.mem_cons_self hin)
      let counted : AgentState :=
        { a with objects := a.objects + 1
                 msg := a.msg ++ [.line (walkLine env a.mib a.objects vb)] }
      have hmib : counted.flush.mib = a.mib := counted.flush_mib
      have htheoid : counted.flush.theoid = a.theoid := counted.flush_theoid
      have hobjects : counted.flush.objects = a.objects + 1 := counted.flush_objects
      obtain ⟨a', hloop, hmib', hobjects'⟩ := @ih (z + 1) vb counted.flush (hmib ▸ hoff) (by
        intro vb' hvb' hin'
        rw [htheoid] at hin'
        exact hvbs vb' (List.mem_cons_of_mem vb hvb') hin')
      rw [htheoid] at hloop hobjects'
      rw [hmib, hobjects] at hloop
      rw [hobjects] at hobjects'
      refine ⟨a', ?_, hmib'.trans hmib, ?_⟩
      · rw [varbindLoop, if_neg hout, hformat]
        have hshift : (fun i => walkLine env a.mib (a.objects + 1 + i)) =
            fun i => walkLine env a.mib (a.objects + (i + 1)) := by
          funext i
          rw [Nat.add_assoc, Nat.add_comm 1]
        simp only [counted] at hloop
        simp only [hloop, hshift]
        simp [hin, lastVb_cons]
      · rw [hobjects', List.takeWhile_cons_of_pos hin, List.length_cons]
        omega

theorem asyncCallback_block {r : Response} {a a' : AgentState} {lines : List ObjectLine} {exit : Exit}
    (hreason : r.reason ∈ responseReasons) (herror : r.pdu.errorStatus = 0)
    (hvbs : r.pdu.vblist ≠ [])
    (hloop : varbindLoop env r.fuel walkLocals r.pdu.vblist 0 Vb.empty
      { a with requests := a.requests + 1 } = some (a', lines, exit)) :
    asyncCallback env true r a =
      some ⟨(afterLoop env true r.sendStatus exit a').1, lines,
        (afterLoop env true r.sendStatus exit a').2⟩ := by
  have hlocals : r.locals true = walkLocals := by simp [Response.locals, walkLocals, herror]
  have hhandled : r.handled true = r.pdu.vblist := by
    rw [Response.handled, hlocals]
    rfl
  have hobjects : r.startObjects a = a.objects := by rw [Response.startObjects, if_pos herror]
  rw [asyncCallback, if_neg (not_timeout hreason), if_neg (not_not.mpr hreason),
    if_neg (by simp [herror, noSuchName]), if_neg (by simp [herror]), handleVarbinds]
  simp only [hvbs, hlocals, hhandled, hobjects, ↓reduceIte]
  simp only [show walkLocals.pduIndex - 1 = 0 from rfl, hloop]

theorem asyncCallback_noSuchName {r : Response} {a : AgentState} (hreason : r.reason ∈ responseReasons)
    (hend : r.pdu.errorStatus = noSuchName) : asyncCallback env true r a = some ⟨a.endQuery, [], none⟩ := by
  rw [asyncCallback, if_neg (not_timeout hreason), if_neg (not_not.mpr hreason), if_pos ⟨rfl, hend⟩]

namespace Database

variable {db : Database}

theorem after_sorted (db : Database) (seed : Oid) :
    (db.after seed).Pairwise fun a b => a.oid < b.oid :=
  db.sorted.filter _

theorem mem_after {seed : Oid} {vb : Vb} : vb ∈ db.after seed ↔ vb ∈ db.instances ∧ seed < vb.oid := by
  rw [after, List.mem_filter, decide_eq_true_iff]

theorem taken_after {seed : Oid} {taken rest : List Vb} (h : db.after seed = taken ++ rest) :
    ∀ vb ∈ taken, vb ∈ db.instances ∧ seed < vb.oid := by
  intro vb hvb
  apply mem_after.mp
  rw [h]
  exact List.mem_append_left rest hvb

theorem after_of_after {seed : Oid} {before rest : List Vb} {last : Vb}
    (h : db.after seed = before ++ [last] ++ rest) : db.after last.oid = rest := by
  have hsorted := db.after_sorted seed
  have hlast : seed < last.oid := (taken_after h last (by simp)).2
  have hnested : db.after last.oid = (db.after seed).filter fun vb => decide (last.oid < vb.oid) := by
    rw [after, after, List.filter_filter]
    apply List.filter_congr
    intro vb _
    rw [Bool.eq_iff_iff, Bool.and_eq_true, decide_eq_true_iff, decide_eq_true_iff, iff_self_and]
    exact hlast.trans
  rw [List.append_assoc, List.singleton_append] at h
  rw [hnested]
  rw [h] at hsorted ⊢
  exact filter_lt_eq hsorted

/-- Behind a seed in the subtree, the instances of the subtree come first. -/
theorem after_filter_eq {root seed : Oid} (hroot : root <+: seed) :
    (db.after seed).filter (fun vb => root.isPrefixOf vb.oid) =
      (db.after seed).takeWhile fun vb => root.isPrefixOf vb.oid := by
  apply filter_eq_takeWhile
  apply (db.after_sorted seed).imp_of_mem
  intro x y hx _ hxy hy
  rw [List.isPrefixOf_iff_prefix] at hy ⊢
  have hseed : root < x.oid := by
    by_cases heq : seed = root
    · exact heq ▸ (mem_after.mp hx).2
    · exact (root_lt hroot heq).trans (mem_after.mp hx).2
  exact isPrefix_of_between hy hseed hxy

theorem below_eq (db : Database) (root : Oid) :
    db.below root = (db.after root).filter fun vb => root.isPrefixOf vb.oid := by
  rw [below, after, List.filter_filter]
  apply List.filter_congr
  intro vb _
  rw [Bool.eq_iff_iff, Bool.and_eq_true, Bool.and_eq_true, bne_iff_ne, decide_eq_true_iff,
    List.isPrefixOf_iff_prefix]
  apply and_congr_right
  intro hroot
  constructor
  · exact root_lt hroot
  · intro hlt heq
    rw [heq] at hlt
    exact lt_irrefl root hlt

theorem block_scope {root : Oid} {taken ends : List Vb} (hmem : ∀ vb ∈ taken, vb ∈ db.instances)
    (hends : ∀ e ∈ ends, e.value = .endOfMibView) :
    (taken ++ ends).takeWhile (inScope root) = taken.takeWhile (fun vb => root.isPrefixOf vb.oid) ∧
    ((taken ++ ends).all (inScope root) = true ↔ (∀ vb ∈ taken, root <+: vb.oid) ∧ ends = []) := by
  induction taken with
  | nil =>
    cases ends with
    | nil => simp
    | cons e ends =>
      have hout : inScope root e = false := by
        simp [inScope, walkLocals, Locals.outOfScope, hends e List.mem_cons_self, Value.getSyntax]
      simp [hout]
  | cons vb taken ih =>
    obtain ⟨htake, hall⟩ := ih (fun vb' hvb' => hmem vb' (List.mem_cons_of_mem vb hvb'))
    have hvb := inScope_of_plain (hmem vb List.mem_cons_self) root
    constructor
    · rw [List.cons_append, List.takeWhile_cons, List.takeWhile_cons, hvb, htake]
    · rw [List.cons_append, List.all_cons, Bool.and_eq_true, hall, hvb, List.isPrefixOf_iff_prefix,
        List.forall_mem_cons, and_assoc]

theorem block_plain {taken ends : List Vb} (hmem : ∀ vb ∈ taken, vb ∈ db.instances)
    (hends : ∀ e ∈ ends, e.value = .endOfMibView) : ∀ vb ∈ taken ++ ends, isException vb = false := by
  intro vb hvb
  rcases List.mem_append.mp hvb with hvb | hvb
  · exact (plain_value (hmem vb hvb)).1
  · simp [isException, hends vb hvb, Value.getSyntax]

/-- A block that leaves the subtree, or says that nothing is left, holds all that is left of the subtree. -/
theorem block_last {root seed : Oid} {taken rest ends : List Vb} (hafter : db.after seed = taken ++ rest)
    (hlast : ends = [] ∨ rest = []) (hscope : ¬ ((∀ vb ∈ taken, root <+: vb.oid) ∧ ends = [])) :
    (db.after seed).takeWhile (fun vb => root.isPrefixOf vb.oid) =
      taken.takeWhile fun vb => root.isPrefixOf vb.oid := by
  rw [hafter, List.takeWhile_append]
  split
  · rename_i hlen
    have hself : taken.takeWhile (fun vb => root.isPrefixOf vb.oid) = taken :=
      (List.takeWhile_prefix _).eq_of_length hlen
    rcases hlast with hends | hrest
    · refine absurd ⟨?_, hends⟩ hscope
      intro vb hvb
      exact List.isPrefixOf_iff_prefix.mp (List.takeWhile_eq_self_iff.mp hself vb hvb)
    · rw [hrest, List.takeWhile_nil, List.append_nil, hself]
  · rfl

theorem Answers.cases {v1 : Bool} {seed : Oid} {pdu : Pdu} (h : db.Answers v1 seed pdu) :
    (db.after seed = [] ∧ pdu.errorStatus = noSuchName) ∨ db.AnswersBlock seed pdu := by
  unfold Answers at h
  split at h
  · rcases h with hend | ⟨vb, rest, hafter, herror, hvbs⟩
    · exact Or.inl hend
    · refine Or.inr ⟨herror, by simp [hvbs], [vb], rest, [], hafter, by simp [hvbs], by simp, Or.inl rfl⟩
  · exact Or.inr h

/-- Every request has an answer. -/
theorem exists_answers (db : Database) (v1 : Bool) (seed : Oid) : ∃ pdu, db.Answers v1 seed pdu := by
  cases hafter : db.after seed with
  | nil =>
    cases v1 with
    | true => exact ⟨⟨[], noSuchName, 1⟩, Or.inl ⟨hafter, rfl⟩⟩
    | false =>
      refine ⟨⟨[⟨seed, .endOfMibView⟩], 0, 0⟩, rfl, by simp, [], [], [⟨seed, .endOfMibView⟩], hafter, rfl, ?_,
        Or.inr rfl⟩
      simp
  | cons vb rest =>
    cases v1 with
    | true => exact ⟨⟨[vb], 0, 0⟩, Or.inr ⟨vb, rest, hafter, rfl, rfl⟩⟩
    | false => exact ⟨⟨[vb], 0, 0⟩, rfl, by simp, [vb], rest, [], hafter, rfl, by simp, Or.inl rfl⟩

end Database

def walkLines (env : Printing) (mib : MibState) (vbs : List Vb) : List ObjectLine :=
  vbs.mapIdx (walkLine env mib)

theorem walkLines_append (env : Printing) (mib : MibState) (done taken : List Vb) :
    walkLines env mib (done ++ taken) =
      walkLines env mib done ++ taken.mapIdx fun i => walkLine env mib (done.length + i) := by
  rw [walkLines, walkLines, List.mapIdx_append]
  simp only [Nat.add_comm]

/-- A walk under way: the subtree is split into what has been printed and what lies behind the
seed of the outstanding request. -/
structure Walking (env : Printing) (db : Database) (root : Oid) (mib : MibState) (done : List Vb)
    (q : Query) (request : Request) : Prop where
  outstanding : q.outstanding = some request
  theoid : q.agent.theoid = root
  going : q.agent.stop = false
  mib_eq : q.agent.mib = mib
  seed_below : root <+: request.seed
  split : db.below root = done ++ (db.after request.seed).filter fun vb => root.isPrefixOf vb.oid
  counted : q.agent.objects = done.length
  buffered : q.agent.buffered = walkLines env mib done

/-- A walk that has ended with the whole subtree on display. -/
structure Finished (env : Printing) (db : Database) (root : Oid) (mib : MibState) (q : Query) : Prop where
  outstanding : q.outstanding = none
  displayed : q.agent.displayed = walkLines env mib (db.below root)

/-- The response answers the outstanding request, and a follow-up request can be sent. -/
def Answered (db : Database) (v1 : Bool) (q : Query) (r : Response) : Prop :=
  ∃ request, q.outstanding = some request ∧ db.Answers v1 request.seed r.pdu ∧
    r.reason ∈ responseReasons ∧ r.sendStatus = 0

theorem Query.step_of_asyncCallback {iswalk : Bool} {q : Query} {request : Request} {r : Response}
    {ret : Returned} (hout : q.outstanding = some request)
    (h : asyncCallback env iswalk r q.agent = some ret) :
    q.step env iswalk r = some ⟨ret.agent, q.formatted ++ ret.formatted, ret.reissued,
      q.issued ++ ret.reissued.toList⟩ := by
  rw [Query.step, hout]
  simp only [h, Option.map_some]

theorem afterLoop_fellThrough {last : Vb} {status : ℤ} {a : AgentState} (hstop : a.stop = false) :
    afterLoop env true status (.fellThrough last) a = reissue env last status a := by
  simp [afterLoop, hstop]

theorem reissue_sent {last : Vb} {a : AgentState} (hlast : last.oid ≠ []) :
    reissue env last 0 a = (a, some (a.bulkRequest [last])) := by
  simp [reissue, pduStatus, hlast]

/-- The part of a block that lies in the subtree has been printed behind what was printed before. -/
structure Printed (env : Printing) (root : Oid) (mib : MibState) (done block : List Vb) (a : AgentState) : Prop where
  theoid : a.theoid = root
  going : a.stop = false
  mib_eq : a.mib = mib
  counted : a.objects = done.length + (block.takeWhile fun vb => root.isPrefixOf vb.oid).length
  buffered : a.buffered = walkLines env mib (done ++ block.takeWhile fun vb => root.isPrefixOf vb.oid)

/-- The loop over a block prints its part of the subtree, and falls through when that is all of it. -/
theorem Walking.block {db : Database} {root : Oid} {mib : MibState} {done : List Vb} {q : Query} {request : Request}
    {r : Response} {taken ends : List Vb} (hoff : mib.automaticLoading = 3)
    (hw : Walking env db root mib done q request)
    (hmem : ∀ vb ∈ taken, vb ∈ db.instances) (hends : ∀ e ∈ ends, e.value = .endOfMibView)
    (hpdu : r.pdu.vblist = taken ++ ends) (hvbs : r.pdu.vblist ≠ []) (herror : r.pdu.errorStatus = 0)
    (hreason : r.reason ∈ responseReasons) :
    ∃ a lines exit, Printed env root mib done taken a ∧
      asyncCallback env true r q.agent = some ⟨(afterLoop env true r.sendStatus exit a).1, lines,
        (afterLoop env true r.sendStatus exit a).2⟩ ∧
      ((∀ vb ∈ taken, root <+: vb.oid) ∧ ends = [] → exit = .fellThrough (lastVb taken Vb.empty)) ∧
      (¬ ((∀ vb ∈ taken, root <+: vb.oid) ∧ ends = []) → exit = .gotoEnd) := by
  have hplain := Database.block_plain hmem hends
  let entered : AgentState := { q.agent with requests := q.agent.requests + 1 }
  have hentered : entered.mib.automaticLoading = 3 := by
    rw [show entered.mib = mib from hw.mib_eq]
    exact hoff
  obtain ⟨a, hloop, hmib, hobjects⟩ := @varbindLoop_walk env r.fuel 0 r.pdu.vblist Vb.empty entered
    hentered (fun vb hvb _ => hplain vb (hpdu ▸ hvb))
  have hcallback := asyncCallback_block hreason herror hvbs hloop
  have hbuffered := varbindLoop_buffered hloop
  obtain ⟨htake, hall⟩ : _ ∧ ((taken ++ ends).all (inScope root) = true ↔ _) :=
    Database.block_scope hmem hends
  obtain ⟨mib', objects', msg', query', hframe⟩ := varbindLoop_frame hloop
  rw [show entered.theoid = root from hw.theoid, hpdu] at hcallback hbuffered hobjects
  rw [htake] at hbuffered hobjects
  refine ⟨a, _, _, ?_, hcallback, ?_, ?_⟩
  · refine
      { theoid := ?_
        going := ?_
        mib_eq := hmib.trans hw.mib_eq
        counted := hobjects.trans (congrArg (· + _) hw.counted)
        buffered := ?_ }
    · rw [hframe]
      exact hw.theoid
    · rw [hframe]
      exact hw.going
    · rw [hbuffered, walkLines_append, ← hw.buffered, ← hw.counted, ← hw.mib_eq]
      rfl
  · rintro ⟨hbelow, rfl⟩
    rw [if_pos (hall.mpr ⟨hbelow, rfl⟩), List.append_nil]
  · intro hscope
    rw [if_neg (hall.not.mpr hscope)]

/-- A block inside the subtree has been printed, and its last varbind seeds the next request. -/
theorem Walking.inside {db : Database} {root : Oid} {mib : MibState} {done before rest : List Vb} {last : Vb}
    {q q' : Query} {request : Request} {a : AgentState} (hw : Walking env db root mib done q request)
    (hafter : db.after request.seed = before ++ [last] ++ rest) (hbelow : ∀ vb ∈ before ++ [last], root <+: vb.oid)
    (hprinted : Printed env root mib done (before ++ [last]) a) (hagent : q'.agent = a)
    (hout : q'.outstanding = some (a.bulkRequest [last])) :
    Walking env db root mib (done ++ (before ++ [last])) q' (a.bulkRequest [last]) := by
  have hin : ∀ vb ∈ before ++ [last], root.isPrefixOf vb.oid = true :=
    fun vb hvb => List.isPrefixOf_iff_prefix.mpr (hbelow vb hvb)
  have hcounted := hprinted.counted
  have hbuffered := hprinted.buffered
  rw [List.takeWhile_eq_self_iff.mpr hin] at hcounted hbuffered
  subst hagent
  refine
    { outstanding := hout
      theoid := hprinted.theoid
      going := hprinted.going
      mib_eq := hprinted.mib_eq
      seed_below := hbelow last (by simp)
      split := ?_
      counted := ?_
      buffered := hbuffered }
  · have hbehind : db.after last.oid = rest := Database.after_of_after hafter
    rw [hw.split, hafter, List.filter_append, List.filter_eq_self.mpr hin, ← List.append_assoc]
    exact congrArg (_ ++ List.filter _ ·) hbehind.symm
  · exact hcounted.trans List.length_append.symm

/-- One answer ends the walk with the whole subtree shown, or more of the subtree is printed. -/
theorem Walking.step {db : Database} {v1 : Bool} {root : Oid} {mib : MibState} {done : List Vb}
    {q : Query} {request : Request} {r : Response} (hoff : mib.automaticLoading = 3)
    (hw : Walking env db root mib done q request) (hanswers : db.Answers v1 request.seed r.pdu)
    (hreason : r.reason ∈ responseReasons) (hsend : r.sendStatus = 0) :
    ∃ q', q.step env true r = some q' ∧
      (Finished env db root mib q' ∨
        ∃ taken request', taken ≠ [] ∧ Walking env db root mib (done ++ taken) q' request') := by
  rcases hanswers.cases with ⟨hnone, hend⟩ | ⟨herror, hvbs, taken, rest, ends, hafter, hpdu, hends, hlast⟩
  · -- nothing is left
    refine ⟨_, Query.step_of_asyncCallback hw.outstanding (asyncCallback_noSuchName hreason hend),
      Or.inl ⟨rfl, ?_⟩⟩
    have hsplit := hw.split
    rw [hnone, List.filter_nil, List.append_nil] at hsplit
    rw [AgentState.endQuery_displayed, hw.buffered, hsplit]
  have hmem : ∀ vb ∈ taken, vb ∈ db.instances := fun vb hvb => (Database.taken_after hafter vb hvb).1
  obtain ⟨a, lines, exit, hprinted, hcallback, hfell, hleft⟩ :=
    hw.block hoff hmem hends hpdu hvbs herror hreason
  by_cases hscope : (∀ vb ∈ taken, root <+: vb.oid) ∧ ends = []
  · -- the block stays in the subtree
    obtain ⟨hbelow, rfl⟩ := hscope
    rcases List.eq_nil_or_concat' taken with rfl | ⟨before, last, rfl⟩
    · exact absurd hpdu hvbs
    have hseed : lastVb (before ++ [last]) Vb.empty = last := by simp [lastVb]
    rw [hfell ⟨hbelow, rfl⟩, hseed, afterLoop_fellThrough hprinted.going, hsend,
      reissue_sent (db.named last (hmem last (by simp)))] at hcallback
    exact ⟨_, Query.step_of_asyncCallback hw.outstanding hcallback, Or.inr ⟨before ++ [last], a.bulkRequest [last],
      List.concat_ne_nil last before, hw.inside hafter hbelow hprinted rfl rfl⟩⟩
  · -- the subtree, or the view, ends inside the block
    rw [hleft hscope] at hcallback
    refine ⟨_, Query.step_of_asyncCallback hw.outstanding hcallback, Or.inl ⟨rfl, ?_⟩⟩
    rw [hw.split, Database.after_filter_eq hw.seed_below, Database.block_last hafter hlast hscope, ← hprinted.buffered]
    exact AgentState.endQuery_displayed a

/-- The state of a walk after `n` callbacks, from which the walk cannot be longer than the subtree. -/
def WalkState (env : Printing) (db : Database) (root : Oid) (mib : MibState) (n : ℕ) (q : Query) : Prop :=
  (∃ done request, Walking env db root mib done q request ∧ n ≤ done.length) ∨
  (Finished env db root mib q ∧ n ≤ (db.below root).length + 1)

theorem Walking.length_le {db : Database} {root : Oid} {mib : MibState} {done : List Vb} {q : Query}
    {request : Request} (hw : Walking env db root mib done q request) :
    done.length ≤ (db.below root).length := by
  rw [hw.split, List.length_append]
  exact Nat.le_add_right _ _

theorem WalkState.step {db : Database} {v1 : Bool} {root : Oid} {mib : MibState} {n : ℕ} {q q' : Query}
    {r : Response} (hoff : mib.automaticLoading = 3) (hs : WalkState env db root mib n q)
    (hanswered : Answered db v1 q r) (hstep : q.step env true r = some q') :
    WalkState env db root mib (n + 1) q' := by
  obtain ⟨request, hout, hanswers, hreason, hsend⟩ := hanswered
  rcases hs with ⟨done, request', hw, hn⟩ | ⟨hfin, -⟩
  · obtain rfl : request = request' := Option.some.inj (hout.symm.trans hw.outstanding)
    obtain ⟨m, hm, hnext⟩ := hw.step hoff hanswers hreason hsend
    obtain rfl : m = q' := Option.some.inj (hm.symm.trans hstep)
    have hle := hw.length_le
    rcases hnext with hfin | ⟨taken, request', hne, hw'⟩
    · exact Or.inr ⟨hfin, by omega⟩
    · have hpos := List.length_pos_of_ne_nil hne
      refine Or.inl ⟨done ++ taken, request', hw', ?_⟩
      rw [List.length_append]
      omega
  · rw [hfin.outstanding] at hout
    cases hout

theorem WalkState.run {db : Database} {v1 : Bool} {root : Oid} {mib : MibState} {q q' : Query}
    (hoff : mib.automaticLoading = 3) (hs : WalkState env db root mib 0 q) {rs : List Response}
    (hanswered : Runs.Each (Query.step env true) (Answered db v1) q rs)
    (hrun : Runs.exec (Query.step env true) q rs = some q') :
    WalkState env db root mib rs.length q' := by
  induction rs using List.reverseRecOn generalizing q' with
  | nil =>
    cases hrun
    exact hs
  | append_singleton rs r ih =>
    obtain ⟨m, hm, hstep⟩ := Runs.exec_snoc.mp hrun
    obtain ⟨hbefore, hr⟩ := (Runs.each_snoc hm).mp hanswered
    rw [List.length_append]
    exact (ih hbefore hm).step hoff hr hstep

theorem Walking.start {db : Database} {oid : String} {status : ℤ} {a a' : AgentState} {request : Request}
    (hoid : Oid.ofText oid ≠ []) (h : walkFrom env oid status a = (a', some request)) :
    Walking env db (Oid.ofText oid) a.mib [] (Query.start a' request) request := by
  obtain ⟨hs, htheoid, hmib, -, hrequest⟩ := walkFrom_some env h
  have hseed : request.seed = Oid.ofText oid := by
    rw [hrequest, if_neg hoid]
    rfl
  refine
    { outstanding := rfl
      theoid := htheoid
      going := hs.stop
      mib_eq := hmib
      seed_below := ?_
      split := ?_
      counted := hs.objects
      buffered := ?_ }
  · rw [hseed]
  · rw [hseed, Database.below_eq]
    rfl
  · simp [Query.start, AgentState.buffered, hs.displayed, hs.msg, walkLines]

/-- Main result: a walk of a well-behaved agent goes on as long as it has a request
outstanding, ends after at most one callback more than the subtree has instances, and then
shows exactly these instances, in order. -/
theorem walk_shows_subtree {db : Database} {v1 : Bool} {oid : String} {status : ℤ} {a a' : AgentState}
    {request : Request} (hoff : a.mib.automaticLoading = 3) (hoid : Oid.ofText oid ≠ [])
    (hstart : walkFrom env oid status a = (a', some request)) {rs : List Response} {q : Query}
    (hanswered : Runs.Each (Query.step env true) (Answered db v1) (Query.start a' request) rs)
    (hrun : Runs.exec (Query.step env true) (Query.start a' request) rs = some q) :
    rs.length ≤ (db.below (Oid.ofText oid)).length + 1 ∧
    (q.outstanding = none → q.agent.displayed = walkLines env a.mib (db.below (Oid.ofText oid))) ∧
    (q.outstanding.isSome → (∃ r, Answered db v1 q r) ∧
      ∀ r, Answered db v1 q r → ∃ q', q.step env true r = some q') := by
  have hstate : WalkState env db (Oid.ofText oid) a.mib rs.length q :=
    WalkState.run hoff (Or.inl ⟨[], request, Walking.start hoid hstart, le_rfl⟩) hanswered hrun
  rcases hstate with ⟨done, request', hw, hn⟩ | ⟨hfin, hn⟩
  · refine ⟨by have hle := hw.length_le; omega, ?_, ?_⟩
    · intro hnone
      rw [hw.outstanding] at hnone
      cases hnone
    · intro _
      constructor
      · obtain ⟨pdu, hpdu⟩ := db.exists_answers v1 request'.seed
        exact ⟨⟨-6, pdu, 0, 0⟩, request', hw.outstanding, hpdu, List.mem_cons_self, rfl⟩
      · rintro r ⟨request'', hout, hanswers, hreason, hsend⟩
        obtain rfl : request'' = request' := Option.some.inj (hout.symm.trans hw.outstanding)
        obtain ⟨q', hq', -⟩ := hw.step hoff hanswers hreason hsend
        exact ⟨q', hq'⟩
  · refine ⟨hn, fun _ => hfin.displayed, ?_⟩
    intro hsome
    rw [hfin.outstanding] at hsome
    cases hsome

def smallDatabase : Database where
  instances := [⟨[1, 2, 0], .int32 0⟩, ⟨[1, 3, 6, 1], .int32 1⟩, ⟨[1, 3, 6, 2, 0], .int32 2⟩,
    ⟨[1, 4, 0], .int32 3⟩]
  sorted := by decide
  named := by decide
  plain := by decide

def smallAnswers : List Response :=
  [answered [⟨[1, 3, 6, 1], .int32 1⟩],
    answered [⟨[1, 3, 6, 2, 0], .int32 2⟩, ⟨[1, 4, 0], .int32 3⟩, ⟨[1, 4, 0], .endOfMibView⟩]]

theorem walk_shows_subtree_small :
    ∃ q, Runs.exec (Query.step blank true) (Query.start walking walkRequest) smallAnswers = some q ∧
      smallAnswers.length ≤ (smallDatabase.below (Oid.ofText "1.3.6")).length + 1 ∧
      (q.outstanding = none →
        q.agent.displayed = walkLines blank idle.mib (smallDatabase.below (Oid.ofText "1.3.6"))) ∧
      (q.outstanding.isSome → (∃ r, Answered smallDatabase false q r) ∧
        ∀ r, Answered smallDatabase false q r → ∃ q', q.step blank true r = some q') := by
  have hfirst : Answered smallDatabase false (Query.start walking walkRequest)
      (answered [⟨[1, 3, 6, 1], .int32 1⟩]) :=
    ⟨walkRequest, rfl, ⟨rfl, by decide, [⟨[1, 3, 6, 1], .int32 1⟩], _, [], rfl, rfl, by simp, Or.inl rfl⟩,
      by decide, rfl⟩
  have hsecond : ∀ q, Query.step blank true (Query.start walking walkRequest)
      (answered [⟨[1, 3, 6, 1], .int32 1⟩]) = some q → Answered smallDatabase false q
        (answered [⟨[1, 3, 6, 2, 0], .int32 2⟩, ⟨[1, 4, 0], .int32 3⟩, ⟨[1, 4, 0], .endOfMibView⟩]) := by
    rintro q hq
    cases hq
    exact ⟨_, rfl, ⟨rfl, by decide, [⟨[1, 3, 6, 2, 0], .int32 2⟩, ⟨[1, 4, 0], .int32 3⟩], [],
      [⟨[1, 4, 0], .endOfMibView⟩], rfl, rfl, by decide, Or.inr rfl⟩, by decide, rfl⟩
  have hanswered : Runs.Each (Query.step blank true) (Answered smallDatabase false)
      (Query.start walking walkRequest) smallAnswers :=
    ⟨hfirst, fun q hq => ⟨hsecond q hq, fun _ _ => trivial⟩⟩
  exact ⟨_, rfl, walk_shows_subtree rfl (by decide) idle_walkFrom hanswered rfl⟩

end SnmpB.Agent
