import Mathlib.Data.List.Chain

/-! # Runs of a machine whose steps may be refused

A step takes an event and yields the next state, or nothing when the event
cannot happen. A run takes its events in order.
-/
namespace SnmpB.Runs

variable {σ τ ε : Type*} (step : σ → ε → Option σ)

/-- The state after a list of events, when all of them can happen. -/
def exec : σ → List ε → Option σ
  | s, [] => some s
  | s, e :: es => (step s e).bind fun s' => exec s' es

variable {step}

@[simp] theorem exec_nil (s : σ) : exec step s [] = some s := rfl

theorem exec_cons {s s' : σ} {e : ε} {es : List ε} :
    exec step s (e :: es) = some s' ↔ ∃ m, step s e = some m ∧ exec step m es = some s' := by
  rw [exec, Option.bind_eq_some_iff]

theorem exec_append {s s' : σ} {es es' : List ε} :
    exec step s (es ++ es') = some s' ↔ ∃ m, exec step s es = some m ∧ exec step m es' = some s' := by
  induction es generalizing s with
  | nil => simp
  | cons e es ih =>
    rw [List.cons_append, exec_cons]
    constructor
    · rintro ⟨m, hm, hrest⟩
      obtain ⟨m', hm', hend⟩ := ih.mp hrest
      exact ⟨m', exec_cons.mpr ⟨m, hm, hm'⟩, hend⟩
    · rintro ⟨m', hm', hend⟩
      obtain ⟨m, hm, hrest⟩ := exec_cons.mp hm'
      exact ⟨m, hm, ih.mpr ⟨m', hrest, hend⟩⟩

theorem exec_snoc {s s' : σ} {es : List ε} {e : ε} :
    exec step s (es ++ [e]) = some s' ↔ ∃ m, exec step s es = some m ∧ step m e = some s' := by
  rw [exec_append]
  simp [exec]

theorem exec_invariant {P : σ → Prop} (hstep : ∀ s e s', P s → step s e = some s' → P s')
    {s s' : σ} {es : List ε} (hs : P s) (h : exec step s es = some s') : P s' := by
  induction es generalizing s with
  | nil =>
    cases h
    exact hs
  | cons e es ih =>
    obtain ⟨m, hm, hrest⟩ := exec_cons.mp h
    exact ih (hstep s e m hs hm) hrest

variable (step) in
/-- Every step of the run meets a condition on the state before it and on its event. -/
def Each (C : σ → ε → Prop) : σ → List ε → Prop
  | _, [] => True
  | s, e :: es => C s e ∧ ∀ s', step s e = some s' → Each C s' es

theorem each_cons {C : σ → ε → Prop} {s m : σ} {e : ε} {es : List ε} (h : step s e = some m) :
    Each step C s (e :: es) ↔ C s e ∧ Each step C m es := by
  refine and_congr_right fun _ => ⟨fun hrest => hrest m h, fun hrest s' hs' => ?_⟩
  obtain rfl : m = s' := Option.some.inj (h.symm.trans hs')
  exact hrest

theorem each_append {C : σ → ε → Prop} {s : σ} {es es' : List ε} :
    Each step C s (es ++ es') ↔
      Each step C s es ∧ ∀ m, exec step s es = some m → Each step C m es' := by
  induction es generalizing s with
  | nil => simp [Each]
  | cons e es ih =>
    rw [List.cons_append, Each, Each]
    constructor
    · rintro ⟨he, hrest⟩
      refine ⟨⟨he, fun s' hs' => (ih.mp (hrest s' hs')).1⟩, fun m hm => ?_⟩
      obtain ⟨s', hs', hm'⟩ := exec_cons.mp hm
      exact (ih.mp (hrest s' hs')).2 m hm'
    · rintro ⟨⟨he, hes⟩, hes'⟩
      exact ⟨he, fun s' hs' =>
        ih.mpr ⟨hes s' hs', fun m hm => hes' m (exec_cons.mpr ⟨s', hs', hm⟩)⟩⟩

theorem each_snoc {C : σ → ε → Prop} {s m : σ} {es : List ε} {e : ε} (h : exec step s es = some m) :
    Each step C s (es ++ [e]) ↔ Each step C s es ∧ C m e := by
  rw [each_append]
  refine and_congr_right fun _ => ⟨fun hlast => (hlast m h).1, fun he m' hm' => ?_⟩
  obtain rfl : m = m' := Option.some.inj (h.symm.trans hm')
  exact ⟨he, fun _ _ => trivial⟩

theorem each_iff_split {C : σ → ε → Prop} {s : σ} {es : List ε} :
    Each step C s es ↔
      ∀ before e after m, es = before ++ e :: after → exec step s before = some m → C m e := by
  constructor
  · rintro h before e after m rfl hm
    exact ((each_append.mp h).2 m hm).1
  · intro h
    induction es generalizing s with
    | nil => trivial
    | cons e es ih =>
      refine ⟨h [] e es s rfl rfl, fun s' hs' => ih ?_⟩
      rintro before e' after m rfl hm
      exact h (e :: before) e' after m rfl (exec_cons.mpr ⟨s', hs', hm⟩)

theorem exec_invariant_of {P : σ → Prop} {C : σ → ε → Prop}
    (hstep : ∀ s e s', P s → C s e → step s e = some s' → P s') {s s' : σ} {es : List ε}
    (hcond : Each step C s es) (hs : P s) (h : exec step s es = some s') : P s' := by
  induction es generalizing s with
  | nil =>
    cases h
    exact hs
  | cons e es ih =>
    obtain ⟨m, hm, hrest⟩ := exec_cons.mp h
    exact ih (hcond.2 m hm) (hstep s e m hs hcond.1 hm) hrest

/-- Two conditions that agree under an invariant agree along every run. -/
theorem each_congr {I : σ → Prop} {C D : σ → ε → Prop} (hinvariant : ∀ s e s', I s → step s e = some s' → I s')
    (hcond : ∀ s e, I s → (C s e ↔ D s e)) {s : σ} (hI : I s) (es : List ε) :
    Each step C s es ↔ Each step D s es := by
  induction es generalizing s with
  | nil => exact Iff.rfl
  | cons e es ih =>
    refine and_congr (hcond s e hI) ?_
    refine forall_congr' fun s' => ?_
    exact imp_congr_right fun hs' => ih (hinvariant s e s' hI hs')

/-- Two conditions that agree on every step that can happen agree on a run. -/
theorem each_congr_of {I : σ → Prop} {C D : σ → ε → Prop}
    (hinvariant : ∀ s e s', I s → step s e = some s' → I s')
    (hcond : ∀ s e s', I s → step s e = some s' → (C s e ↔ D s e)) {s s' : σ} {es : List ε} (hI : I s)
    (h : exec step s es = some s') : Each step C s es ↔ Each step D s es := by
  induction es generalizing s with
  | nil => exact Iff.rfl
  | cons e es ih =>
    obtain ⟨m, hm, hrest⟩ := exec_cons.mp h
    rw [each_cons hm, each_cons hm, hcond s e m hI hm, ih (hinvariant s e m hI hm) hrest]

/-- A run follows an abstract machine at every point exactly if each of its steps does. -/
theorem follows_iff_each {κ : Type*} {key : σ → κ} {draft : κ → ε → κ} {s : σ} {es : List ε} :
    (∀ done, done <+: es → ∀ x, exec step s done = some x → key x = done.foldl draft (key s)) ↔
      Each step (fun s e => ∀ s', step s e = some s' → key s' = draft (key s) e) s es := by
  induction es generalizing s with
  | nil =>
    refine iff_of_true ?_ trivial
    intro done hdone x hx
    obtain rfl := List.prefix_nil.mp hdone
    cases hx
    rfl
  | cons e es ih =>
    constructor
    · intro hall
      have hhead : ∀ s', step s e = some s' → key s' = draft (key s) e := by
        intro m hm
        exact hall [e] ⟨es, rfl⟩ m (exec_cons.mpr ⟨m, hm, rfl⟩)
      refine ⟨hhead, ?_⟩
      intro m hm
      apply ih.mp
      intro done hdone x hx
      rw [hhead m hm]
      exact hall (e :: done) ((List.prefix_cons_inj e).mpr hdone) x (exec_cons.mpr ⟨m, hm, hx⟩)
    · rintro ⟨hhead, htail⟩ done hdone x hx
      cases done with
      | nil =>
        cases hx
        rfl
      | cons e' done =>
        obtain ⟨heq, hrest⟩ := List.cons_prefix_cons.mp hdone
        subst heq
        obtain ⟨m, hm, hx⟩ := exec_cons.mp hx
        rw [List.foldl_cons, ← hhead m hm]
        exact ih.mpr (htail m hm) done hrest x hx

section Repair
variable (step)

def Somewhere (R : σ → ε → Prop) : σ → List ε → Prop
  | _, [] => False
  | s, e :: es => R s e ∨ ∀ s', step s e = some s' → Somewhere R s' es

/-- Every step that breaks something is followed by one that repairs it. -/
def Repaired (B R : σ → ε → Prop) : σ → List ε → Prop
  | _, [] => True
  | s, e :: es => ∀ s', step s e = some s' → (B s e → Somewhere step R s' es) ∧ Repaired B R s' es

variable {step}

theorem somewhere_cons {R : σ → ε → Prop} {s m : σ} {e : ε} {es : List ε} (h : step s e = some m) :
    Somewhere step R s (e :: es) ↔ R s e ∨ Somewhere step R m es := by
  rw [Somewhere]
  simp [h]

theorem somewhere_snoc {R : σ → ε → Prop} {s m : σ} {e : ε} {es : List ε} (h : exec step s es = some m) :
    Somewhere step R s (es ++ [e]) ↔ Somewhere step R s es ∨ R m e ∨ step m e = none := by
  induction es generalizing s with
  | nil =>
    cases h
    rw [List.nil_append, Somewhere, Somewhere, false_or]
    refine or_congr_right ⟨fun hall => ?_, fun hnone s' hs' => ?_⟩
    · cases hm : step m e with
      | none => rfl
      | some s' => exact (hall s' hm).elim
    · rw [hnone] at hs'
      cases hs'
  | cons e' es ih =>
    obtain ⟨s', hs', hrest⟩ := exec_cons.mp h
    rw [List.cons_append, somewhere_cons hs', somewhere_cons hs', ih hrest, or_assoc]

theorem repaired_cons {B R : σ → ε → Prop} {s m : σ} {e : ε} {es : List ε} (h : step s e = some m) :
    Repaired step B R s (e :: es) ↔ (B s e → Somewhere step R m es) ∧ Repaired step B R m es := by
  rw [Repaired]
  simp [h]

instance decidableSomewhere {R : σ → ε → Prop} [∀ s e, Decidable (R s e)] (s : σ) :
    ∀ es, Decidable (Somewhere step R s es)
  | [] => inferInstanceAs (Decidable False)
  | e :: es =>
    match h : step s e with
    | none => isTrue (Or.inr fun s' hs' => by rw [h] at hs'; cases hs')
    | some m =>
      have := decidableSomewhere (R := R) m es
      decidable_of_iff _ (somewhere_cons h).symm

instance decidableRepaired {B R : σ → ε → Prop} [∀ s e, Decidable (B s e)] [∀ s e, Decidable (R s e)]
    (s : σ) : ∀ es, Decidable (Repaired step B R s es)
  | [] => inferInstanceAs (Decidable True)
  | e :: es =>
    match h : step s e with
    | none => isTrue fun s' hs' => by rw [h] at hs'; cases hs'
    | some m =>
      have := decidableRepaired (B := B) (R := R) m es
      decidable_of_iff _ (repaired_cons h).symm

/-- What steps establish when they repair it, and keep unless they break it, holds behind a run
in which every break is repaired. -/
theorem exec_repaired {I P : σ → Prop} {B R : σ → ε → Prop}
    (hinvariant : ∀ s e s', I s → step s e = some s' → I s')
    (hrepair : ∀ s e s', I s → R s e → step s e = some s' → P s')
    (hkeep : ∀ s e s', I s → P s → ¬ B s e → step s e = some s' → P s') {s s' : σ} {es : List ε}
    (hI : I s) (hP : P s ∨ Somewhere step R s es) (hrun : Repaired step B R s es)
    (h : exec step s es = some s') : P s' := by
  induction es generalizing s with
  | nil =>
    cases h
    exact hP.resolve_right id
  | cons e es ih =>
    obtain ⟨m, hm, hrest⟩ := exec_cons.mp h
    obtain ⟨hbreak, hrun⟩ := hrun m hm
    refine ih (hinvariant s e m hI hm) ?_ hrun hrest
    by_cases hB : B s e
    · exact Or.inr (hbreak hB)
    · rcases hP with hP | hR | hlater
      · exact Or.inl (hkeep s e m hI hP hB hm)
      · exact Or.inl (hrepair s e m hI hR hm)
      · exact Or.inr (hlater m hm)

end Repair

section Trace
variable {β : Type*} (step) (key : σ → β)

def trace : σ → List ε → List β
  | s, [] => [key s]
  | s, e :: es => key s :: (step s e).elim [] fun s' => trace s' es

variable {step} {key}

theorem trace_cons {s m : σ} {e : ε} {es : List ε} (h : step s e = some m) :
    trace step key s (e :: es) = key s :: trace step key m es := by
  rw [trace, h]
  rfl

@[simp] theorem trace_head? (s : σ) (es : List ε) : (trace step key s es).head? = some (key s) := by
  cases es <;> rfl

/-- Keys that every step determines by an answer are in order exactly when each answer is in
order with the key before it. -/
theorem trace_isChain_iff {R : β → β → Prop} {answer : σ → ε → β}
    (hanswer : ∀ s e s', step s e = some s' → key s' = answer s e) {s s' : σ} {es : List ε}
    (h : exec step s es = some s') :
    (trace step key s es).IsChain R ↔ Each step (fun s e => R (key s) (answer s e)) s es := by
  induction es generalizing s with
  | nil => exact iff_of_true (List.isChain_singleton _) trivial
  | cons e es ih =>
    obtain ⟨m, hm, hrest⟩ := exec_cons.mp h
    rw [trace_cons hm, List.isChain_cons, trace_head?, ih hrest, Each]
    constructor
    · rintro ⟨hhead, hchain⟩
      refine ⟨hanswer s e m hm ▸ hhead (key m) rfl, ?_⟩
      intro m' hm'
      obtain rfl : m = m' := Option.some.inj (hm.symm.trans hm')
      exact hchain
    · rintro ⟨hhead, hchain⟩
      refine ⟨?_, hchain m hm⟩
      intro x hx
      obtain rfl : key m = x := Option.some.inj hx
      rw [hanswer s e m hm]
      exact hhead

theorem trace_tail {I : σ → Prop} {P : β → Prop}
    (hstep : ∀ s e s', I s → step s e = some s' → I s' ∧ P (key s')) {s : σ} (hs : I s)
    (es : List ε) : ∀ x ∈ (trace step key s es).tail, P x := by
  induction es generalizing s with
  | nil =>
    intro x hx
    cases hx
  | cons e es ih =>
    cases hm : step s e with
    | none =>
      intro x hx
      rw [trace, hm] at hx
      cases hx
    | some m =>
      obtain ⟨hI, hP⟩ := hstep s e m hs hm
      rw [trace_cons hm, List.tail_cons]
      intro x hx
      rw [List.eq_cons_of_mem_head? (trace_head? m es), List.mem_cons] at hx
      rcases hx with rfl | hx
      · exact hP
      · exact ih hI x hx

/-- What a step carries over exactly under a condition holds in every state of a run exactly if
every step meets the condition. -/
theorem each_iff_trace {P : σ → Prop} {C : σ → ε → Prop}
    (hstep : ∀ s e s', P s → step s e = some s' → (P s' ↔ C s e)) {s s' : σ} {es : List ε} (hs : P s)
    (h : exec step s es = some s') : Each step C s es ↔ ∀ m ∈ trace step id s es, P m := by
  induction es generalizing s with
  | nil => simp [Each, trace, hs]
  | cons e es ih =>
    obtain ⟨m, hm, hrest⟩ := exec_cons.mp h
    rw [each_cons hm, trace_cons hm, List.forall_mem_cons]
    have hiff := hstep s e m hs hm
    constructor
    · rintro ⟨he, heach⟩
      exact ⟨hs, (ih (hiff.mpr he) hrest).mp heach⟩
    · rintro ⟨-, hall⟩
      have hPm : P m := hall m (List.mem_of_head? (trace_head? m es))
      exact ⟨hiff.mp hPm, (ih hPm hrest).mpr hall⟩

theorem mem_trace_iff {s x : σ} {es : List ε} :
    x ∈ trace step id s es ↔ ∃ done, done <+: es ∧ exec step s done = some x := by
  induction es generalizing s with
  | nil =>
    simp only [trace, List.mem_singleton, List.prefix_nil, exists_eq_left, exec_nil, Option.some.injEq, id]
    exact eq_comm
  | cons e es ih =>
    constructor
    · intro hx
      rw [trace, List.mem_cons] at hx
      rcases hx with rfl | hx
      · exact ⟨[], List.nil_prefix, rfl⟩
      · cases hm : step s e with
        | none => simp [hm] at hx
        | some m =>
          rw [hm] at hx
          obtain ⟨done, hdone, hx⟩ := ih.mp hx
          exact ⟨e :: done, (List.prefix_cons_inj e).mpr hdone, exec_cons.mpr ⟨m, hm, hx⟩⟩
    · rintro ⟨done, hdone, hx⟩
      cases done with
      | nil =>
        obtain rfl : s = x := Option.some.inj hx
        exact List.mem_of_head? (trace_head? s (e :: es))
      | cons e' done =>
        obtain ⟨heq, hrest⟩ := List.cons_prefix_cons.mp hdone
        subst heq
        obtain ⟨m, hm, hx⟩ := exec_cons.mp hx
        rw [trace_cons hm]
        exact List.mem_cons_of_mem _ (ih.mpr ⟨done, hrest, hx⟩)

/-- The same under an invariant that every step keeps. -/
theorem each_iff_trace_of {I P : σ → Prop} {C : σ → ε → Prop}
    (hinvariant : ∀ s e s', I s → step s e = some s' → I s')
    (hstep : ∀ s e s', I s → P s → step s e = some s' → (P s' ↔ C s e)) {s s' : σ} {es : List ε} (hI : I s)
    (hP : P s) (h : exec step s es = some s') : Each step C s es ↔ ∀ m ∈ trace step id s es, P m := by
  have hboth : Each step C s es ↔ ∀ m ∈ trace step id s es, I m ∧ P m := by
    apply each_iff_trace _ ⟨hI, hP⟩ h
    intro s e s' hs hm
    rw [← hstep s e s' hs.1 hs.2 hm]
    exact and_iff_right (hinvariant s e s' hs.1 hm)
  rw [hboth]
  constructor
  · intro hall m hm
    exact (hall m hm).2
  · intro hall m hm
    obtain ⟨done, -, hdone⟩ := mem_trace_iff.mp hm
    exact ⟨exec_invariant hinvariant hI hdone, hall m hm⟩

/-- The same about the states that the beginnings of the run reach. -/
theorem reached_iff_each_of {I P : σ → Prop} {C : σ → ε → Prop}
    (hinvariant : ∀ s e s', I s → step s e = some s' → I s')
    (hstep : ∀ s e s', I s → P s → step s e = some s' → (P s' ↔ C s e)) {s s' : σ} {es : List ε} (hI : I s)
    (hP : P s) (h : exec step s es = some s') :
    (∀ done, done <+: es → ∀ m, exec step s done = some m → P m) ↔ Each step C s es := by
  rw [each_iff_trace_of hinvariant hstep hI hP h]
  constructor
  · intro hall m hm
    obtain ⟨done, hdone, hm⟩ := mem_trace_iff.mp hm
    exact hall done hdone m hm
  · intro hall done hdone m hm
    exact hall m (mem_trace_iff.mpr ⟨done, hdone, hm⟩)

end Trace

section Output
variable {ο : Type*} (step) (out : σ → ε → List ο)

/-- What the steps of a run put out. -/
def outputs : σ → List ε → List ο
  | _, [] => []
  | s, e :: es => (step s e).elim [] fun s' => out s e ++ outputs s' es

variable {step} {out}

theorem outputs_cons {s m : σ} {e : ε} {es : List ε} (h : step s e = some m) :
    outputs step out s (e :: es) = out s e ++ outputs step out m es := by
  rw [outputs, h]
  rfl

/-- Steps that put out the next values of a counter put out all of them in order. -/
theorem outputs_counted {out : σ → ε → List ℕ} {counter : σ → ℕ}
    (hstep : ∀ s e s', step s e = some s' →
      out s e = List.range' (counter s + 1) (out s e).length ∧ counter s' = counter s + (out s e).length)
    {s s' : σ} {es : List ε} (h : exec step s es = some s') :
    outputs step out s es = List.range' (counter s + 1) (outputs step out s es).length ∧
      counter s' = counter s + (outputs step out s es).length := by
  induction es generalizing s with
  | nil =>
    cases h
    exact ⟨rfl, rfl⟩
  | cons e es ih =>
    obtain ⟨m, hm, hrest⟩ := exec_cons.mp h
    obtain ⟨hhead, hcounter⟩ := hstep s e m hm
    obtain ⟨htail, hlast⟩ := ih hrest
    rw [outputs_cons hm, List.length_append]
    constructor
    · rw [← List.range'_append_1, ← hhead, Nat.add_right_comm, ← hcounter, ← htail]
    · rw [hlast, hcounter, Nat.add_assoc]

end Output

/-- What every counted step lowers by one, and the others leave, counts them. -/
theorem exec_countdown {P : σ → Prop} {C : σ → ε → Prop} {left : σ → ℕ} {counted : ε → Bool}
    (hkeep : ∀ s e s', P s → C s e → step s e = some s' → P s')
    (hleft : ∀ s e s', P s → C s e → step s e = some s' →
      left s = left s' + if counted e then 1 else 0)
    {s s' : σ} {es : List ε} (hcond : Each step C s es) (hs : P s) (h : exec step s es = some s') :
    left s = left s' + es.countP counted := by
  induction es generalizing s with
  | nil =>
    cases h
    rfl
  | cons e es ih =>
    obtain ⟨m, hm, hrest⟩ := exec_cons.mp h
    have htail := ih (hcond.2 m hm) (hkeep s e m hs hcond.1 hm) hrest
    have hhead := hleft s e m hs hcond.1 hm
    rw [List.countP_cons, hhead, htail, Nat.add_assoc]

end SnmpB.Runs
