import SnmpB.Discovery.Thread

/-! # Aborting a discovery

The thread clears the flag when it starts a pass and tests it when the pass is
over. An abort that falls between a test and the next start is lost.
-/
namespace SnmpB.Discovery
open Runs

/-- The thread is between two passes, or before the first, with one more to start. -/
def Stage.Between : Stage → Prop
  | .choosing (_ :: _) => True
  | _ => False

/-- Inside a pass, up to the test of the flag after it. -/
def Stage.InPass : Stage → Prop
  | .sending .. | .receiving .. | .returned _ => True
  | _ => False

/-- A step that starts a pass happens before any call of `Abort`. -/
def StartsUnaborted (s : ThreadState) (e : Event) : Prop :=
  e = .choose → s.stage.Between → s.abortCalled = false

/-- `Abort` is not called between two passes. -/
def AbortsInPass (s : ThreadState) (e : Event) : Prop := e = .abort → ¬ s.stage.Between

/-- After an abort the flag stays set until its test, and no pass is left to start. -/
def Heeded (s : ThreadState) : Prop :=
  s.abortCalled = true → ¬ s.stage.Between ∧ (s.stage.InPass → s.aborting = true)

theorem enterSend_inPass (p : Planned) (rest : List Planned) (remaining : ℕ) (c : Cursor) :
    (enterSend p rest remaining c).InPass ∧ ¬ (enterSend p rest remaining c).Between := by
  rw [enterSend]
  split <;> simp [Stage.InPass, Stage.Between]

theorem afterProbe_inPass (s : ThreadState) (p : Planned) (rest : List Planned) (remaining : ℕ)
    (c : Cursor) (built sent : Bool) :
    (afterProbe s p rest remaining c built sent).stage.InPass ∧
      ¬ (afterProbe s p rest remaining c built sent).stage.Between := by
  simp only [afterProbe]
  split
  · exact ⟨trivial, id⟩
  · split
    · exact ⟨trivial, id⟩
    · exact enterSend_inPass p rest remaining c.next

theorem afterWakeup_inPass (s : ThreadState) (p : Planned) (rest : List Planned)
    (turn : Waiting × TurnResult) :
    (afterWakeup s p rest turn).stage.InPass ∧ ¬ (afterWakeup s p rest turn).stage.Between := by
  simp only [afterWakeup]
  split <;> exact ⟨trivial, id⟩

theorem step_heeded {cfg : Settings} {s s' : ThreadState} {e : Event} (hs : Heeded s)
    (htime : AbortsInPass s e) (h : step cfg s e = some s') : Heeded s' := by
  cases move_of_step h with
  | abort => exact fun _ => ⟨htime rfl, fun _ => rfl⟩
  | arrive t d => exact hs
  | stop hstage => exact fun _ => ⟨id, False.elim⟩
  | begin p rest hstage =>
    intro hcalled
    have hbetween : s.stage.Between := by
      rw [hstage]
      trivial
    exact absurd hbetween (hs hcalled).1
  | probe p rest remaining c built sent hstage =>
    intro hcalled
    have hflag : s.aborting = true := (hs hcalled).2 (by rw [hstage]; trivial)
    exact ⟨(afterProbe_inPass ..).2, fun _ => hflag⟩
  | wakeup p rest elapsed hstage =>
    intro hcalled
    have hflag : s.aborting = true := (hs hcalled).2 (by rw [hstage]; trivial)
    exact ⟨(afterWakeup_inPass ..).2, fun _ => hflag⟩
  | leave rest hstage =>
    intro hcalled
    have hflag : s.aborting = true := (hs hcalled).2 (by rw [hstage]; trivial)
    simp only [hflag, ↓reduceIte]
    exact ⟨id, False.elim⟩

theorem start_heeded (cfg : Settings) (aborting : Bool) (sockets : IpVersion → List Datagram) :
    Heeded (.start cfg aborting sockets) := fun h => nomatch h

theorem starts_unaborted {s : ThreadState} (hs : Heeded s) (e : Event) :
    StartsUnaborted s e := by
  intro _ hbetween
  by_contra hcalled
  exact (hs (Bool.not_eq_false _ ▸ hcalled)).1 hbetween

/-- Aborts that fall into a pass are never followed by a pass. -/
theorem each_starts_unaborted {cfg : Settings} {es : List Event} : ∀ {s : ThreadState}, Heeded s →
    Each (step cfg) AbortsInPass s es → Each (step cfg) StartsUnaborted s es := by
  induction es with
  | nil => exact fun _ _ => trivial
  | cons e es ih =>
    intro s hs htime
    refine ⟨starts_unaborted hs e, fun s' hstep => ?_⟩
    exact ih (step_heeded hs htime.1 hstep) (htime.2 s' hstep)

/-- A call of `Abort` between two passes is followed by the start of the next one. -/
theorem lost_abort {cfg : Settings} {es : List Event} : ∀ {s s' : ThreadState},
    s.abortCalled = true → s.stage.Between → exec (step cfg) s es = some s' →
      s'.stage = .stopped → ¬ Each (step cfg) StartsUnaborted s es := by
  induction es with
  | nil =>
    intro s s' _ hbetween h hstopped
    cases h
    rw [hstopped] at hbetween
    exact hbetween.elim
  | cons e es ih =>
    intro s s' hcalled hbetween h hstopped heach
    obtain ⟨m, hstep, hrest⟩ := exec_cons.mp h
    have hlater := heach.2 m hstep
    cases move_of_step hstep with
    | abort =>
      refine ih ?_ ?_ hrest hstopped hlater
      · rfl
      · exact hbetween
    | arrive t d =>
      refine ih ?_ ?_ hrest hstopped hlater
      · exact hcalled
      · exact hbetween
    | stop hstage =>
      rw [hstage] at hbetween
      exact hbetween
    | begin p rest hstage =>
      have hfalse := heach.1 rfl hbetween
      exact Bool.false_ne_true (hfalse.symm.trans hcalled)
    | probe p rest remaining c built sent hstage =>
      rw [hstage] at hbetween
      exact hbetween
    | wakeup p rest elapsed hstage =>
      rw [hstage] at hbetween
      exact hbetween
    | leave rest hstage =>
      rw [hstage] at hbetween
      exact hbetween

theorem each_aborts_inPass {cfg : Settings} {es : List Event} : ∀ {s s' : ThreadState},
    exec (step cfg) s es = some s' → s'.stage = .stopped →
      Each (step cfg) StartsUnaborted s es → Each (step cfg) AbortsInPass s es := by
  induction es with
  | nil => exact fun _ _ _ => trivial
  | cons e es ih =>
    intro s s' h hstopped heach
    obtain ⟨m, hstep, hrest⟩ := exec_cons.mp h
    refine ⟨?_, fun m' hstep' => ?_⟩
    · rintro rfl hbetween
      have hlater := heach.2 m hstep
      cases hstep
      refine lost_abort ?_ ?_ hrest hstopped hlater
      · rfl
      · exact hbetween
    · obtain rfl : m = m' := Option.some.inj (hstep.symm.trans hstep')
      exact ih hrest hstopped (heach.2 m hstep)

/-- No pass starts after an abort if every abort falls into a pass; in a run that has come to its
end the two are equivalent. -/
theorem abort_heeded_iff (cfg : Settings) {aborting : Bool} {sockets : IpVersion → List Datagram}
    {es : List Event} {s : ThreadState}
    (h : exec (step cfg) (.start cfg aborting sockets) es = some s) :
    (Each (step cfg) AbortsInPass (.start cfg aborting sockets) es →
      Each (step cfg) StartsUnaborted (.start cfg aborting sockets) es) ∧
    (s.stage = .stopped → Each (step cfg) StartsUnaborted (.start cfg aborting sockets) es →
      Each (step cfg) AbortsInPass (.start cfg aborting sockets) es) :=
  ⟨each_starts_unaborted (start_heeded cfg aborting sockets), each_aborts_inPass h⟩

/-- The abort comes while the first pass waits. -/
def waitingAbort : List Event := [.choose, .probe true true, .abort, .wakeup false, .leave]

theorem abort_heeded_waiting :
    ∃ s, exec (step twoPasses) (.start twoPasses false fun _ => []) waitingAbort = some s ∧
      (Each (step twoPasses) AbortsInPass (.start twoPasses false fun _ => []) waitingAbort →
        Each (step twoPasses) StartsUnaborted (.start twoPasses false fun _ => []) waitingAbort) ∧
      (s.stage = .stopped →
        Each (step twoPasses) StartsUnaborted (.start twoPasses false fun _ => []) waitingAbort →
        Each (step twoPasses) AbortsInPass (.start twoPasses false fun _ => []) waitingAbort) :=
  ⟨_, rfl, abort_heeded_iff twoPasses rfl⟩

/-- The abort comes after the test that follows the first pass, and the second one starts. -/
theorem abort_between_passes :
    ¬ ∀ (cfg : Settings) (aborting : Bool) (sockets : IpVersion → List Datagram) (es : List Event)
      (s : ThreadState), exec (step cfg) (.start cfg aborting sockets) es = some s →
      Each (step cfg) StartsUnaborted (.start cfg aborting sockets) es := by
  intro h
  have heach := h twoPasses false (fun _ => [])
    [.choose, .probe true true, .wakeup true, .leave, .abort, .choose] _ rfl
  have hlast := (((((heach.2 _ rfl).2 _ rfl).2 _ rfl).2 _ rfl).2 _ rfl).1 rfl trivial
  exact Bool.false_ne_true hlast.symm

end SnmpB.Discovery
