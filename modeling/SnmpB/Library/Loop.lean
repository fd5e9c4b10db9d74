import Mathlib.Logic.Relation
import Mathlib.Data.Nat.Init

/-! # Loops that jump back or leave

A pass of a loop either jumps back with a new state or leaves with a result.
Termination is shown with a measure on the reachable states, divergence with an
invariant under which every pass jumps.
-/
namespace SnmpB.Loop

variable {σ ρ : Type*} (step : σ → σ ⊕ ρ)

def run : ℕ → σ → Option ρ
  | 0, _ => none
  | fuel + 1, s =>
    match step s with
    | .inl s' => run fuel s'
    | .inr r => some r

def Reaches : σ → σ → Prop := Relation.ReflTransGen fun s s' => step s = .inl s'

def Terminates (s : σ) : Prop := ∃ fuel r, run step fuel s = some r

variable {step}

/-- A loop seen through a function on its states. -/
theorem run_map {σ' ρ' : Type*} {step' : σ' → σ' ⊕ ρ'} (f : σ → σ') (g : ρ → ρ')
    (h : ∀ s, step' (f s) = (step s).map f g) (fuel : ℕ) (s : σ) :
    run step' fuel (f s) = (run step fuel s).map g := by
  induction fuel generalizing s with
  | zero => rfl
  | succ fuel ih =>
    rw [run, run, h]
    cases step s with
    | inl s' => exact ih s'
    | inr r => rfl

theorem run_mono {fuel more : ℕ} {s : σ} {r : ρ} (h : run step fuel s = some r) (hle : fuel ≤ more) :
    run step more s = some r := by
  induction fuel generalizing more s with
  | zero => cases h
  | succ fuel ih =>
    obtain ⟨more, rfl⟩ : ∃ k, more = k + 1 := ⟨more - 1, by omega⟩
    rw [run] at h ⊢
    cases hstep : step s with
    | inl s' =>
      rw [hstep] at h
      exact ih h (Nat.le_of_succ_le_succ hle)
    | inr r' =>
      rw [hstep] at h
      exact h

/-- What every jump keeps, and every way to leave turns into a fact about the result. -/
theorem run_invariant {P : σ → Prop} {Q : ρ → Prop} (hjump : ∀ s s', P s → step s = .inl s' → P s')
    (hleave : ∀ s r, P s → step s = .inr r → Q r) {fuel : ℕ} {s : σ} {r : ρ} (hs : P s)
    (h : run step fuel s = some r) : Q r := by
  induction fuel generalizing s with
  | zero => cases h
  | succ fuel ih =>
    rw [run] at h
    cases hstep : step s with
    | inl s' =>
      rw [hstep] at h
      exact ih (hjump s s' hs hstep) h
    | inr r' =>
      rw [hstep] at h
      obtain rfl := Option.some.inj h
      exact hleave s r' hs hstep

/-- What holds of every way to leave holds of the result. -/
theorem run_result {P : ρ → Prop} (hleave : ∀ s r, step s = .inr r → P r) {fuel : ℕ} {s : σ} {r : ρ}
    (h : run step fuel s = some r) : P r :=
  run_invariant (P := fun _ => True) (fun _ _ _ _ => trivial) (fun s r _ => hleave s r) trivial h

theorem Reaches.invariant {P : σ → Prop} (hstep : ∀ s s', P s → step s = .inl s' → P s') {s s' : σ}
    (h : Reaches step s s') (hs : P s) : P s' := by
  induction h with
  | refl => exact hs
  | tail _ hjump ih => exact hstep _ _ ih hjump

/-- The measure has to decrease on the reachable jumps only. -/
theorem terminates_of_measure (μ : σ → ℕ) {s : σ}
    (h : ∀ s', Reaches step s s' → ∀ s'', step s' = .inl s'' → μ s'' < μ s') : Terminates step s := by
  induction hn : μ s using Nat.strong_induction_on generalizing s with
  | _ n ih =>
    cases hstep : step s with
    | inr r => exact ⟨1, r, by simp only [run, hstep]⟩
    | inl s' =>
      have hlt := h s Relation.ReflTransGen.refl s' hstep
      obtain ⟨fuel, r, hrun⟩ := ih (μ s') (hn ▸ hlt)
        (fun t ht => h t (Relation.ReflTransGen.head hstep ht)) rfl
      exact ⟨fuel + 1, r, by simpa only [run, hstep] using hrun⟩

/-- The measure bounds the passes, and what leaves keeps what every way to leave has. -/
theorem run_of_measure {P : σ → Prop} {Q : ρ → Prop} (μ : σ → ℕ)
    (hjump : ∀ s s', P s → step s = .inl s' → P s' ∧ μ s' < μ s) (hleave : ∀ s r, P s → step s = .inr r → Q r)
    {fuel : ℕ} {s : σ} (hs : P s) (hfuel : μ s < fuel) : ∃ r, run step fuel s = some r ∧ Q r := by
  induction fuel generalizing s with
  | zero => exact (Nat.not_lt_zero _ hfuel).elim
  | succ fuel ih =>
    cases hstep : step s with
    | inl s' =>
      obtain ⟨hs', hlt⟩ := hjump s s' hs hstep
      obtain ⟨r, hrun, hr⟩ := ih hs' (by omega)
      exact ⟨r, by rw [run, hstep]; exact hrun, hr⟩
    | inr r => exact ⟨r, by rw [run, hstep], hleave s r hs hstep⟩

theorem not_terminates_of_invariant {P : σ → Prop} (hstep : ∀ s, P s → ∃ s', step s = .inl s' ∧ P s')
    {s : σ} (hs : P s) : ¬ Terminates step s := by
  have hnone : ∀ fuel s, P s → run step fuel s = none := by
    intro fuel
    induction fuel with
    | zero => exact fun _ _ => rfl
    | succ fuel ih =>
      intro s hs
      obtain ⟨s', hjump, hs'⟩ := hstep s hs
      simpa only [run, hjump] using ih s' hs'
  rintro ⟨fuel, r, hrun⟩
  rw [hnone fuel s hs] at hrun
  cases hrun

end SnmpB.Loop
