import SnmpB.Library.Runs

/-! # Handles that a reload makes invalid

A store hands out handles and is reloaded from time to time. A handle belongs to
the epoch in which it was obtained. The machine holds at most one handle across
its steps, and logs every dereference with the epoch of the handle and the epoch
in which it takes place.
-/
namespace SnmpB.Epoch
open Runs

structure Deref where
  obtained : ℕ
  current : ℕ
  deriving DecidableEq, Repr

def Deref.Fresh (d : Deref) : Prop := d.obtained = d.current

instance (d : Deref) : Decidable d.Fresh := inferInstanceAs (Decidable (_ = _))

def AllFresh (log : List Deref) : Prop := ∀ d ∈ log, d.Fresh

instance (log : List Deref) : Decidable (AllFresh log) :=
  inferInstanceAs (Decidable (∀ d ∈ log, d.Fresh))

@[simp] theorem allFresh_nil : AllFresh [] := by
  intro d hd
  cases hd

@[simp] theorem allFresh_append {log log' : List Deref} :
    AllFresh (log ++ log') ↔ AllFresh log ∧ AllFresh log' := List.forall_mem_append

@[simp] theorem allFresh_singleton {d : Deref} : AllFresh [d] ↔ d.Fresh := List.forall_mem_singleton

variable {σ ε : Type*}

/-- What the steps do to the epoch, to the handle held and to the log, as long as an invariant
holds. A step that obtains a handle may end without one, and any step may drop it. -/
structure Tracked (step : σ → ε → Option σ) (I : σ → Prop) (epoch : σ → ℕ) (held : σ → Option ℕ)
    (log : σ → List Deref) (Reloads Uses : σ → ε → Prop) (Obtains : ε → Prop) : Prop where
  invariant : ∀ {s s' e}, I s → step s e = some s' → I s'
  reload : ∀ {s s' e}, I s → step s e = some s' → Reloads s e → epoch s < epoch s' ∧ ¬ Obtains e
  keep : ∀ {s s' e}, I s → step s e = some s' → ¬ Reloads s e → epoch s' = epoch s
  obtain : ∀ {s s' e}, I s → step s e = some s' → Obtains e → ∀ g ∈ held s', g = epoch s'
  carry : ∀ {s s' e}, I s → step s e = some s' → ¬ Obtains e → ∀ g ∈ held s', g ∈ held s
  use : ∀ {s e}, I s → Uses s e → (held s).isSome
  logged : ∀ {s s' e}, I s → step s e = some s' →
    (AllFresh (log s') ↔ AllFresh (log s) ∧ (Uses s e → ∀ g ∈ held s, g = epoch s))

variable {step : σ → ε → Option σ} {I : σ → Prop} {epoch : σ → ℕ} {held : σ → Option ℕ}
  {log : σ → List Deref} {Reloads Uses : σ → ε → Prop} {Obtains : ε → Prop}

variable (step) (Reloads) (Obtains) in
/-- The run reloads the store and does not obtain a handle afterwards. -/
def ReloadedSince (s : σ) (es : List ε) : Prop :=
  ∃ before r mid m, es = before ++ r :: mid ∧ exec step s before = some m ∧ Reloads m r ∧
    ∀ e ∈ mid, ¬ Obtains e

theorem reloadedSince_snoc {s m : σ} {es : List ε} {e : ε} (h : exec step s es = some m) :
    ReloadedSince step Reloads Obtains s (es ++ [e]) ↔
      Reloads m e ∨ (¬ Obtains e ∧ ReloadedSince step Reloads Obtains s es) := by
  constructor
  · rintro ⟨before, r, mid, k, heq, hk, hr, hmid⟩
    rcases List.eq_nil_or_concat mid with rfl | ⟨mid, e', rfl⟩
    · obtain ⟨rfl, hlast⟩ := List.append_inj' heq rfl
      obtain rfl := List.singleton_inj.mp hlast
      obtain rfl : m = k := Option.some.inj (h.symm.trans hk)
      exact Or.inl hr
    · rw [List.concat_eq_append, ← List.cons_append, ← List.append_assoc] at heq
      obtain ⟨rfl, hlast⟩ := List.append_inj' heq rfl
      obtain rfl := List.singleton_inj.mp hlast
      refine Or.inr ⟨hmid e (by simp), before, r, mid, k, rfl, hk, hr, fun e' he' => ?_⟩
      exact hmid e' (by simp [he'])
  · rintro (hr | ⟨he, before, r, mid, k, rfl, hk, hr, hmid⟩)
    · refine ⟨es, e, [], m, rfl, h, hr, fun e' he' => ?_⟩
      cases he'
    · refine ⟨before, r, mid ++ [e], k, by simp, hk, hr, fun e' he' => ?_⟩
      rcases List.mem_append.mp he' with he' | he'
      · exact hmid e' he'
      · obtain rfl := List.mem_singleton.mp he'
        exact he

namespace Tracked

theorem held_le (ht : Tracked step I epoch held log Reloads Uses Obtains) {s s' : σ} {e : ε} (hI : I s)
    (hle : ∀ g ∈ held s, g ≤ epoch s) (h : step s e = some s') : ∀ g ∈ held s', g ≤ epoch s' := by
  intro g hg
  by_cases hobtains : Obtains e
  · exact (ht.obtain hI h hobtains g hg).le
  · have hbefore := hle g (ht.carry hI h hobtains g hg)
    by_cases hreloads : Reloads s e
    · exact hbefore.trans (ht.reload hI h hreloads).1.le
    · rw [ht.keep hI h hreloads]
      exact hbefore

/-- The handle held behind a run is of the current epoch exactly if the store was not reloaded
since it was obtained. -/
theorem held_fresh_iff (ht : Tracked step I epoch held log Reloads Uses Obtains) {s : σ} (hI : I s)
    (hfresh : ∀ g ∈ held s, g = epoch s) {es : List ε} {s' : σ} (h : exec step s es = some s') :
    (∀ g ∈ held s', g = epoch s') ↔ (held s').isSome → ¬ ReloadedSince step Reloads Obtains s es := by
  induction es using List.reverseRecOn generalizing s' with
  | nil =>
    cases h
    refine iff_of_true hfresh fun _ => ?_
    rintro ⟨before, r, mid, m, heq, -⟩
    cases before <;> cases heq
  | append_singleton es e ih =>
    obtain ⟨m, hm, hstep⟩ := exec_snoc.mp h
    have hIm : I m := exec_invariant (fun _ _ _ hI h => ht.invariant hI h) hI hm
    have hle : ∀ g ∈ held m, g ≤ epoch m :=
      (exec_invariant (P := fun s => I s ∧ ∀ g ∈ held s, g ≤ epoch s)
        (fun _ _ _ hs h => ⟨ht.invariant hs.1 h, ht.held_le hs.1 hs.2 h⟩)
        ⟨hI, fun g hg => (hfresh g hg).le⟩ hm).2
    rw [reloadedSince_snoc hm]
    by_cases hobtains : Obtains e
    · refine iff_of_true (ht.obtain hIm hstep hobtains) fun _ => ?_
      rintro (hreloads | ⟨hno, -⟩)
      · exact (ht.reload hIm hstep hreloads).2 hobtains
      · exact hno hobtains
    · have hcarry := ht.carry hIm hstep hobtains
      by_cases hreloads : Reloads m e
      · have hlt := (ht.reload hIm hstep hreloads).1
        constructor
        · intro hall hsome
          obtain ⟨g, hg⟩ := Option.isSome_iff_exists.mp hsome
          have := hle g (hcarry g hg)
          have := hall g hg
          omega
        · intro hno g hg
          exact absurd (Or.inl hreloads) (hno (Option.isSome_iff_exists.mpr ⟨g, hg⟩))
      · rw [ht.keep hIm hstep hreloads]
        constructor
        · rintro hall hsome (hyes | ⟨-, hsince⟩)
          · exact hreloads hyes
          · obtain ⟨g, hg⟩ := Option.isSome_iff_exists.mp hsome
            have hgm := hcarry g hg
            refine (ih hm).mp (fun g' hg' => ?_) (Option.isSome_iff_exists.mpr ⟨g, hgm⟩) hsince
            obtain rfl : g = g' := Option.some.inj (hgm.symm.trans hg')
            exact hall g hg
        · intro hno g hg
          have hgm := hcarry g hg
          refine (ih hm).mpr (fun _ hsince => ?_) g hgm
          exact hno (Option.isSome_iff_exists.mpr ⟨g, hg⟩) (Or.inr ⟨hobtains, hsince⟩)

theorem allFresh_iff_each (ht : Tracked step I epoch held log Reloads Uses Obtains) {s s' : σ} (hI : I s)
    {es : List ε} (h : exec step s es = some s') :
    AllFresh (log s') ↔
      AllFresh (log s) ∧ Each step (fun m u => Uses m u → ∀ g ∈ held m, g = epoch m) s es := by
  induction es generalizing s with
  | nil =>
    cases h
    exact (and_iff_left trivial).symm
  | cons e es ih =>
    obtain ⟨m, hm, hrest⟩ := exec_cons.mp h
    rw [ih (ht.invariant hI hm) hrest, ht.logged hI hm, each_cons hm, and_assoc]

/-- Main result: every dereference of a run is fresh exactly if no step uses the handle after a
reload without a handle obtained in between. -/
theorem allFresh_iff (ht : Tracked step I epoch held log Reloads Uses Obtains) {s : σ} (hI : I s)
    (hfresh : ∀ g ∈ held s, g = epoch s) (hlog : AllFresh (log s)) {es : List ε} {s' : σ}
    (h : exec step s es = some s') :
    AllFresh (log s') ↔ ∀ before u after m, es = before ++ u :: after → exec step s before = some m →
      Uses m u → ¬ ReloadedSince step Reloads Obtains s before := by
  rw [ht.allFresh_iff_each hI h, and_iff_right hlog, each_iff_split]
  refine forall_congr' fun before => forall_congr' fun u => forall_congr' fun after =>
    forall_congr' fun m => ?_
  refine forall_congr' fun _ => forall_congr' fun hm => forall_congr' fun huse => ?_
  have hIm : I m := exec_invariant (fun _ _ _ hI h => ht.invariant hI h) hI hm
  rw [ht.held_fresh_iff hI hfresh hm]
  exact forall_prop_of_true (ht.use hIm huse)

/-- It is enough that the store is never reloaded while a handle is held. -/
theorem allFresh_of_each (ht : Tracked step I epoch held log Reloads Uses Obtains) {s : σ} (hI : I s)
    (hfresh : ∀ g ∈ held s, g = epoch s) (hlog : AllFresh (log s)) {es : List ε}
    (hnone : Each step (fun m e => Reloads m e → held m = none) s es) {s' : σ}
    (h : exec step s es = some s') : AllFresh (log s') := by
  have hkept := exec_invariant_of (P := fun m => I m ∧ (∀ g ∈ held m, g = epoch m) ∧ AllFresh (log m))
    ?_ hnone ⟨hI, hfresh, hlog⟩ h
  · exact hkept.2.2
  · rintro m e m' ⟨hIm, hm, hlogm⟩ hcond hstep
    refine ⟨ht.invariant hIm hstep, ?_, (ht.logged hIm hstep).mpr ⟨hlogm, fun _ => hm⟩⟩
    intro g hg
    by_cases hobtains : Obtains e
    · exact ht.obtain hIm hstep hobtains g hg
    · have hbefore := ht.carry hIm hstep hobtains g hg
      by_cases hreloads : Reloads m e
      · rw [hcond hreloads] at hbefore
        cases hbefore
      · rw [ht.keep hIm hstep hreloads]
        exact hm g hbefore

end Tracked

end SnmpB.Epoch
