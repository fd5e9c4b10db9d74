import Mathlib.Data.List.Basic

/-! # Feedback modes

What is sealed at each step depends on a state that the sealed output is fed back into. The
one who unseals sees the same output and so follows the same states.
-/
namespace SnmpB.Feedback

variable {σ α β : Type*} (f : σ → α → β) (g : σ → β → α) (feed : σ → β → σ)

def sealAll : σ → List α → List β
  | _, [] => []
  | s, a :: as => f s a :: sealAll (feed s (f s a)) as

def unsealAll : σ → List β → List α
  | _, [] => []
  | s, b :: bs => g s b :: unsealAll (feed s b) bs

variable {f g feed}

/-- Where every step can be undone, so can all of them. -/
theorem unsealAll_sealAll {P : σ → Prop} {Q : α → Prop} (hundo : ∀ s a, P s → Q a → g s (f s a) = a)
    (hfeed : ∀ s a, P s → Q a → P (feed s (f s a))) {s : σ} (hs : P s) {as : List α} (has : ∀ a ∈ as, Q a) :
    unsealAll g feed s (sealAll f feed s as) = as := by
  induction as generalizing s with
  | nil => rfl
  | cons a as ih =>
    have ha : Q a := has a List.mem_cons_self
    rw [sealAll, unsealAll, hundo s a hs ha]
    rw [ih (hfeed s a hs ha) fun b hb => has b (List.mem_cons_of_mem _ hb)]

theorem mem_sealAll {P : σ → Prop} {Q : α → Prop} {R : β → Prop} (hseal : ∀ s a, P s → Q a → R (f s a))
    (hfeed : ∀ s a, P s → Q a → P (feed s (f s a))) {s : σ} (hs : P s) {as : List α} (has : ∀ a ∈ as, Q a) :
    ∀ b ∈ sealAll f feed s as, R b := by
  induction as generalizing s with
  | nil => intro b hb; cases hb
  | cons a as ih =>
    intro b hb
    have ha : Q a := has a List.mem_cons_self
    rcases List.mem_cons.mp hb with rfl | hb
    · exact hseal s a hs ha
    · exact ih (hfeed s a hs ha) (fun c hc => has c (List.mem_cons_of_mem _ hc)) b hb

end SnmpB.Feedback
