import Mathlib.Data.List.Basic
import Mathlib.Order.Basic
import Mathlib.Order.Lattice
import Mathlib.Data.List.Induction

/-! # A running best over candidates with several scores

A scan keeps the best score seen so far and the candidate that gave it. Every
candidate lists its scores in an order of its own, and only the first one above
the running best is taken: a better score further down the list is lost.
-/
namespace SnmpB.RunningBest

variable {ι α : Type*} [LinearOrder α] (scores : ι → List α)

def offer (best : Option ι × α) (i : ι) : Option ι × α :=
  match (scores i).find? (fun s => decide (best.2 < s)) with
  | some s => (some i, s)
  | none => best

/-- What the candidates lift the running best to: one of them lists a score as high, and the lower
scores in front of it are covered by the candidates before. -/
inductive Covered (start : α) : List ι → α → Prop
  | start {items : List ι} {t : α} (hle : t ≤ start) : Covered start items t
  | listed {before after : List ι} {i : ι} {front back : List α} {s t : α}
      (hscores : scores i = front ++ s :: back) (hle : t ≤ s)
      (hfront : ∀ r ∈ front, r < t → Covered start before r) : Covered start (before ++ i :: after) t

/-- What keeps a candidate from winning: each of its scores is covered before, stands behind one that
is not, or is below a score listed later. -/
def Beaten (start : α) (before : List ι) (w : ι) (after : List ι) : Prop :=
  ∀ front s back, scores w = front ++ s :: back →
    Covered scores start before s ∨ (∃ r ∈ front, ¬Covered scores start before r) ∨
      ∃ i ∈ after, ∃ x ∈ scores i, s < x

variable {scores}

theorem offer_of_le {best : Option ι × α} {i : ι} (h : ∀ s ∈ scores i, s ≤ best.2) :
    offer scores best i = best := by
  have hnone : (scores i).find? (fun s => decide (best.2 < s)) = none := by
    rw [List.find?_eq_none]
    intro s hs
    simpa using h s hs
  rw [offer, hnone]

theorem offer_of_listed {best : Option ι × α} {i : ι} {front back : List α} {s : α}
    (hscores : scores i = front ++ s :: back) (hfront : ∀ r ∈ front, r ≤ best.2) (hlt : best.2 < s) :
    offer scores best i = (some i, s) := by
  have hfind : (scores i).find? (fun s => decide (best.2 < s)) = some s := by
    rw [hscores, List.find?_append, List.find?_cons_of_pos (by simpa using hlt)]
    have hnone : front.find? (fun s => decide (best.2 < s)) = none := by
      rw [List.find?_eq_none]
      intro r hr
      simpa using hfront r hr
    rw [hnone, Option.none_or]
  rw [offer, hfind]

variable (scores) in
/-- An offer changes nothing, or takes the first score above the running best. -/
theorem offer_cases (best : Option ι × α) (i : ι) :
    (offer scores best i = best ∧ ∀ s ∈ scores i, s ≤ best.2) ∨
    ∃ front s back, offer scores best i = (some i, s) ∧ scores i = front ++ s :: back ∧
      (∀ r ∈ front, r ≤ best.2) ∧ best.2 < s := by
  cases hfind : (scores i).find? (fun s => decide (best.2 < s)) with
  | none =>
    have hle : ∀ s ∈ scores i, s ≤ best.2 := by
      intro s hs
      simpa using List.find?_eq_none.mp hfind s hs
    exact Or.inl ⟨offer_of_le hle, hle⟩
  | some s =>
    obtain ⟨habove, front, back, hscores, hfront⟩ := List.find?_eq_some_iff_append.mp hfind
    refine Or.inr ⟨front, s, back, by rw [offer, hfind], hscores, ?_, by simpa using habove⟩
    intro r hr
    simpa using hfront r hr

variable (scores) in
theorem le_offer (best : Option ι × α) (i : ι) : best.2 ≤ (offer scores best i).2 := by
  rcases offer_cases scores best i with ⟨hsame, -⟩ | ⟨-, s, -, htaken, -, -, hlt⟩
  · rw [hsame]
  · rw [htaken]
    exact hlt.le

variable (scores) in
theorem le_foldl_offer (best : Option ι × α) (items : List ι) :
    best.2 ≤ (items.foldl (offer scores) best).2 := by
  induction items generalizing best with
  | nil => exact le_refl _
  | cons i items ih => exact (le_offer scores best i).trans (ih _)

theorem foldl_offer_of_le {best : Option ι × α} {items : List ι}
    (h : ∀ i ∈ items, ∀ s ∈ scores i, s ≤ best.2) : items.foldl (offer scores) best = best := by
  induction items with
  | nil => rfl
  | cons i items ih =>
    rw [List.foldl_cons, offer_of_le (h i List.mem_cons_self)]
    exact ih (fun j hj => h j (List.mem_cons_of_mem i hj))

/-- A scan ends with nothing only where no score is above the start. -/
theorem foldl_offer_none {start : α} {items : List ι} (h : (items.foldl (offer scores) (none, start)).1 = none) :
    (items.foldl (offer scores) (none, start)).2 = start ∧ ∀ i ∈ items, ∀ s ∈ scores i, s ≤ start := by
  induction items using List.reverseRecOn with
  | nil => exact ⟨rfl, fun i hi => absurd hi List.not_mem_nil⟩
  | append_singleton items j ih =>
    rw [List.foldl_concat] at h ⊢
    rcases offer_cases scores (items.foldl (offer scores) (none, start)) j with
      ⟨hsame, hle⟩ | ⟨-, x, -, htaken, -, -, -⟩
    · rw [hsame] at h ⊢
      obtain ⟨hbest, hbelow⟩ := ih h
      refine ⟨hbest, fun i hi s hs => ?_⟩
      rcases List.mem_append.mp hi with hi | hi
      · exact hbelow i hi s hs
      · obtain rfl := List.mem_singleton.mp hi
        exact hbest ▸ hle s hs
    · rw [htaken] at h
      cases h

theorem Covered.append {start t : α} {items : List ι} (h : Covered scores start items t) (more : List ι) :
    Covered scores start (items ++ more) t := by
  cases h with
  | start hle => exact .start hle
  | listed hscores hle hfront =>
    rw [List.append_assoc, List.cons_append]
    exact .listed hscores hle hfront

theorem le_offer_of_listed {best : Option ι × α} {i : ι} {front back : List α} {s t : α}
    (hscores : scores i = front ++ s :: back) (hle : t ≤ s) (hfront : ∀ r ∈ front, r < t → r ≤ best.2) :
    t ≤ (offer scores best i).2 := by
  by_cases hbest : t ≤ best.2
  · exact hbest.trans (le_offer scores best i)
  · cases hfind : front.find? fun s => decide (best.2 < s) with
    | none =>
      have hbelow : ∀ r ∈ front, r ≤ best.2 := by
        intro r hr
        simpa using List.find?_eq_none.mp hfind r hr
      rw [offer_of_listed hscores hbelow ((not_le.mp hbest).trans_le hle)]
      exact hle
    | some x =>
      have habove : best.2 < x := by simpa using List.find?_some hfind
      have htaken : offer scores best i = (some i, x) := by
        rw [offer, hscores, List.find?_append, hfind, Option.some_or]
      rw [htaken]
      by_contra hnot
      exact absurd (hfront x (List.mem_of_find?_eq_some hfind) (not_le.mp hnot)) (not_le.mpr habove)

theorem Covered.le {best : Option ι × α} {items : List ι} {t : α} (h : Covered scores best.2 items t) :
    t ≤ (items.foldl (offer scores) best).2 := by
  induction h with
  | start hle => exact hle.trans (le_foldl_offer scores best _)
  | listed hscores hle _ ih =>
    rw [List.foldl_append, List.foldl_cons]
    exact (le_offer_of_listed hscores hle ih).trans (le_foldl_offer scores _ _)

/-- The running best behind the candidates is as high as what they cover. -/
theorem covered_iff {best : Option ι × α} {items : List ι} {t : α} :
    Covered scores best.2 items t ↔ t ≤ (items.foldl (offer scores) best).2 := by
  refine ⟨Covered.le, ?_⟩
  induction items using List.reverseRecOn generalizing t with
  | nil => exact fun hle => .start hle
  | append_singleton items i ih =>
    intro hle
    rw [List.foldl_concat] at hle
    rcases offer_cases scores (items.foldl (offer scores) best) i with
      ⟨hsame, -⟩ | ⟨front, s, back, htaken, hscores, hfront, -⟩
    · rw [hsame] at hle
      exact (ih hle).append [i]
    · rw [htaken] at hle
      exact .listed hscores hle fun r hr _ => ih (hfront r hr)

theorem foldl_offer_taken {start : α} {items : List ι} {w : ι}
    (h : (items.foldl (offer scores) (none, start)).1 = some w) :
    ∃ before after front s back, items = before ++ w :: after ∧ scores w = front ++ s :: back ∧
      ¬Covered scores start before s ∧ (∀ r ∈ front, Covered scores start before r) ∧
      (∀ i ∈ after, ∀ x ∈ scores i, x ≤ s) ∧ (items.foldl (offer scores) (none, start)).2 = s := by
  induction items using List.reverseRecOn with
  | nil => cases h
  | append_singleton items i ih =>
    rw [List.foldl_concat] at h ⊢
    rcases offer_cases scores (items.foldl (offer scores) (none, start)) i with
      ⟨hsame, hbelow⟩ | ⟨front, s, back, htaken, hscores, hfront, hlt⟩
    · rw [hsame] at h ⊢
      obtain ⟨before, after, front, s, back, rfl, hscores, hnew, hfront, hafter, hbest⟩ := ih h
      refine ⟨before, after ++ [i], front, s, back, by simp, hscores, hnew, hfront, ?_, hbest⟩
      intro j hj x hx
      rcases List.mem_append.mp hj with hj | hj
      · exact hafter j hj x hx
      · obtain rfl := List.mem_singleton.mp hj
        exact hbest ▸ hbelow x hx
    · rw [htaken] at h ⊢
      obtain rfl : i = w := Option.some.inj h
      refine ⟨items, [], front, s, back, rfl, hscores, ?_, fun r hr => covered_iff.mpr (hfront r hr), ?_, rfl⟩
      · exact fun hcovered => absurd hcovered.le (not_le.mpr hlt)
      · exact fun j hj => absurd hj List.not_mem_nil

/-- The winner of a scan that starts with nothing is the candidate that is not beaten. -/
theorem foldl_offer_winner {start : α} {items : List ι} {w : ι} :
    (items.foldl (offer scores) (none, start)).1 = some w ↔
      ∃ before after, items = before ++ w :: after ∧ ¬Beaten scores start before w after := by
  simp only [Beaten, not_forall, not_or, not_exists, not_and, not_lt, not_not]
  constructor
  · intro h
    obtain ⟨before, after, front, s, back, hitems, hscores, hnew, hfront, hafter, -⟩ := foldl_offer_taken h
    exact ⟨before, after, hitems, front, s, back, hscores, hnew, hfront, hafter⟩
  · rintro ⟨before, after, rfl, front, s, back, hscores, hnew, hfront, hafter⟩
    have hlt : (before.foldl (offer scores) (none, start)).2 < s :=
      not_le.mp fun hle => hnew (covered_iff.mpr hle)
    rw [List.foldl_append, List.foldl_cons, offer_of_listed hscores (fun r hr => (hfront r hr).le) hlt,
      foldl_offer_of_le hafter]

end SnmpB.RunningBest
