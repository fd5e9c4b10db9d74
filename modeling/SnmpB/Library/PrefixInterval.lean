import Mathlib.Data.List.Lex
import Mathlib.Data.List.TakeWhile
import Mathlib.Order.Lattice

/-! # Prefixes in the lexicographic order

The lists that extend a root form an interval of the lexicographic order. In a
strictly sorted list of keys they are therefore one block, and a scan that has
left the block never meets it again.
-/
namespace SnmpB.PrefixInterval

variable {α : Type*} [LinearOrder α]

theorem root_lt {root x : List α} (h : root <+: x) (hne : x ≠ root) : root < x := by
  obtain ⟨rest, rfl⟩ := h
  induction root with
  | nil =>
    cases rest with
    | nil => exact absurd rfl hne
    | cons y rest => exact List.nil_lt_cons y rest
  | cons a root ih =>
    rw [List.cons_append, List.cons_lt_cons_iff]
    refine Or.inr ⟨rfl, ih ?_⟩
    intro heq
    apply hne
    rw [List.cons_append, heq]

theorem root_le {root x : List α} (h : root <+: x) : root ≤ x := by
  by_cases hne : x = root
  · exact hne.ge
  · exact (root_lt h hne).le

/-- What lies between a root and one of its extensions extends the root. -/
theorem isPrefix_of_between {root y z : List α} (hz : root <+: z) (hy : root < y) (hyz : y < z) :
    root <+: y := by
  induction root generalizing y z with
  | nil => exact List.nil_prefix
  | cons a root ih =>
    obtain ⟨rest, rfl⟩ := hz
    cases y with
    | nil => exact absurd hy (List.not_lt_nil _)
    | cons b y =>
      rw [List.cons_lt_cons_iff] at hy
      rw [List.cons_append, List.cons_lt_cons_iff] at hyz
      rcases hy with hab | ⟨rfl, hy⟩
      · rcases hyz with hba | ⟨rfl, -⟩
        · exact absurd (hab.trans hba) (lt_irrefl a)
        · exact absurd hab (lt_irrefl _)
      · rcases hyz with haa | ⟨-, hyz⟩
        · exact absurd haa (lt_irrefl a)
        · exact List.prefix_cons_inj a |>.mpr (ih ⟨rest, rfl⟩ hy hyz)

theorem append_lt_append_iff (root : List α) {x y : List α} : root ++ x < root ++ y ↔ x < y := by
  induction root with
  | nil => exact Iff.rfl
  | cons a root ih =>
    rw [List.cons_append, List.cons_append, List.cons_lt_cons_iff, ih]
    exact ⟨fun h => h.elim (fun hlt => absurd hlt (lt_irrefl a)) And.right, fun h => Or.inr ⟨rfl, h⟩⟩

theorem append_singleton_lt {root x y : List α} {a b : α} (hab : a < b) (hx : root ++ [a] <+: x)
    (hy : root ++ [b] <+: y) : x < y := by
  obtain ⟨x, rfl⟩ := hx
  obtain ⟨y, rfl⟩ := hy
  rw [List.append_assoc, List.append_assoc, append_lt_append_iff, List.singleton_append,
    List.singleton_append, List.cons_lt_cons_iff]
  exact Or.inl hab

/-- What extends one of two neighbours is what stands from the one up to the other. -/
theorem isPrefix_iff_lt_succ {root x : List ℕ} {i : ℕ} (h : root ++ [i] ≤ x) :
    root ++ [i] <+: x ↔ x < root ++ [i + 1] := by
  refine ⟨fun hx => append_singleton_lt (Nat.lt_succ_self i) hx List.prefix_rfl, fun hlt => ?_⟩
  rw [← not_lt] at h
  induction root generalizing x with
  | nil =>
    cases x with
    | nil => exact absurd (List.nil_lt_cons i []) h
    | cons j x =>
      rw [List.nil_append, List.cons_lt_cons_iff] at h hlt
      have hle : j < i + 1 := hlt.resolve_right fun heq => List.not_lt_nil _ heq.2
      obtain rfl : i = j := by omega
      exact ⟨x, rfl⟩
  | cons a root ih =>
    cases x with
    | nil => exact absurd (List.nil_lt_cons a _) h
    | cons b x =>
      rw [List.cons_append, List.cons_lt_cons_iff] at h hlt
      obtain ⟨hba, hrest⟩ := not_or.mp h
      obtain ⟨rfl, hbelow⟩ := hlt.resolve_left hba
      exact (List.prefix_cons_inj b).mpr (ih (fun hx => hrest ⟨rfl, hx⟩) hbelow)

theorem mem_dropWhile_ne {xs : List α} (h : xs.Pairwise (· < ·)) {x : α} (hx : x ∈ xs) {p : α → Bool}
    (hp : ∀ y, p y = true ↔ y ≠ x) {z : α} : z ∈ xs.dropWhile p ↔ z ∈ xs ∧ x ≤ z := by
  induction xs with
  | nil => simp
  | cons y xs ih =>
    obtain ⟨hy, hxs⟩ := List.pairwise_cons.mp h
    by_cases heq : y = x
    · subst heq
      rw [List.dropWhile_cons_of_neg (by simp [hp])]
      refine ⟨fun hz => ⟨hz, ?_⟩, And.left⟩
      rcases List.mem_cons.mp hz with rfl | hz
      · exact le_rfl
      · exact (hy z hz).le
    · have hmem : x ∈ xs := (List.mem_cons.mp hx).resolve_left (Ne.symm heq)
      rw [List.dropWhile_cons_of_pos ((hp y).mpr heq), ih hxs hmem, List.mem_cons]
      refine and_congr_left fun hle => ⟨Or.inr, fun hz => hz.resolve_left ?_⟩
      rintro rfl
      exact absurd (hy x hmem) hle.not_gt

theorem mem_takeWhile_ne {xs : List α} (h : xs.Pairwise (· < ·)) {x : α} (hx : x ∈ xs) {p : α → Bool}
    (hp : ∀ y, p y = true ↔ y ≠ x) {z : α} : z ∈ xs.takeWhile p ↔ z ∈ xs ∧ z < x := by
  induction xs with
  | nil => simp
  | cons y xs ih =>
    obtain ⟨hy, hxs⟩ := List.pairwise_cons.mp h
    by_cases heq : y = x
    · subst heq
      rw [List.takeWhile_cons_of_neg (by simp [hp])]
      refine iff_of_false List.not_mem_nil fun hz => ?_
      rcases List.mem_cons.mp hz.1 with rfl | hmem
      · exact lt_irrefl _ hz.2
      · exact (hy z hmem).asymm hz.2
    · have hmem : x ∈ xs := (List.mem_cons.mp hx).resolve_left (Ne.symm heq)
      rw [List.takeWhile_cons_of_pos ((hp y).mpr heq), List.mem_cons, List.mem_cons, ih hxs hmem, or_and_right]
      exact or_congr_left ⟨fun hz => ⟨hz, hz ▸ hy x hmem⟩, And.left⟩

variable {ι : Type*}

theorem find?_le {β : Type*} [Preorder β] {key : ι → β} {p : ι → Bool} {xs : List ι}
    (h : xs.Pairwise fun a b => key a ≤ key b) {x y : ι} (hx : xs.find? p = some x) (hy : y ∈ xs)
    (hp : p y = true) : key x ≤ key y := by
  obtain ⟨-, before, after, rfl, hbefore⟩ := List.find?_eq_some_iff_append.mp hx
  obtain ⟨-, hafter, -⟩ := List.pairwise_append.mp h
  rcases List.mem_append.mp hy with hmem | hmem
  · have hnot := hbefore y hmem
    rw [hp] at hnot
    cases hnot
  · rcases List.mem_cons.mp hmem with rfl | hmem
    · exact le_rfl
    · exact (List.pairwise_cons.mp hafter).1 y hmem

/-- Where the block comes first, selecting it is cutting the list where it ends. -/
theorem filter_eq_takeWhile {p : ι → Bool} {xs : List ι}
    (h : xs.Pairwise fun a b => p b = true → p a = true) : xs.filter p = xs.takeWhile p := by
  induction xs with
  | nil => rfl
  | cons x xs ih =>
    obtain ⟨hx, hxs⟩ := List.pairwise_cons.mp h
    cases hp : p x with
    | true => rw [List.filter_cons_of_pos hp, List.takeWhile_cons_of_pos hp, ih hxs]
    | false =>
      have hnone : xs.filter p = [] := by
        rw [List.filter_eq_nil_iff]
        intro y hy hpy
        rw [hx y hy hpy] at hp
        cases hp
      rw [List.filter_cons_of_neg (by simp [hp]), List.takeWhile_cons_of_neg (by simp [hp]), hnone]

theorem filter_lt_eq {β : Type*} [Preorder β] [DecidableLT β] {key : ι → β} {before after : List ι} {x : ι}
    (h : (before ++ x :: after).Pairwise fun a b => key a < key b) :
    (before ++ x :: after).filter (fun y => decide (key x < key y)) = after := by
  obtain ⟨-, hrest, hcross⟩ := List.pairwise_append.mp h
  obtain ⟨hx, -⟩ := List.pairwise_cons.mp hrest
  have hbefore : before.filter (fun y => decide (key x < key y)) = [] := by
    rw [List.filter_eq_nil_iff]
    intro y hy
    simpa using (hcross y hy x List.mem_cons_self).asymm
  have hafter : after.filter (fun y => decide (key x < key y)) = after := by
    rw [List.filter_eq_self]
    intro y hy
    simpa using hx y hy
  rw [List.filter_append, hbefore, List.nil_append, List.filter_cons_of_neg (by simp), hafter]

end SnmpB.PrefixInterval
