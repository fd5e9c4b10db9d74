import Mathlib.Data.List.Chain
import Mathlib.Data.List.Nodup
import SnmpB.Library.Loop

/-! # Searching once around a list

An iterator goes on behind the last member of a list at its first. A search that begins
behind a member and stops when it is back finds the first of the others, in the order of
the round, that it looks for.
-/
namespace SnmpB.Round

variable {ι : Type*} [DecidableEq ι]

/-- What an iterator at a member meets next. -/
def following (items : List ι) (it : ι) : Option ι := (items.dropWhile (fun x => x ≠ it)).tail.head?

def advance (items : List ι) (it : ι) : Option ι := (following items it).or items.head?

/-- One pass of a search that is left at `start`. -/
def pass (next : ι → Option ι) (found : ι → Bool) (start : ι) : Option ι → Option ι ⊕ Option ι
  | none => .inr none
  | some cur => if cur = start then .inr none else if found cur then .inr (some cur) else .inl (next cur)

variable {items before after : List ι} {start : ι}

theorem following_middle (h : start ∉ before) (after : List ι) :
    following (before ++ start :: after) start = after.head? := by
  have hdrop : (before ++ start :: after).dropWhile (fun x => x ≠ start) = start :: after := by
    rw [List.dropWhile_append_of_pos, List.dropWhile_cons_of_neg (by simp)]
    intro x hx
    exact decide_eq_true fun heq => h (heq ▸ hx)
  rw [following, hdrop, List.tail_cons]

omit [DecidableEq ι] in
theorem not_mem_before (h : (before ++ start :: after).Nodup) : start ∉ before :=
  fun hmem => (List.nodup_append.mp h).2.2 start hmem start List.mem_cons_self rfl

theorem isChain_following (h : items.Nodup) : items.IsChain fun x y => following items x = some y := by
  have hsuffix : ∀ before after, items = before ++ after → after.IsChain fun x y => following items x = some y := by
    intro before after hitems
    induction after generalizing before with
    | nil => exact List.IsChain.nil
    | cons x after ih =>
      have hrest := ih (before ++ [x]) (by rw [hitems, List.append_assoc, List.singleton_append])
      cases after with
      | nil => exact List.IsChain.singleton x
      | cons y after =>
        have hx : x ∉ before := by
          rw [hitems] at h
          exact not_mem_before h
        refine List.isChain_cons_cons.mpr ⟨?_, hrest⟩
        rw [hitems, following_middle hx, List.head?_cons]
  exact hsuffix [] items rfl

/-- The round from a member on back to itself. -/
theorem isChain_advance (h : items.Nodup) (hitems : items = before ++ start :: after) :
    (start :: (after ++ before) ++ [start]).IsChain fun x y => advance items x = some y := by
  have hchain : items.IsChain fun x y => advance items x = some y := by
    refine (isChain_following h).imp fun x y hxy => ?_
    rw [advance, hxy, Option.some_or]
  have hjoin : ∀ x ∈ (start :: after).getLast?, ∀ y ∈ (before ++ [start]).head?, advance items x = some y := by
    intro x hx y hy
    obtain ⟨front, hfront⟩ := List.getLast?_eq_some_iff.mp hx
    have hlast : items = (before ++ front) ++ [x] := by rw [hitems, hfront, List.append_assoc]
    have hnot : x ∉ before ++ front := by
      rw [hlast] at h
      exact not_mem_before h
    have hhead : items.head? = (before ++ [start]).head? := by
      rw [hitems, List.head?_append, List.head?_append]
      rfl
    have hend : following items x = none := by rw [hlast, following_middle hnot, List.head?_nil]
    rw [advance, hend, Option.none_or, hhead]
    exact hy
  have hsplit : start :: (after ++ before) ++ [start] = (start :: after) ++ (before ++ [start]) := by simp
  rw [hsplit, List.isChain_append]
  have hright : (before ++ (start :: after)).IsChain fun x y => advance items x = some y := by
    rw [← hitems]
    exact hchain
  have hleft : ((before ++ [start]) ++ after).IsChain fun x y => advance items x = some y := by
    rw [← List.append_cons]
    exact hright
  exact ⟨hright.right_of_append, hleft.left_of_append, hjoin⟩

/-- The search ends after at most one round. -/
theorem run_pass {next : ι → Option ι} (found : ι → Bool) {others : List ι} (hstart : start ∉ others)
    (hchain : (others ++ [start]).IsChain fun x y => next x = some y) :
    Loop.run (pass next found start) (others.length + 1) (others ++ [start]).head? = some (others.find? found) := by
  induction others with
  | nil => simp [Loop.run, pass]
  | cons cur others ih =>
    obtain ⟨hne, hothers⟩ := not_or.mp (List.mem_cons.not.mp hstart)
    rw [List.cons_append] at hchain
    have hrest := ih hothers hchain.tail
    rw [List.cons_append, List.head?_cons, List.length_cons, Loop.run, pass, if_neg (Ne.symm hne), List.find?_cons]
    cases hfound : found cur with
    | true => rfl
    | false =>
      have hnext : next cur = (others ++ [start]).head? := by
        cases others with
        | nil => exact (List.isChain_cons_cons.mp hchain).1
        | cons y others => exact (List.isChain_cons_cons.mp hchain).1
      simp only [Bool.false_eq_true, ↓reduceIte, hnext]
      exact hrest

/-- Begun behind `start`, the search finds the first of the others. -/
theorem run_advance (found : ι → Bool) (h : items.Nodup) (hitems : items = before ++ start :: after) :
    Loop.run (pass (advance items) found start) ((after ++ before).length + 1) (advance items start) =
      some ((after ++ before).find? found) := by
  have hchain := isChain_advance h hitems
  have hstart : start ∉ after ++ before := by
    have hperm : (start :: (after ++ before)).Perm items := by
      rw [hitems]
      exact (List.perm_append_comm.cons start).trans List.perm_middle.symm
    exact (List.nodup_cons.mp (hperm.nodup_iff.mpr h)).1
  have hnext : advance items start = (after ++ before ++ [start]).head? := by
    cases hround : after ++ before ++ [start] with
    | nil => simp at hround
    | cons y round =>
      rw [List.cons_append, hround] at hchain
      exact (List.isChain_cons_cons.mp hchain).1
  rw [hnext]
  exact run_pass found hstart hchain.tail

end SnmpB.Round
