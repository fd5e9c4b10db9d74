import SnmpB.Library.Loop
import Mathlib.Data.List.Basic
import Mathlib.Data.List.Induction
import Mathlib.Tactic.Common

/-! # Searching a text and replacing what is found

A text is seen from the place of the search: what is behind it, what is selected,
and what is ahead in the direction of the search. To replace all, what is found
is replaced and the search goes on, until nothing is found. What is inserted may
end up behind the place of the search or ahead of it, and is searched again then.
-/
namespace SnmpB

/-- What is searched for: a piece of text with the keys of the pattern. A whole word has no letter on
either side. -/
structure Search (α κ : Type*) where
  key : α → κ
  letter : α → Bool
  whole : Bool
  pattern : List α

namespace Search

variable {α κ : Type*}

/-- The text that was passed over, the piece that was found, and the text behind it. -/
structure Found (α : Type*) where
  gap : List α
  hit : List α
  rest : List α

/-- Whether a letter stands right before the place behind a text, where `p` tells it before the text. -/
def after (q : Search α κ) (p : Bool) (text : List α) : Bool := text.foldl (fun _ a => q.letter a) p

theorem after_append (q : Search α κ) (p : Bool) (text text' : List α) :
    q.after p (text ++ text') = q.after (q.after p text) text' := List.foldl_append

section
variable [DecidableEq κ] (q : Search α κ)

def hits (piece : List α) : Bool := !piece.isEmpty && decide (piece.map q.key = q.pattern.map q.key)

/-- The pattern stands at the start of the text. -/
def here (p : Bool) (text : List α) : Bool :=
  q.hits (text.take q.pattern.length) &&
    !(q.whole && (p || (text.drop q.pattern.length).head?.any q.letter))

/-- The first place of the pattern. -/
def next : Bool → List α → Option (Found α)
  | _, [] => none
  | p, a :: text =>
    if q.here p (a :: text) then
      some ⟨[], (a :: text).take q.pattern.length, (a :: text).drop q.pattern.length⟩
    else (next (q.letter a) text).map fun f => { f with gap := a :: f.gap }

variable {q}

theorem hits_ne_nil {piece : List α} (h : q.hits piece = true) : piece ≠ [] := by
  rintro rfl
  cases h

theorem hits_length {piece : List α} (h : q.hits piece = true) : piece.length = q.pattern.length := by
  have hkeys := of_decide_eq_true (Bool.and_eq_true_iff.mp h).2
  simpa using congrArg List.length hkeys

theorem next_spec {p : Bool} {text : List α} {f : Found α} (h : q.next p text = some f) :
    text = f.gap ++ f.hit ++ f.rest ∧ q.hits f.hit = true := by
  induction text generalizing p f with
  | nil => cases h
  | cons a text ih =>
    unfold next at h
    split at h
    · rename_i hhere
      cases h
      exact ⟨(List.take_append_drop _ _).symm, (Bool.and_eq_true_iff.mp hhere).1⟩
    · obtain ⟨f', hf', rfl⟩ := Option.map_eq_some_iff.mp h
      obtain ⟨htext, hhit⟩ := ih hf'
      refine ⟨?_, hhit⟩
      rw [htext]
      simp

theorem rest_lt {p : Bool} {text : List α} {f : Found α} (h : q.next p text = some f) :
    f.rest.length < text.length := by
  obtain ⟨htext, hhit⟩ := next_spec h
  have hpos := List.length_pos_iff.mpr (hits_ne_nil hhit)
  rw [htext, List.length_append, List.length_append]
  omega

variable (q) in
/-- All places of the pattern, each one searched for behind the one before. -/
def occurrences (p : Bool) (text : List α) : List (Found α) :=
  match _h : q.next p text with
  | none => []
  | some f => f :: occurrences (q.after p (f.gap ++ f.hit)) f.rest
termination_by text.length
decreasing_by exact rest_lt _h

theorem occurrences_of_none {p : Bool} {text : List α} (h : q.next p text = none) :
    q.occurrences p text = [] := by
  unfold occurrences
  split
  · rfl
  · rename_i hsome
    cases h.symm.trans hsome

theorem occurrences_of_some {p : Bool} {text : List α} {f : Found α} (h : q.next p text = some f) :
    q.occurrences p text = f :: q.occurrences (q.after p (f.gap ++ f.hit)) f.rest := by
  rw [occurrences]
  split
  · rename_i hnone
    cases h.symm.trans hnone
  · rename_i hsome
    obtain rfl := Option.some.inj (h.symm.trans hsome)
    rfl

theorem occurrences_eq_nil {p : Bool} {text : List α} (h : q.occurrences p text = []) :
    q.next p text = none := by
  cases hnext : q.next p text with
  | none => rfl
  | some f =>
    rw [occurrences_of_some hnext] at h
    cases h

theorem occurrences_eq_cons {p : Bool} {text : List α} {f : Found α} {fs : List (Found α)}
    (h : q.occurrences p text = f :: fs) :
    q.next p text = some f ∧ q.occurrences (q.after p (f.gap ++ f.hit)) f.rest = fs := by
  cases hnext : q.next p text with
  | none =>
    rw [occurrences_of_none hnext] at h
    cases h
  | some f' =>
    rw [occurrences_of_some hnext] at h
    obtain ⟨rfl, rfl⟩ := List.cons.inj h
    exact ⟨rfl, rfl⟩

end

/-- Each place with another text in it. -/
def substituted (ins : List α) : List (Found α) → List α → List α
  | [], text => text
  | f :: fs, _ => f.gap ++ ins ++ substituted ins fs f.rest

end Search

/-- A text around a selection, in the direction of the search; what is behind has the nearest first. -/
structure Zipper (α : Type*) where
  behind : List α
  selected : List α
  ahead : List α
  deriving DecidableEq

def Zipper.text {α : Type*} (z : Zipper α) : List α := z.behind.reverse ++ z.selected ++ z.ahead

/-- A text that is put in for a selection; the search goes on behind the first part. -/
structure Insertion (α : Type*) where
  passed : List α
  left : List α

def Insertion.text {α : Type*} (ins : Insertion α) : List α := ins.passed ++ ins.left

/-- What was ahead at each replacement, and at each search. -/
structure Log (α : Type*) where
  replaced : List (List α)
  searched : List (List α)
  deriving DecidableEq

namespace Search

variable {α κ : Type*}

/-- Whether a letter stands right before a place, with what is behind the place. -/
def edge (q : Search α κ) (behind : List α) : Bool := behind.head?.any q.letter

theorem edge_append (q : Search α κ) (text behind : List α) :
    q.edge (text.reverse ++ behind) = q.after (q.edge behind) text := by
  induction text using List.reverseRecOn with
  | nil => rfl
  | append_singleton text a _ =>
    rw [after_append, List.reverse_append]
    rfl

/-- Behind the next place is all that was put in, and the text passed over. -/
theorem edge_put (q : Search α κ) (ins : Insertion α) (behind gap : List α) :
    q.edge ((ins.left ++ gap).reverse ++ (ins.passed.reverse ++ behind)) =
      q.after (q.after (q.edge behind) ins.text) gap := by
  rw [edge_append, edge_append, Insertion.text, after_append, after_append]

section
variable [DecidableEq κ] (q : Search α κ) (ins : Insertion α)

def find (z : Zipper α) : Option (Zipper α) :=
  let behind := z.selected.reverse ++ z.behind
  (q.next (q.edge behind) z.ahead).map fun f => ⟨f.gap.reverse ++ behind, f.hit, f.rest⟩

/-- Only what matches is replaced. -/
def replace (z : Zipper α) : Zipper α :=
  if q.hits z.selected then ⟨ins.passed.reverse ++ z.behind, [], ins.left ++ z.ahead⟩ else z

def logged (z : Zipper α) (log : Log α) : Log α where
  replaced := log.replaced ++ if q.hits z.selected then [z.ahead] else []
  searched := log.searched ++ [(q.replace ins z).ahead]

/-- A pass replaces what was found and goes on to the next. -/
def pass : Zipper α × Log α → (Zipper α × Log α) ⊕ (Zipper α × Log α)
  | (z, log) =>
    match q.find (q.replace ins z) with
    | some z' => .inl (z', q.logged ins z log)
    | none => .inr (q.replace ins z, q.logged ins z log)

/-! ## Nothing put in is found

A place counts for itself and for what stands around it. Where the text is the
original one, `b` tells of a letter before it now and `o` of a letter before it
in the original text.
-/

/-- No place begins in the first part of a text. -/
def Free (p : Bool) (lead text : List α) : Prop :=
  ∀ pre post, lead = pre ++ post → post ≠ [] → q.here (q.after p pre) (post ++ text) = false

/-- No place begins in what is left ahead, and the text behind it begins with a place if it did so in the
original. -/
def Clear (b o : Bool) (text : List α) : Prop :=
  q.Free (q.after b ins.passed) ins.left text ∧ q.here (q.after b ins.text) text = q.here o text

/-- What follows each place that is replaced is clear. -/
def Steady : Bool → Bool → List (Found α) → Prop
  | _, _, [] => True
  | b, o, f :: fs =>
    q.Clear ins (q.after b f.gap) (q.after o (f.gap ++ f.hit)) f.rest ∧
      Steady (q.after (q.after b f.gap) ins.text) (q.after o (f.gap ++ f.hit)) fs

variable {q ins}

@[simp] theorem free_nil (p : Bool) (text : List α) : q.Free p [] text := by
  rintro pre post h hpost
  exact absurd (List.append_eq_nil_iff.mp h.symm).2 hpost

theorem free_cons {p : Bool} {a : α} {lead text : List α} :
    q.Free p (a :: lead) text ↔
      q.here p (a :: lead ++ text) = false ∧ q.Free (q.letter a) lead text := by
  constructor
  · intro h
    refine ⟨h [] (a :: lead) rfl (List.cons_ne_nil _ _), ?_⟩
    rintro pre post rfl hpost
    exact h (a :: pre) post rfl hpost
  · rintro ⟨hhere, hfree⟩ pre post h hpost
    cases pre with
    | nil =>
      obtain rfl : post = a :: lead := h.symm
      exact hhere
    | cons a' pre =>
      obtain ⟨rfl, hlead⟩ := List.cons.inj h
      exact hfree pre post hlead hpost

theorem next_eq_iff {p o : Bool} {text : List α} :
    q.next p text = q.next o text ↔ q.here p text = q.here o text := by
  cases text with
  | nil => simp [next, here, hits]
  | cons a text =>
    unfold next
    cases q.here p (a :: text) <;> cases q.here o (a :: text) <;> cases q.next (q.letter a) text <;> simp

/-- By induction on the text put before; a place in it would be found first. -/
theorem next_append_iff {p o : Bool} {lead text : List α} :
    q.next p (lead ++ text) = (q.next o text).map (fun f => { f with gap := lead ++ f.gap }) ↔
      q.Free p lead text ∧ q.here (q.after p lead) text = q.here o text := by
  induction lead generalizing p with
  | nil =>
    have hsame : (q.next o text).map (fun f => { f with gap := [] ++ f.gap }) = q.next o text :=
      congrFun Option.map_id _
    rw [hsame, and_iff_right (free_nil p text)]
    exact next_eq_iff
  | cons a lead ih =>
    rw [free_cons, and_assoc]
    have hstep : q.next p (a :: lead ++ text) =
        if q.here p (a :: lead ++ text) then
          some ⟨[], (a :: lead ++ text).take q.pattern.length, (a :: lead ++ text).drop q.pattern.length⟩
        else (q.next (q.letter a) (lead ++ text)).map fun f => { f with gap := a :: f.gap } := by
      rw [List.cons_append, next]
    rw [hstep]
    cases q.here p (a :: lead ++ text) with
    | true =>
      refine iff_of_false (fun h => ?_) (fun h => Bool.noConfusion h.1)
      cases hnext : q.next o text with
      | none => simp [hnext] at h
      | some f => simp [hnext] at h
    | false =>
      have hcons : ∀ l : Option (Found α), l.map (fun f => { f with gap := a :: lead ++ f.gap }) =
          (l.map fun f => { f with gap := lead ++ f.gap }).map fun f => { f with gap := a :: f.gap } := by
        intro l
        cases l <;> rfl
      have hinj : Function.Injective fun f : Found α => { f with gap := a :: f.gap } := by
        rintro ⟨gap, hit, rest⟩ ⟨gap', hit', rest'⟩ h
        simpa using h
      rw [hcons, if_neg Bool.false_ne_true, (Option.map_injective hinj).eq_iff, ih, and_iff_right rfl]
      rfl

/-- A place found as far ahead as the first place of the original is that one. -/
theorem next_append_eq {p o : Bool} {lead text : List α} {f f' : Found α} (h : q.next o text = some f)
    (h' : q.next p (lead ++ text) = some f') (hrest : f'.rest = f.rest) :
    f' = { f with gap := lead ++ f.gap } := by
  obtain ⟨htext, hhit⟩ := next_spec h
  obtain ⟨htext', hhit'⟩ := next_spec h'
  rw [htext, hrest, ← List.append_assoc, ← List.append_assoc] at htext'
  have hsame : f'.gap ++ f'.hit = lead ++ f.gap ++ f.hit := (List.append_cancel_right htext').symm
  obtain ⟨hgap, hhits⟩ := List.append_inj' hsame (by rw [hits_length hhit, hits_length hhit'])
  cases f'
  cases hgap
  cases hhits
  cases hrest
  rfl

theorem clear_iff {b o : Bool} {text : List α} :
    q.Clear ins b o text ↔ q.next (q.after b ins.passed) (ins.left ++ text) =
      (q.next o text).map fun f => { f with gap := ins.left ++ f.gap } := by
  rw [next_append_iff, Clear, Insertion.text, after_append]

/-! ## Runs -/

theorem find_replace (ins : Insertion α) {z : Zipper α} (h : q.hits z.selected = true) :
    q.find (q.replace ins z) = (q.next (q.after (q.edge z.behind) ins.passed) (ins.left ++ z.ahead)).map
      fun f => ⟨f.gap.reverse ++ (ins.passed.reverse ++ z.behind), f.hit, f.rest⟩ := by
  rw [replace, if_pos h, find, ← edge_append]
  rfl

theorem logged_of_hits (ins : Insertion α) {z : Zipper α} (h : q.hits z.selected = true) (log : Log α) :
    q.logged ins z log = ⟨log.replaced ++ [z.ahead], log.searched ++ [ins.left ++ z.ahead]⟩ := by
  simp [logged, replace, h]

theorem logged_of_not_hits (ins : Insertion α) {z : Zipper α} (h : q.hits z.selected = false) (log : Log α) :
    q.logged ins z log = ⟨log.replaced, log.searched ++ [z.ahead]⟩ := by
  simp [logged, replace, h]

theorem run_found {z z' : Zipper α} (h : q.find (q.replace ins z) = some z') (fuel : ℕ) (log : Log α) :
    Loop.run (q.pass ins) (fuel + 1) (z, log) = Loop.run (q.pass ins) fuel (z', q.logged ins z log) := by
  rw [Loop.run, pass, h]

theorem run_end {z : Zipper α} (h : q.find (q.replace ins z) = none) (fuel : ℕ) (log : Log α) :
    Loop.run (q.pass ins) (fuel + 1) (z, log) = some (q.replace ins z, q.logged ins z log) := by
  rw [Loop.run, pass, h]

theorem run_next {z : Zipper α} (hhits : q.hits z.selected = true) {f : Found α}
    (h : q.next (q.after (q.edge z.behind) ins.passed) (ins.left ++ z.ahead) = some f) (fuel : ℕ) (log : Log α) :
    Loop.run (q.pass ins) (fuel + 1) (z, log) =
      Loop.run (q.pass ins) fuel (⟨f.gap.reverse ++ (ins.passed.reverse ++ z.behind), f.hit, f.rest⟩,
        ⟨log.replaced ++ [z.ahead], log.searched ++ [ins.left ++ z.ahead]⟩) := by
  have hfind := find_replace ins hhits
  rw [h] at hfind
  rw [run_found hfind, logged_of_hits ins hhits]

theorem run_last {z : Zipper α} (hhits : q.hits z.selected = true)
    (h : q.next (q.after (q.edge z.behind) ins.passed) (ins.left ++ z.ahead) = none) (fuel : ℕ) (log : Log α) :
    Loop.run (q.pass ins) (fuel + 1) (z, log) =
      some (q.replace ins z, ⟨log.replaced ++ [z.ahead], log.searched ++ [ins.left ++ z.ahead]⟩) := by
  have hfind := find_replace ins hhits
  rw [h] at hfind
  rw [run_end hfind, logged_of_hits ins hhits]

/-- By induction on the places of the original; each pass finds the next of them, behind what was put in. -/
theorem run_of_steady {z : Zipper α} {o : Bool} (log : Log α) (hhits : q.hits z.selected = true)
    (hclear : q.Clear ins (q.edge z.behind) o z.ahead)
    (hsteady : q.Steady ins (q.after (q.edge z.behind) ins.text) o (q.occurrences o z.ahead)) :
    ∃ fuel z', Loop.run (q.pass ins) fuel (z, log) =
        some (z', ⟨log.replaced ++ z.ahead :: (q.occurrences o z.ahead).map (·.rest),
          log.searched ++ (ins.left ++ z.ahead) :: (q.occurrences o z.ahead).map (ins.left ++ ·.rest)⟩) ∧
      z'.text = z.behind.reverse ++ ins.text ++ substituted ins.text (q.occurrences o z.ahead) z.ahead := by
  induction hfs : q.occurrences o z.ahead generalizing z o log with
  | nil =>
    have hnext := clear_iff.mp hclear
    rw [occurrences_eq_nil hfs] at hnext
    refine ⟨1, q.replace ins z, ?_, ?_⟩
    · rw [run_last hhits hnext]
      rfl
    · simp [replace, hhits, Zipper.text, Insertion.text, substituted]
  | cons f fs ih =>
    obtain ⟨hf, hrest⟩ := occurrences_eq_cons hfs
    have hnext := clear_iff.mp hclear
    rw [hf] at hnext
    rw [hfs] at hsteady
    obtain ⟨hclear', hsteady'⟩ := hsteady
    obtain ⟨-, hhit⟩ := next_spec hf
    let z₁ : Zipper α := ⟨(ins.left ++ f.gap).reverse ++ (ins.passed.reverse ++ z.behind), f.hit, f.rest⟩
    have hedge : q.edge z₁.behind = q.after (q.after (q.edge z.behind) ins.text) f.gap :=
      edge_put q ins z.behind f.gap
    obtain ⟨fuel, z', hrun, htext⟩ := ih (z := z₁) (o := q.after o (f.gap ++ f.hit))
      ⟨log.replaced ++ [z.ahead], log.searched ++ [ins.left ++ z.ahead]⟩ hhit
      (by rw [hedge]; exact hclear') (by rw [hedge, hrest]; exact hsteady') hrest
    refine ⟨fuel + 1, z', ?_, ?_⟩
    · rw [run_next hhits hnext, hrun]
      simp [z₁]
    · rw [htext]
      simp [z₁, substituted, Insertion.text]

theorem replaced_logged (z : Zipper α) (log : Log α) : log.replaced <+: (q.logged ins z log).replaced :=
  List.prefix_append _ _

theorem run_replaced {fuel : ℕ} {z z' : Zipper α} {log log' : Log α}
    (h : Loop.run (q.pass ins) fuel (z, log) = some (z', log')) : log.replaced <+: log'.replaced := by
  refine Loop.run_invariant (P := fun s => log.replaced <+: s.2.replaced)
    (Q := fun r => log.replaced <+: r.2.replaced) ?_ ?_ (List.prefix_refl _) h
  · rintro ⟨z₁, log₁⟩ s' hs hstep
    rw [pass] at hstep
    split at hstep
    · cases hstep
      exact hs.trans (replaced_logged z₁ log₁)
    · cases hstep
  · rintro ⟨z₁, log₁⟩ r hs hstep
    rw [pass] at hstep
    split at hstep
    · cases hstep
    · cases hstep
      exact hs.trans (replaced_logged z₁ log₁)

/-- A run from what matches replaces it at once. -/
theorem run_replaced_first {fuel : ℕ} {z z' : Zipper α} {log log' : Log α} (hhits : q.hits z.selected = true)
    (h : Loop.run (q.pass ins) fuel (z, log) = some (z', log')) :
    log.replaced ++ [z.ahead] <+: log'.replaced := by
  cases fuel with
  | zero => cases h
  | succ fuel =>
    have hlogged := logged_of_hits ins hhits log
    cases hfind : q.find (q.replace ins z) with
    | none =>
      rw [run_end hfind, hlogged] at h
      cases h
      exact List.prefix_refl _
    | some z₁ =>
      rw [run_found hfind, hlogged] at h
      exact run_replaced h

/-- By induction on the places of the original. A place that is found as far ahead as the next of them is that
one, with what was put in before it. -/
theorem steady_of_run {fuel : ℕ} {z z' : Zipper α} {o : Bool} {log log' : Log α}
    (hhits : q.hits z.selected = true) (h : Loop.run (q.pass ins) fuel (z, log) = some (z', log'))
    (hreplaced : log'.replaced = log.replaced ++ z.ahead :: (q.occurrences o z.ahead).map (·.rest)) :
    q.Clear ins (q.edge z.behind) o z.ahead ∧
      q.Steady ins (q.after (q.edge z.behind) ins.text) o (q.occurrences o z.ahead) := by
  induction hfs : q.occurrences o z.ahead generalizing fuel z o log with
  | nil =>
    refine ⟨clear_iff.mpr ?_, trivial⟩
    rw [occurrences_eq_nil hfs]
    cases hnext : q.next (q.after (q.edge z.behind) ins.passed) (ins.left ++ z.ahead) with
    | none => rfl
    | some f' =>
      obtain ⟨-, hhit⟩ := next_spec hnext
      cases fuel with
      | zero => cases h
      | succ fuel =>
        rw [run_next hhits hnext] at h
        have hle := (run_replaced_first hhit h).length_le
        rw [hreplaced, hfs] at hle
        simp at hle
  | cons f fs ih =>
    obtain ⟨hf, hrest⟩ := occurrences_eq_cons hfs
    obtain ⟨-, hhit⟩ := next_spec hf
    cases fuel with
    | zero => cases h
    | succ fuel =>
      cases hnext : q.next (q.after (q.edge z.behind) ins.passed) (ins.left ++ z.ahead) with
      | none =>
        rw [run_last hhits hnext] at h
        cases h
        rw [hfs] at hreplaced
        simp at hreplaced
      | some f' =>
        obtain ⟨-, hhit'⟩ := next_spec hnext
        rw [run_next hhits hnext] at h
        have hrest' : f'.rest = f.rest := by
          obtain ⟨more, hmore⟩ := run_replaced_first hhit' h
          rw [hreplaced, hfs] at hmore
          simp at hmore
          exact hmore.1
        obtain rfl := next_append_eq hf hnext hrest'
        have hlog : log'.replaced = log.replaced ++ [z.ahead] ++
            f.rest :: (q.occurrences (q.after o (f.gap ++ f.hit)) f.rest).map (·.rest) := by
          rw [hreplaced, hfs, hrest]
          simp
        have hlater := ih hhit h hlog hrest
        rw [edge_put] at hlater
        refine ⟨clear_iff.mpr ?_, hlater⟩
        rw [hnext, hf]
        rfl

/-! ## The first pass -/

variable (q ins)

/-- What stays behind the first search. -/
def start (z : Zipper α) : List α := if q.hits z.selected then z.behind else z.selected.reverse ++ z.behind

/-- What is found in a text as it is: the selection, if it matches, and every place ahead. -/
def founds (z : Zipper α) : List (Found α) :=
  (if q.hits z.selected then [⟨[], z.selected, z.ahead⟩] else []) ++
    q.occurrences (q.edge (z.selected.reverse ++ z.behind)) z.ahead

/-- What is still ahead in the text as it is, before all or behind each place. -/
def asked (z : Zipper α) : List (List α) :=
  (if q.hits z.selected then [] else [z.ahead]) ++ (q.founds z).map (·.rest)

variable {q ins}

theorem founds_of_hits {z : Zipper α} (h : q.hits z.selected = true) :
    q.founds z = ⟨[], z.selected, z.ahead⟩ ::
      q.occurrences (q.after (q.edge z.behind) ([] ++ z.selected)) z.ahead := by
  rw [founds, if_pos h, edge_append]
  rfl

theorem founds_of_not_hits {z : Zipper α} (h : q.hits z.selected = false) :
    q.founds z = q.occurrences (q.edge (q.start z)) z.ahead := by
  simp [founds, start, h]

/-- Without a match under the selection the first pass only looks for one. -/
theorem find_start (ins : Insertion α) {z : Zipper α} (h : q.hits z.selected = false) :
    q.find (q.replace ins z) = (q.next (q.edge (q.start z)) z.ahead).map
      fun f => ⟨f.gap.reverse ++ q.start z, f.hit, f.rest⟩ := by
  simp [replace, start, find, h]

theorem run_of_founds {z : Zipper α}
    (h : q.Steady ins (q.edge (q.start z)) (q.edge (q.start z)) (q.founds z)) :
    ∃ fuel z', Loop.run (q.pass ins) fuel (z, ⟨[], []⟩) = some (z', ⟨(q.founds z).map (·.rest),
        (if q.hits z.selected then [] else [z.ahead]) ++ (q.founds z).map (ins.left ++ ·.rest)⟩) ∧
      z'.text = (q.start z).reverse ++ substituted ins.text (q.founds z) z.ahead := by
  cases hhits : q.hits z.selected with
  | true =>
    rw [founds_of_hits hhits, start, if_pos hhits] at *
    obtain ⟨hclear, hsteady⟩ := h
    obtain ⟨fuel, z', hrun, htext⟩ := run_of_steady ⟨[], []⟩ hhits hclear hsteady
    refine ⟨fuel, z', hrun, ?_⟩
    rw [htext]
    simp [substituted]
  | false =>
    rw [founds_of_not_hits hhits] at *
    have hlogged := logged_of_not_hits ins hhits ⟨[], []⟩
    have hfind := find_start ins hhits
    cases hnext : q.next (q.edge (q.start z)) z.ahead with
    | none =>
      rw [occurrences_of_none hnext]
      rw [hnext] at hfind
      refine ⟨1, q.replace ins z, ?_, ?_⟩
      · rw [run_end hfind, hlogged]
        rfl
      · simp [replace, start, hhits, Zipper.text, substituted]
    | some f =>
      rw [occurrences_of_some hnext] at *
      rw [hnext] at hfind
      obtain ⟨-, hhit⟩ := next_spec hnext
      obtain ⟨hclear, hsteady⟩ := h
      rw [← edge_append] at hclear hsteady
      obtain ⟨fuel, z', hrun, htext⟩ := run_of_steady (z := ⟨f.gap.reverse ++ q.start z, f.hit, f.rest⟩)
        ⟨[], [z.ahead]⟩ hhit hclear hsteady
      refine ⟨fuel + 1, z', ?_, ?_⟩
      · rw [run_found hfind, hlogged]
        exact hrun
      · rw [htext]
        simp [substituted]

theorem founds_steady_of_run {fuel : ℕ} {z z' : Zipper α} {log : Log α}
    (h : Loop.run (q.pass ins) fuel (z, ⟨[], []⟩) = some (z', log))
    (hreplaced : log.replaced = (q.founds z).map (·.rest)) :
    q.Steady ins (q.edge (q.start z)) (q.edge (q.start z)) (q.founds z) := by
  cases hhits : q.hits z.selected with
  | true =>
    rw [founds_of_hits hhits, start, if_pos hhits] at *
    exact steady_of_run hhits h hreplaced
  | false =>
    rw [founds_of_not_hits hhits] at *
    have hfind := find_start ins hhits
    cases hnext : q.next (q.edge (q.start z)) z.ahead with
    | none =>
      rw [occurrences_of_none hnext]
      trivial
    | some f =>
      rw [occurrences_of_some hnext] at *
      rw [hnext] at hfind
      obtain ⟨-, hhit⟩ := next_spec hnext
      cases fuel with
      | zero => cases h
      | succ fuel =>
        rw [run_found hfind, logged_of_not_hits _ hhits] at h
        have hlater := steady_of_run (o := q.after (q.edge (q.start z)) (f.gap ++ f.hit)) hhit h hreplaced
        rw [edge_append] at hlater
        exact hlater

/-- The matches of the text as it is are replaced, each once, and nothing else, exactly if they are steady. -/
theorem replaces_iff (z : Zipper α) :
    (∃ fuel z' log, Loop.run (q.pass ins) fuel (z, ⟨[], []⟩) = some (z', log) ∧
        z'.text = (q.start z).reverse ++ substituted ins.text (q.founds z) z.ahead ∧
        log.replaced = (q.founds z).map (·.rest)) ↔
      q.Steady ins (q.edge (q.start z)) (q.edge (q.start z)) (q.founds z) := by
  constructor
  · rintro ⟨fuel, z', log, hrun, -, hreplaced⟩
    exact founds_steady_of_run hrun hreplaced
  · intro h
    obtain ⟨fuel, z', hrun, htext⟩ := run_of_founds h
    exact ⟨fuel, z', _, hrun, htext, rfl⟩

/-- Text that was put in is searched whenever some of it is left ahead. -/
theorem asked_eq_iff (z : Zipper α) :
    (if q.hits z.selected then [] else [z.ahead]) ++ (q.founds z).map (ins.left ++ ·.rest) = q.asked z ↔
      ins.left = [] ∨ q.founds z = [] := by
  rw [asked, List.append_right_inj, List.map_inj_left]
  constructor
  · intro h
    cases hfounds : q.founds z with
    | nil => exact Or.inr rfl
    | cons f fs =>
      have hf := h f (by rw [hfounds]; exact List.mem_cons_self)
      exact Or.inl (List.append_left_eq_self.mp hf)
  · rintro (h | h) f hf
    · rw [h, List.nil_append]
    · rw [h] at hf
      cases hf

theorem replaces_unsearched_iff (z : Zipper α) :
    (∃ fuel z' log, Loop.run (q.pass ins) fuel (z, ⟨[], []⟩) = some (z', log) ∧
        z'.text = (q.start z).reverse ++ substituted ins.text (q.founds z) z.ahead ∧
        log.replaced = (q.founds z).map (·.rest) ∧ log.searched = q.asked z) ↔
      q.Steady ins (q.edge (q.start z)) (q.edge (q.start z)) (q.founds z) ∧
        (ins.left = [] ∨ q.founds z = []) := by
  rw [← asked_eq_iff]
  constructor
  · rintro ⟨fuel, z', log, hrun, -, hreplaced, hsearched⟩
    have hsteady := founds_steady_of_run hrun hreplaced
    obtain ⟨fuel', z'', hrun', -⟩ := run_of_founds hsteady
    have hsame := (Loop.run_mono hrun (Nat.le_max_left fuel fuel')).symm.trans
      (Loop.run_mono hrun' (Nat.le_max_right fuel fuel'))
    cases hsame
    exact ⟨hsteady, hsearched⟩
  · rintro ⟨hsteady, hasked⟩
    obtain ⟨fuel, z', hrun, htext⟩ := run_of_founds hsteady
    exact ⟨fuel, z', _, hrun, htext, rfl, hasked⟩

/-! ## Searches that never end -/

theorem next_ne_none {p : Bool} {pre text : List α} (h : ∀ p, q.here p text = true) :
    q.next p (pre ++ text) ≠ none := by
  induction pre generalizing p with
  | nil =>
    cases text with
    | nil => exact absurd (h p) (by simp [here, hits])
    | cons a text => simp [next, h p]
  | cons a pre ih =>
    rw [List.cons_append, next]
    split
    · exact Option.some_ne_none _
    · exact fun hnone => ih (Option.map_eq_none_iff.mp hnone)

/-- A match of the pattern is a place of it, unless words are asked for. -/
theorem here_of_hits {piece : List α} (hhits : q.hits piece = true) (hwhole : q.whole = false) (p : Bool)
    (text : List α) : q.here p (piece ++ text) = true := by
  rw [here, ← hits_length hhits, List.take_left, hhits, hwhole]
  rfl

/-- What is left ahead has a match, which is found again and again. -/
theorem not_terminates_of_hits {z : Zipper α} (log : Log α) {pre piece post : List α}
    (hleft : ins.left = pre ++ piece ++ post) (hpiece : q.hits piece = true) (hwhole : q.whole = false)
    (hhits : q.hits z.selected = true) : ¬ Loop.Terminates (q.pass ins) (z, log) := by
  refine Loop.not_terminates_of_invariant (P := fun s => q.hits s.1.selected = true) ?_ hhits
  rintro ⟨z, log⟩ hz
  obtain ⟨f, hf⟩ : ∃ f, q.next (q.after (q.edge z.behind) ins.passed) (ins.left ++ z.ahead) = some f := by
    rw [hleft, List.append_assoc, List.append_assoc]
    exact Option.ne_none_iff_exists'.mp (next_ne_none fun p => here_of_hits hpiece hwhole p _)
  refine ⟨(⟨f.gap.reverse ++ (ins.passed.reverse ++ z.behind), f.hit, f.rest⟩, q.logged ins z log), ?_,
    (next_spec hf).2⟩
  have hfind := find_replace ins hz
  rw [hf] at hfind
  rw [pass, hfind]
  rfl

theorem not_terminates_of_founds {z : Zipper α} (log : Log α) {pre piece post : List α}
    (hleft : ins.left = pre ++ piece ++ post) (hpiece : q.hits piece = true) (hwhole : q.whole = false)
    (hfounds : q.founds z ≠ []) : ¬ Loop.Terminates (q.pass ins) (z, log) := by
  cases hhits : q.hits z.selected with
  | true => exact not_terminates_of_hits _ hleft hpiece hwhole hhits
  | false =>
    rw [founds_of_not_hits hhits] at hfounds
    cases hnext : q.next (q.edge (q.start z)) z.ahead with
    | none => exact absurd (occurrences_of_none hnext) hfounds
    | some f =>
      have hfind := find_start ins hhits
      rw [hnext] at hfind
      rintro ⟨fuel, r, hrun⟩
      cases fuel with
      | zero => cases hrun
      | succ fuel =>
        rw [run_found hfind] at hrun
        exact not_terminates_of_hits _ hleft hpiece hwhole (next_spec hnext).2 ⟨fuel, r, hrun⟩

end

end Search

end SnmpB
