import Mathlib.Data.List.Basic
import Mathlib.Data.Nat.Init

/-! # Writing and reading piece by piece

A writer fills the room that is left in a buffer, a reader moves a cursor that knows how
many elements are valid. What is written by one writer after the other is read by one
reader after the other.
-/
namespace SnmpB.Framing

variable {β α γ : Type*}

/-! ## Writing -/

/-- What is written and the room left; none where it does not fit. -/
abbrev Writer (β : Type*) := ℕ → Option (List β × ℕ)

def put (bs : List β) : Writer β := fun room => if bs.length ≤ room then some (bs, room - bs.length) else none

def andThen (w w' : Writer β) : Writer β := fun room => do
  let (bs, room) ← w room
  let (bs', room) ← w' room
  some (bs ++ bs', room)

theorem put_of_le {bs : List β} {room : ℕ} (h : bs.length ≤ room) : put bs room = some (bs, room - bs.length) :=
  if_pos h

theorem put_eq_some_iff {bs written : List β} {room left : ℕ} :
    put bs room = some (written, left) ↔ bs.length ≤ room ∧ written = bs ∧ left = room - bs.length := by
  unfold put
  split
  · rename_i hle
    rw [Option.some.injEq, Prod.mk.injEq]
    exact ⟨fun h => ⟨hle, h.1.symm, h.2.symm⟩, fun h => ⟨h.2.1.symm, h.2.2.symm⟩⟩
  · rename_i hnot
    exact iff_of_false (fun h => by cases h) fun h => hnot h.1

theorem put_of_lt {bs : List β} {room : ℕ} (h : room < bs.length) : put bs room = none := if_neg (by omega)

theorem put_andThen (bs bs' : List β) : andThen (put bs) (put bs') = put (bs ++ bs') := by
  funext room
  unfold andThen put
  rw [List.length_append]
  by_cases h : bs.length ≤ room
  · by_cases h' : bs'.length ≤ room - bs.length
    · simp only [if_pos h, Option.bind_eq_bind, Option.bind_some, if_pos h', if_pos (by omega : bs.length + bs'.length ≤ room),
        Nat.sub_sub]
    · simp only [if_pos h, Option.bind_eq_bind, Option.bind_some, if_neg h', Option.bind_none,
        if_neg (by omega : ¬ bs.length + bs'.length ≤ room)]
  · simp only [if_neg h, Option.bind_eq_bind, Option.bind_none, if_neg (by omega : ¬ bs.length + bs'.length ≤ room)]

/-- Into a buffer of at most so much room just these elements are written. -/
def Writes (m : ℕ) (w : Writer β) (bs : List β) : Prop := ∀ room ≤ m, w room = put bs room

theorem writes_of_eq_put {m : ℕ} {w : Writer β} {bs : List β} (h : w = put bs) : Writes m w bs := fun room _ => congrFun h room

theorem Writes.andThen {m : ℕ} {w w' : Writer β} {bs bs' : List β} (h : Writes m w bs) (h' : Writes m w' bs') :
    Writes m (andThen w w') (bs ++ bs') := by
  intro room hroom
  rw [← put_andThen]
  unfold Framing.andThen
  rw [h room hroom]
  rcases Nat.lt_or_ge room bs.length with hlt | hle
  · rw [put_of_lt hlt]
    rfl
  · rw [put_of_le hle]
    simp only [Option.bind_eq_bind, Option.bind_some]
    rw [h' _ (Nat.le_trans (Nat.sub_le _ _) hroom)]

/-! ## Reading -/

/-- The elements from the pointer on, and how many of them are valid. -/
structure Cursor (β : Type*) where
  data : List β
  valid : ℕ
  deriving DecidableEq

abbrev Reader (β α : Type*) := Cursor β → Option (α × Cursor β)

/-- Just these elements are read as the value, whatever comes behind them. -/
def Reads (r : Reader β α) (bs : List β) (a : α) : Prop :=
  ∀ rest n, bs.length ≤ n → r ⟨bs ++ rest, n⟩ = some (a, ⟨rest, n - bs.length⟩)

theorem Reads.exact {r : Reader β α} {bs : List β} {a : α} (h : Reads r bs a) (rest : List β) :
    r ⟨bs ++ rest, bs.length⟩ = some (a, ⟨rest, 0⟩) := by
  rw [h rest bs.length (Nat.le_refl _), Nat.sub_self]

/-- A number of elements. -/
def takeBytes (n : ℕ) (data : List β) : Option (List β × List β) :=
  if data.length < n then none else some (data.take n, data.drop n)

theorem takeBytes_append (bs rest : List β) : takeBytes bs.length (bs ++ rest) = some (bs, rest) := by
  unfold takeBytes
  rw [if_neg (by rw [List.length_append]; omega), List.take_left, List.drop_left]

theorem takeBytes_length {n : ℕ} {data bs rest : List β} (h : takeBytes n data = some (bs, rest)) :
    bs.length = n ∧ data = bs ++ rest := by
  unfold takeBytes at h
  split at h
  · cases h
  · cases h
    exact ⟨List.length_take_of_le (by omega), (List.take_append_drop n data).symm⟩

/-! ## Reading until nothing is valid -/

/-- Within a number of turns. -/
def many (r : Reader β α) : ℕ → Reader β (List α)
  | 0, c => if c.valid = 0 then some ([], c) else none
  | fuel + 1, c =>
    if c.valid = 0 then some ([], c)
    else do
      let (a, c) ← r c
      let (as, c) ← many r fuel c
      some (a :: as, c)

theorem many_done (r : Reader β α) (fuel : ℕ) (data : List β) : many r fuel ⟨data, 0⟩ = some ([], ⟨data, 0⟩) := by
  cases fuel <;> rfl

theorem many_reads {r : Reader β α} {l : List (List β × α)} (h : ∀ p ∈ l, Reads r p.1 p.2 ∧ p.1 ≠ []) {fuel : ℕ}
    (hfuel : (l.map Prod.fst).flatten.length ≤ fuel) (rest : List β) :
    many r fuel ⟨(l.map Prod.fst).flatten ++ rest, (l.map Prod.fst).flatten.length⟩ =
      some (l.map Prod.snd, ⟨rest, 0⟩) := by
  induction l generalizing fuel with
  | nil => exact many_done r fuel rest
  | cons p l ih =>
    obtain ⟨⟨hread, hne⟩, htail⟩ := List.forall_mem_cons.mp h
    have hpos := List.length_pos_of_ne_nil hne
    rw [List.map_cons, List.flatten_cons, List.length_append] at hfuel ⊢
    cases fuel with
    | zero => omega
    | succ fuel =>
      rw [many, if_neg (by dsimp only; omega), List.append_assoc, hread _ _ (by omega), Nat.add_sub_cancel_left]
      simp only [Option.bind_eq_bind, Option.bind_some]
      rw [ih htail (by omega)]
      rfl

theorem many_forall {r : Reader β α} {P : α → Prop} (h : ∀ c a c', r c = some (a, c') → P a) {fuel : ℕ}
    {c c' : Cursor β} {as : List α} (hmany : many r fuel c = some (as, c')) : ∀ a ∈ as, P a := by
  induction fuel generalizing c as with
  | zero =>
    rw [many] at hmany
    split at hmany
    · cases hmany
      simp
    · cases hmany
  | succ fuel ih =>
    rw [many] at hmany
    split at hmany
    · cases hmany
      simp
    · obtain ⟨⟨a, c₁⟩, hread, hmany⟩ := Option.bind_eq_some_iff.mp hmany
      obtain ⟨⟨as', c₂⟩, hrest, hmany⟩ := Option.bind_eq_some_iff.mp hmany
      cases hmany
      exact List.forall_mem_cons.mpr ⟨h c a c₁ hread, ih hrest⟩

/-- With every turn less is valid. -/
def Consumes (r : Reader β α) : Prop := ∀ c a c', r c = some (a, c') → c'.valid < c.valid

theorem many_fuel {r : Reader β α} (h : Consumes r) {fuel : ℕ} {c : Cursor β} (hfuel : c.valid ≤ fuel) :
    many r fuel c = many r c.valid c := by
  induction fuel using Nat.strongRecOn generalizing c with
  | _ fuel ih =>
    cases fuel with
    | zero => rw [Nat.le_zero.mp hfuel]
    | succ fuel =>
      rcases Nat.eq_zero_or_pos c.valid with hzero | hpos
      · obtain ⟨data, n⟩ := c
        cases hzero
        rw [many_done, many_done]
      · obtain ⟨n, hn⟩ := Nat.exists_eq_succ_of_ne_zero (Nat.ne_of_gt hpos)
        rw [hn, many, many, if_neg (Nat.ne_of_gt hpos), if_neg (Nat.ne_of_gt hpos)]
        cases hr : r c with
        | none => rfl
        | some x =>
          obtain ⟨a, c'⟩ := x
          have hless := h c a c' hr
          simp only [Option.bind_eq_bind, Option.bind_some]
          rw [ih fuel (by omega) (by omega), ih n (by omega) (by omega)]

end SnmpB.Framing
