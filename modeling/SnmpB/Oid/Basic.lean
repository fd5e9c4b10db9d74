import Mathlib.Data.List.Basic
import Mathlib.Data.Nat.Digits.Defs

/-! # Object identifiers and their dotted text

An OID is the list of its sub-identifiers. The program compares OIDs in two
ways: sub-identifier by sub-identifier with `nCompare`, and as dotted texts.
Both are kept here, with the parser that turns a typed text into an OID.
-/
namespace SnmpB

abbrev Oid := List ℕ

namespace Oid

def firstDifference : Oid → Oid → Option Int
  | x :: xs, y :: ys =>
    if x < y then some (-1) else if y < x then some 1 else firstDifference xs ys
  | _, _ => none

/-- `Oid::nCompare(n, o)`. -/
def nCompare (self : Oid) (n : ℕ) (o : Oid) : Int :=
  -- if both OIDs are too short, decrease the length
  let length := if self.length < n ∧ o.length < n then max self.length o.length else n
  if length = 0 then 0
  else
    let reducedLen := self.length < length ∨ o.length < min length self.length
    let length := min (min length self.length) o.length
    match firstDifference (self.take length) (o.take length) with
    | some sign => sign
    | none =>
      if reducedLen then
        if self.length < o.length then -1 else if o.length < self.length then 1 else 0
      else 0

theorem firstDifference_ne_zero {xs ys : Oid} {sign : Int}
    (h : firstDifference xs ys = some sign) : sign ≠ 0 := by
  induction xs generalizing ys with
  | nil => simp [firstDifference] at h
  | cons x xs ih =>
    cases ys with
    | nil => simp [firstDifference] at h
    | cons y ys =>
      simp only [firstDifference] at h
      split at h
      · cases h
        decide
      · split at h
        · cases h
          decide
        · exact ih h

theorem firstDifference_eq_none {xs ys : Oid} (hlen : xs.length = ys.length) :
    firstDifference xs ys = none ↔ xs = ys := by
  induction xs generalizing ys with
  | nil =>
    cases ys with
    | nil => simp [firstDifference]
    | cons y ys => simp at hlen
  | cons x xs ih =>
    cases ys with
    | nil => simp at hlen
    | cons y ys =>
      simp only [List.length_cons, Nat.add_right_cancel_iff] at hlen
      simp only [firstDifference, List.cons.injEq]
      split
      · simp only [reduceCtorEq, false_iff, not_and]
        omega
      · split
        · simp only [reduceCtorEq, false_iff, not_and]
          omega
        · rw [ih hlen]
          have heq : x = y := by omega
          simp [heq]

/-- The scope test of the callbacks: an OID stays below a root exactly when the
root is a prefix of it, sub-identifier by sub-identifier. -/
theorem nCompare_root (self root : Oid) : nCompare self root.length root = 0 ↔ root <+: self := by
  unfold nCompare
  simp only [Nat.lt_irrefl, and_false, ↓reduceIte]
  by_cases hroot : root.length = 0
  · simp [List.length_eq_zero_iff.mp hroot]
  · rw [if_neg hroot]
    by_cases hshort : self.length < root.length
    · -- a shorter OID is never in scope, whatever the loop finds
      have hnot : ¬ root <+: self := fun h => absurd h.length_le (by omega)
      simp only [hnot, iff_false]
      split
      · rename_i sign hsign
        exact firstDifference_ne_zero hsign
      · simp [hshort]
    · have hmin : min (min root.length self.length) root.length = root.length := by omega
      have hreduced : ¬(self.length < root.length ∨ root.length < min root.length self.length) := by
        omega
      have hlen : (self.take root.length).length = root.length := by
        rw [List.length_take]
        omega
      rw [hmin, List.take_length]
      simp only [hreduced, ↓reduceIte]
      rw [List.prefix_iff_eq_take]
      split
      · rename_i sign hsign
        have hne : self.take root.length ≠ root := by
          intro heq
          rw [(firstDifference_eq_none hlen).mpr heq] at hsign
          cases hsign
        simp [firstDifference_ne_zero hsign, Ne.symm hne]
      · rename_i hnone
        exact iff_of_true rfl ((firstDifference_eq_none hlen).mp hnone).symm

def dotted : Oid → List Char
  | [] => []
  | [x] => Nat.toDigits 10 x
  | x :: y :: rest => Nat.toDigits 10 x ++ '.' :: dotted (y :: rest)

/-- `Oid::get_printable`; `smiRenderOID` with `SMI_RENDER_NUMERIC` writes the same text. -/
def getPrintable (oid : Oid) : String := String.ofList (dotted oid)

theorem dotted_append {root rest : Oid} (hroot : root ≠ []) (hrest : rest ≠ []) :
    dotted (root ++ rest) = dotted root ++ '.' :: dotted rest := by
  induction root with
  | nil => exact absurd rfl hroot
  | cons x root ih =>
    cases root with
    | nil =>
      cases rest with
      | nil => exact absurd rfl hrest
      | cons y rest => rfl
    | cons y root =>
      have hcons : dotted (x :: (y :: root ++ rest)) =
          Nat.toDigits 10 x ++ '.' :: dotted (y :: root ++ rest) := rfl
      have hroot : dotted (x :: y :: root) = Nat.toDigits 10 x ++ '.' :: dotted (y :: root) := rfl
      rw [List.cons_append, hcons, ih (List.cons_ne_nil y root), hroot, List.append_assoc,
        List.cons_append]

theorem dotted_ne_nil {oid : Oid} (h : oid ≠ []) : dotted oid ≠ [] := by
  cases oid with
  | nil => exact absurd rfl h
  | cons x rest =>
    cases rest with
    | nil => exact Nat.toDigits_ne_nil
    | cons y rest => simp [dotted]

/-- A prefix by sub-identifiers is a prefix of the text; the converse fails. -/
theorem dotted_prefix {root oid : Oid} (h : root <+: oid) : dotted root <+: dotted oid := by
  obtain ⟨rest, rfl⟩ := h
  by_cases hroot : root = []
  · simp [hroot, dotted]
  by_cases hrest : rest = []
  · simp [hrest]
  rw [dotted_append hroot hrest]
  exact List.prefix_append _ _

example : dotted [1, 3, 6, 1] <+: dotted [1, 3, 6, 10] ∧ ¬ [1, 3, 6, 1] <+: [1, 3, 6, 10] := by decide

/-- The number a digit token stands for, in an `unsigned long`. -/
def tokenValue (digits : List Char) : ℕ :=
  digits.foldl (fun number c => (number * 10 + c.toNat - '0'.toNat) % 2 ^ 64) 0

def endsToken : List Char → Bool
  | [] => true
  | c :: _ => c == '.'

/-- "copy until second $", as raw character codes. -/
def dollarToken (str : List Char) (temp : Oid) : Option (List Char × Oid) :=
  match str.dropWhile (· != '$') with
  | [] => none
  | _ :: rest =>
    if endsToken rest then some (rest, temp ++ (str.takeWhile (· != '$')).map Char.toNat) else none

def otherToken : List Char → Oid → Option (List Char × Oid)
  | [], temp => some ([], temp)
  | c :: rest, temp =>
    if c = '.' then some (c :: rest, temp)
    else if c = '$' then dollarToken rest temp
    else none

/-- One pass of the loop in `StrToOid`: skip a dot, read a number, read a string. -/
def strToOidPass (str : List Char) (temp : Oid) : Option (List Char × Oid) :=
  let str := if str.head? = some '.' then str.tail else str
  if (str.head?.any Char.isDigit) then
    let rest := str.dropWhile Char.isDigit
    if endsToken rest then otherToken rest (temp ++ [tokenValue (str.takeWhile Char.isDigit)])
    else none
  else otherToken str temp

/-- The loop of `StrToOid`. Every pass consumes a character, so the length of the text is
enough fuel; the bound on the index is never reached, since a stored value costs a character. -/
def strToOidLoop : ℕ → List Char → Oid → Option Oid
  | 0, _, temp => some temp
  | fuel + 1, str, temp =>
    if str = [] then some temp
    else
      match strToOidPass str temp with
      | none => none
      | some (rest, temp) => strToOidLoop fuel rest temp

/-- `Oid::StrToOid`: `none` leaves the object invalid. -/
def strToOid (str : List Char) : Option Oid :=
  if str = [] then none else strToOidLoop str.length str []

/-- The loop `while ((*b++ == *f++) && (*b != '\0') && (*f != '\0'))`; what is left at `f`. -/
def restOf : List Char → List Char → List Char
  | b :: bs, f :: fs => if b = f ∧ bs ≠ [] ∧ fs ≠ [] then restOf bs fs else fs
  | _, f => f.tail

theorem restOf_append {b : List Char} (hb : b ≠ []) (rest : List Char) : restOf b (b ++ rest) = rest := by
  induction b with
  | nil => exact absurd rfl hb
  | cons c b ih =>
    cases b with
    | nil => simp [restOf]
    | cons d b => simpa [restOf] using ih (List.cons_ne_nil d b)

end Oid

/-- `text.toLatin1().data()` read as a C string. -/
def toLatin1 (text : String) : List Char :=
  (text.toList.flatMap fun c =>
    if c.toNat < 256 then [c] else if c.toNat < 2 ^ 16 then ['?'] else ['?', '?']).takeWhile
      (· != '\x00')

/-- The object built by `Oid oid(text.toLatin1().data())`. -/
def Oid.ofText (text : String) : Oid := (Oid.strToOid (toLatin1 text)).getD []

example : Oid.ofText ".1.3..6.$ab$.10" = [1, 3, 6, 97, 98, 10] := by decide

end SnmpB
