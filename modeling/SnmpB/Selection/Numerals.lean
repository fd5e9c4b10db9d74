import Mathlib.Data.List.TakeWhile
import Mathlib.Data.Nat.Digits.Defs
import SnmpB.Selection.Dialog

/-! # Numerals in the value field

A text that a numeric syntax accepts is empty or a decimal numeral of the range
of the syntax, and the conversions of the validator and of OK read the same
number from it. The signed validator accepts every text of one character as well.
-/
namespace SnmpB.Selection
open Agent

def digitValue (c : Char) : ℕ := c.toNat - '0'.toNat

def positionalValue (digits : List Char) : ℕ := Nat.ofDigits 10 (digits.reverse.map digitValue)

/-- A decimal numeral: an optional minus and ASCII digits, the leading one first. -/
def Numeral (text : String) (n : ℤ) : Prop :=
  ∃ digits ≠ [], (∀ c ∈ digits, c.isDigit = true) ∧
    (text.toList = digits ∧ n = positionalValue digits ∨
      text.toList = '-' :: digits ∧ n = -positionalValue digits)

/-- The empty text stands for zero. -/
def StandsFor (text : String) (n : ℤ) : Prop := text = "" ∧ n = 0 ∨ Numeral text n

/-- What Unicode says of the characters a numeral is made of. -/
structure Platform.Numeric (p : Platform) : Prop where
  digit_not_space : ∀ c, p.isDigit c = true → p.isSpace c = false
  minus_not_space : p.isSpace '-' = false
  plus_not_digit : p.isDigit '+' = false

def rangeOf : SnmpSyntax → Option (ℤ × ℤ)
  | .int32 => some (-2 ^ 31, 2 ^ 31 - 1)
  | .cntr32 | .gauge32 | .timeticks => some (0, 2 ^ 32 - 1)
  | .cntr64 => some (0, 2 ^ 64 - 1)
  | _ => none

def numberValue (n : ℤ) : SnmpSyntax → Value
  | .int32 => .int32 n
  | .cntr32 => .cntr32 n.toNat
  | .gauge32 => .gauge32 n.toNat
  | .timeticks => .timeticks n.toNat
  | .cntr64 => .cntr64 n.toNat
  | _ => .null

theorem digitsValue_eq (digits : List Char) :
    digitsValue digits = positionalValue digits := by
  induction digits using List.reverseRecOn with
  | nil => rfl
  | append_singleton digits c ih =>
    have hsnoc : digitsValue (digits ++ [c]) = digitsValue digits * 10 + digitValue c := by
      simp [digitsValue, digitValue]
    rw [hsnoc, ih, positionalValue, positionalValue, List.reverse_concat, List.map_cons, Nat.ofDigits_cons]
    omega

section Parsing
variable {p : Platform} {text : String}

theorem trim_eq_self {l : List Char} (h : ∀ c ∈ l, p.isSpace c = false) :
    ((l.dropWhile p.isSpace).reverse.dropWhile p.isSpace).reverse = l := by
  have hfront : l.dropWhile p.isSpace = l := by
    apply List.dropWhile_eq_self_iff.mpr
    intro hl
    simp [h _ (List.getElem_mem hl)]
  have hback : l.reverse.dropWhile p.isSpace = l.reverse := by
    apply List.dropWhile_eq_self_iff.mpr
    intro hl
    rw [h _ (List.mem_reverse.mp (List.getElem_mem hl))]
    simp
  rw [hfront, hback, List.reverse_reverse]

/-- A sign and digits, as the pattern admits them. -/
theorem digitPattern_iff {k : ℕ} : digitPattern p k text = true ↔
    ∃ digits, (text.toList = digits ∧ digits.head? ≠ some '-' ∨ text.toList = '-' :: digits) ∧
      (∀ c ∈ digits, p.isDigit c = true) ∧ digits.length ≤ k := by
  simp only [digitPattern, Bool.and_eq_true, List.all_eq_true, decide_eq_true_eq]
  constructor
  · intro h
    refine ⟨_, ?_, h⟩
    split
    · rename_i hhead
      exact Or.inr (List.eq_cons_of_mem_head? hhead)
    · rename_i hhead
      exact Or.inl ⟨rfl, hhead⟩
  · rintro ⟨digits, ⟨rfl, hhead⟩ | hminus, hrest⟩
    · rw [if_neg hhead]
      exact hrest
    · simpa [hminus] using hrest

/-- Digits alone, as the two conversions read them behind the sign. -/
def readDigits (digits : List Char) : Option ℤ :=
  if digits ≠ [] ∧ digits.all Char.isDigit then some (digitsValue digits) else none

theorem readDigits_eq_some {digits : List Char} {n : ℤ} : readDigits digits = some n ↔
    digits ≠ [] ∧ (∀ c ∈ digits, c.isDigit = true) ∧ n = positionalValue digits := by
  rw [readDigits, ← digitsValue_eq, Option.ite_none_right_eq_some, List.all_eq_true, and_assoc,
    Option.some.injEq, @eq_comm _ n]

theorem numeral_minus_iff {digits : List Char} {n : ℤ} (htext : text.toList = '-' :: digits) :
    Numeral text n ↔ readDigits digits = some (-n) := by
  rw [readDigits_eq_some]
  constructor
  · rintro ⟨digits', hne, hdigits, ⟨hplain, -⟩ | ⟨hminus, hn⟩⟩
    · rw [← hplain, htext] at hdigits
      cases hdigits '-' (by simp)
    · obtain rfl : digits = digits' := by simpa [htext] using hminus
      exact ⟨hne, hdigits, by omega⟩
  · rintro ⟨hne, hdigits, hn⟩
    exact ⟨digits, hne, hdigits, Or.inr ⟨htext, by omega⟩⟩

theorem numeral_plain_iff {n : ℤ} (htext : text.toList.head? ≠ some '-') :
    Numeral text n ↔ readDigits text.toList = some n := by
  rw [readDigits_eq_some]
  constructor
  · rintro ⟨digits, hne, hdigits, ⟨rfl, hn⟩ | ⟨hminus, -⟩⟩
    · exact ⟨hne, hdigits, hn⟩
    · simp [hminus] at htext
  · rintro ⟨hne, hdigits, hn⟩
    exact ⟨text.toList, hne, hdigits, Or.inl ⟨rfl, hn⟩⟩

/-- The conversions read a text of the pattern as the numeral it is, a minus only when signed. -/
theorem parseNumber_eq_some {signed : Bool} {k : ℕ} {n : ℤ} (hp : p.Numeric)
    (htext : digitPattern p k text = true) : parseNumber p signed text = some n ↔
      Numeral text n ∧ (text.toList.head? = some '-' → signed = true) := by
  obtain ⟨digits, hsign, hdigits, -⟩ := digitPattern_iff.mp htext
  have hspace : ∀ c ∈ digits, p.isSpace c = false := by
    intro c hc
    exact hp.digit_not_space c (hdigits c hc)
  rcases hsign with ⟨rfl, hhead⟩ | hminus
  · have htrim := trim_eq_self hspace
    have hparse : parseNumber p signed text = readDigits text.toList := by
      rw [parseNumber, htrim]
      split
      · rename_i htail
        simp [htail] at hhead
      · rename_i htail
        rw [htail] at hdigits
        have hplus := hdigits '+' (by simp)
        rw [hp.plus_not_digit] at hplus
        cases hplus
      · rfl
    rw [hparse, numeral_plain_iff hhead]
    exact (and_iff_left fun h => absurd h hhead).symm
  · have htrim : ∀ c ∈ text.toList, p.isSpace c = false := by
      rw [hminus]
      exact List.forall_mem_cons.mpr ⟨hp.minus_not_space, hspace⟩
    have hparse : parseNumber p signed text =
        if signed then (readDigits digits).map (-·) else none := by
      rw [parseNumber, trim_eq_self htrim, hminus]
      rfl
    rw [hparse, numeral_minus_iff hminus, hminus]
    cases signed with
    | false => simp
    | true =>
      simp only [if_true, Option.map_eq_some_iff, implies_true, and_true]
      constructor
      · rintro ⟨m, hm, rfl⟩
        simpa using hm
      · intro hm
        exact ⟨-n, hm, by omega⟩

end Parsing

section Encoding
open MibSelection (validatorFor)
variable {p : Platform} {text : String} {st : SnmpSyntax} {lo hi n : ℤ}

theorem rangeOf_cases (hst : rangeOf st = some (lo, hi)) :
    st = .int32 ∧ lo = -2 ^ 31 ∧ hi = 2 ^ 31 - 1 ∨
      (st = .cntr32 ∨ st = .gauge32 ∨ st = .timeticks) ∧ lo = 0 ∧ hi = 2 ^ 32 - 1 ∨
      st = .cntr64 ∧ lo = 0 ∧ hi = 2 ^ 64 - 1 := by
  cases st <;> simp_all [rangeOf]

theorem inRange_eq_some {m : Option ℤ} : inRange lo hi m = some n ↔ m = some n ∧ lo ≤ n ∧ n ≤ hi := by
  rw [inRange, Option.filter_eq_some_iff, decide_eq_true_eq]

theorem inRange_isSome {m : Option ℤ} :
    (inRange lo hi m).isSome = true ↔ ∃ n, m = some n ∧ lo ≤ n ∧ n ≤ hi := by
  rw [Option.isSome_iff_exists]
  exact exists_congr fun _ => inRange_eq_some

/-- A number of the range of the syntax, a text that is empty, or one character under `int32`. -/
theorem validatorFor_accepts_iff {v : Validator} (hst : rangeOf st = some (lo, hi))
    (hv : validatorFor st = some v) : v.accepts p text = true ↔
      digitPattern p (if st = .cntr64 then 20 else 10) text = true ∧
        ((∃ n, parseNumber p (st = .int32) text = some n ∧ lo ≤ n ∧ n ≤ hi) ∨ text = "" ∨
          st = .int32 ∧ text.length = 1) := by
  rcases rangeOf_cases hst with ⟨rfl, rfl, rfl⟩ | ⟨rfl | rfl | rfl, rfl, rfl⟩ | ⟨rfl, rfl, rfl⟩ <;>
    obtain rfl := Option.some.inj hv <;>
    simp [Validator.accepts, toInt, toUInt, toULong, inRange_isSome, or_assoc]

/-- Each conversion of OK reads the number that the validator has read. -/
theorem encode_of_parse (hst : rangeOf st = some (lo, hi)) (hlo : lo ≤ n) (hhi : n ≤ hi)
    (hparse : parseNumber p (st = .int32) text = some n) :
    encode p text st = .value (numberValue n st) := by
  have hread : ∀ a b, a ≤ lo → hi ≤ b → inRange a b (parseNumber p (st = .int32) text) = some n := by
    intro a b ha hb
    exact inRange_eq_some.mpr ⟨hparse, by omega, by omega⟩
  rcases rangeOf_cases hst with ⟨rfl, rfl, rfl⟩ | ⟨rfl | rfl | rfl, rfl, rfl⟩ | ⟨rfl, rfl, rfl⟩
  case inl =>
    have hlong : toLong p text = some n := hread _ _ (by omega) (by omega)
    simp [encode, numberValue, hlong]
  case inr.inl.inr.inr =>
    have hint : toUInt p text = some n.toNat :=
      congrArg (Option.map Int.toNat) (hread _ _ (by omega) (by omega))
    simp [encode, numberValue, hint]
  all_goals
    have hlong : toULong p text = some n.toNat :=
      congrArg (Option.map Int.toNat) (hread _ _ (by omega) (by omega))
    simp [encode, numberValue, hlong]

theorem encode_empty (hst : rangeOf st = some (lo, hi)) : encode p "" st = .value (numberValue 0 st) := by
  have hnone : ∀ signed, parseNumber p signed "" = none := by
    intro signed
    simp [parseNumber]
  rcases rangeOf_cases hst with ⟨rfl, -⟩ | ⟨rfl | rfl | rfl, -⟩ | ⟨rfl, -⟩ <;>
    simp [encode, numberValue, toLong, toULong, toUInt, inRange, hnone]

/-- One character is a numeral exactly if it is a digit. -/
theorem numeral_char_iff {c : Char} (htext : text.toList = [c]) :
    Numeral text n ↔ c.isDigit = true ∧ n = digitValue c := by
  have hvalue : positionalValue [c] = digitValue c := by simp [positionalValue]
  constructor
  · rintro ⟨digits, hne, hdigits, ⟨hplain, hn⟩ | ⟨hminus, -⟩⟩
    · rw [htext] at hplain
      subst hplain
      rw [hvalue] at hn
      exact ⟨hdigits c (by simp), hn⟩
    · rw [htext, List.cons.injEq] at hminus
      exact absurd hminus.2.symm hne
  · rintro ⟨hdigit, hn⟩
    exact ⟨[c], by simp, by simpa using hdigit, Or.inl ⟨htext, by rw [hn, hvalue]⟩⟩

theorem digitValue_le {c : Char} (h : c.isDigit = true) : digitValue c ≤ 9 := by
  have hlast : c.toNat ≤ 57 := by
    simp only [Char.isDigit, Bool.and_eq_true, decide_eq_true_eq] at h
    exact h.2
  have hzero : '0'.toNat = 48 := rfl
  rw [digitValue]
  omega

/-- OK is refused without an OID, and encodes a number where there is one. -/
theorem okButtonPressed_of_encode {m : MibSelection} {v : Value}
    (h : encode p m.resultString m.resultSyntax = .value v) (hoid : m.resultOid ≠ "") :
    ∃ m', m.okButtonPressed p = (m', true) ∧ m'.vb.value = v := by
  simp only [MibSelection.okButtonPressed, if_neg hoid, h]
  exact ⟨_, rfl, rfl⟩

end Encoding

open MibSelection (validatorFor)

theorem accepted_encoded_iff {p : Platform} (hp : p.Numeric) {m : MibSelection} {lo hi : ℤ}
    {v : Validator} (hst : rangeOf m.resultSyntax = some (lo, hi))
    (hv : validatorFor m.resultSyntax = some v) (haccepts : v.accepts p m.resultString = true) :
    (∃ n, StandsFor m.resultString n ∧ lo ≤ n ∧ n ≤ hi ∧ (m.resultOid ≠ "" →
        ∃ m', m.okButtonPressed p = (m', true) ∧ m'.vb.value = numberValue n m.resultSyntax)) ↔
      ¬(m.resultSyntax = .int32 ∧ ∃ c, m.resultString.toList = [c] ∧ c.isDigit = false) := by
  obtain ⟨hpattern, hread⟩ := (validatorFor_accepts_iff hst hv).mp haccepts
  constructor
  · rintro ⟨n, hn, -⟩ ⟨-, c, hc, hdigit⟩
    rcases hn with ⟨hempty, -⟩ | hnumeral
    · simp [hempty] at hc
    · have hdigit' := ((numeral_char_iff hc).mp hnumeral).1
      rw [hdigit] at hdigit'
      cases hdigit'
  · intro hnot
    rcases hread with ⟨n, hparse, hlo, hhi⟩ | hempty | ⟨hbase, hlength⟩
    · have hnumeral := ((parseNumber_eq_some hp hpattern).mp hparse).1
      exact ⟨n, Or.inr hnumeral, hlo, hhi, okButtonPressed_of_encode (encode_of_parse hst hlo hhi hparse)⟩
    · have hencode := encode_empty (p := p) hst
      rw [← hempty] at hencode
      have hzero : lo ≤ 0 ∧ 0 ≤ hi := by
        rcases rangeOf_cases hst with h | h | h <;> omega
      exact ⟨0, Or.inl ⟨hempty, rfl⟩, hzero.1, hzero.2, okButtonPressed_of_encode hencode⟩
    · obtain ⟨c, hc⟩ := List.length_eq_one_iff.mp hlength
      have hdigit : c.isDigit = true := by
        rw [← Bool.not_eq_false]
        intro hno
        exact hnot ⟨hbase, c, hc, hno⟩
      have hnumeral := (numeral_char_iff (n := digitValue c) hc).mpr ⟨hdigit, rfl⟩
      have hvalue := digitValue_le hdigit
      have hrange : lo ≤ digitValue c ∧ digitValue c ≤ hi := by
        rcases rangeOf_cases hst with h | h | h <;> omega
      have hparse : parseNumber p (m.resultSyntax = .int32) m.resultString = some (digitValue c : ℤ) := by
        apply (parseNumber_eq_some hp hpattern).mpr
        exact ⟨hnumeral, fun _ => by simp [hbase]⟩
      exact ⟨digitValue c, Or.inr hnumeral, hrange.1, hrange.2,
        okButtonPressed_of_encode (encode_of_parse hst hrange.1 hrange.2 hparse)⟩

theorem asciiPlatform_numeric : asciiPlatform.Numeric where
  digit_not_space c hc := by
    by_contra hspace
    obtain rfl : c = ' ' := by simpa [asciiPlatform] using hspace
    simp [asciiPlatform, Char.isDigit] at hc
  minus_not_space := rfl
  plus_not_digit := rfl

/-- A TTL is set to the text in the value field. -/
def selectTtl (text : String) : MibSelection :=
  { MibSelection.start asciiPlatform ipHandle ⟨true, true, false⟩ "1.3.6.1.2.1.4.2" none none "" with
    valLe := text, resultString := text }

theorem accepted_encoded_ttl :
    (∃ n, StandsFor "-64" n ∧ -2 ^ 31 ≤ n ∧ n ≤ 2 ^ 31 - 1 ∧ ((selectTtl "-64").resultOid ≠ "" →
        ∃ m', (selectTtl "-64").okButtonPressed asciiPlatform = (m', true) ∧
          m'.vb.value = numberValue n (selectTtl "-64").resultSyntax)) ↔
      ¬((selectTtl "-64").resultSyntax = .int32 ∧ ∃ c, "-64".toList = [c] ∧ c.isDigit = false) :=
  accepted_encoded_iff asciiPlatform_numeric (m := selectTtl "-64") (v := .int false) (by decide)
    (by decide) (by decide)

/-- A minus alone is accepted, is no numeral, and is encoded as zero. -/
theorem accepted_minus_alone :
    Runs.exec (MibSelection.step asciiPlatform)
      (.start asciiPlatform ipHandle ⟨true, true, false⟩ "1.3.6.1.2.1.4.2" none none "") [.editValue "-"] =
        some (selectTtl "-") ∧
      rangeOf (selectTtl "-").resultSyntax = some (-2 ^ 31, 2 ^ 31 - 1) ∧
      (∃ v, validatorFor (selectTtl "-").resultSyntax = some v ∧ v.accepts asciiPlatform "-" = true) ∧
      ((selectTtl "-").okButtonPressed asciiPlatform).2 = true ∧
      ((selectTtl "-").okButtonPressed asciiPlatform).1.vb.value = .int32 0 ∧
      ¬∃ n, StandsFor "-" n := by
  refine ⟨rfl, by decide, ⟨.int false, by decide, by decide⟩, by decide, by decide, ?_⟩
  rintro ⟨n, ⟨hempty, -⟩ | hnumeral⟩
  · exact absurd hempty (by decide)
  · cases ((numeral_char_iff (c := '-') rfl).mp hnumeral).1

end SnmpB.Selection
