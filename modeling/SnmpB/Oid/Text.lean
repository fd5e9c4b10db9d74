import Mathlib.Data.List.TakeWhile
import SnmpB.Oid.Basic

/-! # Reading back a printed OID

`StrToOid` reads the text of `get_printable` back, and a text that begins with
the text of an OID, up to a dot or to its end, denotes an extension of it.
-/
namespace SnmpB

namespace Oid

theorem isDigit_toNat {c : Char} (h : c.isDigit = true) : 48 ≤ c.toNat ∧ c.toNat ≤ 57 := by
  simp only [Char.isDigit, Bool.and_eq_true, decide_eq_true_eq] at h
  exact ⟨UInt32.le_iff_toNat_le.mp h.1, UInt32.le_iff_toNat_le.mp h.2⟩

theorem foldl_tokenValue {digits : List Char} (h : ∀ c ∈ digits, c.isDigit = true) (n : ℕ) :
    digits.foldl (fun number c => (number * 10 + c.toNat - '0'.toNat) % 2 ^ 64) (n % 2 ^ 64) =
      Nat.ofDigitChars 10 digits n % 2 ^ 64 := by
  induction digits generalizing n with
  | nil => simp
  | cons c digits ih =>
    obtain ⟨hlow, -⟩ := isDigit_toNat (h c List.mem_cons_self)
    have hzero : '0'.toNat = 48 := rfl
    have hstep : (n % 2 ^ 64 * 10 + c.toNat - '0'.toNat) % 2 ^ 64 =
        (10 * n + (c.toNat - '0'.toNat)) % 2 ^ 64 := by
      rw [hzero]
      omega
    rw [List.foldl_cons, Nat.ofDigitChars_cons, hstep]
    exact ih (fun d hd => h d (List.mem_cons_of_mem c hd)) _

theorem isDigit_toDigits (n : ℕ) : ∀ c ∈ Nat.toDigits 10 n, c.isDigit = true := by
  intro c hc
  exact Nat.isDigit_of_mem_toDigits (by decide) (by decide) hc

theorem tokenValue_toDigits {n : ℕ} (h : n < 2 ^ 64) : tokenValue (Nat.toDigits 10 n) = n := by
  have hfold := foldl_tokenValue (isDigit_toDigits n) 0
  rw [Nat.zero_mod, Nat.ofDigitChars_ten_toDigits, Nat.mod_eq_of_lt h] at hfold
  exact hfold

theorem endsToken_cases {f : List Char} (h : endsToken f = true) : f = [] ∨ ∃ rest, f = '.' :: rest := by
  cases f with
  | nil => exact Or.inl rfl
  | cons c rest =>
    obtain rfl : c = '.' := by simpa [endsToken] using h
    exact Or.inr ⟨rest, rfl⟩

theorem strToOidPass_number {n : ℕ} (hn : n < 2 ^ 64) {f : List Char} (hf : endsToken f = true)
    (temp : Oid) : strToOidPass (Nat.toDigits 10 n ++ f) temp = some (f, temp ++ [n]) ∧
      strToOidPass ('.' :: (Nat.toDigits 10 n ++ f)) temp = some (f, temp ++ [n]) := by
  obtain ⟨c, digits, hdigits⟩ := List.exists_cons_of_ne_nil (Nat.toDigits_ne_nil (n := n) (b := 10))
  have hall := isDigit_toDigits n
  have hc : c.isDigit = true := hall c (by rw [hdigits]; exact List.mem_cons_self)
  have hstop : f.takeWhile Char.isDigit = [] ∧ f.dropWhile Char.isDigit = f := by
    rcases endsToken_cases hf with rfl | ⟨rest, rfl⟩
    · exact ⟨rfl, rfl⟩
    · exact ⟨rfl, rfl⟩
  have htake : (Nat.toDigits 10 n ++ f).takeWhile Char.isDigit = Nat.toDigits 10 n := by
    rw [List.takeWhile_append_of_pos hall, hstop.1, List.append_nil]
  have hdrop : (Nat.toDigits 10 n ++ f).dropWhile Char.isDigit = f := by
    rw [List.dropWhile_append_of_pos hall, hstop.2]
  have hother : otherToken f (temp ++ [n]) = some (f, temp ++ [n]) := by
    rcases endsToken_cases hf with rfl | ⟨rest, rfl⟩
    · rfl
    · rfl
  have hhead : (Nat.toDigits 10 n ++ f).head? = some c := by rw [hdigits]; rfl
  have hdot : some c ≠ some '.' := by
    intro heq
    cases heq
    exact absurd hc (by decide)
  constructor
  · rw [strToOidPass]
    simp only [hhead, hdot, ↓reduceIte, Option.any_some, hc, hdrop, hf, htake, tokenValue_toDigits hn,
      hother]
  · rw [strToOidPass]
    simp only [List.head?_cons, List.tail_cons, ↓reduceIte, hhead, Option.any_some, hc, hdrop, hf, htake,
      tokenValue_toDigits hn, hother]

/-- The loop reads the text of an OID in one pass for each sub-identifier. -/
theorem strToOidLoop_dotted {oid : Oid} (hne : oid ≠ []) (hoid : ∀ n ∈ oid, n < 2 ^ 64) {f : List Char}
    (hf : endsToken f = true) (fuel : ℕ) (temp : Oid) :
    strToOidLoop (fuel + oid.length) (dotted oid ++ f) temp = strToOidLoop fuel f (temp ++ oid) ∧
      strToOidLoop (fuel + oid.length) ('.' :: (dotted oid ++ f)) temp =
        strToOidLoop fuel f (temp ++ oid) := by
  induction oid generalizing temp with
  | nil => exact absurd rfl hne
  | cons n rest ih =>
    have hn := hoid n List.mem_cons_self
    cases rest with
    | nil =>
      obtain ⟨hpass, hpass'⟩ := strToOidPass_number hn hf temp
      have hcons : dotted [n] ++ f ≠ [] := by simp [dotted_ne_nil]
      constructor
      · rw [List.length_singleton, strToOidLoop, if_neg hcons, dotted, hpass]
      · rw [List.length_singleton, strToOidLoop, if_neg (List.cons_ne_nil _ _), dotted, hpass']
    | cons m rest =>
      have hrest := (ih (List.cons_ne_nil m rest) (fun k hk => hoid k (List.mem_cons_of_mem n hk))
        (temp ++ [n])).2
      rw [List.append_assoc, List.singleton_append] at hrest
      have htext : dotted (n :: m :: rest) ++ f = Nat.toDigits 10 n ++ '.' :: (dotted (m :: rest) ++ f) := by
        rw [dotted, List.append_assoc, List.cons_append]
      obtain ⟨hpass, hpass'⟩ :=
        strToOidPass_number hn (f := '.' :: (dotted (m :: rest) ++ f)) rfl temp
      rw [htext, List.length_cons, ← Nat.add_assoc]
      constructor
      · rw [strToOidLoop, if_neg (by simp), hpass]
        exact hrest
      · rw [strToOidLoop, if_neg (List.cons_ne_nil _ _), hpass']
        exact hrest

theorem dotted_length_le (oid : Oid) : oid.length ≤ (dotted oid).length := by
  induction oid with
  | nil => simp
  | cons n rest ih =>
    have hpos : 0 < (Nat.toDigits 10 n).length := List.length_pos_iff.mpr Nat.toDigits_ne_nil
    cases rest with
    | nil =>
      rw [dotted, List.length_singleton]
      exact hpos
    | cons m rest =>
      simp only [dotted, List.length_append, List.length_cons] at ih ⊢
      omega

theorem dollarToken_extends {str rest : List Char} {temp temp' : Oid}
    (h : dollarToken str temp = some (rest, temp')) : temp <+: temp' := by
  rw [dollarToken] at h
  split at h
  · cases h
  · split at h
    · cases h
      exact List.prefix_append temp _
    · cases h

theorem otherToken_extends {str rest : List Char} {temp temp' : Oid}
    (h : otherToken str temp = some (rest, temp')) : temp <+: temp' := by
  cases str with
  | nil =>
    cases h
    exact List.prefix_rfl
  | cons c str =>
    rw [otherToken] at h
    split at h
    · cases h
      exact List.prefix_rfl
    · split at h
      · exact dollarToken_extends h
      · cases h

theorem strToOidPass_extends {str rest : List Char} {temp temp' : Oid}
    (h : strToOidPass str temp = some (rest, temp')) : temp <+: temp' := by
  simp only [strToOidPass] at h
  generalize (if str.head? = some '.' then str.tail else str) = str at h
  split at h
  · split at h
    · exact (List.prefix_append temp _).trans (otherToken_extends h)
    · cases h
  · exact otherToken_extends h

theorem strToOidLoop_extends {fuel : ℕ} {str : List Char} {temp oid : Oid}
    (h : strToOidLoop fuel str temp = some oid) : temp <+: oid := by
  induction fuel generalizing str temp with
  | zero =>
    cases h
    exact List.prefix_rfl
  | succ fuel ih =>
    rw [strToOidLoop] at h
    split at h
    · cases h
      exact List.prefix_rfl
    · split at h
      · cases h
      · next hpass => exact (strToOidPass_extends hpass).trans (ih h)

/-- A text that begins with the text of an OID denotes an extension of it, if it denotes an OID. -/
theorem strToOid_dotted_append {oid : Oid} (hne : oid ≠ []) (hoid : ∀ n ∈ oid, n < 2 ^ 64) {f : List Char}
    (hf : endsToken f = true) {result : Oid} (h : strToOid (dotted oid ++ f) = some result) :
    oid <+: result := by
  have hlen := dotted_length_le oid
  rw [strToOid, if_neg (by simp [dotted_ne_nil hne]), List.length_append] at h
  obtain ⟨fuel, hfuel⟩ : ∃ fuel, (dotted oid).length + f.length = fuel + oid.length :=
    ⟨(dotted oid).length + f.length - oid.length, by omega⟩
  rw [hfuel, (strToOidLoop_dotted hne hoid hf fuel []).1] at h
  exact strToOidLoop_extends h

/-- `StrToOid` reads back what `get_printable` writes. -/
theorem strToOid_dotted {oid : Oid} (hne : oid ≠ []) (hoid : ∀ n ∈ oid, n < 2 ^ 64) :
    strToOid (dotted oid) = some oid := by
  have hlen := dotted_length_le oid
  rw [strToOid, if_neg (dotted_ne_nil hne)]
  obtain ⟨fuel, hfuel⟩ : ∃ fuel, (dotted oid).length = fuel + oid.length :=
    ⟨(dotted oid).length - oid.length, by omega⟩
  have hloop := (strToOidLoop_dotted hne hoid (f := []) rfl fuel []).1
  rw [List.append_nil] at hloop
  rw [hfuel, hloop]
  cases fuel <;> rfl

theorem mem_dotted {oid : Oid} {c : Char} (h : c ∈ dotted oid) : c.isDigit = true ∨ c = '.' := by
  induction oid with
  | nil => cases h
  | cons n rest ih =>
    cases rest with
    | nil => exact Or.inl (isDigit_toDigits n c h)
    | cons m rest =>
      rw [dotted, List.mem_append, List.mem_cons] at h
      rcases h with hdigit | hdot | hrest
      · exact Or.inl (isDigit_toDigits n c hdigit)
      · exact Or.inr hdot
      · exact ih hrest

theorem dotted_cons (x : ℕ) (rest : Oid) :
    dotted (x :: rest) = Nat.toDigits 10 x ++ if rest = [] then [] else '.' :: dotted rest := by
  cases rest with
  | nil => exact (List.append_nil _).symm
  | cons y rest => rfl

/-- Digits that begin a number followed by a dot or by nothing begin the number. -/
theorem toDigits_isPrefix {x y : ℕ} {more : List Char} (hmore : endsToken more = true)
    (h : Nat.toDigits 10 x <+: Nat.toDigits 10 y ++ more) : Nat.toDigits 10 x <+: Nat.toDigits 10 y := by
  rcases List.prefix_or_prefix_of_prefix h (List.prefix_append _ more) with hxy | ⟨s, hs⟩
  · exact hxy
  · rw [← hs, List.prefix_append_right_inj] at h
    cases s with
    | nil =>
      rw [List.append_nil] at hs
      exact hs ▸ List.prefix_rfl
    | cons c s =>
      obtain ⟨rest, hrest⟩ := h
      have hdigit : c.isDigit = true := by
        apply isDigit_toDigits x
        rw [← hs]
        exact List.mem_append_right _ List.mem_cons_self
      rw [← hrest] at hmore
      have hdot : c = '.' := by simpa [endsToken] using hmore
      rw [hdot] at hdigit
      cases hdigit

theorem le_of_toDigits_isPrefix {x y : ℕ} (h : Nat.toDigits 10 x <+: Nat.toDigits 10 y) : x ≤ y := by
  obtain ⟨more, hmore⟩ := h
  have hy : Nat.ofDigitChars 10 (Nat.toDigits 10 x ++ more) 0 = y := by
    rw [hmore, Nat.ofDigitChars_ten_toDigits]
  rw [Nat.ofDigitChars_append, Nat.ofDigitChars_ten_toDigits,
    Nat.ofDigitChars_eq_ofDigitChars_zero] at hy
  have hpow : 1 * x ≤ 10 ^ more.length * x := Nat.mul_le_mul_right x (Nat.one_le_pow _ _ (by decide))
  omega

/-- What a text begins stands before it in the order of the OIDs, for whatever reason it does. -/
theorem lt_of_dotted_prefix {a b : Oid} (h : dotted a <+: dotted b) (hne : a ≠ b) : a < b := by
  induction a generalizing b with
  | nil =>
    cases b with
    | nil => exact absurd rfl hne
    | cons y b => exact List.nil_lt_cons y b
  | cons x a ih =>
    cases b with
    | nil => exact absurd (List.prefix_nil.mp h) (dotted_ne_nil (List.cons_ne_nil x a))
    | cons y b =>
      rw [dotted_cons, dotted_cons] at h
      have hends : endsToken (if b = [] then [] else '.' :: dotted b) = true := by
        split <;> rfl
      have hle : x ≤ y := le_of_toDigits_isPrefix (toDigits_isPrefix hends ((List.prefix_append _ _).trans h))
      rw [List.cons_lt_cons_iff]
      rcases hle.lt_or_eq with hlt | rfl
      · exact Or.inl hlt
      · refine Or.inr ⟨rfl, ?_⟩
        rw [List.prefix_append_right_inj] at h
        have hab : a ≠ b := fun hab => hne (congrArg _ hab)
        by_cases ha : a = []
        · subst ha
          exact ih List.nil_prefix hab
        · rw [if_neg ha] at h
          split at h
          · exact absurd (List.prefix_nil.mp h) (List.cons_ne_nil _ _)
          · exact ih ((List.prefix_cons_inj _).mp h) hab

theorem getPrintable_inj {a b : Oid} : getPrintable a = getPrintable b ↔ a = b := by
  refine ⟨fun h => ?_, congrArg _⟩
  have htext : dotted a = dotted b := String.ofList_injective h
  by_contra hne
  have hab := lt_of_dotted_prefix (htext ▸ List.prefix_rfl : dotted a <+: dotted b) hne
  have hba := lt_of_dotted_prefix (htext ▸ List.prefix_rfl : dotted b <+: dotted a) (Ne.symm hne)
  exact absurd hba (List.lt_asymm hab)

end Oid

theorem toLatin1_ascii {text : String} (h : ∀ c ∈ text.toList, 0 < c.toNat ∧ c.toNat < 128) :
    toLatin1 text = text.toList := by
  have hmap : (text.toList.flatMap fun c =>
      if c.toNat < 256 then [c] else if c.toNat < 2 ^ 16 then ['?'] else ['?', '?']) = text.toList := by
    generalize text.toList = cs at h
    induction cs with
    | nil => rfl
    | cons c cs ih =>
      have hc : c.toNat < 256 := by
        obtain ⟨-, hlt⟩ := h c List.mem_cons_self
        omega
      rw [List.flatMap_cons, if_pos hc, ih fun d hd => h d (List.mem_cons_of_mem c hd)]
      rfl
  rw [toLatin1, hmap, List.takeWhile_eq_self_iff]
  intro c hc
  rw [bne_iff_ne]
  rintro rfl
  exact absurd (h _ hc).1 (by decide)

theorem Oid.dotted_ascii {oid : Oid} {c : Char} (h : c ∈ dotted oid) : 0 < c.toNat ∧ c.toNat < 128 := by
  rcases mem_dotted h with hdigit | rfl
  · have hdigit := isDigit_toNat hdigit
    omega
  · decide

theorem toLatin1_getPrintable (oid : Oid) : toLatin1 oid.getPrintable = Oid.dotted oid := by
  rw [toLatin1_ascii] <;> rw [Oid.getPrintable, String.toList_ofList]
  exact fun c hc => Oid.dotted_ascii hc

theorem Oid.ofText_getPrintable {oid : Oid} (hoid : ∀ n ∈ oid, n < 2 ^ 64) : ofText oid.getPrintable = oid := by
  rw [ofText, toLatin1_getPrintable]
  by_cases hne : oid = []
  · rw [hne]
    rfl
  · rw [strToOid_dotted hne hoid]
    rfl

end SnmpB
