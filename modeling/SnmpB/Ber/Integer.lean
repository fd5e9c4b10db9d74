import Mathlib.Tactic.IntervalCases
import SnmpB.Ber.Header

/-! # Integers on the wire

Signed integers go out in as few octets as hold their sign, unsigned ones with a zero in
front where their high bit is set. A 64 bit counter is kept in two words.
-/
namespace SnmpB.Ber
open Framing Octets ByteOrder

/-! ## Building -/

/-- `0x1FFul << ((8 * (sizeof(long) - 1)) - 1)`. -/
def signMask : BitVec 64 := 0x1FF <<< 55

/-- `0xFFul << (8 * (sizeof(long) - 1))`. -/
def topMask : BitVec 64 := 0xFF <<< 56

/-- "Truncate "unnecessary" bytes off of the most significant end". -/
def truncateInt : ℕ → BitVec 64 → ℕ × BitVec 64
  | intsize + 2, integer =>
    if integer &&& signMask = 0 ∨ integer &&& signMask = signMask then truncateInt (intsize + 1) (integer <<< 8)
    else (intsize + 2, integer)
  | intsize, integer => (intsize, integer)

/-- The loop that writes the top octets. -/
def topOctets : ℕ → BitVec 64 → List Byte
  | 0, _ => []
  | intsize + 1, integer => ((integer &&& topMask) >>> 56).setWidth 8 :: topOctets intsize (integer <<< 8)

/-- `asn_build_int`. -/
def asnBuildInt (type : Byte) (integer : ℤ) : Writer Byte :=
  let (intsize, integer) := truncateInt 8 (BitVec.ofInt 64 integer)
  andThen (asnBuildHeader type intsize) (put (topOctets intsize integer))

/-- How many octets `asn_build_unsigned_int` writes. -/
def unsignedLen (integer : ℕ) : ℕ :=
  let length :=
    if (integer >>> 24) &&& 0xFF ≠ 0 then 4
    else if (integer >>> 16) &&& 0xFF ≠ 0 then 3
    else if (integer >>> 8) &&& 0xFF ≠ 0 then 2
    else 1
  -- "check for 5 byte len where first byte will be a null"
  if (integer >>> (8 * (length - 1))) &&& 0x80 ≠ 0 then length + 1 else length

/-- `asn_build_unsigned_int`. -/
def asnBuildUnsignedInt (type : Byte) (integer : ℕ) : Writer Byte :=
  let length := unsignedLen integer
  let octet x := uchar (integer >>> (8 * (length - 1 - x)))
  andThen (asnBuildHeader type length)
    (put (if length = 5 then uchar 0 :: (List.range 4).map fun x => octet (x + 1) else (List.range length).map octet))

structure Counter64 where
  high : BitVec 64
  low : BitVec 64
  deriving DecidableEq

/-- One octet to the left. -/
def Counter64.shift (c : Counter64) : Counter64 :=
  ⟨c.high <<< 8 ||| (c.low &&& 0xFF000000) >>> 24, c.low <<< 8⟩

/-- The loop that leaves out octets from the top. -/
def truncateCounter : ℕ → Counter64 → ℕ × Counter64
  | intsize + 2, c =>
    if c.high &&& 0xFF800000 = 0 ∨ c.high &&& 0xFF800000 = 0xFF800000 then truncateCounter (intsize + 1) c.shift
    else (intsize + 2, c)
  | intsize, c => (intsize, c)

def topOfCounter : ℕ → Counter64 → List Byte
  | 0, _ => []
  | intsize + 1, c => ((c.high &&& 0xFF000000) >>> 24).setWidth 8 :: topOfCounter intsize c.shift

/-- `asn_build_unsigned_int64`. -/
def asnBuildUnsignedInt64 (type : Byte) (c : Counter64) : Writer Byte :=
  if ((c.high &&& 0xFF000000) >>> 24) &&& 0x80 ≠ 0 then
    andThen (asnBuildHeader type 9) (put (0 :: topOfCounter 8 c))
  else
    let (intsize, c) := truncateCounter 8 c
    andThen (asnBuildHeader type intsize) (put (topOfCounter intsize c))

/-! ## Parsing -/

/-- `asn_parse_int`. The sign is looked up even where there is no content. -/
def asnParseInt (c : Cursor) : Option ((Byte × ℤ) × Cursor) := do
  let ((type, asnLength), c) ← asnParseContent [asnInteger, smiTimeTicks, smiCounter] c
  if asnLength > 8 then none
  else
    let first ← c.data.head?
    let value : BitVec 64 := if first &&& 0x80 ≠ 0 then -1 else 0
    let (bytes, rest) ← takeBytes asnLength c.data
    some ((type, (bytes.foldl (fun (value : BitVec 64) (b : Byte) => value <<< 8 ||| b.setWidth 64) value).toInt),
      ⟨rest, c.valid⟩)

/-- `asn_parse_unsigned_int`; without content a zero behind it is skipped nevertheless. -/
def asnParseUnsignedInt (c : Cursor) : Option ((Byte × ℕ) × Cursor) := do
  let ((type, asnLength), c) ← asnParseContent [asnInteger, smiTimeTicks, smiCounter, smiGauge, smiUInteger] c
  let first ← c.data.head?
  if asnLength > 5 ∨ (asnLength > 4 ∧ first ≠ 0) then none
  else
    let (asnLength, bufp) := if first = 0 then (asnLength - 1, c.data.tail) else (asnLength, c.data)
    let (bytes, rest) ← takeBytes asnLength bufp
    some ((type, bytes.foldl (fun value b => (value <<< 8) + b.toNat) 0), ⟨rest, c.valid⟩)

/-- One octet in from below. -/
def Counter64.push (c : Counter64) (b : Byte) : Counter64 :=
  ⟨c.high <<< 8 ||| (c.low &&& 0xFF000000) >>> 24, (c.low <<< 8 ||| b.setWidth 64) &&& 0xFFFFFFFF⟩

/-- `asn_parse_unsigned_int64`. -/
def asnParseUnsignedInt64 (c : Cursor) : Option ((Byte × Counter64) × Cursor) := do
  let ((type, asnLength), c) ← asnParseContent [asnInteger, smiCounter64] c
  let first ← c.data.head?
  if asnLength > 9 ∨ (asnLength = 9 ∧ first ≠ 0) then none
  else
    let start : Counter64 := if first &&& 0x80 ≠ 0 then ⟨-1, -1⟩ else ⟨0, 0⟩
    let (bytes, rest) ← takeBytes asnLength c.data
    some ((type, bytes.foldl Counter64.push start), ⟨rest, c.valid⟩)

/-! ## Signed integers -/

theorem signMask_iff (x : BitVec 64) :
    (x &&& signMask = 0 ∨ x &&& signMask = signMask) ↔ -2 ^ 55 ≤ x.toInt ∧ x.toInt < 2 ^ 55 := by
  have hx : x.toNat < 2 ^ 64 := x.isLt
  have hmask : (x &&& signMask).toNat = x.toNat / 2 ^ 55 * 2 ^ 55 := by
    rw [BitVec.toNat_and, show signMask.toNat = (2 ^ 9 - 1) <<< 55 from rfl, and_mask, Nat.shiftRight_eq_div_pow,
      Nat.shiftLeft_eq, Nat.mod_eq_of_lt (by omega)]
  rw [← BitVec.toNat_inj, ← BitVec.toNat_inj, hmask, BitVec.toInt_eq_toNat_cond,
    show signMask.toNat = 511 * 2 ^ 55 from rfl, show (0 : BitVec 64).toNat = 0 from rfl]
  split
  · omega
  · omega

theorem shift_toInt {x : BitVec 64} (h : -2 ^ 55 ≤ x.toInt ∧ x.toInt < 2 ^ 55) : (x <<< 8).toInt = x.toInt * 256 := by
  have hx : x.toNat < 2 ^ 64 := x.isLt
  have hshift : (x <<< 8).toNat = x.toNat * 256 % 2 ^ 64 := by rw [BitVec.toNat_shiftLeft, Nat.shiftLeft_eq]
  rw [BitVec.toInt_eq_toNat_cond] at h ⊢
  rw [BitVec.toInt_eq_toNat_cond, hshift]
  split at h
  · rw [if_pos (by omega), if_pos (by omega)]
    omega
  · rw [if_neg (by omega), if_neg (by omega)]
    omega

/-- Whatever is left out, the number comes back on shifting right. -/
theorem truncateInt_spec {k : ℕ} (hk : 1 ≤ k) (x : BitVec 64) :
    1 ≤ (truncateInt k x).1 ∧ (truncateInt k x).1 ≤ k ∧
      (truncateInt k x).2.toInt = x.toInt * 256 ^ (k - (truncateInt k x).1) := by
  induction k generalizing x with
  | zero => omega
  | succ k ih =>
    cases k with
    | zero => exact ⟨le_rfl, le_rfl, by simp [truncateInt]⟩
    | succ k =>
      rw [truncateInt]
      split
      · rename_i hmask
        obtain ⟨hpos, hle, heq⟩ := ih (by omega) (x <<< 8)
        refine ⟨hpos, by omega, ?_⟩
        rw [heq, shift_toInt ((signMask_iff x).mp hmask), Nat.succ_sub hle, pow_succ]
        ring
      · exact ⟨by omega, le_rfl, by simp⟩

theorem topOctets_eq_shiftOut (n : ℕ) (x : BitVec 64) : topOctets n x = shiftOut n x := by
  induction n generalizing x with
  | zero => rfl
  | succ n ih =>
    have hx : x.toNat < 2 ^ 64 := x.isLt
    have hmask : (x &&& topMask) >>> 56 = x >>> 56 := by
      refine BitVec.eq_of_toNat_eq ?_
      rw [BitVec.toNat_ushiftRight, BitVec.toNat_ushiftRight, BitVec.toNat_and,
        show topMask.toNat = (2 ^ 8 - 1) <<< 56 from rfl, and_mask, Nat.shiftLeft_shiftRight, Nat.mod_eq_of_lt]
      rw [Nat.shiftRight_eq_div_pow]
      omega
    rw [topOctets, shiftOut, ih, hmask]

/-- The content of an integer. -/
def intContent (integer : ℤ) : List Byte :=
  topOctets (truncateInt 8 (BitVec.ofInt 64 integer)).1 (truncateInt 8 (BitVec.ofInt 64 integer)).2

theorem topOctets_eq {n : ℕ} (hn : n ≤ 8) (x : BitVec 64) : topOctets n x = octetsOf n (x.toNat / 256 ^ (8 - n)) := by
  rw [topOctets_eq_shiftOut]
  exact shiftOut_eq (k := 8) hn x

theorem length_intContent (integer : ℤ) :
    (intContent integer).length = (truncateInt 8 (BitVec.ofInt 64 integer)).1 ∧ 1 ≤ (intContent integer).length ∧
      (intContent integer).length ≤ 8 := by
  obtain ⟨hpos, hle, -⟩ := truncateInt_spec (by decide : 1 ≤ 8) (BitVec.ofInt 64 integer)
  have hlength : (intContent integer).length = (truncateInt 8 (BitVec.ofInt 64 integer)).1 := by
    rw [intContent, topOctets_eq hle, length_octetsOf]
  rw [hlength]
  exact ⟨rfl, hpos, hle⟩

theorem asnBuildInt_eq (type : Byte) (integer : ℤ) : asnBuildInt type integer = put (tlv type (intContent integer)) := by
  obtain ⟨hlength, -, hle⟩ := length_intContent integer
  have hcontent : topOctets (truncateInt 8 (BitVec.ofInt 64 integer)).1 (truncateInt 8 (BitVec.ofInt 64 integer)).2 =
      intContent integer := rfl
  rw [asnBuildInt]
  dsimp only
  rw [hcontent, ← hlength, asnBuildHeader_eq type (by omega), put_andThen]
  rfl

/-- A `long`. -/
def IsLong (v : ℤ) : Prop := -2 ^ 63 ≤ v ∧ v < 2 ^ 63

theorem head?_octetsOf_succ (k n : ℕ) : (octetsOf (k + 1) n).head? = some (uchar (n / 256 ^ k)) := rfl

theorem and_0x80_ne_zero (b : Byte) : b &&& 0x80 ≠ 0 ↔ 128 ≤ b.toNat := by
  have hall : ∀ n < 256, BitVec.ofNat 8 n &&& 0x80 ≠ 0 ↔ 128 ≤ n := by decide +kernel
  have h := hall b.toNat b.isLt
  rwa [BitVec.ofNat_toNat, BitVec.setWidth_eq] at h

/-- With the sign in front, the content spells the integer. -/
theorem foldl_intContent {v : ℤ} (hv : IsLong v) :
    ∃ first, (intContent v).head? = some first ∧
      ((intContent v).foldl (fun (value : BitVec 64) (b : Byte) => value <<< 8 ||| b.setWidth 64)
        (if first &&& 0x80 ≠ 0 then -1 else 0)).toInt = v := by
  obtain ⟨hlow, hhigh⟩ := hv
  obtain ⟨hpos, hle, hshift⟩ := truncateInt_spec (by decide : 1 ≤ 8) (BitVec.ofInt 64 v)
  have hofInt : (BitVec.ofInt 64 v).toInt = v := by
    rw [BitVec.toInt_ofInt]
    exact Int.bmod_eq_of_le (by omega) (by omega)
  have hcontent := topOctets_eq hle (truncateInt 8 (BitVec.ofInt 64 v)).2
  rw [← intContent] at hcontent
  rw [hofInt] at hshift
  generalize (truncateInt 8 (BitVec.ofInt 64 v)).2 = x at hshift hcontent
  generalize (truncateInt 8 (BitVec.ofInt 64 v)).1 = n at hpos hle hshift hcontent
  obtain ⟨k, rfl⟩ : ∃ k, n = k + 1 := ⟨n - 1, by omega⟩
  have hx : x.toNat < 2 ^ 64 := x.isLt
  have hpow : (256 : ℕ) ^ (8 - (k + 1)) * 256 ^ (k + 1) = 2 ^ 64 := by
    rw [← pow_add, Nat.sub_add_cancel hle]
    rfl
  have hfirst : x.toNat / 256 ^ (8 - (k + 1)) / 256 ^ k = x.toNat / 256 ^ 7 := by
    rw [Nat.div_div_eq_div_mul, ← pow_add]
    congr 2
    omega
  rw [hcontent, head?_octetsOf_succ, hfirst]
  refine ⟨_, rfl, ?_⟩
  change ((octetsOf (k + 1) (x.toNat / 256 ^ (8 - (k + 1)))).foldl shiftIn _).toInt = v
  rw [foldl_shiftIn (by decide), value_octetsOf, Nat.mod_eq_of_lt (Nat.div_lt_of_lt_mul (hpow ▸ hx))]
  have hne : (256 : ℤ) ^ (8 - (k + 1)) ≠ 0 := pow_ne_zero _ (by decide)
  have huchar : (uchar (x.toNat / 256 ^ 7)).toNat = x.toNat / 256 ^ 7 :=
    (BitVec.toNat_ofNat _ _).trans (Nat.mod_eq_of_lt (by omega))
  have hpowInt : (256 : ℤ) ^ (8 - (k + 1)) * 256 ^ (k + 1) = 2 ^ 64 := by exact_mod_cast hpow
  simp only [and_0x80_ne_zero, huchar]
  rw [BitVec.toInt_eq_toNat_cond] at hshift
  split at hshift
  · -- the integer is not negative
    have hquot : ((x.toNat / 256 ^ (8 - (k + 1)) : ℕ) : ℤ) = v := by
      rw [Int.natCast_ediv, Nat.cast_pow, Nat.cast_ofNat, hshift]
      exact Int.mul_ediv_cancel _ hne
    rw [if_neg (by omega), show (0 : BitVec 64).toNat = 0 from rfl, Nat.zero_mul, Nat.zero_add, ← hofInt, ← hquot, BitVec.ofInt_natCast]
  · have hquot : ((x.toNat / 256 ^ (8 - (k + 1)) : ℕ) : ℤ) = v + 256 ^ (k + 1) := by
      have hx' : (x.toNat : ℤ) = (v + 256 ^ (k + 1)) * 256 ^ (8 - (k + 1)) := by
        rw [add_mul, ← hshift, mul_comm (256 ^ (k + 1) : ℤ), hpowInt]
        push_cast
        ring
      rw [Int.natCast_ediv, Nat.cast_pow, Nat.cast_ofNat, hx']
      exact Int.mul_ediv_cancel _ hne
    have hsum : ((18446744073709551615 * 256 ^ (k + 1) + x.toNat / 256 ^ (8 - (k + 1)) : ℕ) : ℤ) =
        v + 2 ^ 64 * 256 ^ (k + 1) := by
      rw [Nat.cast_add, hquot]
      push_cast
      ring
    rw [if_pos (by omega), show (-1 : BitVec 64).toNat = 18446744073709551615 from rfl, ← BitVec.ofInt_natCast, hsum,
      BitVec.toInt_ofInt]
    rw [show (2 : ℤ) ^ 64 = (2 ^ 64 : ℕ) from rfl, Int.add_mul_bmod_self_left]
    exact Int.bmod_eq_of_le (by omega) (by omega)

theorem asnParseInt_reads {type : Byte} (htype : type ∈ [asnInteger, smiTimeTicks, smiCounter]) {v : ℤ} (hv : IsLong v) :
    Reads asnParseInt (tlv type (intContent v)) (type, v) := by
  intro rest n hn
  obtain ⟨-, hpos, hle⟩ := length_intContent v
  obtain ⟨first, hfirst, hvalue⟩ := foldl_intContent hv
  have hhead : (intContent v ++ rest).head? = some first := by
    rw [List.head?_append, hfirst]
    rfl
  unfold asnParseInt
  rw [asnParseContent_tlv htype (by unfold maxLength; omega) rest hn]
  simp only [Option.bind_eq_bind, Option.bind_some, if_neg (by omega : ¬ (intContent v).length > 8), hhead,
    takeBytes_append, hvalue]

/-! ## Unsigned integers -/

def unsignedContent (integer : ℕ) : List Byte := octetsOf (unsignedLen integer) (integer % 2 ^ 32)

theorem and_0x80_nat (n : ℕ) : n &&& 0x80 ≠ 0 ↔ 128 ≤ n % 256 := by
  have h := and_mask n 7 1
  rw [show (2 ^ 1 - 1) <<< 7 = 0x80 from rfl, Nat.shiftRight_eq_div_pow, Nat.shiftLeft_eq] at h
  rw [h]
  omega

/-- The octets hold the number, and a high bit of the first does not show. -/
theorem unsignedLen_spec (integer : ℕ) :
    1 ≤ unsignedLen integer ∧ unsignedLen integer ≤ 5 ∧ integer % 2 ^ 32 < 256 ^ unsignedLen integer := by
  unfold unsignedLen
  simp only [and_0xFF, Nat.shiftRight_eq_div_pow, and_0x80_nat]
  by_cases hfour : integer / 2 ^ 24 % 256 ≠ 0
  · rw [if_pos hfour]
    split <;> refine ⟨by omega, by omega, by omega⟩
  rw [if_neg hfour]
  by_cases hthree : integer / 2 ^ 16 % 256 ≠ 0
  · rw [if_pos hthree]
    split <;> refine ⟨by omega, by omega, by omega⟩
  rw [if_neg hthree]
  by_cases htwo : integer / 2 ^ 8 % 256 ≠ 0
  · rw [if_pos htwo]
    split <;> refine ⟨by omega, by omega, by omega⟩
  · rw [if_neg htwo]
    split <;> refine ⟨by omega, by omega, by omega⟩

theorem asnBuildUnsignedInt_eq (type : Byte) (integer : ℕ) :
    asnBuildUnsignedInt type integer = put (tlv type (unsignedContent integer)) := by
  obtain ⟨hpos, hle, -⟩ := unsignedLen_spec integer
  have hfirst : uchar (integer >>> 24) = BitVec.ofNat 8 (integer % 4294967296 / 16777216) :=
    uchar_eq (by rw [Nat.shiftRight_eq_div_pow]; omega)
  have hsecond : uchar (integer >>> 16) = BitVec.ofNat 8 (integer % 4294967296 / 65536) :=
    uchar_eq (by rw [Nat.shiftRight_eq_div_pow]; omega)
  have hthird : uchar (integer >>> 8) = BitVec.ofNat 8 (integer % 4294967296 / 256) :=
    uchar_eq (by rw [Nat.shiftRight_eq_div_pow]; omega)
  have hlast : uchar integer = BitVec.ofNat 8 (integer % 4294967296) := uchar_eq (by omega)
  have hbytes : (if unsignedLen integer = 5 then
        uchar 0 :: (List.range 4).map fun x => uchar (integer >>> (8 * (unsignedLen integer - 1 - (x + 1))))
      else (List.range (unsignedLen integer)).map fun x => uchar (integer >>> (8 * (unsignedLen integer - 1 - x)))) =
        unsignedContent integer := by
    have htop : uchar 0 = BitVec.ofNat 8 (integer % 2 ^ 32 / 256 ^ 4) := uchar_eq (by omega)
    unfold unsignedContent
    generalize unsignedLen integer = length at hpos hle
    interval_cases length <;> simp [octetsOf, List.range_succ, hfirst, hsecond, hthird, hlast, htop]
  have hlength : (unsignedContent integer).length = unsignedLen integer := length_octetsOf _ _
  rw [asnBuildUnsignedInt]
  dsimp only
  rw [hbytes, asnBuildHeader_eq type (by omega), put_andThen, ← hlength]
  rfl

/-- What is read back are the low 32 bits. -/
theorem asnParseUnsignedInt_reads {type : Byte}
    (htype : type ∈ [asnInteger, smiTimeTicks, smiCounter, smiGauge, smiUInteger]) (integer : ℕ) :
    Reads asnParseUnsignedInt (tlv type (unsignedContent integer)) (type, integer % 2 ^ 32) := by
  intro rest n hn
  obtain ⟨hpos, hle, hfits⟩ := unsignedLen_spec integer
  have hlength : (unsignedContent integer).length = unsignedLen integer := length_octetsOf _ _
  have hvalue : value 0 (unsignedContent integer) = integer % 2 ^ 32 := value_octetsOf_of_lt hfits
  have hsmall : unsignedLen integer > 4 → (unsignedContent integer).head? = some 0 := by
    intro hfive
    rw [unsignedContent, show unsignedLen integer = 4 + 1 by omega, head?_octetsOf_succ]
    exact congrArg some (uchar_eq_zero (by omega))
  unfold asnParseUnsignedInt
  rw [asnParseContent_tlv htype (by unfold maxLength; omega) rest hn]
  cases hcontent : unsignedContent integer with
  | nil =>
    rw [hcontent, List.length_nil] at hlength
    omega
  | cons first bytes =>
    rw [hcontent] at hlength hvalue hsmall
    have hskip : ¬ ((first :: bytes).length > 5 ∨ (first :: bytes).length > 4 ∧ first ≠ 0) := by
      rintro (hlong | ⟨hlong, hfirst⟩)
      · omega
      · exact hfirst (Option.some.inj (hsmall (by omega)))
    simp only [Option.bind_eq_bind, Option.bind_some, List.cons_append, List.head?_cons, if_neg hskip,
      foldl_shift_eq_value]
    by_cases hzero : first = 0
    · rw [if_pos hzero, List.length_cons, Nat.add_sub_cancel, List.tail_cons]
      rw [hzero, value_cons] at hvalue
      simp only [takeBytes_append, Option.bind_some]
      rw [← hvalue]
      rfl
    · rw [if_neg hzero]
      dsimp only
      rw [← List.cons_append, takeBytes_append]
      simp only [Option.bind_some]
      rw [hvalue]

/-! ## Counters of 64 bits -/

namespace Counter64

/-- `operator pp_uint64`. -/
def toUint64 (c : Counter64) : ℕ := (c.high <<< 32 + c.low).toNat

/-- The constructor from a 64 bit value. -/
def ofUint64 (val : ℕ) : Counter64 := ⟨BitVec.ofNat 64 (val >>> 32), BitVec.ofNat 64 (val % 2 ^ 32)⟩

/-- The two words as one. -/
def word (c : Counter64) : BitVec 64 := BitVec.ofNat 64 (c.high.toNat % 2 ^ 32 * 2 ^ 32 + c.low.toNat % 2 ^ 32)

theorem word_toNat (c : Counter64) : c.word.toNat = c.high.toNat % 2 ^ 32 * 2 ^ 32 + c.low.toNat % 2 ^ 32 := by
  rw [word, BitVec.toNat_ofNat]
  omega

theorem toUint64_eq {c : Counter64} (h : c.low.toNat < 2 ^ 32) : c.toUint64 = c.word.toNat := by
  rw [word_toNat, toUint64, BitVec.toNat_add, BitVec.toNat_shiftLeft, Nat.shiftLeft_eq]
  omega

theorem word_ofUint64 (val : ℕ) : (ofUint64 val).word = BitVec.ofNat 64 val := by
  refine BitVec.eq_of_toNat_eq ?_
  rw [word_toNat, ofUint64, BitVec.toNat_ofNat, BitVec.toNat_ofNat, BitVec.toNat_ofNat, Nat.shiftRight_eq_div_pow]
  omega

/-- The octet that goes from the low word into the high one. -/
theorem carry_eq (low : BitVec 64) :
    (low &&& 0xFF000000) >>> 24 = (uchar (low.toNat / 2 ^ 24)).setWidth 64 := by
  refine BitVec.eq_of_toNat_eq ?_
  rw [BitVec.toNat_ushiftRight, BitVec.toNat_and, show (0xFF000000 : BitVec 64).toNat = (2 ^ 8 - 1) <<< 24 from rfl,
    and_mask, Nat.shiftLeft_shiftRight, BitVec.toNat_setWidth, uchar, BitVec.toNat_ofNat, Nat.shiftRight_eq_div_pow]
  omega

theorem shift_high_toNat (c : Counter64) :
    (c.high <<< 8 ||| (c.low &&& 0xFF000000) >>> 24).toNat =
      (c.high.toNat * 256 + c.low.toNat / 2 ^ 24 % 256) % 2 ^ 64 := by
  rw [carry_eq]
  refine (shiftIn_toNat (by decide) c.high _).trans ?_
  rw [uchar, BitVec.toNat_ofNat]

theorem word_shift (c : Counter64) : c.shift.word = c.word <<< 8 := by
  have hlow := c.low.isLt
  refine BitVec.eq_of_toNat_eq ?_
  rw [word_toNat, BitVec.toNat_shiftLeft, word_toNat, Nat.shiftLeft_eq]
  simp only [shift, shift_high_toNat]
  rw [BitVec.toNat_shiftLeft, Nat.shiftLeft_eq]
  omega

theorem word_push (c : Counter64) (b : Byte) : (c.push b).word = shiftIn c.word b ∧ (c.push b).low.toNat < 2 ^ 32 := by
  have hlow := c.low.isLt
  have hb := b.isLt
  have hmask : (c.push b).low.toNat = (c.low.toNat * 256 + b.toNat) % 2 ^ 32 := by
    have h := and_mask ((c.low.toNat * 256 + b.toNat) % 2 ^ 64) 0 32
    rw [Nat.shiftLeft_zero, Nat.shiftLeft_zero, Nat.shiftRight_zero] at h
    refine (BitVec.toNat_and _ _).trans ?_
    rw [show (c.low <<< 8 ||| b.setWidth 64) = shiftIn c.low b from rfl, shiftIn_toNat (by decide),
      show (0xFFFFFFFF : BitVec 64).toNat = 2 ^ 32 - 1 from rfl, h]
    omega
  refine ⟨BitVec.eq_of_toNat_eq ?_, by omega⟩
  rw [word_toNat, hmask, shiftIn_toNat (by decide), word_toNat]
  simp only [push, shift_high_toNat]
  omega

theorem foldl_push (bytes : List Byte) (c : Counter64) :
    (bytes.foldl push c).word = bytes.foldl shiftIn c.word ∧
      (c.low.toNat < 2 ^ 32 → (bytes.foldl push c).low.toNat < 2 ^ 32) := by
  induction bytes generalizing c with
  | nil => exact ⟨rfl, id⟩
  | cons b bytes ih =>
    obtain ⟨hword, hlow⟩ := word_push c b
    obtain ⟨hfold, hless⟩ := ih (c.push b)
    rw [List.foldl_cons, List.foldl_cons, ← hword]
    exact ⟨hfold, fun _ => hless hlow⟩

/-- The tests on the high word are those on the whole. -/
theorem mask_iff (c : Counter64) :
    (c.high &&& 0xFF800000 = 0 ↔ c.word &&& signMask = 0) ∧
      (c.high &&& 0xFF800000 = 0xFF800000 ↔ c.word &&& signMask = signMask) := by
  have hword := c.word_toNat
  have hleft : (c.high &&& 0xFF800000).toNat = c.high.toNat / 2 ^ 23 % 2 ^ 9 * 2 ^ 23 := by
    rw [BitVec.toNat_and, show (0xFF800000 : BitVec 64).toNat = (2 ^ 9 - 1) <<< 23 from rfl, and_mask,
      Nat.shiftRight_eq_div_pow, Nat.shiftLeft_eq]
  have hright : (c.word &&& signMask).toNat = c.word.toNat / 2 ^ 55 % 2 ^ 9 * 2 ^ 55 := by
    rw [BitVec.toNat_and, show signMask.toNat = (2 ^ 9 - 1) <<< 55 from rfl, and_mask, Nat.shiftRight_eq_div_pow,
      Nat.shiftLeft_eq]
  rw [← BitVec.toNat_inj, ← BitVec.toNat_inj, ← BitVec.toNat_inj, ← BitVec.toNat_inj, hleft, hright,
    show (0xFF800000 : BitVec 64).toNat = 511 * 2 ^ 23 from rfl, show signMask.toNat = 511 * 2 ^ 55 from rfl,
    show (0 : BitVec 64).toNat = 0 from rfl]
  constructor
  · omega
  · omega

theorem truncate_word (k : ℕ) (c : Counter64) :
    truncateInt k c.word = ((truncateCounter k c).1, (truncateCounter k c).2.word) := by
  induction k generalizing c with
  | zero => rfl
  | succ k ih =>
    cases k with
    | zero => rfl
    | succ k =>
      obtain ⟨hzero, hones⟩ := c.mask_iff
      rw [truncateInt, truncateCounter]
      by_cases h : c.high &&& 0xFF800000 = 0 ∨ c.high &&& 0xFF800000 = 0xFF800000
      · rw [if_pos h, if_pos (h.imp hzero.mp hones.mp), ← word_shift, ih]
      · rw [if_neg h, if_neg (mt (Or.imp hzero.mpr hones.mpr) h)]

theorem topOfCounter_eq (n : ℕ) (c : Counter64) : topOfCounter n c = shiftOut n c.word := by
  induction n generalizing c with
  | zero => rfl
  | succ n ih =>
    have hword := c.word_toNat
    have htop : ((c.high &&& 0xFF000000) >>> 24).setWidth 8 = (c.word >>> 56).setWidth 8 := by
      refine BitVec.eq_of_toNat_eq ?_
      rw [carry_eq, BitVec.toNat_setWidth, BitVec.toNat_setWidth, BitVec.toNat_setWidth, uchar, BitVec.toNat_ofNat,
        BitVec.toNat_ushiftRight, Nat.shiftRight_eq_div_pow]
      omega
    rw [topOfCounter, shiftOut, ih, word_shift, htop]

end Counter64

/-- Whether the top bit is set. -/
def Counter64.high? (c : Counter64) : Bool := ((c.high &&& 0xFF000000) >>> 24) &&& 0x80 != 0

theorem Counter64.high?_iff (c : Counter64) : c.high? = true ↔ 2 ^ 63 ≤ c.word.toNat := by
  have hword := c.word_toNat
  have hand := and_0x80_nat (c.high.toNat / 2 ^ 24 % 256)
  rw [Counter64.high?, bne_iff_ne, Counter64.carry_eq, Ne, ← BitVec.toNat_inj, BitVec.toNat_and, BitVec.toNat_setWidth,
    uchar, BitVec.toNat_ofNat, show (0x80 : BitVec 64).toNat = 0x80 from rfl, show (0 : BitVec 64).toNat = 0 from rfl,
    Nat.mod_eq_of_lt (by omega), ← Ne, hand]
  omega

/-- The content of a counter: a zero goes before a high bit. -/
def counterContent (c : Counter64) : List Byte :=
  if c.high? then octetsOf 9 c.word.toNat else intContent c.word.toNat

theorem octetsOf_nine (c : Counter64) : octetsOf 9 c.word.toNat = 0 :: octetsOf 8 c.word.toNat := by
  have hlt := c.word.isLt
  have hzero : uchar (c.word.toNat / 256 ^ 8) = 0 := uchar_eq_zero (by omega)
  rw [← hzero]
  rfl

theorem asnBuildUnsignedInt64_eq (type : Byte) (c : Counter64) :
    asnBuildUnsignedInt64 type c = put (tlv type (counterContent c)) := by
  have htest : (((c.high &&& 0xFF000000) >>> 24) &&& 0x80 ≠ 0) = (c.high? = true) := by
    rw [Counter64.high?, bne_iff_ne]
  unfold asnBuildUnsignedInt64 counterContent
  simp only [htest]
  by_cases h : c.high? = true
  · have htop : topOfCounter 8 c = octetsOf 8 c.word.toNat := by
      rw [Counter64.topOfCounter_eq]
      simpa using shiftOut_eq (k := 8) le_rfl c.word
    rw [if_pos h, if_pos h, asnBuildHeader_eq type (by decide), put_andThen, htop, tlv, length_octetsOf, octetsOf_nine,
      List.cons_append]
  · have hofInt : BitVec.ofInt 64 (c.word.toNat : ℤ) = c.word := by
      rw [BitVec.ofInt_natCast, BitVec.ofNat_toNat, BitVec.setWidth_eq]
    have hcontent : topOfCounter (truncateCounter 8 c).1 (truncateCounter 8 c).2 = intContent c.word.toNat := by
      rw [intContent, hofInt, Counter64.truncate_word, topOctets_eq_shiftOut, Counter64.topOfCounter_eq]
    have hlength := (length_intContent c.word.toNat).1
    have hle := (length_intContent c.word.toNat).2.2
    rw [hofInt, Counter64.truncate_word] at hlength
    rw [if_neg h, if_neg h]
    dsimp only at hlength ⊢
    rw [hcontent, ← hlength, asnBuildHeader_eq type (by omega), put_andThen, tlv, List.cons_append]

theorem asnParseUnsignedInt64_reads {type : Byte} (htype : type ∈ [asnInteger, smiCounter64]) (c : Counter64) :
    ∃ c', Reads asnParseUnsignedInt64 (tlv type (counterContent c)) (type, c') ∧ c'.toUint64 = c.word.toNat := by
  have hlt := c.word.isLt
  have hhigh := c.high?_iff
  have hcontent : ∃ first, (counterContent c).head? = some first ∧ 1 ≤ (counterContent c).length ∧
      ((counterContent c).length ≤ 8 ∨ (counterContent c).length = 9 ∧ first = 0) ∧
      (counterContent c).foldl shiftIn (if first &&& 0x80 ≠ 0 then -1 else 0) = c.word := by
    unfold counterContent
    split
    · refine ⟨0, by rw [octetsOf_nine, List.head?_cons], by simp, Or.inr ⟨by simp, rfl⟩, ?_⟩
      · rw [if_neg (by decide), foldl_shiftIn (by decide), value_octetsOf,
          show (0 : BitVec 64).toNat = 0 from rfl, Nat.zero_mul, Nat.zero_add, Nat.mod_eq_of_lt (by omega),
          BitVec.ofNat_toNat, BitVec.setWidth_eq]
    · rename_i hsmall
      have hlow := mt hhigh.mpr hsmall
      obtain ⟨-, hpos, hle⟩ := length_intContent c.word.toNat
      obtain ⟨first, hfirst, hvalue⟩ := foldl_intContent (v := c.word.toNat) ⟨by omega, by omega⟩
      refine ⟨first, hfirst, hpos, Or.inl hle, ?_⟩
      refine BitVec.eq_of_toInt_eq (Eq.trans hvalue ?_)
      rw [BitVec.toInt_eq_toNat_cond c.word, if_pos (by omega)]
  obtain ⟨first, hfirst, hpos, hlength, hvalue⟩ := hcontent
  let start : Counter64 := if first &&& 0x80 ≠ 0 then ⟨-1, -1⟩ else ⟨0, 0⟩
  have hstart : start.word = if first &&& 0x80 ≠ 0 then -1 else 0 := by
    by_cases h : first &&& 0x80 ≠ 0
    · simp only [start, if_pos h]
      decide
    · simp only [start, if_neg h]
      decide
  obtain ⟨hword, -⟩ := Counter64.foldl_push (counterContent c) start
  have hlow : ((counterContent c).foldl Counter64.push start).low.toNat < 2 ^ 32 := by
    cases hbytes : counterContent c with
    | nil =>
      rw [hbytes, List.length_nil] at hpos
      omega
    | cons b bytes => exact (Counter64.foldl_push bytes (start.push b)).2 (Counter64.word_push start b).2
  refine ⟨(counterContent c).foldl Counter64.push start, fun rest n hn => ?_, ?_⟩
  · have hhead : (counterContent c ++ rest).head? = some first := by
      rw [List.head?_append, hfirst]
      rfl
    have hsize : ¬ ((counterContent c).length > 9 ∨ (counterContent c).length = 9 ∧ first ≠ 0) := by
      rintro (hlong | ⟨hnine, hne⟩)
      · omega
      · rcases hlength with hle | ⟨-, hzero⟩
        · omega
        · exact hne hzero
    unfold asnParseUnsignedInt64
    rw [asnParseContent_tlv htype (by unfold maxLength; omega) rest hn]
    simp only [Option.bind_eq_bind, Option.bind_some, hhead, if_neg hsize, takeBytes_append, start]
  · rw [Counter64.toUint64_eq hlow, hword, hstart, hvalue]

end SnmpB.Ber
