import Mathlib.Data.Nat.Log
import SnmpB.Library.ByteOrder

/-! # Numbers as octets

Big-endian octets of natural numbers, the loops that shift a machine word out and in by
them, and groups of seven bits whose high bit says that more follow.
-/
namespace SnmpB.Octets
open ByteOrder

abbrev Octet := BitVec 8

/-! ## Big-endian octets -/

/-- The low `k` octets of a number, the highest first. -/
def octetsOf : ℕ → ℕ → List Octet
  | 0, _ => []
  | k + 1, n => BitVec.ofNat 8 (n / 256 ^ k) :: octetsOf k n

/-- The number that octets spell behind others. -/
def value (acc : ℕ) (bs : List Octet) : ℕ := bs.foldl (fun v b => v * 256 + b.toNat) acc

@[simp] theorem value_nil (acc : ℕ) : value acc [] = acc := rfl

@[simp] theorem value_cons (acc : ℕ) (b : Octet) (bs : List Octet) :
    value acc (b :: bs) = value (acc * 256 + b.toNat) bs := rfl

@[simp] theorem length_octetsOf (k n : ℕ) : (octetsOf k n).length = k := by
  induction k with
  | zero => rfl
  | succ k ih => rw [octetsOf, List.length_cons, ih]

theorem value_octetsOf (acc k n : ℕ) : value acc (octetsOf k n) = acc * 256 ^ k + n % 256 ^ k := by
  induction k generalizing acc with
  | zero => simp [octetsOf, Nat.mod_one]
  | succ k ih =>
    have hhead : (BitVec.ofNat 8 (n / 256 ^ k)).toNat = n / 256 ^ k % 256 := BitVec.toNat_ofNat _ _
    rw [octetsOf, value_cons, ih, hhead, pow_succ, Nat.mod_mul]
    ring

/-- Octets over a number that fits do not show what is above it. -/
theorem value_octetsOf_of_lt {k n : ℕ} (h : n < 256 ^ k) : value 0 (octetsOf k n) = n := by
  rw [value_octetsOf, Nat.zero_mul, Nat.zero_add, Nat.mod_eq_of_lt h]

theorem value_lt (bs : List Octet) (acc : ℕ) : value acc bs < (acc + 1) * 256 ^ bs.length := by
  induction bs generalizing acc with
  | nil => simp
  | cons b bs ih =>
    have hb : b.toNat < 256 := b.isLt
    calc value acc (b :: bs) < (acc * 256 + b.toNat + 1) * 256 ^ bs.length := ih _
      _ ≤ ((acc + 1) * 256) * 256 ^ bs.length := Nat.mul_le_mul_right _ (by omega)
      _ = (acc + 1) * 256 ^ (bs.length + 1) := by rw [Nat.pow_succ, Nat.mul_assoc, Nat.mul_comm 256]

theorem octetsOf_mod (k n : ℕ) : octetsOf k (n % 256 ^ k) = octetsOf k n := by
  have hcongr : ∀ {k a b : ℕ}, a % 256 ^ k = b % 256 ^ k → octetsOf k a = octetsOf k b := by
    intro k
    induction k with
    | zero => exact fun _ => rfl
    | succ k ih =>
      intro a b h
      have hlow : a % 256 ^ k = b % 256 ^ k := by
        rw [← Nat.mod_mul_right_mod a _ 256, ← Nat.mod_mul_right_mod b _ 256, ← pow_succ, h]
      have hhead : a / 256 ^ k % 256 = b / 256 ^ k % 256 := by
        rw [← Nat.mod_mul_right_div_self, ← Nat.mod_mul_right_div_self, ← pow_succ, h]
      rw [octetsOf, octetsOf, ih hlow]
      congr 1
      refine BitVec.eq_of_toNat_eq ?_
      rw [BitVec.toNat_ofNat, BitVec.toNat_ofNat]
      exact hhead
  exact hcongr (Nat.mod_mod _ _)

/-- Masking a field of `j` bits out of a number. -/
theorem and_mask (x s j : ℕ) : x &&& ((2 ^ j - 1) <<< s) = (x >>> s % 2 ^ j) <<< s := by
  refine Nat.eq_of_testBit_eq fun i => ?_
  rw [Nat.testBit_and, Nat.testBit_shiftLeft, Nat.testBit_shiftLeft, Nat.testBit_two_pow_sub_one,
    Nat.testBit_mod_two_pow, Nat.testBit_shiftRight]
  by_cases h : s ≤ i
  · rw [Nat.add_sub_cancel' h]
    simp [h, Bool.and_comm]
  · simp [h]

/-! ## Shifting octets into a word and out of it -/

def shiftIn {w : ℕ} (v : BitVec w) (b : Octet) : BitVec w := v <<< 8 ||| b.setWidth w

theorem shiftIn_toNat {w : ℕ} (hw : 8 ≤ w) (v : BitVec w) (b : Octet) :
    (shiftIn v b).toNat = (v.toNat * 256 + b.toNat) % 2 ^ w := by
  have hb : b.toNat < 2 ^ 8 := b.isLt
  have hbw : b.toNat < 2 ^ w := hb.trans_le (Nat.pow_le_pow_right (by omega) hw)
  obtain ⟨k, rfl⟩ := Nat.exists_eq_add_of_le' hw
  have hsplit : v.toNat <<< 8 % 2 ^ (k + 8) = (v.toNat % 2 ^ k) <<< 8 := by
    rw [Nat.shiftLeft_eq, Nat.shiftLeft_eq, pow_add, Nat.mul_mod_mul_right]
  have hlt : (v.toNat % 2 ^ k) * 2 ^ 8 + b.toNat < 2 ^ (k + 8) := by
    have hk := Nat.mod_lt v.toNat (Nat.two_pow_pos k)
    rw [pow_add]
    nlinarith
  have hsum : (v.toNat * 256 + b.toNat) % 2 ^ (k + 8) = v.toNat % 2 ^ k * 2 ^ 8 + b.toNat := by
    rw [← Nat.mod_add_mod, pow_add, show 256 = 2 ^ 8 from rfl, Nat.mul_mod_mul_right, ← pow_add, Nat.mod_eq_of_lt hlt]
  rw [shiftIn, BitVec.toNat_or, BitVec.toNat_shiftLeft, BitVec.toNat_setWidth, Nat.mod_eq_of_lt hbw, hsplit,
    ← Nat.shiftLeft_add_eq_or_of_lt hb, Nat.shiftLeft_eq, hsum]

/-- A word that octets are shifted into has the value they spell, as far as it is wide. -/
theorem foldl_shiftIn {w : ℕ} (hw : 8 ≤ w) (bs : List Octet) (v : BitVec w) :
    bs.foldl shiftIn v = BitVec.ofNat w (value v.toNat bs) := by
  have hmod : ∀ (bs : List Octet) (acc acc' : ℕ), acc % 2 ^ w = acc' % 2 ^ w →
      value acc bs % 2 ^ w = value acc' bs % 2 ^ w := by
    intro bs
    induction bs with
    | nil => exact fun _ _ h => h
    | cons b bs ih => exact fun acc acc' h => ih _ _ (Nat.ModEq.add_right _ (Nat.ModEq.mul_right _ h))
  induction bs generalizing v with
  | nil => simp
  | cons b bs ih =>
    rw [List.foldl_cons, ih, value_cons]
    refine BitVec.eq_of_toNat_eq ?_
    rw [BitVec.toNat_ofNat, BitVec.toNat_ofNat, shiftIn_toNat hw]
    exact hmod bs _ _ (Nat.mod_mod _ _)

/-- The loop that takes the top octet of a word `n` times. -/
def shiftOut {w : ℕ} : ℕ → BitVec w → List Octet
  | 0, _ => []
  | n + 1, x => (x >>> (w - 8)).setWidth 8 :: shiftOut n (x <<< 8)

theorem shiftOut_eq {k n : ℕ} (hn : n ≤ k) (x : BitVec (k * 8)) :
    shiftOut n x = octetsOf n (x.toNat / 256 ^ (k - n)) := by
  induction n generalizing x with
  | zero => rfl
  | succ n ih =>
    obtain ⟨j, rfl⟩ : ∃ j, k = j + n + 1 := ⟨k - (n + 1), by omega⟩
    have hwidth : 2 ^ ((j + n + 1) * 8) = 256 ^ (j + n) * 256 := by rw [← pow_256, pow_succ]
    have hshift : (x <<< 8).toNat = x.toNat % 256 ^ (j + n) * 256 := by
      rw [BitVec.toNat_shiftLeft, Nat.shiftLeft_eq, hwidth, show 2 ^ 8 = 256 from rfl, Nat.mul_mod_mul_right]
    have htail : octetsOf n ((x <<< 8).toNat / 256 ^ (j + 1)) = octetsOf n (x.toNat / 256 ^ j) := by
      rw [hshift, pow_succ, Nat.mul_div_mul_right _ _ (by decide), pow_add, Nat.mod_mul_right_div_self, octetsOf_mod]
    rw [shiftOut, octetsOf, ih (by omega), show j + n + 1 - n = j + 1 by omega, htail,
      show j + n + 1 - (n + 1) = j by omega]
    congr 1
    refine BitVec.eq_of_toNat_eq ?_
    rw [BitVec.toNat_setWidth, BitVec.toNat_ushiftRight, Nat.shiftRight_eq_div_pow, BitVec.toNat_ofNat,
      Nat.div_div_eq_div_mul, ← pow_add, pow_256 (j + n), show (j + n + 1) * 8 - 8 = (j + n) * 8 by omega]

/-! ## Groups of seven bits -/

/-- The low `k + 1` groups of a number, all but the last with the high bit. -/
def groupsOf : ℕ → ℕ → List Octet
  | 0, n => [BitVec.ofNat 8 (n % 128)]
  | k + 1, n => BitVec.ofNat 8 (128 + n / 128 ^ (k + 1) % 128) :: groupsOf k n

@[simp] theorem length_groupsOf (k n : ℕ) : (groupsOf k n).length = k + 1 := by
  induction k with
  | zero => rfl
  | succ k ih => rw [groupsOf, List.length_cons, ih]

theorem groupsOf_ne_nil (k n : ℕ) : groupsOf k n ≠ [] := by
  rw [← List.length_pos_iff, length_groupsOf]
  omega

/-- As many groups as the number needs. -/
def groups (n : ℕ) : List Octet := groupsOf (Nat.log 128 n) n

theorem groups_of_lt {n : ℕ} (h : n < 128) : groups n = [BitVec.ofNat 8 n] := by
  rw [groups, Nat.log_of_lt h, groupsOf, Nat.mod_eq_of_lt h]

theorem lt_pow_groups (n : ℕ) : n < 128 ^ (Nat.log 128 n + 1) := Nat.lt_pow_succ_log_self (by decide) n

end SnmpB.Octets
