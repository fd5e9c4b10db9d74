import Mathlib.Data.BitVec
import Mathlib.Algebra.Order.Ring.Nat
import Mathlib.Tactic.Linarith
import Mathlib.Tactic.Positivity
import Mathlib.Tactic.Ring

/-! # Byte arrays read and written as big-endian integers

A counted-down loop reads an array into a machine word by or-ing shifted bytes,
and writes a word back by masking its shifts. Both directions are related to
the one big-endian number that a range of positions spells.
-/
namespace SnmpB.ByteOrder

/-- `for (a = n; a > 0; a--) body(a)`. -/
def countdown {α : Type*} (body : ℕ → α → α) : ℕ → α → α
  | 0, x => x
  | a + 1, x => countdown body a (body (a + 1) x)

/-- The invariant rule: the property is indexed by the iterations still to come. -/
theorem countdown_invariant {α : Type*} (body : ℕ → α → α) (P : ℕ → α → Prop)
    (hstep : ∀ a x, P (a + 1) x → P a (body (a + 1) x)) (n : ℕ) {x : α} (hx : P n x) :
    P 0 (countdown body n x) := by
  induction n generalizing x with
  | zero => exact hx
  | succ n ih => exact ih (hstep n x hx)

theorem countdown_congr {α : Type*} {f g : ℕ → α → α} {n : ℕ}
    (h : ∀ a < n, ∀ x, f (a + 1) x = g (a + 1) x) (x : α) : countdown f n x = countdown g n x := by
  induction n generalizing x with
  | zero => rfl
  | succ n ih =>
    rw [countdown, countdown, h n (Nat.lt_succ_self n)]
    exact ih (fun a ha => h a (by omega)) _

theorem countdown_prod {α β : Type*} (f : ℕ → α → α) (g : ℕ → β → β) (n : ℕ) (x : α) (y : β) :
    countdown (fun a p => (f a p.1, g a p.2)) n (x, y) = (countdown f n x, countdown g n y) := by
  induction n generalizing x y with
  | zero => rfl
  | succ n ih => exact ih (f (n + 1) x) (g (n + 1) y)

theorem countdown_comp {α : Type*} {f g : ℕ → α → α} {n : ℕ}
    (hcomm : ∀ a < n, ∀ b < n, ∀ x, f (a + 1) (g (b + 1) x) = g (b + 1) (f (a + 1) x)) (x : α) :
    countdown (fun a x => g a (f a x)) n x = countdown g n (countdown f n x) := by
  have hpass : ∀ m ≤ n, ∀ b < n, ∀ x, countdown f m (g (b + 1) x) = g (b + 1) (countdown f m x) := by
    intro m hm b hb
    induction m with
    | zero => exact fun _ => rfl
    | succ m ih =>
      intro x
      rw [countdown, hcomm m hm b hb, ih (by omega), countdown]
  induction n generalizing x with
  | zero => rfl
  | succ n ih =>
    have hsmaller := ih (fun a ha b hb => hcomm a (by omega) b (by omega))
      (g (n + 1) (f (n + 1) x)) (fun m hm b hb => hpass m (by omega) b (by omega))
    rw [countdown, hsmaller, hpass n (by omega) n (by omega)]
    rfl

abbrev Buffer := ℕ → BitVec 8

/-- The big-endian number of the `k` bytes from position `off` on. -/
def bigEndian (buf : Buffer) (off : ℕ) : ℕ → ℕ
  | 0 => 0
  | k + 1 => bigEndian buf off k * 256 + (buf (off + k)).toNat

theorem bigEndian_lt (buf : Buffer) (off k : ℕ) : bigEndian buf off k < 256 ^ k := by
  induction k with
  | zero => simp [bigEndian]
  | succ k ih =>
    have hb : (buf (off + k)).toNat < 256 := (buf (off + k)).isLt
    rw [bigEndian, pow_succ]
    omega

theorem bigEndian_add (buf : Buffer) (off j k : ℕ) :
    bigEndian buf off (j + k) = bigEndian buf off j * 256 ^ k + bigEndian buf (off + j) k := by
  induction k with
  | zero => simp [bigEndian]
  | succ k ih =>
    rw [← Nat.add_assoc, bigEndian, ih, bigEndian, pow_succ, Nat.add_assoc off j k]
    ring

/-- One read step, `word |= byte << (i * 8)`. -/
def orByte {w : ℕ} (word : BitVec w) (byte : BitVec 8) (i : ℕ) : BitVec w :=
  word ||| (byte.setWidth w <<< (i * 8))

theorem pow_256 (i : ℕ) : 256 ^ i = 2 ^ (i * 8) := by
  rw [Nat.mul_comm, pow_mul]
  norm_num

theorem orByte_toNat {w : ℕ} {word : BitVec w} (byte : BitVec 8) {i : ℕ}
    (hword : word.toNat < 256 ^ i) (hi : (i + 1) * 8 ≤ w) :
    (orByte word byte i).toNat = byte.toNat * 256 ^ i + word.toNat := by
  have hb : byte.toNat < 2 ^ 8 := byte.isLt
  have hw : byte.toNat < 2 ^ w := hb.trans_le (Nat.pow_le_pow_right (by omega) (by omega))
  have hshift : byte.toNat <<< (i * 8) < 2 ^ w := by
    rw [Nat.shiftLeft_eq]
    calc byte.toNat * 2 ^ (i * 8) < 2 ^ 8 * 2 ^ (i * 8) :=
          Nat.mul_lt_mul_of_pos_right hb (by positivity)
      _ = 2 ^ ((i + 1) * 8) := by rw [← pow_add]; congr 1; ring
      _ ≤ 2 ^ w := Nat.pow_le_pow_right (by omega) hi
  rw [pow_256] at hword ⊢
  rw [orByte, BitVec.toNat_or, BitVec.toNat_shiftLeft, BitVec.toNat_setWidth,
    Nat.mod_eq_of_lt hw, Nat.mod_eq_of_lt hshift, Nat.or_comm,
    ← Nat.shiftLeft_add_eq_or_of_lt hword, Nat.shiftLeft_eq]

/-- The read loop spells the big-endian number of the positions it covers. -/
theorem countdown_orByte_toNat {w n : ℕ} (hn : n * 8 ≤ w) (buf : Buffer) (off : ℕ) :
    (countdown (fun a word => orByte word (buf (off + (a - 1))) (n - a)) n (0 : BitVec w)).toNat =
      bigEndian buf off n := by
  have h := countdown_invariant (fun a word => orByte word (buf (off + (a - 1))) (n - a))
    (fun a (word : BitVec w) => a ≤ n ∧ word.toNat < 256 ^ (n - a) ∧
      bigEndian buf off n = bigEndian buf off a * 256 ^ (n - a) + word.toNat)
    (by
      rintro a word ⟨han, hlt, heq⟩
      have hsub : n - a = n - (a + 1) + 1 := by omega
      have hb : (buf (off + a)).toNat < 256 := (buf (off + a)).isLt
      have hval := orByte_toNat (buf (off + a)) hlt (by omega)
      simp only [Nat.add_sub_cancel]
      refine ⟨by omega, ?_, ?_⟩
      · rw [hval, hsub, pow_succ]
        nlinarith [pow_pos (show 0 < 256 by omega) (n - (a + 1))]
      · rw [heq, hval, hsub, bigEndian, pow_succ]
        ring)
    n (x := (0 : BitVec w)) ⟨le_rfl, by simp, by simp⟩
  simpa [bigEndian] using h.2.2.symm

/-- The byte at distance `i` from the least significant end, `(word >> (i * 8)) & 0xFF`. -/
def byteOf {w : ℕ} (word : BitVec w) (i : ℕ) : BitVec 8 :=
  ((word >>> (i * 8)) &&& 0xFF).setWidth 8

theorem byteOf_toNat {w : ℕ} (hw : 8 ≤ w) (word : BitVec w) (i : ℕ) :
    (byteOf word i).toNat = word.toNat / 256 ^ i % 256 := by
  have hmask : (0xFF : BitVec w).toNat = 255 := by
    have h : 2 ^ 8 ≤ 2 ^ w := Nat.pow_le_pow_right (by omega) hw
    simpa using Nat.mod_eq_of_lt (show 255 < 2 ^ w by omega)
  have hand : ∀ x : ℕ, x &&& 255 = x % 256 := fun x => Nat.and_two_pow_sub_one_eq_mod x 8
  rw [byteOf, BitVec.toNat_setWidth, BitVec.toNat_and, BitVec.toNat_ushiftRight, hmask, hand,
    Nat.shiftRight_eq_div_pow, ← pow_256]
  omega

theorem bigEndian_byteOf {w n : ℕ} (hw : 8 ≤ w) (hn : w ≤ n * 8) {buf : Buffer} {off : ℕ}
    {word : BitVec w} (h : ∀ i < n, buf (off + i) = byteOf word (n - 1 - i)) :
    bigEndian buf off n = word.toNat := by
  have hpre : ∀ k ≤ n, bigEndian buf off k = word.toNat / 256 ^ (n - k) := by
    intro k hk
    induction k with
    | zero =>
      have hlt : word.toNat < 256 ^ n := by
        rw [pow_256]
        exact word.isLt.trans_le (Nat.pow_le_pow_right (by omega) hn)
      simp [bigEndian, Nat.div_eq_of_lt hlt]
    | succ k ih =>
      have hsub : n - k = n - 1 - k + 1 := by omega
      have hsub' : n - (k + 1) = n - 1 - k := by omega
      rw [bigEndian, ih (by omega), h k (by omega), byteOf_toNat hw, hsub, hsub', pow_succ,
        ← Nat.div_div_eq_div_mul]
      omega
  simpa using hpre n le_rfl

/-- The write loop at one offset puts the bytes of the word and touches nothing else. -/
theorem countdown_update {w n : ℕ} (word : BitVec w) (off : ℕ) (buf : Buffer) (i : ℕ) :
    countdown (fun a (b : Buffer) => Function.update b (off + (a - 1)) (byteOf word (n - a))) n buf i =
      if off ≤ i ∧ i < off + n then byteOf word (n - 1 - (i - off)) else buf i := by
  have h := countdown_invariant
    (fun a (b : Buffer) => Function.update b (off + (a - 1)) (byteOf word (n - a)))
    (fun a b => a ≤ n ∧ ∀ i, b i =
      if off + a ≤ i ∧ i < off + n then byteOf word (n - 1 - (i - off)) else buf i)
    (by
      rintro a b ⟨han, hb⟩
      refine ⟨by omega, fun i => ?_⟩
      simp only [Nat.add_sub_cancel]
      by_cases hi : i = off + a
      · subst hi
        rw [Function.update_self, if_pos (by omega)]
        congr 1
        omega
      · rw [Function.update_of_ne hi, hb i]
        congr 1
        apply propext
        omega)
    n (x := buf) ⟨le_rfl, fun i => by rw [if_neg (by omega)]⟩
  exact h.2 i

end SnmpB.ByteOrder
