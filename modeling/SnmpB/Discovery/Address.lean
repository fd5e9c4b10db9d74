import SnmpB.Library.ByteOrder

/-! # IP addresses as byte arrays and as integers

Both discovery functions compute on integers and keep their addresses in byte
arrays. The four conversion macros are the loops of the source; each is shown
to agree with the big-endian number of the address.
-/
namespace SnmpB.Discovery
open ByteOrder

inductive IpVersion
  | ipv4
  | ipv6
  deriving DecidableEq, Repr

structure IpAddress where
  valid : Bool
  ipVersion : IpVersion
  buffer : Buffer

/-- A `UdpAddress` object; the port bytes behind the address are a field of their own. -/
structure UdpAddress where
  ipVersion : IpVersion
  buffer : Buffer
  port : ℕ

def ipv4FromUchar (array : Buffer) (integer : BitVec 32) : BitVec 32 :=
  countdown (fun a integer => orByte integer (array (a - 1)) (4 - a)) 4 integer

/-- The macro `IPV6_FROM_UCHAR`, which fills both halves in one loop. -/
def ipv6FromUchar (array : Buffer) (hillint lollint : BitVec 64) : BitVec 64 × BitVec 64 :=
  countdown (fun a p => (orByte p.1 (array (a - 1)) (8 - a), orByte p.2 (array (a + 7)) (8 - a)))
    8 (hillint, lollint)

def ipv4ToUchar (array : Buffer) (integer : BitVec 32) : Buffer :=
  countdown (fun a array => Function.update array (a - 1) (byteOf integer (4 - a))) 4 array

def ipv6ToUchar (array : Buffer) (hillint lollint : BitVec 64) : Buffer :=
  countdown (fun a array =>
    Function.update (Function.update array (a - 1) (byteOf hillint (8 - a)))
      (a + 7) (byteOf lollint (8 - a))) 8 array

def number (version : IpVersion) (buffer : Buffer) : ℕ :=
  match version with
  | .ipv4 => bigEndian buffer 0 4
  | .ipv6 => bigEndian buffer 0 16

def space : IpVersion → ℕ
  | .ipv4 => 2 ^ 32
  | .ipv6 => 2 ^ 128

theorem number_lt (version : IpVersion) (buffer : Buffer) : number version buffer < space version := by
  cases version with
  | ipv4 => exact (bigEndian_lt buffer 0 4).trans_eq (by norm_num [space])
  | ipv6 => exact (bigEndian_lt buffer 0 16).trans_eq (by norm_num [space])

def IpAddress.number (a : IpAddress) : ℕ := Discovery.number a.ipVersion a.buffer
def UdpAddress.number (a : UdpAddress) : ℕ := Discovery.number a.ipVersion a.buffer

theorem ipv4FromUchar_toNat (array : Buffer) :
    (ipv4FromUchar array 0).toNat = number .ipv4 array := by
  have h := countdown_orByte_toNat (w := 32) (n := 4) (by omega) array 0
  simp only [Nat.zero_add] at h
  exact h

/-- The halves of an IPv6 address are its first and its last eight bytes. -/
theorem ipv6FromUchar_toNat (array : Buffer) :
    (ipv6FromUchar array 0 0).1.toNat = bigEndian array 0 8 ∧
    (ipv6FromUchar array 0 0).2.toNat = bigEndian array 8 8 := by
  have hhi := countdown_orByte_toNat (w := 64) (n := 8) (by omega) array 0
  have hlo := countdown_orByte_toNat (w := 64) (n := 8) (by omega) array 8
  have hpos : ∀ a < 8, ∀ word : BitVec 64,
      orByte word (array (a + 1 + 7)) (8 - (a + 1)) = orByte word (array (8 + (a + 1 - 1))) (8 - (a + 1)) := by
    intro a _ word
    rw [show a + 1 + 7 = 8 + (a + 1 - 1) by omega]
  rw [ipv6FromUchar, countdown_prod (fun a word => orByte word (array (a - 1)) (8 - a))
    (fun a word => orByte word (array (a + 7)) (8 - a)),
    countdown_congr (f := fun a word => orByte word (array (a + 7)) (8 - a))
      (g := fun a word => orByte word (array (8 + (a - 1))) (8 - a)) hpos]
  simp only [Nat.zero_add] at hhi
  exact ⟨hhi, hlo⟩

theorem number_ipv6 (array : Buffer) :
    number .ipv6 array =
      (ipv6FromUchar array 0 0).1.toNat * 2 ^ 64 + (ipv6FromUchar array 0 0).2.toNat := by
  rw [(ipv6FromUchar_toNat array).1, (ipv6FromUchar_toNat array).2, number, bigEndian_add array 0 8 8]
  norm_num

theorem ipv4ToUchar_number (array : Buffer) (integer : BitVec 32) :
    number .ipv4 (ipv4ToUchar array integer) = integer.toNat := by
  refine bigEndian_byteOf (by omega) (by omega) (fun i hi => ?_)
  have h := countdown_update (n := 4) integer 0 array (0 + i)
  simp only [Nat.zero_add, Nat.zero_le, true_and, if_pos hi] at h
  rw [ipv4ToUchar, Nat.zero_add, h, Nat.sub_zero]

theorem ipv6ToUchar_apply (array : Buffer) (hillint lollint : BitVec 64) (i : ℕ) (hi : i < 8) :
    ipv6ToUchar array hillint lollint i = byteOf hillint (7 - i) ∧
    ipv6ToUchar array hillint lollint (8 + i) = byteOf lollint (7 - i) := by
  have hcomm : ∀ a < 8, ∀ b < 8, ∀ x : Buffer,
      Function.update (Function.update x (b + 1 + 7) (byteOf lollint (8 - (b + 1))))
          (a + 1 - 1) (byteOf hillint (8 - (a + 1))) =
        Function.update (Function.update x (a + 1 - 1) (byteOf hillint (8 - (a + 1))))
          (b + 1 + 7) (byteOf lollint (8 - (b + 1))) := by
    intro a ha b _ x
    exact Function.update_comm (by omega) _ _ _
  have hlo : ∀ a < 8, ∀ x : Buffer, Function.update x (a + 1 + 7) (byteOf lollint (8 - (a + 1))) =
      Function.update x (8 + (a + 1 - 1)) (byteOf lollint (8 - (a + 1))) := by
    intro a _ x
    rw [show a + 1 + 7 = 8 + (a + 1 - 1) by omega]
  have hhi : ∀ a < 8, ∀ x : Buffer, Function.update x (a + 1 - 1) (byteOf hillint (8 - (a + 1))) =
      Function.update x (0 + (a + 1 - 1)) (byteOf hillint (8 - (a + 1))) := by
    intro a _ x
    rw [Nat.zero_add]
  have hsplit : ipv6ToUchar array hillint lollint =
      countdown (fun a (x : Buffer) => Function.update x (8 + (a - 1)) (byteOf lollint (8 - a))) 8
        (countdown (fun a (x : Buffer) => Function.update x (0 + (a - 1)) (byteOf hillint (8 - a))) 8
          array) := by
    rw [ipv6ToUchar, countdown_comp (f := fun a (x : Buffer) => Function.update x (a - 1) (byteOf hillint (8 - a)))
      (g := fun a (x : Buffer) => Function.update x (a + 7) (byteOf lollint (8 - a))) hcomm,
      countdown_congr (f := fun a (x : Buffer) => Function.update x (a + 7) (byteOf lollint (8 - a)))
        (g := fun a (x : Buffer) => Function.update x (8 + (a - 1)) (byteOf lollint (8 - a))) hlo,
      countdown_congr (f := fun a (x : Buffer) => Function.update x (a - 1) (byteOf hillint (8 - a)))
        (g := fun a (x : Buffer) => Function.update x (0 + (a - 1)) (byteOf hillint (8 - a))) hhi]
  rw [hsplit, countdown_update, countdown_update, countdown_update]
  constructor
  · rw [if_neg (by omega), if_pos (by omega)]
    rfl
  · rw [if_pos (by omega), Nat.add_sub_cancel_left]

theorem ipv6ToUchar_number (array : Buffer) (hillint lollint : BitVec 64) :
    number .ipv6 (ipv6ToUchar array hillint lollint) = hillint.toNat * 2 ^ 64 + lollint.toNat := by
  have hhi : bigEndian (ipv6ToUchar array hillint lollint) 0 8 = hillint.toNat :=
    bigEndian_byteOf (by omega) (by omega) (fun i hi => by
      rw [Nat.zero_add]
      exact (ipv6ToUchar_apply array hillint lollint i hi).1)
  have hlo : bigEndian (ipv6ToUchar array hillint lollint) 8 8 = lollint.toNat :=
    bigEndian_byteOf (by omega) (by omega)
      (fun i hi => (ipv6ToUchar_apply array hillint lollint i hi).2)
  rw [number, bigEndian_add _ 0 8 8, hhi, hlo]
  norm_num

end SnmpB.Discovery
