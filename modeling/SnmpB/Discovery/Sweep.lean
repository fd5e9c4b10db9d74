import SnmpB.Discovery.Range
import Mathlib.Data.List.Range

/-! # The send loop of a discovery pass

One pass probes consecutive addresses, keeping the current address both as
bytes and as one or two counters. Message building, sending and the abort flag
are outside the loop's control and enter as the outcome of each iteration.
-/
namespace SnmpB.Discovery

inductive SnmpVersion
  | version1
  | version2c
  | version3
  deriving DecidableEq, Repr

/-- The loop variables `cur_address`, `curaddr`, `hicuraddr` and `locuraddr`. -/
structure Cursor where
  curAddress : UdpAddress
  curaddr : BitVec 32
  hicuraddr : BitVec 64
  locuraddr : BitVec 64

def Cursor.start (startAddr : UdpAddress) : Cursor :=
  match startAddr.ipVersion with
  | .ipv4 => ⟨startAddr, ipv4FromUchar startAddr.buffer 0, 0, 0⟩
  | .ipv6 =>
    let halves := ipv6FromUchar startAddr.buffer 0 0
    ⟨startAddr, 0, halves.1, halves.2⟩

/-- The code at `next_addr`: increment with carry and write the bytes back. -/
def Cursor.next (c : Cursor) : Cursor :=
  match c.curAddress.ipVersion with
  | .ipv4 =>
    let curaddr := c.curaddr + 1
    { c with curaddr, curAddress.buffer := ipv4ToUchar c.curAddress.buffer curaddr }
  | .ipv6 =>
    let hicuraddr := if c.locuraddr = 0xFFFFFFFFFFFFFFFF then c.hicuraddr + 1 else c.hicuraddr
    let locuraddr := c.locuraddr + 1
    { c with hicuraddr, locuraddr,
             curAddress.buffer := ipv6ToUchar c.curAddress.buffer hicuraddr locuraddr }

/-- What an iteration meets: `load`/`loadv3` and `send_raw_data` succeed or not,
and `aborting` is read at its end. -/
structure Outcome where
  built : Bool
  sent : Bool
  aborting : Bool

structure Iteration where
  target : UdpAddress
  built : Bool
  sent : Bool

inductive Ending
  | allSent
  | sendFailed
  | aborted
  deriving DecidableEq, Repr

/-- The SNMPv3 probe is a constant message, so building it cannot fail. -/
def builds (version : SnmpVersion) (useProbe : Bool) (o : Outcome) : Bool :=
  (version == .version3 && useProbe) || o.built

/-- The loop `for (j = 0; j < num_addr; j++)`, by the iterations that remain. -/
def sendLoop (version : SnmpVersion) (useProbe : Bool) (outcome : ℕ → Outcome) :
    ℕ → ℕ → Cursor → List Iteration × Ending
  | 0, _, _ => ([], .allSent)
  | remaining + 1, j, c =>
    let built := builds version useProbe (outcome j)
    let done : Iteration := ⟨c.curAddress, built, built && (outcome j).sent⟩
    if built && !(outcome j).sent then ([done], .sendFailed)
    else if (outcome j).aborting then ([done], .aborted)
    else
      let rest := sendLoop version useProbe outcome remaining (j + 1) c.next
      (done :: rest.1, rest.2)

def sendProbes (version : SnmpVersion) (useProbe : Bool) (outcome : ℕ → Outcome)
    (startAddr : UdpAddress) (numAddr : BitVec 64) : List Iteration × Ending :=
  sendLoop version useProbe outcome numAddr.toNat 0 (Cursor.start startAddr)

def probed (iterations : List Iteration) : List UdpAddress :=
  (iterations.filter (·.sent)).map (·.target)

/-- The counters agree with the bytes of the current address. -/
def Cursor.Tracks (c : Cursor) (v : ℕ) : Prop :=
  c.curAddress.number = v ∧
  match c.curAddress.ipVersion with
  | .ipv4 => c.curaddr.toNat = v
  | .ipv6 => c.hicuraddr.toNat * 2 ^ 64 + c.locuraddr.toNat = v

theorem Cursor.start_tracks (startAddr : UdpAddress) :
    (Cursor.start startAddr).Tracks startAddr.number := by
  obtain ⟨version, buffer, port⟩ := startAddr
  cases version with
  | ipv4 => exact ⟨rfl, ipv4FromUchar_toNat buffer⟩
  | ipv6 => exact ⟨rfl, (number_ipv6 buffer).symm⟩

@[simp] theorem Cursor.start_curAddress (startAddr : UdpAddress) :
    (Cursor.start startAddr).curAddress = startAddr := by
  obtain ⟨version, buffer, port⟩ := startAddr
  cases version <;> rfl

@[simp] theorem Cursor.next_ipVersion (c : Cursor) :
    c.next.curAddress.ipVersion = c.curAddress.ipVersion := by
  obtain ⟨⟨version, buffer, port⟩, cur, hi, lo⟩ := c
  cases version <;> rfl

@[simp] theorem Cursor.next_port (c : Cursor) : c.next.curAddress.port = c.curAddress.port := by
  obtain ⟨⟨version, buffer, port⟩, cur, hi, lo⟩ := c
  cases version <;> rfl

/-- Adding one to the low half of a 128 bit number, with the carry by hand. -/
theorem add_one_with_carry (hi lo : BitVec 64) :
    (if lo = 0xFFFFFFFFFFFFFFFF then hi + 1 else hi).toNat * 2 ^ 64 + (lo + 1).toNat =
      (hi.toNat * 2 ^ 64 + lo.toNat + 1) % 2 ^ 128 := by
  have hone : (1 : BitVec 64).toNat = 1 := rfl
  have hmax : (0xFFFFFFFFFFFFFFFF : BitVec 64).toNat = 18446744073709551615 := rfl
  have hlo := lo.isLt
  have hhi := hi.isLt
  rw [BitVec.toNat_add lo, hone]
  split
  · rename_i hcarry
    have hall : lo.toNat = 18446744073709551615 := (congrArg BitVec.toNat hcarry).trans hmax
    rw [BitVec.toNat_add, hone, hall]
    omega
  · rename_i hcarry
    have hne : lo.toNat ≠ 18446744073709551615 :=
      fun hz => hcarry (BitVec.eq_of_toNat_eq (hz.trans hmax.symm))
    omega

/-- The counters go on behind the last address as the address does. -/
theorem Cursor.next_wraps {c : Cursor} {v : ℕ} (h : c.Tracks v) :
    c.next.Tracks ((v + 1) % space c.curAddress.ipVersion) := by
  obtain ⟨⟨version, buffer, port⟩, cur, hi, lo⟩ := c
  cases version with
  | ipv4 =>
    have hcur : cur.toNat = v := h.2
    have hone : (1 : BitVec 32).toNat = 1 := rfl
    have hadd : (cur + 1).toNat = (v + 1) % 2 ^ 32 := by
      rw [BitVec.toNat_add, hcur, hone]
    exact ⟨(ipv4ToUchar_number buffer (cur + 1)).trans hadd, hadd⟩
  | ipv6 =>
    have hcur : hi.toNat * 2 ^ 64 + lo.toNat = v := h.2
    have hadd := add_one_with_carry hi lo
    rw [hcur] at hadd
    exact ⟨(ipv6ToUchar_number buffer _ _).trans hadd, hadd⟩

theorem Cursor.next_tracks {c : Cursor} {v : ℕ} (h : c.Tracks v)
    (hv : v + 1 < space c.curAddress.ipVersion) : c.next.Tracks (v + 1) := by
  have hnext := Cursor.next_wraps h
  rwa [Nat.mod_eq_of_lt hv] at hnext

end SnmpB.Discovery
