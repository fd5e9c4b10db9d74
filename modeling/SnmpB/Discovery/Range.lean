import SnmpB.Discovery.Address

/-! # Starting a discovery

`Discovery::Discover` checks the form and computes, in unsigned machine
arithmetic, how many addresses the thread will probe from the start address on.
-/
namespace SnmpB.Discovery

structure Transport where
  enableIPv4 : Bool
  enableIPv6 : Bool

structure Form where
  discoveryV1 : Bool
  discoveryV2c : Bool
  discoveryV3 : Bool
  discoveryLocal : Bool
  discoveryWaitTime : ℕ
  discoveryFrom : String
  discoveryTo : String

/-- The message box shown when the form is refused; one refusal is silent. -/
inductive Refusal
  | noProtocol
  | critical (title text : String)
  deriving DecidableEq, Repr

structure Setup where
  numProto : ℕ
  numAddresses : BitVec 64
  waitTime : ℕ
  progressMaximum : ℕ
  deriving DecidableEq, Repr

def invalidAddress (title text : String) : Refusal :=
  .critical title ("Invalid Address: " ++ text)

def unavailable (version : String) : Refusal :=
  .critical "IP transport" (version ++ " address specified but transport is " ++
    "unavailable (see Options menu->Preferences->Transport)")

def versionName : IpVersion → String
  | .ipv4 => "IPv4"
  | .ipv6 => "IPv6"

/-- A typed address passes when it parses and its first byte is not zero. -/
def IpAddress.accepted (a : IpAddress) : Bool := a.valid && a.buffer 0 != 0

def countIPv4 (transport : Transport) (addrFrom addrTo : IpAddress) : Except Refusal (BitVec 64) :=
  if transport.enableIPv4 = false then .error (unavailable "IPv4")
  else
    let ipFrom := ipv4FromUchar addrFrom.buffer 0
    let ipTo := ipv4FromUchar addrTo.buffer 0
    if ipFrom ≤ ipTo then .ok ((ipTo - ipFrom + 1).setWidth 64)
    else .error (.critical "Invalid address range" "'To address' must be greater than 'From address'")

def countIPv6 (transport : Transport) (addrFrom addrTo : IpAddress) : Except Refusal (BitVec 64) :=
  if transport.enableIPv6 = false then .error (unavailable "IPv6")
  else
    let (hifrom, lofrom) := ipv6FromUchar addrFrom.buffer 0 0
    let (hito, loto) := ipv6FromUchar addrTo.buffer 0 0
    if hito - hifrom = 0 ∧ lofrom ≤ loto then .ok (loto - lofrom + 1)
    else if hito - hifrom = 1 ∧ loto < lofrom then .ok (~~~lofrom + loto + 1)
    else .error (.critical "Invalid address range" ("'To address' must be greater than 'From" ++
      " address' with a range no larger than 2^64 addresses"))

def countAddresses (transport : Transport) (form : Form) (addrFrom addrTo : IpAddress) :
    Except Refusal (BitVec 64) :=
  if !addrFrom.accepted then .error (invalidAddress "\"From\" address" form.discoveryFrom)
  else if !addrTo.accepted then .error (invalidAddress "\"To\" address" form.discoveryTo)
  else if addrFrom.ipVersion ≠ addrTo.ipVersion then
    .error (.critical "IP version mismatch" ("IP address version mismatch: " ++
      versionName addrFrom.ipVersion ++ " -> " ++ versionName addrTo.ipVersion))
  else
    match addrFrom.ipVersion with
    | .ipv4 => countIPv4 transport addrFrom addrTo
    | .ipv6 => countIPv6 transport addrFrom addrTo

/-- `Discovery::Discover`. Parsing a typed address, which may ask the name
service, is the parameter `ipAddress`. -/
def discover (ipAddress : String → IpAddress) (transport : Transport) (form : Form) :
    Except Refusal Setup :=
  let numProto := form.discoveryV1.toNat + form.discoveryV2c.toNat + form.discoveryV3.toNat
  let start (numTransport : ℕ) (numAddresses : BitVec 64) : Setup :=
    { numProto, numAddresses, waitTime := form.discoveryWaitTime
      progressMaximum := numTransport * numProto * form.discoveryWaitTime }
  if numProto < 1 then .error .noProtocol
  else if form.discoveryLocal then
    .ok (start (transport.enableIPv4.toNat + transport.enableIPv6.toNat) 1)
  else do
    let numAddresses ← countAddresses transport form (ipAddress form.discoveryFrom)
      (ipAddress form.discoveryTo)
    return start 1 numAddresses

def IpAddress.low (a : IpAddress) : ℕ := a.number % 2 ^ 64
def IpAddress.high (a : IpAddress) : ℕ := a.number / 2 ^ 64

theorem countIPv4_ok {transport : Transport} {addrFrom addrTo : IpAddress} {n : BitVec 64}
    (hf : addrFrom.ipVersion = .ipv4) (ht : addrTo.ipVersion = .ipv4) (hpos : addrFrom.buffer 0 ≠ 0)
    (h : countIPv4 transport addrFrom addrTo = .ok n) :
    addrFrom.number ≤ addrTo.number ∧ n.toNat = addrTo.number - addrFrom.number + 1 := by
  have hnf : addrFrom.number = (ipv4FromUchar addrFrom.buffer 0).toNat := by
    rw [IpAddress.number, hf, ipv4FromUchar_toNat]
  have hnt : addrTo.number = (ipv4FromUchar addrTo.buffer 0).toNat := by
    rw [IpAddress.number, ht, ipv4FromUchar_toNat]
  -- a nonzero first byte keeps the whole range below 2^32 addresses
  have hfirst : 0 < addrFrom.number := by
    have hb : 0 < (addrFrom.buffer 0).toNat := by
      rw [Nat.pos_iff_ne_zero]
      exact fun hz => hpos (BitVec.eq_of_toNat_eq hz)
    rw [IpAddress.number, hf]
    simp only [number, ByteOrder.bigEndian, Nat.add_zero]
    omega
  have hone : (1 : BitVec 32).toNat = 1 := rfl
  unfold countIPv4 at h
  split at h
  · cases h
  · simp only at h
    split at h
    · rename_i hle
      cases h
      have hle' : (ipv4FromUchar addrFrom.buffer 0).toNat ≤ (ipv4FromUchar addrTo.buffer 0).toNat := hle
      have hlt := (ipv4FromUchar addrTo.buffer 0).isLt
      refine ⟨by omega, ?_⟩
      rw [hnf] at hfirst
      rw [hnf, hnt, BitVec.toNat_setWidth, BitVec.toNat_add, BitVec.toNat_sub]
      omega
    · cases h

/-- The IPv6 count is exact while the halves agree, except that a full low half
counts as zero; across a low-half wrap it is one short. -/
theorem countIPv6_ok {transport : Transport} {addrFrom addrTo : IpAddress} {n : BitVec 64}
    (hf : addrFrom.ipVersion = .ipv6) (ht : addrTo.ipVersion = .ipv6) (hpos : addrTo.buffer 0 ≠ 0)
    (h : countIPv6 transport addrFrom addrTo = .ok n) :
    (addrTo.high = addrFrom.high ∧ addrFrom.low ≤ addrTo.low ∧
      n.toNat = (addrTo.low - addrFrom.low + 1) % 2 ^ 64) ∨
    (addrTo.high = addrFrom.high + 1 ∧ addrTo.low < addrFrom.low ∧
      n.toNat = 2 ^ 64 - addrFrom.low + addrTo.low) := by
  have halves : ∀ a : IpAddress, a.ipVersion = .ipv6 →
      a.high = (ipv6FromUchar a.buffer 0 0).1.toNat ∧ a.low = (ipv6FromUchar a.buffer 0 0).2.toNat := by
    intro a ha
    have hlt := (ipv6FromUchar a.buffer 0 0).2.isLt
    rw [IpAddress.high, IpAddress.low, IpAddress.number, ha, number_ipv6]
    constructor <;> omega
  -- a nonzero first byte excludes a high half that wrapped to zero
  have hhigh : (ipv6FromUchar addrTo.buffer 0 0).1.toNat ≠ 0 := by
    have hb : (addrTo.buffer 0).toNat ≠ 0 := fun hz => hpos (BitVec.eq_of_toNat_eq hz)
    rw [(ipv6FromUchar_toNat addrTo.buffer).1]
    simp only [ByteOrder.bigEndian, Nat.add_zero]
    omega
  rw [(halves addrFrom hf).1, (halves addrFrom hf).2, (halves addrTo ht).1, (halves addrTo ht).2]
  unfold countIPv6 at h
  generalize ipv6FromUchar addrFrom.buffer 0 0 = f at h ⊢
  generalize ipv6FromUchar addrTo.buffer 0 0 = t at h hhigh ⊢
  obtain ⟨hifrom, lofrom⟩ := f
  obtain ⟨hito, loto⟩ := t
  have hfl := lofrom.isLt
  have htl := loto.isLt
  have hfh := hifrom.isLt
  have hth := hito.isLt
  have hzero : (0 : BitVec 64).toNat = 0 := rfl
  have hone : (1 : BitVec 64).toNat = 1 := rfl
  simp only at h hhigh ⊢
  split at h
  · cases h
  · split at h
    · rename_i hsame
      cases h
      have heq : hito.toNat = hifrom.toNat := by
        have hz := congrArg BitVec.toNat hsame.1
        simp only [BitVec.toNat_sub] at hz
        omega
      have hle : lofrom.toNat ≤ loto.toNat := hsame.2
      refine Or.inl ⟨heq, hle, ?_⟩
      simp only [BitVec.toNat_add, BitVec.toNat_sub]
      omega
    · split at h
      · rename_i hwrap
        cases h
        have hlt : loto.toNat < lofrom.toNat := hwrap.2
        have heq : hito.toNat = hifrom.toNat + 1 := by
          have hz := congrArg BitVec.toNat hwrap.1
          simp only [BitVec.toNat_sub] at hz
          omega
        refine Or.inr ⟨heq, hlt, ?_⟩
        simp only [BitVec.toNat_add, BitVec.toNat_not]
        omega
      · cases h

theorem countAddresses_ok {transport : Transport} {form : Form} {addrFrom addrTo : IpAddress}
    {n : BitVec 64} (h : countAddresses transport form addrFrom addrTo = .ok n) :
    addrFrom.ipVersion = addrTo.ipVersion ∧ addrFrom.buffer 0 ≠ 0 ∧ addrTo.buffer 0 ≠ 0 ∧
    ((addrFrom.ipVersion = .ipv4 ∧ countIPv4 transport addrFrom addrTo = .ok n) ∨
      (addrFrom.ipVersion = .ipv6 ∧ countIPv6 transport addrFrom addrTo = .ok n)) := by
  unfold countAddresses at h
  split at h
  · cases h
  · split at h
    · cases h
    · split at h
      · cases h
      · rename_i hf ht hv
        simp only [IpAddress.accepted, Bool.not_eq_true', Bool.not_eq_false, Bool.and_eq_true,
          bne_iff_ne, ne_eq] at hf ht
        refine ⟨not_not.mp hv, hf.2, ht.2, ?_⟩
        cases hversion : addrFrom.ipVersion with
        | ipv4 => exact Or.inl ⟨rfl, by simpa only [hversion] using h⟩
        | ipv6 => exact Or.inr ⟨rfl, by simpa only [hversion] using h⟩

theorem discover_ok {ipAddress : String → IpAddress} {transport : Transport} {form : Form}
    {setup : Setup} (hlocal : form.discoveryLocal = false)
    (h : discover ipAddress transport form = .ok setup) :
    countAddresses transport form (ipAddress form.discoveryFrom) (ipAddress form.discoveryTo) =
      .ok setup.numAddresses := by
  unfold discover at h
  simp only [hlocal] at h
  split at h
  · cases h
  · cases hc : countAddresses transport form (ipAddress form.discoveryFrom)
      (ipAddress form.discoveryTo) with
    | error e => simp [hc, bind, Except.bind] at h
    | ok n =>
      simp only [hc, bind, Except.bind, pure, Except.pure, Bool.false_eq_true, ↓reduceIte] at h
      cases h
      rfl

end SnmpB.Discovery
