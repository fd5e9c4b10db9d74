import SnmpB.Discovery.Sweep

/-! # What a pass covers

The count computed by `Discover` and the addresses regenerated by the send loop
are compared on every accepted From/To pair. The loop itself always walks
consecutive addresses; whether the walk ends at To is decided by the count.
-/
namespace SnmpB.Discovery

/-- Whatever happens to the probes, the iterations aim at consecutive addresses. -/
theorem sendLoop_targets (version : SnmpVersion) (useProbe : Bool) (outcome : ℕ → Outcome)
    (remaining j : ℕ) {c : Cursor} {v : ℕ} (hc : c.Tracks v)
    (hv : v + remaining ≤ space c.curAddress.ipVersion) :
    (sendLoop version useProbe outcome remaining j c).1.map (·.target.number) =
        List.range' v (sendLoop version useProbe outcome remaining j c).1.length ∧
    ∀ it ∈ (sendLoop version useProbe outcome remaining j c).1,
      it.target.ipVersion = c.curAddress.ipVersion ∧ it.target.port = c.curAddress.port := by
  induction remaining generalizing j c v with
  | zero => simp [sendLoop]
  | succ remaining ih =>
    simp only [sendLoop]
    split
    · simp [hc.1]
    · split
      · simp [hc.1]
      · cases remaining with
        | zero => simp [sendLoop, hc.1]
        | succ remaining =>
          have hnext := ih (j + 1) (Cursor.next_tracks hc (by omega)) (by
            rw [Cursor.next_ipVersion]
            omega)
          refine ⟨?_, ?_⟩
          · rw [List.map_cons, hnext.1, List.length_cons, List.range'_succ, hc.1]
          · intro it hit
            rcases List.mem_cons.mp hit with rfl | hit
            · exact ⟨rfl, rfl⟩
            · simpa using hnext.2 it hit

/-- Every probe is built and sent, and nobody aborts. -/
def Undisturbed (outcome : ℕ → Outcome) : Prop := ∀ j, outcome j = ⟨true, true, false⟩

theorem sendLoop_undisturbed (version : SnmpVersion) (useProbe : Bool) {outcome : ℕ → Outcome}
    (ho : Undisturbed outcome) (remaining j : ℕ) (c : Cursor) :
    (sendLoop version useProbe outcome remaining j c).1.length = remaining ∧
    ∀ it ∈ (sendLoop version useProbe outcome remaining j c).1, it.sent = true := by
  induction remaining generalizing j c with
  | zero => simp [sendLoop]
  | succ remaining ih =>
    have hj := ho j
    have hrest := ih (j + 1) c.next
    simp only [sendLoop, builds, hj, Bool.or_true, Bool.not_true, Bool.and_false, Bool.false_eq_true,
      ↓reduceIte, List.length_cons]
    refine ⟨by rw [hrest.1], ?_⟩
    intro it hit
    rcases List.mem_cons.mp hit with rfl | hit
    · rfl
    · exact hrest.2 it hit

def startAddress (addrFrom : IpAddress) (port : ℕ) : UdpAddress :=
  ⟨addrFrom.ipVersion, addrFrom.buffer, port⟩

def closedInterval (addrFrom addrTo : IpAddress) : List ℕ :=
  List.range' addrFrom.number (addrTo.number - addrFrom.number + 1)

/-- Exactly the addresses of the interval, each once and in increasing order. -/
def Covers (addrFrom addrTo : IpAddress) (probes : List UdpAddress) : Prop :=
  probes.map UdpAddress.number = closedInterval addrFrom addrTo ∧
  ∀ a ∈ probes, a.ipVersion = addrFrom.ipVersion

/-- The pairs on which the computed count is the size of the interval. -/
def CountExact (addrFrom addrTo : IpAddress) : Prop :=
  addrFrom.ipVersion = .ipv4 ∨
  (addrFrom.high = addrTo.high ∧ ¬(addrFrom.low = 0 ∧ addrTo.low = 2 ^ 64 - 1))

theorem probed_undisturbed (version : SnmpVersion) (useProbe : Bool) {outcome : ℕ → Outcome}
    (ho : Undisturbed outcome) (startAddr : UdpAddress) (numAddr : BitVec 64)
    (hfit : startAddr.number + numAddr.toNat ≤ space startAddr.ipVersion) :
    (probed (sendProbes version useProbe outcome startAddr numAddr).1).map UdpAddress.number =
        List.range' startAddr.number numAddr.toNat ∧
    ∀ a ∈ probed (sendProbes version useProbe outcome startAddr numAddr).1,
      a.ipVersion = startAddr.ipVersion := by
  have htracks := Cursor.start_tracks startAddr
  have htargets := sendLoop_targets version useProbe outcome numAddr.toNat 0 htracks
    (by rwa [Cursor.start_curAddress])
  have hall := sendLoop_undisturbed version useProbe ho numAddr.toNat 0 (Cursor.start startAddr)
  rw [hall.1, Cursor.start_curAddress] at htargets
  rw [sendProbes, probed, List.filter_eq_self.mpr hall.2, List.map_map]
  refine ⟨htargets.1, ?_⟩
  intro a ha
  obtain ⟨it, hit, rfl⟩ := List.mem_map.mp ha
  exact (htargets.2 it hit).1

theorem count_eq_iff {transport : Transport} {form : Form} {addrFrom addrTo : IpAddress}
    {n : BitVec 64} (h : countAddresses transport form addrFrom addrTo = .ok n) :
    n.toNat ≤ addrTo.number - addrFrom.number + 1 ∧ addrFrom.number ≤ addrTo.number ∧
    (n.toNat = addrTo.number - addrFrom.number + 1 ↔ CountExact addrFrom addrTo) := by
  obtain ⟨hversion, hf0, ht0, ⟨hv, hcount⟩ | ⟨hv, hcount⟩⟩ := countAddresses_ok h
  · obtain ⟨hle, hn⟩ := countIPv4_ok hv (hversion ▸ hv) hf0 hcount
    exact ⟨hn.le, hle, fun _ => Or.inl hv, fun _ => hn⟩
  · have hcases := countIPv6_ok hv (hversion ▸ hv) ht0 hcount
    have hnot : addrFrom.ipVersion ≠ .ipv4 := by rw [hv]; decide
    simp only [CountExact, hnot, false_or]
    simp only [IpAddress.high, IpAddress.low] at hcases ⊢
    rcases hcases with ⟨hhi, hlo, hn⟩ | ⟨hhi, hlo, hn⟩
    · have hmax := Nat.mod_lt addrTo.number (show 0 < 2 ^ 64 by norm_num)
      refine ⟨by omega, by omega, ?_⟩
      omega
    · refine ⟨by omega, by omega, ?_⟩
      omega

theorem covers_iff_length {addrFrom addrTo : IpAddress} {probes : List UdpAddress} {n : ℕ}
    (hnum : probes.map UdpAddress.number = List.range' addrFrom.number n)
    (hver : ∀ a ∈ probes, a.ipVersion = addrFrom.ipVersion) :
    Covers addrFrom addrTo probes ↔ n = addrTo.number - addrFrom.number + 1 := by
  constructor
  · intro h
    have hlen := congrArg List.length (hnum.symm.trans h.1)
    simpa only [closedInterval, List.length_range'] using hlen
  · rintro rfl
    exact ⟨hnum, hver⟩

/-- Main result: an undisturbed pass started by an accepted form probes the closed
interval exactly when the computed count is exact. -/
theorem discover_covers_iff {ipAddress : String → IpAddress} {transport : Transport} {form : Form}
    {setup : Setup} (hlocal : form.discoveryLocal = false)
    (haccept : discover ipAddress transport form = .ok setup)
    (version : SnmpVersion) (useProbe : Bool) (port : ℕ) {outcome : ℕ → Outcome}
    (ho : Undisturbed outcome) :
    Covers (ipAddress form.discoveryFrom) (ipAddress form.discoveryTo)
        (probed (sendProbes version useProbe outcome
          (startAddress (ipAddress form.discoveryFrom) port) setup.numAddresses).1) ↔
      CountExact (ipAddress form.discoveryFrom) (ipAddress form.discoveryTo) := by
  have hcount := discover_ok hlocal haccept
  generalize ipAddress form.discoveryFrom = addrFrom at hcount ⊢
  generalize ipAddress form.discoveryTo = addrTo at hcount ⊢
  obtain ⟨hle, hordered, hexact⟩ := count_eq_iff hcount
  have hversion := (countAddresses_ok hcount).1
  have hfit : (startAddress addrFrom port).number + setup.numAddresses.toNat ≤
      space (startAddress addrFrom port).ipVersion := by
    have hto : addrTo.number < space addrFrom.ipVersion := by
      rw [hversion]
      exact number_lt addrTo.ipVersion addrTo.buffer
    change addrFrom.number + setup.numAddresses.toNat ≤ space addrFrom.ipVersion
    omega
  obtain ⟨hnum, hver⟩ := probed_undisturbed version useProbe ho (startAddress addrFrom port)
    setup.numAddresses hfit
  exact (covers_iff_length hnum hver).trans hexact

def ofBytes (ipVersion : IpVersion) (bytes : List ℕ) : IpAddress :=
  ⟨true, ipVersion, fun i => BitVec.ofNat 8 (bytes.getD i 0)⟩

def rangeForm (discoveryFrom discoveryTo : String) : Form :=
  { discoveryV1 := false, discoveryV2c := true, discoveryV3 := false, discoveryLocal := false
    discoveryWaitTime := 3, discoveryFrom, discoveryTo }

def resolve (text : String) : IpAddress :=
  if text = "10.0.0.1" then ofBytes .ipv4 [10, 0, 0, 1]
  else if text = "10.0.1.2" then ofBytes .ipv4 [10, 0, 1, 2]
  else if text = "2001::ffff:ffff:ffff:ffff" then
    ofBytes .ipv6 [32, 1, 0, 0, 0, 0, 0, 0, 255, 255, 255, 255, 255, 255, 255, 255]
  else if text = "2001:0:0:1::" then ofBytes .ipv6 [32, 1, 0, 0, 0, 0, 0, 1]
  else ⟨false, .ipv4, fun _ => 0⟩

theorem discover_covers_iff_v4 :
    Covers (resolve "10.0.0.1") (resolve "10.0.1.2")
        (probed (sendProbes .version2c true (fun _ => ⟨true, true, false⟩)
          (startAddress (resolve "10.0.0.1") 161) 258).1) ↔
      CountExact (resolve "10.0.0.1") (resolve "10.0.1.2") := by
  have haccept : discover resolve ⟨true, true⟩ (rangeForm "10.0.0.1" "10.0.1.2") =
      .ok ⟨1, 258, 3, 3⟩ := by decide +kernel
  exact discover_covers_iff rfl haccept .version2c true 161 (fun _ => rfl)

/-- Two neighbouring addresses on both sides of a wrap: the pass stops after the first. -/
theorem wrapped_pair_not_covered :
    ¬ ∀ (ipAddress : String → IpAddress) (transport : Transport) (form : Form) (setup : Setup)
      (version : SnmpVersion) (useProbe : Bool) (port : ℕ) (outcome : ℕ → Outcome),
      form.discoveryLocal = false → discover ipAddress transport form = .ok setup →
      Undisturbed outcome →
      Covers (ipAddress form.discoveryFrom) (ipAddress form.discoveryTo)
        (probed (sendProbes version useProbe outcome
          (startAddress (ipAddress form.discoveryFrom) port) setup.numAddresses).1) := by
  intro h
  have hcovers := h resolve ⟨true, true⟩ (rangeForm "2001::ffff:ffff:ffff:ffff" "2001:0:0:1::")
    ⟨1, 1, 3, 3⟩ .version2c true 161 (fun _ => ⟨true, true, false⟩) rfl (by decide) (fun _ => rfl)
  have hlen := congrArg List.length hcovers.1
  revert hlen
  decide

end SnmpB.Discovery
