import SnmpB.Discovery.Coverage
import SnmpB.Discovery.Receive

/-! # Failures in the send loop

A message that cannot be built costs the pass one address. A message that cannot
be sent ends it, with the rest of the range and the wait for answers.
-/
namespace SnmpB.Discovery

/-- The addresses of a pass, `start` and the `count` that follow it. -/
structure ProbeRange where
  start : UdpAddress
  count : BitVec 64
  fits : start.number + count.toNat ≤ space start.ipVersion

/-- Nobody aborts; `built` and `sends` tell how the iterations fare. -/
def unaborted (built sends : ℕ → Bool) : ℕ → Outcome := fun j => ⟨built j, sends j, false⟩

def quiet (heard : List (Option Datagram × Bool)) : List Wakeup :=
  heard.map fun h => ⟨h.1, h.2, false⟩

/-- No message that is built fails to be sent. -/
def NoSendFails (version : SnmpVersion) (useProbe : Bool) (outcome : ℕ → Outcome) (j remaining : ℕ) :
    Prop :=
  ∀ i, j ≤ i → i < j + remaining → builds version useProbe (outcome i) = true → (outcome i).sent = true

theorem noSendFails_succ {version : SnmpVersion} {useProbe : Bool} {outcome : ℕ → Outcome}
    {j remaining : ℕ} :
    NoSendFails version useProbe outcome j (remaining + 1) ↔
      (builds version useProbe (outcome j) = true → (outcome j).sent = true) ∧
        NoSendFails version useProbe outcome (j + 1) remaining := by
  constructor
  · intro h
    exact ⟨h j (Nat.le_refl j) (by omega), fun i hi hlt => h i (by omega) (by omega)⟩
  · rintro ⟨hj, hrest⟩ i hi hlt
    rcases Nat.eq_or_lt_of_le hi with rfl | hi
    · exact hj
    · exact hrest i hi (by omega)

variable {version : SnmpVersion} {useProbe : Bool} {built sends : ℕ → Bool}

theorem sendLoop_failed {j : ℕ} (hbuilt : builds version useProbe (unaborted built sends j) = true)
    (hsends : sends j = false) (remaining : ℕ) (c : Cursor) :
    (sendLoop version useProbe (unaborted built sends) (remaining + 1) j c).2 = .sendFailed := by
  have hsent : (unaborted built sends j).sent = false := hsends
  simp only [sendLoop, hbuilt, hsent, Bool.not_false, Bool.and_true, ↓reduceIte]

theorem sendLoop_passed {j : ℕ}
    (hsends : builds version useProbe (unaborted built sends j) = true → sends j = true)
    (remaining : ℕ) (c : Cursor) :
    sendLoop version useProbe (unaborted built sends) (remaining + 1) j c =
      (⟨c.curAddress, builds version useProbe (unaborted built sends j),
          builds version useProbe (unaborted built sends j)⟩ ::
        (sendLoop version useProbe (unaborted built sends) remaining (j + 1) c.next).1,
        (sendLoop version useProbe (unaborted built sends) remaining (j + 1) c.next).2) := by
  have habort : (unaborted built sends j).aborting = false := rfl
  have hsent : (unaborted built sends j).sent = sends j := rfl
  simp only [sendLoop, habort, hsent]
  cases hbuilt : builds version useProbe (unaborted built sends j) with
  | false => simp
  | true => simp [hsends hbuilt]

theorem sendLoop_allSent_iff (remaining : ℕ) : ∀ (j : ℕ) (c : Cursor),
    (sendLoop version useProbe (unaborted built sends) remaining j c).2 = .allSent ↔
      NoSendFails version useProbe (unaborted built sends) j remaining := by
  induction remaining with
  | zero => exact fun j c => ⟨fun _ i hi hlt => by omega, fun _ => rfl⟩
  | succ remaining ih =>
    intro j c
    rw [noSendFails_succ]
    by_cases hsends : builds version useProbe (unaborted built sends j) = true → sends j = true
    · rw [sendLoop_passed hsends, ih (j + 1) c.next]
      exact ⟨fun h => ⟨hsends, h⟩, fun h => h.2⟩
    · obtain ⟨hbuilt, hfail⟩ := Classical.not_imp.mp hsends
      rw [sendLoop_failed hbuilt (Bool.eq_false_iff.mpr hfail)]
      constructor
      · intro h
        cases h
      · rintro ⟨hj, -⟩
        exact absurd hj hsends

/-- What is probed when no send fails: every address whose message is built. -/
theorem probed_sendLoop {base : ℕ} (remaining : ℕ) : ∀ (j : ℕ) {c : Cursor},
    c.Tracks (base + j) → base + j + remaining ≤ space c.curAddress.ipVersion →
    NoSendFails version useProbe (unaborted built sends) j remaining →
    (probed (sendLoop version useProbe (unaborted built sends) remaining j c).1).map
        UdpAddress.number =
      ((List.range' j remaining).filter
        fun i => builds version useProbe (unaborted built sends i)).map (base + ·) := by
  induction remaining with
  | zero => exact fun _ _ _ _ _ => rfl
  | succ remaining ih =>
    intro j c hc hfit hsends
    obtain ⟨hj, hrest⟩ := noSendFails_succ.mp hsends
    have htail : (probed (sendLoop version useProbe (unaborted built sends) remaining (j + 1)
        c.next).1).map UdpAddress.number =
        ((List.range' (j + 1) remaining).filter
          fun i => builds version useProbe (unaborted built sends i)).map (base + ·) := by
      cases remaining with
      | zero => rfl
      | succ remaining =>
        have hlt : base + j + 1 < space c.curAddress.ipVersion := by omega
        have hnext : c.next.Tracks (base + (j + 1)) := Cursor.next_tracks hc hlt
        exact ih (j + 1) hnext (by rw [Cursor.next_ipVersion]; omega) hrest
    rw [sendLoop_passed hj, List.range'_succ, List.filter_cons, probed, List.filter_cons]
    cases builds version useProbe (unaborted built sends j) with
    | false => exact htail
    | true =>
      simp only [↓reduceIte, List.map_cons]
      rw [hc.1]
      exact congrArg _ htail

/-- A pass over the range with the answers of its wait. -/
def passOver (version : SnmpVersion) (useProbe : Bool) (timeoutSec : ℕ) (range : ProbeRange)
    (built sends : ℕ → Bool) (answers : List (Option Datagram × Bool)) : Pass :=
  DiscoverySnmp.discover range.start range.count timeoutSec version useProbe
    (unaborted built sends) (quiet answers)

theorem discover_allSent {startAddr : UdpAddress} {numAddr : BitVec 64} {outcome : ℕ → Outcome}
    (timeoutSec : ℕ) (wakeups : List Wakeup)
    (h : (sendProbes version useProbe outcome startAddr numAddr).2 = .allSent) :
    DiscoverySnmp.discover startAddr numAddr timeoutSec version useProbe outcome wakeups =
      ⟨(sendProbes version useProbe outcome startAddr numAddr).1,
        some (receiveLoop timeoutSec version wakeups .start)⟩ := by
  rw [DiscoverySnmp.discover]
  split
  · rename_i iterations heq
    rw [heq]
  · rename_i iterations ending hne heq
    exact absurd (by rw [heq] at h; exact h) (hne · )

theorem discover_wait_none {startAddr : UdpAddress} {numAddr : BitVec 64} {outcome : ℕ → Outcome}
    (timeoutSec : ℕ) (wakeups : List Wakeup)
    (h : (sendProbes version useProbe outcome startAddr numAddr).2 ≠ .allSent) :
    (DiscoverySnmp.discover startAddr numAddr timeoutSec version useProbe outcome wakeups).wait =
      none := by
  rw [DiscoverySnmp.discover]
  split
  · rename_i iterations heq
    exact absurd (by rw [heq]) h
  · rfl

theorem quiet_aborting (answers : List (Option Datagram × Bool)) :
    ∀ w ∈ quiet answers, w.aborting = false := by
  intro w hw
  obtain ⟨_, _, rfl⟩ := List.mem_map.mp hw
  rfl

/-- A failure costs only its address: all the others are probed once and in order, and the pass
waits for its full time. -/
def SkipsOnlyFailures (version : SnmpVersion) (useProbe : Bool) (timeoutSec : ℕ) (range : ProbeRange)
    (built sends : ℕ → Bool) (answers : List (Option Datagram × Bool)) : Prop :=
  let pass := passOver version useProbe timeoutSec range built sends answers
  (probed pass.iterations).map UdpAddress.number =
    ((List.range range.count.toNat).filter fun j =>
      builds version useProbe (unaborted built sends j) && sends j).map (range.start.number + ·) ∧
  ∃ wait, pass.wait = some wait ∧ WaitsFull timeoutSec version (quiet answers) wait

/-- A pass survives failures exactly if none of them is a failure to send. -/
theorem skipsOnlyFailures_iff (version : SnmpVersion) (useProbe : Bool) (timeoutSec : ℕ)
    (range : ProbeRange) (built sends : ℕ → Bool) (answers : List (Option Datagram × Bool)) :
    SkipsOnlyFailures version useProbe timeoutSec range built sends answers ↔
      ∀ j < range.count.toNat,
        builds version useProbe (unaborted built sends j) = true → sends j = true := by
  have hiff : NoSendFails version useProbe (unaborted built sends) 0 range.count.toNat ↔
      ∀ j < range.count.toNat,
        builds version useProbe (unaborted built sends j) = true → sends j = true :=
    ⟨fun h j hj => h j (Nat.zero_le j) (by omega), fun h j _ hj => h j (by omega)⟩
  have hending : (sendProbes version useProbe (unaborted built sends) range.start range.count).2 =
      .allSent ↔ NoSendFails version useProbe (unaborted built sends) 0 range.count.toNat :=
    sendLoop_allSent_iff range.count.toNat 0 (Cursor.start range.start)
  rw [← hiff, ← hending]
  constructor
  · rintro ⟨-, wait, hwait, -⟩
    by_contra hne
    rw [passOver, discover_wait_none timeoutSec (quiet answers) hne] at hwait
    cases hwait
  · intro hall
    have hsends := hending.mp hall
    have hprobed : (probed (sendProbes version useProbe (unaborted built sends) range.start
        range.count).1).map UdpAddress.number =
        ((List.range' 0 range.count.toNat).filter
          fun i => builds version useProbe (unaborted built sends i)).map (range.start.number + ·) :=
      probed_sendLoop range.count.toNat 0 (Cursor.start_tracks range.start)
        (by rw [Cursor.start_curAddress]; exact range.fits) hsends
    have hpass : passOver version useProbe timeoutSec range built sends answers =
        ⟨_, some _⟩ := discover_allSent timeoutSec (quiet answers) hall
    rw [SkipsOnlyFailures, hpass]
    refine ⟨?_, _, rfl, receiveLoop_waits timeoutSec version (quiet_aborting answers)⟩
    rw [hprobed, ← List.range_eq_range']
    refine congrArg _ (List.filter_congr fun j hj => ?_)
    cases hbuilt : builds version useProbe (unaborted built sends j) with
    | false => rfl
    | true => exact (hiff.mp hsends j (List.mem_range.mp hj) hbuilt).symm

/-- Three addresses of which the second, a broadcast address, cannot be sent to. -/
def broadcastRange : ProbeRange where
  start := ⟨.ipv4, fun i => ([10, 0, 0, 254] : List (BitVec 8)).getD i 0, 161⟩
  count := 3
  fits := by decide

theorem broadcast_ends_pass :
    ¬ SkipsOnlyFailures .version2c true 3 broadcastRange (fun _ => true) (· ≠ 1) [] := by
  rintro ⟨-, wait, hwait, -⟩
  have hnone : (passOver .version2c true 3 broadcastRange (fun _ => true) (· ≠ 1) []).wait = none := by
    decide
  rw [hnone] at hwait
  cases hwait

end SnmpB.Discovery
