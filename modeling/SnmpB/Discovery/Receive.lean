import SnmpB.Agent.Pdu
import SnmpB.Discovery.Sweep

/-! # The receive loop of a discovery pass

After the probes the pass waits for `timeout_sec` seconds and hands on what
arrives. What `select` and the socket give, and the abort flag, enter as the
input of each turn of the loop.
-/
namespace SnmpB.Discovery

/-- What `receive_snmp_response` returns. -/
inductive Received
  | success
  | unknownPduHandlers
  | failed
  deriving DecidableEq, Repr

/-- A message on the socket, with the printed address it comes from. -/
structure Datagram where
  sender : String
  version : SnmpVersion
  pdu : Agent.Pdu
  result : Received
  deriving DecidableEq, Repr

/-- The SNMPv3 probe is answered by a report, which nobody handles. -/
def Datagram.accepted (d : Datagram) : Bool :=
  d.result = .unknownPduHandlers ∨ d.result = .success

/-- A call `thread->SendAgentInfo(in_pdu, from, version)`. -/
structure Report where
  message : Datagram
  version : SnmpVersion
  deriving DecidableEq, Repr

/-- The message taken from the socket, whether the second is over, and the flag. -/
structure Wakeup where
  message : Option Datagram
  elapsed : Bool
  aborting : Bool

structure Waiting where
  numSec : ℕ
  reports : List Report
  progress : ℕ
  deriving DecidableEq, Repr

inductive TurnResult
  | waiting
  | elapsed
  | aborted
  deriving DecidableEq, Repr

def Waiting.start : Waiting := ⟨1, [], 0⟩

def reportOf (version : SnmpVersion) (message : Option Datagram) : List Report :=
  (message.toList.filter (·.accepted)).map (⟨·, version⟩)

/-- One turn from `new_loop` on. -/
def receiveTurn (timeoutSec : ℕ) (version : SnmpVersion) (w : Wakeup) (s : Waiting) :
    Waiting × TurnResult :=
  let s := { s with reports := s.reports ++ reportOf version w.message }
  if w.aborting then (s, .aborted)
  else if w.elapsed then
    let s := { s with progress := s.progress + 1 }
    if s.numSec < timeoutSec then ({ s with numSec := s.numSec + 1 }, .waiting) else (s, .elapsed)
  else (s, .waiting)

def receiveLoop (timeoutSec : ℕ) (version : SnmpVersion) : List Wakeup → Waiting → Waiting × TurnResult
  | [], s => (s, .waiting)
  | w :: ws, s =>
    match receiveTurn timeoutSec version w s with
    | (s, .waiting) => receiveLoop timeoutSec version ws s
    | (s, result) => (s, result)

/-- What a pass leaves: the iterations of the send loop and, if it got that far, its wait. -/
structure Pass where
  iterations : List Iteration
  wait : Option (Waiting × TurnResult)

def DiscoverySnmp.discover (startAddr : UdpAddress) (numAddr : BitVec 64) (timeoutSec : ℕ) (version : SnmpVersion)
    (useProbe : Bool) (outcome : ℕ → Outcome) (wakeups : List Wakeup) : Pass :=
  match sendProbes version useProbe outcome startAddr numAddr with
  | (iterations, .allSent) => ⟨iterations, some (receiveLoop timeoutSec version wakeups .start)⟩
  | (iterations, _) => ⟨iterations, none⟩

/-- The wakeups up to and with the `n`-th that ends a second. -/
def upToSecond : ℕ → List Wakeup → List Wakeup
  | 0, _ => []
  | _ + 1, [] => []
  | n + 1, w :: ws => w :: upToSecond (if w.elapsed then n else n + 1) ws

def seconds (wakeups : List Wakeup) : ℕ := wakeups.countP (·.elapsed)

def heard (version : SnmpVersion) (wakeups : List Wakeup) : List Report :=
  wakeups.flatMap fun w => reportOf version w.message

theorem seconds_cons (w : Wakeup) (ws : List Wakeup) :
    seconds (w :: ws) = seconds ws + if w.elapsed then 1 else 0 := List.countP_cons

theorem heard_cons (version : SnmpVersion) (w : Wakeup) (ws : List Wakeup) :
    heard version (w :: ws) = reportOf version w.message ++ heard version ws := List.flatMap_cons ..

/-- The pass waits `timeoutSec` seconds, at least one, and reports every answer up to then. -/
structure WaitsFull (timeoutSec : ℕ) (version : SnmpVersion) (wakeups : List Wakeup)
    (wait : Waiting × TurnResult) : Prop where
  reports : wait.1.reports = heard version (upToSecond (max 1 timeoutSec) wakeups)
  progress : wait.1.progress = seconds (upToSecond (max 1 timeoutSec) wakeups)
  ends : wait.2 = .elapsed ↔ seconds (upToSecond (max 1 timeoutSec) wakeups) = max 1 timeoutSec
  undisturbed : wait.2 ≠ .aborted

theorem receiveTurn_quiet (timeoutSec : ℕ) (version : SnmpVersion) {w : Wakeup}
    (hquiet : w.aborting = false) (s : Waiting) :
    receiveTurn timeoutSec version w s =
      if w.elapsed then
        if s.numSec < timeoutSec then
          (⟨s.numSec + 1, s.reports ++ reportOf version w.message, s.progress + 1⟩, .waiting)
        else (⟨s.numSec, s.reports ++ reportOf version w.message, s.progress + 1⟩, .elapsed)
      else (⟨s.numSec, s.reports ++ reportOf version w.message, s.progress⟩, .waiting) := by
  simp only [receiveTurn, hquiet, Bool.false_eq_true, ↓reduceIte]

/-- With `left` seconds to go. -/
theorem receiveLoop_left (timeoutSec : ℕ) (version : SnmpVersion) (wakeups : List Wakeup) :
    ∀ {s : Waiting} {left : ℕ}, (∀ w ∈ wakeups, w.aborting = false) → 1 ≤ left →
      1 ≤ s.numSec → s.numSec + left = max 1 timeoutSec + 1 →
      let wait := receiveLoop timeoutSec version wakeups s
      wait.1.reports = s.reports ++ heard version (upToSecond left wakeups) ∧
      wait.1.progress = s.progress + seconds (upToSecond left wakeups) ∧
      (wait.2 = .elapsed ↔ seconds (upToSecond left wakeups) = left) ∧ wait.2 ≠ .aborted := by
  induction wakeups with
  | nil =>
    intro s left _ hleft _ _
    obtain ⟨left, rfl⟩ := Nat.exists_eq_add_of_le' hleft
    simp [receiveLoop, upToSecond, heard, seconds]
  | cons w ws ih =>
    intro s left hquiet hleft hpos hnum
    obtain ⟨left, rfl⟩ := Nat.exists_eq_add_of_le' hleft
    have hw := receiveTurn_quiet timeoutSec version (hquiet w List.mem_cons_self) s
    have hws : ∀ v ∈ ws, v.aborting = false := fun v hv => hquiet v (List.mem_cons_of_mem _ hv)
    rw [upToSecond, heard_cons, seconds_cons, receiveLoop, hw]
    cases w.elapsed with
    | false =>
      have hrest := ih (s := ⟨s.numSec, s.reports ++ reportOf version w.message, s.progress⟩)
        hws hleft hpos hnum
      simpa only [Bool.false_eq_true, ↓reduceIte, Nat.add_zero, List.append_assoc] using hrest
    | true =>
      by_cases hlt : s.numSec < timeoutSec
      · obtain ⟨hreports, hprogress, hends, hundisturbed⟩ :=
          ih (s := ⟨s.numSec + 1, s.reports ++ reportOf version w.message, s.progress + 1⟩)
            hws (show 1 ≤ left by omega) (Nat.le_add_left 1 s.numSec) (by dsimp only; omega)
        simp only [↓reduceIte, hlt]
        refine ⟨?_, ?_, ?_, hundisturbed⟩
        · rw [hreports, List.append_assoc]
        · rw [hprogress, Nat.add_assoc, Nat.add_comm 1]
        · rw [hends]
          omega
      · have hlast : left = 0 := by omega
        subst hlast
        simp [hlt, upToSecond, heard, seconds]

theorem receiveLoop_waits (timeoutSec : ℕ) (version : SnmpVersion) {wakeups : List Wakeup}
    (hquiet : ∀ w ∈ wakeups, w.aborting = false) :
    WaitsFull timeoutSec version wakeups (receiveLoop timeoutSec version wakeups .start) := by
  have hstart : Waiting.start.numSec + max 1 timeoutSec = max 1 timeoutSec + 1 := by
    simp [Waiting.start, Nat.add_comm]
  obtain ⟨hreports, hprogress, hends, hundisturbed⟩ :=
    receiveLoop_left timeoutSec version wakeups hquiet (le_max_left 1 timeoutSec) (Nat.le_refl 1) hstart
  constructor
  · simpa [Waiting.start] using hreports
  · simpa [Waiting.start] using hprogress
  · exact hends
  · exact hundisturbed

end SnmpB.Discovery
