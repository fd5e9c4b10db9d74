import SnmpB.Library.Runs
import SnmpB.Discovery.Receive

/-! # The discovery thread

`DiscoveryThread::run` as a machine: one pass for every transport and protocol
that is ticked, with the GUI thread setting the abort flag and answers reaching
the sockets between any two of its steps.
-/
namespace SnmpB.Discovery

/-- What the thread reads, each when it gets to it; a transport without a start address is
passed over. -/
structure Settings where
  startAddress : IpVersion → Option UdpAddress
  checked : IpVersion → SnmpVersion → Bool
  snmpv3Probe : IpVersion → SnmpVersion → Bool
  numAddresses : BitVec 64
  waitTime : ℕ

structure Planned where
  transport : IpVersion
  version : SnmpVersion
  startAddr : UdpAddress
  useProbe : Bool

/-- The passes in the order of the two loops of `run`. -/
def Settings.passes (cfg : Settings) : List Planned :=
  [IpVersion.ipv4, .ipv6].flatMap fun t =>
    (cfg.startAddress t).toList.flatMap fun a =>
      ([SnmpVersion.version1, .version2c, .version3].filter (cfg.checked t)).map fun v =>
        ⟨t, v, a, cfg.snmpv3Probe t v⟩

/-- Where the thread is. Before `returned` it is inside `discover`. -/
inductive Stage
  | choosing (rest : List Planned)
  | sending (p : Planned) (rest : List Planned) (remaining : ℕ) (c : Cursor)
  | receiving (p : Planned) (rest : List Planned)
  | returned (rest : List Planned)
  | stopped

/-- The thread with its two sockets. `wait` keeps the reports and the progress of all passes;
`answered` and `abortCalled` are history. -/
structure ThreadState where
  stage : Stage
  aborting : Bool
  sockets : IpVersion → List Datagram
  wait : Waiting
  iterations : List Iteration
  answered : List Datagram
  abortCalled : Bool

/-- At `emit SignalStartStop(1)`. The flag and the sockets are as the run before left them. -/
def ThreadState.start (cfg : Settings) (aborting : Bool) (sockets : IpVersion → List Datagram) :
    ThreadState :=
  { stage := .choosing cfg.passes, aborting, sockets, wait := ⟨1, [], 0⟩, iterations := []
    answered := sockets .ipv4 ++ sockets .ipv6, abortCalled := false }

inductive Event
  /-- `DiscoveryThread::Abort`, in the GUI thread. -/
  | abort
  | arrive (transport : IpVersion) (d : Datagram)
  /-- On to the next pass, which starts by clearing the flag, or to the end. -/
  | choose
  | probe (built sent : Bool)
  | wakeup (elapsed : Bool)
  /-- The test of the flag after `discover`. -/
  | leave

def enterSend (p : Planned) (rest : List Planned) (remaining : ℕ) (c : Cursor) : Stage :=
  if remaining = 0 then .receiving p rest else .sending p rest remaining c

def afterProbe (s : ThreadState) (p : Planned) (rest : List Planned) (remaining : ℕ) (c : Cursor)
    (built sent : Bool) : ThreadState :=
  { s with
    iterations := s.iterations ++ [⟨c.curAddress, built, built && sent⟩]
    stage :=
      if built && !sent then .returned rest
      else if s.aborting then .returned rest
      else enterSend p rest remaining c.next }

def afterWakeup (s : ThreadState) (p : Planned) (rest : List Planned) (turn : Waiting × TurnResult) :
    ThreadState :=
  { s with
    sockets := Function.update s.sockets p.transport (s.sockets p.transport).tail
    wait := turn.1
    stage := if turn.2 = .waiting then .receiving p rest else .returned rest }

def step (cfg : Settings) (s : ThreadState) : Event → Option ThreadState
  | .abort => some { s with aborting := true, abortCalled := true }
  | .arrive t d =>
    some { s with
      sockets := Function.update s.sockets t (s.sockets t ++ [d])
      answered := s.answered ++ [d] }
  | .choose =>
    match s.stage with
    | .choosing [] => some { s with stage := .stopped }
    | .choosing (p :: rest) =>
      some { s with
        aborting := false
        wait := { s.wait with numSec := 1 }
        stage := enterSend p rest cfg.numAddresses.toNat (Cursor.start p.startAddr) }
    | _ => none
  | .probe built sent =>
    match s.stage with
    | .sending p rest (remaining + 1) c =>
      some (afterProbe s p rest remaining c
        (builds p.version p.useProbe ⟨built, sent, s.aborting⟩) sent)
    | _ => none
  | .wakeup elapsed =>
    match s.stage with
    | .receiving p rest =>
      some (afterWakeup s p rest (receiveTurn cfg.waitTime p.version
        ⟨(s.sockets p.transport).head?, elapsed, s.aborting⟩ s.wait))
    | _ => none
  | .leave =>
    match s.stage with
    | .returned rest => some { s with stage := if s.aborting then .stopped else .choosing rest }
    | _ => none

inductive Move (cfg : Settings) (s : ThreadState) : Event → ThreadState → Prop
  | abort : Move cfg s .abort { s with aborting := true, abortCalled := true }
  | arrive (t : IpVersion) (d : Datagram) : Move cfg s (.arrive t d)
      { s with
        sockets := Function.update s.sockets t (s.sockets t ++ [d])
        answered := s.answered ++ [d] }
  | stop (hstage : s.stage = .choosing []) : Move cfg s .choose { s with stage := .stopped }
  | begin (p : Planned) (rest : List Planned) (hstage : s.stage = .choosing (p :: rest)) :
    Move cfg s .choose
      { s with
        aborting := false
        wait := { s.wait with numSec := 1 }
        stage := enterSend p rest cfg.numAddresses.toNat (Cursor.start p.startAddr) }
  | probe (p : Planned) (rest : List Planned) (remaining : ℕ) (c : Cursor) (built sent : Bool)
      (hstage : s.stage = .sending p rest (remaining + 1) c) :
    Move cfg s (.probe built sent) (afterProbe s p rest remaining c
      (builds p.version p.useProbe ⟨built, sent, s.aborting⟩) sent)
  | wakeup (p : Planned) (rest : List Planned) (elapsed : Bool)
      (hstage : s.stage = .receiving p rest) :
    Move cfg s (.wakeup elapsed) (afterWakeup s p rest (receiveTurn cfg.waitTime p.version
      ⟨(s.sockets p.transport).head?, elapsed, s.aborting⟩ s.wait))
  | leave (rest : List Planned) (hstage : s.stage = .returned rest) :
    Move cfg s .leave { s with stage := if s.aborting then .stopped else .choosing rest }

theorem move_of_step {cfg : Settings} {s s' : ThreadState} {e : Event} (h : step cfg s e = some s') :
    Move cfg s e s' := by
  cases e with
  | abort =>
    cases h
    exact .abort
  | arrive t d =>
    cases h
    exact .arrive t d
  | choose =>
    simp only [step] at h
    split at h
    · cases h
      exact .stop ‹_›
    · cases h
      exact .begin _ _ ‹_›
    · cases h
  | probe built sent =>
    simp only [step] at h
    split at h
    · cases h
      exact .probe _ _ _ _ built sent ‹_›
    · cases h
  | wakeup elapsed =>
    simp only [step] at h
    split at h
    · cases h
      exact .wakeup _ _ elapsed ‹_›
    · cases h
  | leave =>
    simp only [step] at h
    split at h
    · cases h
      exact .leave _ ‹_›
    · cases h

def probes (outcome : ℕ → Outcome) (j count : ℕ) : List Event :=
  (List.range' j count).map fun i => .probe (outcome i).built (outcome i).sent

theorem enterSend_succ (p : Planned) (rest : List Planned) (remaining : ℕ) (c : Cursor) :
    enterSend p rest (remaining + 1) c = .sending p rest (remaining + 1) c := rfl

theorem exec_probes (cfg : Settings) {outcome : ℕ → Outcome}
    (hquiet : ∀ i, (outcome i).aborting = false) (p : Planned) (rest : List Planned) (remaining : ℕ) :
    ∀ (j : ℕ) (c : Cursor) {s : ThreadState}, s.stage = enterSend p rest remaining c →
      s.aborting = false →
      let sent := sendLoop p.version p.useProbe outcome remaining j c
      Runs.exec (step cfg) s (probes outcome j sent.1.length) =
        some { s with
          iterations := s.iterations ++ sent.1
          stage := if sent.2 = .allSent then .receiving p rest else .returned rest } := by
  induction remaining with
  | zero =>
    intro j c s hstage _
    simp only [sendLoop, List.length_nil, probes, List.range'_zero, List.map_nil, Runs.exec_nil,
      List.append_nil, ↓reduceIte]
    rw [enterSend, if_pos rfl] at hstage
    rw [← hstage]
  | succ remaining ih =>
    intro j c s hstage hflag
    rw [enterSend_succ] at hstage
    let built := builds p.version p.useProbe (outcome j)
    let probed : ThreadState :=
      { s with iterations := s.iterations ++ [⟨c.curAddress, built, built && (outcome j).sent⟩] }
    have hbuilds : builds p.version p.useProbe ⟨(outcome j).built, (outcome j).sent, s.aborting⟩ = built := rfl
    have hstep : step cfg s (.probe (outcome j).built (outcome j).sent) =
        some (afterProbe s p rest remaining c built (outcome j).sent) := by
      simp only [step, hstage, hbuilds]
    simp only [sendLoop, hquiet j, Bool.false_eq_true, ↓reduceIte]
    split
    · rename_i hfail
      have hafter : afterProbe s p rest remaining c built (outcome j).sent =
          { probed with stage := .returned rest } := by
        simp only [afterProbe, built, probed, hfail, ↓reduceIte]
      simp [probes, Runs.exec, hstep, hafter, probed, built]
    · rename_i hpass
      have hafter : afterProbe s p rest remaining c built (outcome j).sent =
          { probed with stage := enterSend p rest remaining c.next } := by
        simp only [afterProbe, built, probed, hpass, hflag, Bool.false_eq_true, ↓reduceIte]
      have hrest := ih (j + 1) c.next (s := { probed with stage := enterSend p rest remaining c.next }) rfl hflag
      rw [List.length_cons, probes, List.range'_succ, List.map_cons, Runs.exec, hstep, hafter,
        Option.bind_some]
      apply hrest.trans
      simp only [probed, built, List.append_assoc, List.cons_append, List.nil_append]

/-- While nobody aborts, the machine sends in a pass what `sendProbes` does. -/
theorem exec_pass (cfg : Settings) {outcome : ℕ → Outcome}
    (hquiet : ∀ i, (outcome i).aborting = false) (p : Planned) (rest : List Planned) {s : ThreadState}
    (hstage : s.stage = .choosing (p :: rest)) :
    let sent := sendProbes p.version p.useProbe outcome p.startAddr cfg.numAddresses
    Runs.exec (step cfg) s (.choose :: probes outcome 0 sent.1.length) =
      some { s with
        aborting := false
        wait := { s.wait with numSec := 1 }
        iterations := s.iterations ++ sent.1
        stage := if sent.2 = .allSent then .receiving p rest else .returned rest } := by
  have hchoose : step cfg s .choose =
      some { s with
        aborting := false
        wait := { s.wait with numSec := 1 }
        stage := enterSend p rest cfg.numAddresses.toNat (Cursor.start p.startAddr) } := by
    simp only [step, hstage]
  intro sent
  rw [Runs.exec, hchoose, Option.bind_some]
  exact exec_probes cfg hquiet p rest cfg.numAddresses.toNat 0 (Cursor.start p.startAddr) rfl rfl

/-- A local discovery with V1 and V2c: two passes over one broadcast address. -/
def twoPasses : Settings where
  startAddress t := if t = .ipv4 then some ⟨.ipv4, fun _ => 255, 161⟩ else none
  checked _ v := v ≠ .version3
  snmpv3Probe _ _ := true
  numAddresses := 1
  waitTime := 1

end SnmpB.Discovery
