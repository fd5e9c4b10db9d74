import SnmpB.Discovery.Coverage
import SnmpB.Discovery.Record

/-! # The progress bar

`Discover` gives the bar its maximum before the thread starts; the thread counts
the seconds it waits. The two agree because every pass counts `waitTime` seconds.
-/
namespace SnmpB.Discovery
open Runs

def Form.checked (form : Form) : SnmpVersion → Bool
  | .version1 => form.discoveryV1
  | .version2c => form.discoveryV2c
  | .version3 => form.discoveryV3

def Transport.enabled (transport : Transport) : IpVersion → Bool
  | .ipv4 => transport.enableIPv4
  | .ipv6 => transport.enableIPv6

/-- `255.255.255.255` and `ff02::1`. -/
def localAddress : IpVersion → IpAddress
  | .ipv4 => ofBytes .ipv4 [255, 255, 255, 255]
  | .ipv6 => ofBytes .ipv6 [255, 2, 0, 0, 0, 0, 0, 0, 0, 0, 0, 0, 0, 0, 0, 1]

/-- What `run` finds when the form stays as `Discover` accepted it. With the port behind it the
typed address is parsed to the same address. -/
def Settings.ofForm (ipAddress : String → IpAddress) (transport : Transport) (form : Form)
    (setup : Setup) (port : ℕ) (snmpv3Probe : Bool) : Settings where
  startAddress t :=
    if form.discoveryLocal then
      if transport.enabled t then some (Discovery.startAddress (localAddress t) port) else none
    else if (ipAddress form.discoveryFrom).ipVersion = t ∧ transport.enabled t then
      some (Discovery.startAddress (ipAddress form.discoveryFrom) port)
    else none
  checked _ := form.checked
  snmpv3Probe _ _ := snmpv3Probe
  numAddresses := setup.numAddresses
  waitTime := setup.waitTime

theorem countAddresses_enabled {transport : Transport} {form : Form} {addrFrom addrTo : IpAddress}
    {n : BitVec 64} (h : countAddresses transport form addrFrom addrTo = .ok n) :
    transport.enabled addrFrom.ipVersion = true := by
  obtain ⟨-, -, -, ⟨hversion, hcount⟩ | ⟨hversion, hcount⟩⟩ := countAddresses_ok h
  · rw [hversion, Transport.enabled]
    by_contra hoff
    rw [countIPv4, if_pos (Bool.not_eq_true _ ▸ hoff)] at hcount
    cases hcount
  · rw [hversion, Transport.enabled]
    by_contra hoff
    rw [countIPv6, if_pos (Bool.not_eq_true _ ▸ hoff)] at hcount
    cases hcount

theorem startIf_length (b : Bool) (a : UdpAddress) :
    (if b = true then some a else none).toList.length = b.toNat := by
  cases b <;> rfl

theorem filter_length_toNat (checked : SnmpVersion → Bool) :
    ([SnmpVersion.version1, .version2c, .version3].filter checked).length =
      (checked .version1).toNat + (checked .version2c).toNat + (checked .version3).toNat := by
  simp only [List.filter_cons, List.filter_nil]
  cases checked .version1 <;> cases checked .version2c <;> cases checked .version3 <;> rfl

theorem passes_length (cfg : Settings) {checked : SnmpVersion → Bool} (h : ∀ t, cfg.checked t = checked) :
    cfg.passes.length = ((cfg.startAddress .ipv4).toList.length + (cfg.startAddress .ipv6).toList.length) *
      ((checked .version1).toNat + (checked .version2c).toNat + (checked .version3).toNat) := by
  simp only [Settings.passes, h, List.flatMap_cons, List.flatMap_nil, List.append_nil, List.length_append,
    List.length_flatMap, List.length_map, List.map_const', List.sum_replicate_nat, filter_length_toNat,
    Nat.add_mul]

/-- The transports `Discover` counts are those with a start address. -/
def Form.numTransport (form : Form) (transport : Transport) : ℕ :=
  if form.discoveryLocal then transport.enableIPv4.toNat + transport.enableIPv6.toNat else 1

theorem discover_setup {ipAddress : String → IpAddress} {transport : Transport} {form : Form} {setup : Setup}
    (h : discover ipAddress transport form = .ok setup) :
    setup.waitTime = form.discoveryWaitTime ∧
      setup.progressMaximum = form.numTransport transport *
        (form.discoveryV1.toNat + form.discoveryV2c.toNat + form.discoveryV3.toNat) * form.discoveryWaitTime := by
  simp only [discover] at h
  split at h
  · cases h
  · split at h
    · rename_i hlocal
      cases h
      rw [Form.numTransport, if_pos hlocal]
      exact ⟨rfl, rfl⟩
    · rename_i hlocal
      cases hc : countAddresses transport form (ipAddress form.discoveryFrom)
        (ipAddress form.discoveryTo) with
      | error e => simp [hc, bind, Except.bind] at h
      | ok n =>
        simp only [hc, bind, Except.bind, pure, Except.pure] at h
        cases h
        rw [Form.numTransport, if_neg hlocal]
        exact ⟨rfl, rfl⟩

theorem startAddresses_length {ipAddress : String → IpAddress} {transport : Transport} {form : Form}
    {setup : Setup} (h : discover ipAddress transport form = .ok setup) (port : ℕ) (snmpv3Probe : Bool) :
    let cfg := Settings.ofForm ipAddress transport form setup port snmpv3Probe
    (cfg.startAddress .ipv4).toList.length + (cfg.startAddress .ipv6).toList.length =
      form.numTransport transport := by
  simp only [Settings.ofForm, Form.numTransport]
  split
  · rw [startIf_length, startIf_length]
    rfl
  · rename_i hlocal
    have henabled := countAddresses_enabled (discover_ok (Bool.eq_false_of_not_eq_true hlocal) h)
    cases hversion : (ipAddress form.discoveryFrom).ipVersion with
    | ipv4 =>
      rw [hversion] at henabled
      simp [henabled]
    | ipv6 =>
      rw [hversion] at henabled
      simp [henabled]

/-- The thread makes the `num_transport * num_proto` passes that `Discover` counted. -/
theorem progressMaximum_eq {ipAddress : String → IpAddress} {transport : Transport} {form : Form}
    {setup : Setup} (h : discover ipAddress transport form = .ok setup) (port : ℕ) (snmpv3Probe : Bool) :
    setup.progressMaximum =
      (Settings.ofForm ipAddress transport form setup port snmpv3Probe).passes.length * setup.waitTime := by
  obtain ⟨hwait, hmaximum⟩ := discover_setup h
  have hchecked : ∀ t, (Settings.ofForm ipAddress transport form setup port snmpv3Probe).checked t =
      form.checked := fun _ => rfl
  rw [hmaximum, hwait, passes_length _ hchecked, startAddresses_length h]
  rfl

/-- Nobody aborts, and every probe that is built is sent. -/
def Unhindered (s : ThreadState) (e : Event) : Prop :=
  match e, s.stage with
  | .abort, _ => False
  | .probe built sent, .sending p _ _ _ =>
    builds p.version p.useProbe ⟨built, sent, s.aborting⟩ = true → sent = true
  | _, _ => True

/-- `emit SignalProgress(++current_progress)`. -/
def signalProgress (s : ThreadState) (e : Event) : List ℕ :=
  match e, s.stage with
  | .wakeup elapsed, .receiving .. => if !s.aborting && elapsed then [s.wait.progress + 1] else []
  | _, _ => []

/-- Where the count of seconds stands, with `done` the passes that are over. -/
def Ticking (cfg : Settings) (s : ThreadState) : Prop :=
  match s.stage with
  | .choosing rest => ∃ done, cfg.passes = done ++ rest ∧ s.wait.progress = done.length * cfg.waitTime
  | .sending p rest _ _ =>
    s.aborting = false ∧ s.wait.numSec = 1 ∧
      ∃ done, cfg.passes = done ++ p :: rest ∧ s.wait.progress = done.length * cfg.waitTime
  | .receiving p rest =>
    s.aborting = false ∧ (1 ≤ s.wait.numSec ∧ s.wait.numSec ≤ cfg.waitTime) ∧
      ∃ done, cfg.passes = done ++ p :: rest ∧
        s.wait.progress + 1 = done.length * cfg.waitTime + s.wait.numSec
  | .returned rest =>
    s.aborting = false ∧
      ∃ done, cfg.passes = done ++ rest ∧ s.wait.progress = done.length * cfg.waitTime
  | .stopped => s.wait.progress = cfg.passes.length * cfg.waitTime

theorem ticking_enterSend {cfg : Settings} {s : ThreadState} {p : Planned} {rest done : List Planned}
    {remaining : ℕ} {c : Cursor} (hwait : 1 ≤ cfg.waitTime) (hstage : s.stage = enterSend p rest remaining c)
    (hflag : s.aborting = false) (hnum : s.wait.numSec = 1) (hpasses : cfg.passes = done ++ p :: rest)
    (hprogress : s.wait.progress = done.length * cfg.waitTime) : Ticking cfg s := by
  rw [enterSend] at hstage
  split at hstage
  · simp only [Ticking, hstage]
    refine ⟨hflag, ?_, done, hpasses, ?_⟩
    · rw [hnum]
      exact ⟨le_rfl, hwait⟩
    · rw [hprogress, hnum]
  · simp only [Ticking, hstage]
    exact ⟨hflag, hnum, done, hpasses, hprogress⟩

theorem receiveTurn_unhindered (timeoutSec : ℕ) (version : SnmpVersion) (message : Option Datagram)
    (elapsed : Bool) (w : Waiting) :
    receiveTurn timeoutSec version ⟨message, elapsed, false⟩ w =
      (⟨if elapsed ∧ w.numSec < timeoutSec then w.numSec + 1 else w.numSec,
        w.reports ++ reportOf version message, if elapsed then w.progress + 1 else w.progress⟩,
        if elapsed ∧ ¬ w.numSec < timeoutSec then .elapsed else .waiting) := by
  rw [receiveTurn_quiet _ _ rfl]
  cases elapsed with
  | false => rfl
  | true => by_cases hlt : w.numSec < timeoutSec <;> simp [hlt]

theorem afterProbe_unhindered {s : ThreadState} {p : Planned} {rest : List Planned} {remaining : ℕ}
    {c : Cursor} {built sent : Bool} (hquiet : Unhindered s (.probe built sent))
    (hstage : s.stage = .sending p rest (remaining + 1) c) (hflag : s.aborting = false) :
    (afterProbe s p rest remaining c (builds p.version p.useProbe ⟨built, sent, s.aborting⟩) sent).stage =
      enterSend p rest remaining c.next := by
  have hstay : ¬ (builds p.version p.useProbe ⟨built, sent, s.aborting⟩ && !sent) = true := by
    simp only [Unhindered, hstage] at hquiet
    cases sent with
    | true => simp
    | false => simpa using hquiet
  rw [afterProbe, if_neg hstay, if_neg (Bool.eq_false_iff.mp hflag)]

theorem step_ticking {cfg : Settings} (hwait : 1 ≤ cfg.waitTime) {s s' : ThreadState} {e : Event}
    (hs : Ticking cfg s) (hquiet : Unhindered s e) (h : step cfg s e = some s') : Ticking cfg s' := by
  cases move_of_step h with
  | abort => exact hquiet.elim
  | arrive t d => exact hs
  | stop hstage =>
    simp only [Ticking, hstage] at hs
    obtain ⟨done, hpasses, hprogress⟩ := hs
    rw [List.append_nil] at hpasses
    simpa only [Ticking, hpasses] using hprogress
  | begin p rest hstage =>
    simp only [Ticking, hstage] at hs
    obtain ⟨done, hpasses, hprogress⟩ := hs
    exact ticking_enterSend hwait rfl rfl rfl hpasses hprogress
  | probe p rest remaining c built sent hstage =>
    simp only [Ticking, hstage] at hs
    obtain ⟨hflag, hnum, done, hpasses, hprogress⟩ := hs
    exact ticking_enterSend hwait (afterProbe_unhindered hquiet hstage hflag) hflag hnum hpasses hprogress
  | wakeup p rest elapsed hstage =>
    simp only [Ticking, hstage] at hs
    obtain ⟨hflag, ⟨hpos, hle⟩, done, hpasses, hprogress⟩ := hs
    rw [hflag, receiveTurn_unhindered, afterWakeup]
    cases elapsed with
    | false => exact ⟨hflag, ⟨hpos, hle⟩, done, hpasses, hprogress⟩
    | true =>
      by_cases hlt : s.wait.numSec < cfg.waitTime
      · simp only [Ticking, hlt, not_true_eq_false, and_self, and_false, ↓reduceIte]
        refine ⟨hflag, ⟨Nat.le_add_left 1 _, hlt⟩, done, hpasses, ?_⟩
        omega
      · -- the last second of the pass
        simp only [Ticking, hlt, not_false_eq_true, and_self, ↓reduceIte, reduceCtorEq]
        refine ⟨hflag, done ++ [p], ?_, ?_⟩
        · rw [hpasses, List.append_assoc, List.singleton_append]
        · rw [List.length_append, List.length_singleton, Nat.add_mul, Nat.one_mul]
          omega
  | leave rest hstage =>
    simp only [Ticking, hstage] at hs
    obtain ⟨hflag, hdone⟩ := hs
    simp only [Ticking, hflag, Bool.false_eq_true, ↓reduceIte]
    exact hdone

/-- What the thread does itself, but for turns of the receive loop that end no second. -/
def Event.counted : Event → Bool
  | .choose | .probe .. | .leave => true
  | .wakeup elapsed => elapsed
  | .abort | .arrive .. => false

/-- The counted steps of a pass. -/
def Settings.passSteps (cfg : Settings) : ℕ := cfg.numAddresses.toNat + cfg.waitTime + 2

/-- The counted steps from a stage to the end. -/
def stepsLeft (cfg : Settings) (s : ThreadState) : ℕ :=
  match s.stage with
  | .choosing rest => rest.length * cfg.passSteps + 1
  | .sending _ rest remaining _ => remaining + cfg.waitTime + 1 + (rest.length * cfg.passSteps + 1)
  | .receiving _ rest => cfg.waitTime + 2 - s.wait.numSec + (rest.length * cfg.passSteps + 1)
  | .returned rest => 1 + (rest.length * cfg.passSteps + 1)
  | .stopped => 0

theorem stepsLeft_eq_zero {cfg : Settings} {s : ThreadState} : stepsLeft cfg s = 0 ↔ s.stage = .stopped := by
  cases hstage : s.stage <;> simp [stepsLeft, hstage]

theorem stepsLeft_enterSend {cfg : Settings} {s : ThreadState} {p : Planned} {rest : List Planned}
    {remaining : ℕ} {c : Cursor} (hstage : s.stage = enterSend p rest remaining c) (hnum : s.wait.numSec = 1) :
    stepsLeft cfg s = remaining + cfg.waitTime + 1 + (rest.length * cfg.passSteps + 1) := by
  rw [enterSend] at hstage
  split at hstage
  · rename_i hzero
    simp only [stepsLeft, hstage, hnum, hzero]
    omega
  · simp only [stepsLeft, hstage]

theorem step_stepsLeft {cfg : Settings} {s s' : ThreadState} {e : Event} (hs : Ticking cfg s)
    (hquiet : Unhindered s e) (h : step cfg s e = some s') :
    stepsLeft cfg s = stepsLeft cfg s' + if e.counted then 1 else 0 := by
  cases move_of_step h with
  | abort => exact hquiet.elim
  | arrive t d => rfl
  | stop hstage =>
    simp only [stepsLeft, hstage, Event.counted, List.length_nil, Nat.zero_mul, ↓reduceIte]
  | begin p rest hstage =>
    have hbegun : stepsLeft cfg { s with
        aborting := false
        wait := { s.wait with numSec := 1 }
        stage := enterSend p rest cfg.numAddresses.toNat (Cursor.start p.startAddr) } =
          cfg.numAddresses.toNat + cfg.waitTime + 1 + (rest.length * cfg.passSteps + 1) :=
      stepsLeft_enterSend rfl rfl
    rw [hbegun]
    simp only [stepsLeft, hstage, Event.counted, List.length_cons, Nat.succ_mul, ↓reduceIte]
    rw [Settings.passSteps]
    omega
  | probe p rest remaining c built sent hstage =>
    simp only [Ticking, hstage] at hs
    obtain ⟨hflag, hnum, -⟩ := hs
    rw [stepsLeft_enterSend (afterProbe_unhindered hquiet hstage hflag) hnum]
    simp only [stepsLeft, hstage, Event.counted, ↓reduceIte]
    omega
  | wakeup p rest elapsed hstage =>
    simp only [Ticking, hstage] at hs
    obtain ⟨hflag, ⟨hpos, hle⟩, -⟩ := hs
    rw [hflag, receiveTurn_unhindered, afterWakeup]
    cases elapsed with
    | false =>
      simp only [stepsLeft, hstage, Event.counted, Bool.false_eq_true, false_and, ↓reduceIte, Nat.add_zero]
    | true =>
      by_cases hlt : s.wait.numSec < cfg.waitTime
      · simp only [stepsLeft, hstage, hlt, Event.counted, not_true_eq_false, and_self, and_false, ↓reduceIte]
        omega
      · simp only [stepsLeft, hstage, hlt, Event.counted, not_false_eq_true, and_self, ↓reduceIte, reduceCtorEq]
        omega
  | leave rest hstage =>
    simp only [Ticking, hstage] at hs
    simp only [stepsLeft, hstage, hs.1, Event.counted, Bool.false_eq_true, ↓reduceIte]
    omega

theorem step_signalProgress {cfg : Settings} {s s' : ThreadState} {e : Event} (h : step cfg s e = some s') :
    signalProgress s e = List.range' (s.wait.progress + 1) (signalProgress s e).length ∧
      s'.wait.progress = s.wait.progress + (signalProgress s e).length := by
  cases move_of_step h with
  | wakeup p rest elapsed hstage =>
    simp only [signalProgress, hstage, afterWakeup, receiveTurn]
    cases s.aborting <;> cases elapsed
    · exact ⟨rfl, rfl⟩
    · refine ⟨rfl, ?_⟩
      simp only [Bool.false_eq_true, ↓reduceIte]
      split <;> rfl
    · exact ⟨rfl, rfl⟩
    · exact ⟨rfl, rfl⟩
  | _ => exact ⟨rfl, rfl⟩

/-- The signals count the seconds, `waitTime` of them for every pass that is over. -/
structure CountsSeconds (cfg : Settings) (maximum : ℕ) (signals : List ℕ) (s : ThreadState) : Prop where
  inOrder : signals = List.range' 1 signals.length
  between : ∀ rest, s.stage = .choosing rest ∨ s.stage = .returned rest →
    ∃ done, cfg.passes = done ++ rest ∧ signals.length = done.length * cfg.waitTime
  within : ∀ p rest, (∃ remaining c, s.stage = .sending p rest remaining c) ∨ s.stage = .receiving p rest →
    ∃ done, cfg.passes = done ++ p :: rest ∧ done.length * cfg.waitTime ≤ signals.length ∧
      signals.length < done.length * cfg.waitTime + cfg.waitTime
  finished : s.stage = .stopped → signals = List.range' 1 maximum

theorem Ticking.countsSeconds {cfg : Settings} {signals : List ℕ} {s : ThreadState}
    (hpos : 1 ≤ cfg.waitTime) (hs : Ticking cfg s)
    (hsignals : signals = List.range' 1 signals.length) (hprogress : s.wait.progress = signals.length) :
    CountsSeconds cfg (cfg.passes.length * cfg.waitTime) signals s := by
  constructor
  · exact hsignals
  · intro rest hstage
    rcases hstage with hstage | hstage
    · simp only [Ticking, hstage, hprogress] at hs
      exact hs
    · simp only [Ticking, hstage, hprogress] at hs
      exact hs.2
  · intro p rest hstage
    rcases hstage with ⟨remaining, c, hstage⟩ | hstage
    · simp only [Ticking, hstage, hprogress] at hs
      obtain ⟨-, -, done, hpasses, hcount⟩ := hs
      exact ⟨done, hpasses, hcount.ge, by omega⟩
    · simp only [Ticking, hstage, hprogress] at hs
      obtain ⟨-, ⟨hone, hle⟩, done, hpasses, hcount⟩ := hs
      exact ⟨done, hpasses, by omega, by omega⟩
  · intro hstage
    simp only [Ticking, hstage, hprogress] at hs
    rw [← hs]
    exact hsignals

/-- An accepted form, and a run that nobody aborts and no send error cuts short: the signals are
`1, 2, …` up to the maximum of the bar. The run is over after a number of steps that does not
depend on what arrives. -/
theorem signals_count_seconds {ipAddress : String → IpAddress} {transport : Transport} {form : Form}
    {setup : Setup} (haccept : discover ipAddress transport form = .ok setup)
    (hwait : 1 ≤ form.discoveryWaitTime) (port : ℕ) (snmpv3Probe aborting : Bool)
    (sockets : IpVersion → List Datagram) {es : List Event} {s : ThreadState} :
    let cfg := Settings.ofForm ipAddress transport form setup port snmpv3Probe
    let start := ThreadState.start cfg aborting sockets
    exec (step cfg) start es = some s → Each (step cfg) Unhindered start es →
      CountsSeconds cfg setup.progressMaximum (outputs (step cfg) signalProgress start es) s ∧
      (s.stage = .stopped ↔ es.countP Event.counted = cfg.passes.length * cfg.passSteps + 1) := by
  intro cfg start h hquiet
  have hpos : 1 ≤ cfg.waitTime := hwait.trans_eq (discover_setup haccept).1.symm
  have hstart : Ticking cfg start := ⟨[], rfl, (Nat.zero_mul _).symm⟩
  have hticking : Ticking cfg s :=
    exec_invariant_of (fun _ _ _ hs hq hstep => step_ticking hpos hs hq hstep) hquiet hstart h
  have hcounter : ∀ s e s', step cfg s e = some s' →
      signalProgress s e = List.range' (s.wait.progress + 1) (signalProgress s e).length ∧
        s'.wait.progress = s.wait.progress + (signalProgress s e).length :=
    fun _ _ _ hstep => step_signalProgress hstep
  obtain ⟨hsignals, hprogress⟩ := outputs_counted hcounter h
  have hcountdown : ∀ s e s', Ticking cfg s → Unhindered s e → step cfg s e = some s' →
      stepsLeft cfg s = stepsLeft cfg s' + if Event.counted e then 1 else 0 :=
    fun _ _ _ hs hq hstep => step_stepsLeft hs hq hstep
  have hleft : stepsLeft cfg start = stepsLeft cfg s + es.countP Event.counted :=
    exec_countdown (fun _ _ _ hs hq hstep => step_ticking hpos hs hq hstep) hcountdown hquiet hstart h
  constructor
  · rw [progressMaximum_eq haccept port snmpv3Probe]
    exact hticking.countsSeconds hpos hsignals (hprogress.trans (Nat.zero_add _))
  · have htotal : stepsLeft cfg start = cfg.passes.length * cfg.passSteps + 1 := rfl
    rw [← htotal, hleft]
    rw [← @stepsLeft_eq_zero cfg s]
    omega

/-- V1 and V2c on the local network, with a second of waiting each. -/
def localForm : Form :=
  { discoveryV1 := true, discoveryV2c := true, discoveryV3 := false, discoveryLocal := true
    discoveryWaitTime := 1, discoveryFrom := "", discoveryTo := "" }

/-- An answer comes in the first second and one with the end of it. -/
def answeredEvents : List Event :=
  [.choose, .probe true true, .arrive .ipv4 lateAnswer, .wakeup false, .arrive .ipv4 lateAnswer, .wakeup true,
    .leave, .choose, .probe true true, .wakeup true, .leave, .choose]

theorem signals_count_seconds_local :
    let cfg := Settings.ofForm resolve ⟨true, false⟩ localForm ⟨2, 1, 1, 2⟩ 161 true
    let start := ThreadState.start cfg false fun _ => []
    ∃ s, exec (step cfg) start answeredEvents = some s ∧
      CountsSeconds cfg 2 (outputs (step cfg) signalProgress start answeredEvents) s ∧
      (s.stage = .stopped ↔ answeredEvents.countP Event.counted = cfg.passes.length * cfg.passSteps + 1) := by
  intro cfg start
  refine ⟨_, rfl, ?_⟩
  have haccept : discover resolve ⟨true, false⟩ localForm = .ok ⟨2, 1, 1, 2⟩ := rfl
  refine signals_count_seconds haccept le_rfl 161 true false (fun _ => []) rfl ?_
  have hsent : ∀ (s : ThreadState) (built : Bool), Unhindered s (.probe built true) := by
    intro s built
    cases hstage : s.stage <;> simp [Unhindered, hstage]
  have hother : ∀ s : ThreadState, Unhindered s .choose ∧ Unhindered s .leave ∧
      (∀ elapsed, Unhindered s (.wakeup elapsed)) ∧ ∀ t d, Unhindered s (.arrive t d) := by
    intro s
    simp [Unhindered]
  simp [Each, answeredEvents, hsent, hother]

end SnmpB.Discovery
