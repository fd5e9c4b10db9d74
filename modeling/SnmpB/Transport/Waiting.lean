import SnmpB.Transport.RequestIds

/-! # How long the event loop sleeps

The loop blocks until the first message is due, or for the time the caller allows.
-/
namespace SnmpB.Transport

/-- `CEventList::GetNextTimeout`. The queue of notifications has no timeouts. -/
def Engine.nextTimeout (s : Engine) : Msec :=
  match s.getNextTimeoutEntry with
  | none => Msec.infinite
  | some msg =>
    if s.msgCount ≠ 0 ∧ Msec.infinite.greater msg.sendTime.val = true then msg.sendTime.val else Msec.infinite

def uintMax : ℕ := 4294967295

/-- `SNMPGetNextTimeout`, in hundredths of seconds. -/
def snmpGetNextTimeout (now : Msec) (s : Engine) : ℕ :=
  let sendTime := s.nextTimeout
  if sendTime.isInfinite then uintMax
  else if sendTime.greater now then (sendTime.sub now.ms).ms.toNat / 10 + 1
  else 0

/-- The timeout that `SNMPProcessEvents` gives to `select`. -/
def selectTimeout (maxBlockMilliseconds : ℤ) (maxfds : ℕ) (now : Msec) (s : Engine) : Timeval :=
  let fdTimeout := now.getDelta s.nextTimeout
  let seconds := maxBlockMilliseconds.tdiv 1000
  let rest := maxBlockMilliseconds.tmod 1000 * 1000
  let fdTimeout :=
    if maxBlockMilliseconds > 0 ∧
        (fdTimeout.tvSec > seconds ∨ (fdTimeout.tvSec = seconds ∧ fdTimeout.tvUsec > rest)) then
      ⟨seconds, rest⟩
    else fdTimeout
  -- "Prevent endless sleep in case no fd is open"
  if maxfds = 0 ∧ fdTimeout.tvSec > 5 then { fdTimeout with tvSec := 5 } else fdTimeout

def Timeval.micros (t : Timeval) : ℤ := t.tvSec * 1000000 + t.tvUsec

variable {env : Env} {s : Engine} {rid : ℕ} {es : List Event} {m : CSNMPMessage}

theorem nextTimeout_eq (h : Frame.Numbered ⟨[], none, s⟩) :
    (s.queue = [] ∧ s.nextTimeout = Msec.infinite) ∨
      ∃ m ∈ s.queue, (∀ m' ∈ s.queue, m.sendTime ≤ m'.sendTime) ∧ s.nextTimeout = m.sendTime.val := by
  unfold Engine.nextTimeout
  cases hnext : s.getNextTimeoutEntry with
  | none => exact Or.inl ⟨Engine.getNextTimeoutEntry_eq_none.mp hnext, rfl⟩
  | some m =>
    have hmem := Engine.getNextTimeoutEntry_mem hnext
    have hcount : s.msgCount ≠ 0 := by
      have hlength : s.queue.length ≤ s.msgCount := h.count
      have hpos := List.length_pos_of_mem hmem
      omega
    have hgreater : Msec.infinite.greater m.sendTime.val = true := by
      rw [Msec.greater, m.sendTime.property.isInfinite, Msec.isInfinite_infinite]
      rfl
    exact Or.inr ⟨m, hmem, Engine.getNextTimeoutEntry_le hnext, if_pos ⟨hcount, hgreater⟩⟩

/-- Who sleeps for the advertised time misses no deadline, and wakes at most ten milliseconds after it. -/
theorem snmpGetNextTimeout_spec (hrid : RidRange rid) (h : Runs.exec (step env) (Engine.init rid) es = some s)
    (now : Instant) (hm : m ∈ s.queue) :
    ∃ m' ∈ s.queue, (m'.sendTime ≤ now ∧ snmpGetNextTimeout now.val s = 0 ∨
      now < m'.sendTime ∧ m'.sendTime.val.ms - now.val.ms < snmpGetNextTimeout now.val s * 10 ∧
        snmpGetNextTimeout now.val s * 10 ≤ m'.sendTime.val.ms - now.val.ms + 10) ∧
      ∀ x ∈ s.queue, m'.sendTime ≤ x.sendTime := by
  obtain ⟨hf, -, -⟩ := reached (P := fun _ => True) (fun _ _ _ _ _ => trivial) hrid trivial h
  rcases nextTimeout_eq hf with ⟨hempty, -⟩ | ⟨m', hm', hfirst, hnext⟩
  · rw [hempty] at hm
    cases hm
  refine ⟨m', hm', ?_, hfirst⟩
  have hfinite : m'.sendTime.val.isInfinite = false := m'.sendTime.property.isInfinite
  rw [snmpGetNextTimeout, hnext, if_neg (by simp [hfinite])]
  rcases lt_or_ge now m'.sendTime with hlater | hdue
  · rw [if_pos (Instant.greater_iff.mpr hlater)]
    have hnow : 0 ≤ now.val.ms := by
      obtain ⟨hsec, husec, -⟩ := now.property
      unfold Msec.ms
      omega
    have hms := (m'.sendTime.property.sub hnow (Instant.lt_iff.mp hlater).le).2
    have hlt := Instant.lt_iff.mp hlater
    rw [hms]
    refine Or.inr ⟨hlater, ?_, ?_⟩
    · push_cast
      omega
    · push_cast
      omega
  · rw [if_neg (by rw [Instant.greater_iff]; exact not_lt.mpr hdue)]
    exact Or.inl ⟨hdue, rfl⟩

theorem snmpGetNextTimeout_spec_sample :
    ∃ s, Runs.exec (step Env.sample) (Engine.init 1000) twoRequests = some s ∧
      s.queue.map (·.sendTime.val.ms) = [5000, 6000] ∧ ∃ m' ∈ s.queue, (m'.sendTime ≤ Env.sample.clock 1 ∧ snmpGetNextTimeout (Env.sample.clock 1).val s = 0 ∨
        Env.sample.clock 1 < m'.sendTime ∧
          m'.sendTime.val.ms - (Env.sample.clock 1).val.ms < snmpGetNextTimeout (Env.sample.clock 1).val s * 10 ∧
          snmpGetNextTimeout (Env.sample.clock 1).val s * 10 ≤
            m'.sendTime.val.ms - (Env.sample.clock 1).val.ms + 10) ∧
        ∀ x ∈ s.queue, m'.sendTime ≤ x.sendTime := by
  obtain ⟨s, h, hqueue⟩ := (Option.any_eq_true _ _).mp (by decide +kernel :
    (Runs.exec (step Env.sample) (Engine.init 1000) twoRequests).any
      (fun s => s.queue.map (·.sendTime.val.ms) = [5000, 6000]) = true)
  have hqueue : s.queue.map (·.sendTime.val.ms) = [5000, 6000] := of_decide_eq_true hqueue
  have hsome : 0 < s.queue.length := by
    rw [← List.length_map, hqueue]
    exact Nat.two_pos
  obtain ⟨m, hm⟩ := List.exists_mem_of_length_pos hsome
  exact ⟨s, h, hqueue, snmpGetNextTimeout_spec ⟨by decide, by decide⟩ h (Env.sample.clock 1) hm⟩

/-- Seconds and microseconds are compared as the time they make together. -/
theorem selectTimeout_eq {maxBlockMilliseconds : ℤ} {maxfds : ℕ} {now : Msec} (hfds : maxfds ≠ 0)
    (husec : 0 ≤ (now.getDelta s.nextTimeout).tvUsec ∧ (now.getDelta s.nextTimeout).tvUsec < 1000000) :
    (selectTimeout maxBlockMilliseconds maxfds now s).micros =
      if maxBlockMilliseconds > 0 then min (now.getDelta s.nextTimeout).micros (maxBlockMilliseconds * 1000)
      else (now.getDelta s.nextTimeout).micros := by
  unfold selectTimeout
  dsimp only
  rw [if_neg (by omega : ¬ (maxfds = 0 ∧ _))]
  by_cases hblock : maxBlockMilliseconds > 0
  · have hsplit : maxBlockMilliseconds.tdiv 1000 * 1000000 + maxBlockMilliseconds.tmod 1000 * 1000 =
        maxBlockMilliseconds * 1000 := by
      rw [Int.tdiv_eq_ediv_of_nonneg hblock.le, Int.tmod_eq_emod_of_nonneg hblock.le]
      omega
    have hrest : 0 ≤ maxBlockMilliseconds.tmod 1000 * 1000 ∧ maxBlockMilliseconds.tmod 1000 * 1000 < 1000000 := by
      rw [Int.tmod_eq_emod_of_nonneg hblock.le]
      omega
    rw [if_pos hblock]
    simp only [hblock, true_and]
    split
    · simp only [Timeval.micros]
      omega
    · simp only [Timeval.micros]
      omega
  · simp only [hblock, false_and, if_false]

/-- The loop sleeps until the first message is due, or as long as the caller allows if that is less. -/
theorem selectTimeout_spec (hrid : RidRange rid) (h : Runs.exec (step env) (Engine.init rid) es = some s)
    (now : Instant) (hm : m ∈ s.queue) {maxBlockMilliseconds : ℤ} {maxfds : ℕ} (hfds : maxfds ≠ 0) :
    ∃ m' ∈ s.queue, (∀ x ∈ s.queue, m'.sendTime ≤ x.sendTime) ∧
      (selectTimeout maxBlockMilliseconds maxfds now.val s).micros =
        let due := max 0 (m'.sendTime.val.ms - now.val.ms) * 1000
        if maxBlockMilliseconds > 0 then min due (maxBlockMilliseconds * 1000) else due := by
  obtain ⟨hf, -, -⟩ := reached (P := fun _ => True) (fun _ _ _ _ _ => trivial) hrid trivial h
  rcases nextTimeout_eq hf with ⟨hempty, -⟩ | ⟨m', hm', hfirst, hnext⟩
  · rw [hempty] at hm
    cases hm
  obtain ⟨hmicros, husec⟩ := now.property.getDelta m'.sendTime.property
  refine ⟨m', hm', hfirst, ?_⟩
  rw [selectTimeout_eq hfds (hnext ▸ husec), hnext]
  dsimp only
  rw [Timeval.micros, hmicros]

theorem selectTimeout_spec_sample :
    ∃ s, Runs.exec (step Env.sample) (Engine.init 1000) twoRequests = some s ∧
      s.queue.map (·.sendTime.val.ms) = [5000, 6000] ∧ ∃ m' ∈ s.queue, (∀ x ∈ s.queue, m'.sendTime ≤ x.sendTime) ∧
        (selectTimeout 250 4 (Env.sample.clock 1).val s).micros =
          let due := max 0 (m'.sendTime.val.ms - (Env.sample.clock 1).val.ms) * 1000
          if (250 : ℤ) > 0 then min due (250 * 1000) else due := by
  obtain ⟨s, h, hqueue⟩ := (Option.any_eq_true _ _).mp (by decide +kernel :
    (Runs.exec (step Env.sample) (Engine.init 1000) twoRequests).any
      (fun s => s.queue.map (·.sendTime.val.ms) = [5000, 6000]) = true)
  have hqueue : s.queue.map (·.sendTime.val.ms) = [5000, 6000] := of_decide_eq_true hqueue
  have hsome : 0 < s.queue.length := by
    rw [← List.length_map, hqueue]
    exact Nat.two_pos
  obtain ⟨m, hm⟩ := List.exists_mem_of_length_pos hsome
  exact ⟨s, h, hqueue, selectTimeout_spec ⟨by decide, by decide⟩ h (Env.sample.clock 1) hm (by decide)⟩

end SnmpB.Transport
