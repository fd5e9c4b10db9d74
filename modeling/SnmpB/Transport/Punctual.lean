import SnmpB.Transport.Returning

/-! # No message is overlooked

With timeouts that are not zero and callbacks that return, a round of retries ends and leaves
no message that was due. The callbacks may make new requests meanwhile; those are due later.
-/
namespace SnmpB.Transport
open Agent Discovery Relation

variable {env : Env} {now : Instant} {s s' : Engine} {status : ℤ}

/-- Every request of the program has a timeout. -/
def Program.Timed : Program → Prop
  | .ret => True
  | .ask _ r _ k => 0 < r.target.timeout ∧ ∀ log, (k log).Timed
  | .response r _ k => 0 < r.target.timeout ∧ ∀ log, (k log).Timed
  | .cancel _ k => ∀ log, (k log).Timed

def Env.Timed (env : Env) : Prop := ∀ log c reason pdu, (env.react log c reason pdu).Timed

/-- The message has a timeout, and so has the request that a report would repeat. -/
def CSNMPMessage.Timed (m : CSNMPMessage) : Prop :=
  0 < m.target.timeout ∧ ∀ data, m.callBack = some (.v3CallBack data) → 0 < data.request.target.timeout

def CSNMPMessage.due (now : Instant) (m : CSNMPMessage) : Bool := decide (m.sendTime ≤ now)

def Engine.dues (now : Instant) (s : Engine) : ℕ := s.queue.countP (CSNMPMessage.due now)

/-- From the one state to the other no message has become due, and all have timeouts. -/
structure Punctual (now : Instant) (s s' : Engine) : Prop where
  log : s.log.length ≤ s'.log.length
  rid : RidRange s.currentRid → RidRange s'.currentRid
  dues : s'.dues now ≤ s.dues now
  timed : (∀ m ∈ s.queue, m.Timed) → ∀ m ∈ s'.queue, m.Timed

theorem Punctual.refl (now : Instant) (s : Engine) : Punctual now s s := ⟨le_rfl, id, le_rfl, id⟩

theorem Punctual.trans {t : Engine} (h : Punctual now s t) (h' : Punctual now t s') : Punctual now s s' :=
  ⟨h.log.trans h'.log, h'.rid ∘ h.rid, h'.dues.trans h.dues, h'.timed ∘ h.timed⟩

theorem Punctual.write (outs : List Output) {rid : ℕ} (hrid : RidRange s.currentRid → RidRange rid) :
    Punctual now s { s with currentRid := rid, log := s.log ++ outs } :=
  ⟨by simp, hrid, le_rfl, id⟩

theorem Request.prepared_timeout (r : Request) : r.prepared.target.timeout = r.target.timeout := by
  unfold Request.prepared SnmpTarget.withPort
  dsimp only
  split <;> rfl

theorem newMessage_timed {s : Engine} {r : Request} {rid : ℕ} {fd : Option ℕ} {raw : List ℕ} {cb : Option ℕ}
    {reports : ℕ} (h : 0 < r.target.timeout) : (newMessage env s rid r fd raw (r.callBack cb reports)).Timed := by
  refine ⟨h, fun data hdata => ?_⟩
  simp only [newMessage, Request.callBack, Option.map_eq_some_iff] at hdata
  obtain ⟨c, -, hc⟩ := hdata
  split at hc
  · cases hc
    exact h
  · cases hc

theorem snmpEngine_punctual {r : Request} {cb fd : Option ℕ} {reports : ℕ}
    (h : snmpEngine env r cb fd reports s = some (status, s')) (hrid : RidRange s.currentRid)
    (htimeout : 0 < r.target.timeout) (hnow : now ≤ env.clock s.log.length) : Punctual now s s' := by
  rcases snmpEngine_cases h hrid with ⟨-, rfl⟩ | ⟨-, rid, hrange, hcases⟩ | ⟨-, raw, ok, rfl⟩
  · exact Punctual.refl now _
  · rcases hcases with ⟨-, rfl⟩ | ⟨m, raw, hnew, hm, hend⟩
    · exact ⟨le_rfl, fun _ => hrange, le_rfl, id⟩
    · have htimed : m.Timed := by
        rw [hnew]
        exact newMessage_timed (r.prepared_timeout ▸ htimeout)
      have hlater : now < m.sendTime := by
        rw [hm.sendTime]
        exact hnow.trans_lt (Instant.lt_later _ htimed.1)
      rcases hend with ⟨-, rfl⟩ | ⟨-, rfl⟩
      · refine ⟨?_, fun _ => hrange, ?_, fun hold => List.forall_mem_cons.mpr ⟨htimed, hold⟩⟩
        · simp [Engine.issued, Engine.addEntry, Engine.logged]
        · simp [Engine.dues, Engine.issued, Engine.addEntry, Engine.logged, CSNMPMessage.due, hlater]
      · simpa [Engine.bounced, Engine.logged] using
          Punctual.write (s := s) [.queued m, .sent (some m) m.rawPdu false] fun _ => hrange
  · exact Punctual.write [_] id

theorem Engine.dues_split (now : Instant) {l₁ l₂ : List CSNMPMessage} {m : CSNMPMessage} (hqueue : s.queue = l₁ ++ m :: l₂) :
    s.dues now = (l₁ ++ l₂).countP (CSNMPMessage.due now) + if m.due now then 1 else 0 := by
  rw [Engine.dues, hqueue, List.countP_append, List.countP_cons, List.countP_append, Nat.add_assoc]

theorem Snmp.cancel_punctual {uniqueId : ℕ} (h : Snmp.cancel uniqueId s = some (status, s')) :
    Punctual now s s' := by
  obtain ⟨⟨result, t⟩, hdelete, h⟩ := Option.bind_eq_some_iff.mp h
  obtain ⟨rfl, rfl⟩ := Prod.mk.inj (Option.some.inj h)
  rcases Engine.deleteEntry_cases hdelete with ⟨hnone, rfl⟩ | ⟨l₁, m, l₂, hentry, hqueue, hlocked, rfl⟩
  · rw [hnone]
    exact Punctual.refl now _
  · have hdues := Engine.dues_split now hqueue
    have hsub : ∀ x ∈ l₁ ++ l₂, x ∈ s.queue := by
      intro x hx
      rw [hqueue]
      simp only [List.mem_append, List.mem_cons] at hx ⊢
      tauto
    rw [hentry]
    cases hcallback : m.callBack with
    | none =>
      simp only [Option.bind_some, hcallback, Option.elim_none]
      exact ⟨le_rfl, id, hdues ▸ Nat.le_add_right _ _, fun hold x hx => hold x (hsub x hx)⟩
    | some cb =>
      simp only [Option.bind_some, hcallback, Option.elim_some]
      refine ⟨?_, id, hdues ▸ Nat.le_add_right _ _, fun hold x hx => hold x (hsub x hx)⟩
      simp [Engine.logged]

/-! ## Callbacks are punctual -/

section Callbacks
variable (hclock : Monotone env.clock)
include hclock

theorem Program.run_punctual (p : Program) (hp : p.Timed) (hrid : RidRange s.currentRid)
    (hnow : now ≤ env.clock s.log.length) (h : p.run env s = some s') : Punctual now s s' := by
  induction p generalizing s with
  | ret =>
    cases h
    exact Punctual.refl now _
  | ask call r cbd k ih =>
    obtain ⟨⟨status, t⟩, hask, h⟩ := Option.bind_eq_some_iff.mp h
    have hstep : Punctual now s t := by
      obtain ⟨⟨result, t⟩, hcall, hask⟩ := Option.bind_eq_some_iff.mp hask
      obtain ⟨rfl, rfl⟩ := Prod.mk.inj (Option.some.inj hask)
      have hasked : Punctual now s (s.logged (.asked cbd r)) := Punctual.write [_] id
      have hcalled : Punctual now (s.logged (.asked cbd r)) t := by
        rcases call_cases hcall with ⟨-, rfl⟩ | ⟨r', hengine, -, htarget, -⟩
        · exact Punctual.refl now _
        · exact snmpEngine_punctual hengine hrid (htarget ▸ hp.1) (hnow.trans (hclock hasked.log))
      split
      · exact (hasked.trans hcalled).trans (Punctual.write [_] id)
      · exact hasked.trans hcalled
    exact hstep.trans (ih t.log (hp.2 t.log) (hstep.rid hrid) (hnow.trans (hclock hstep.log)) h)
  | response r fd k ih =>
    obtain ⟨⟨status, t⟩, hresponse, h⟩ := Option.bind_eq_some_iff.mp h
    have hstep : Punctual now s t := snmpEngine_punctual hresponse hrid hp.1 hnow
    exact hstep.trans (ih t.log (hp.2 t.log) (hstep.rid hrid) (hnow.trans (hclock hstep.log)) h)
  | cancel uniqueId k ih =>
    obtain ⟨⟨status, t⟩, hcancel, h⟩ := Option.bind_eq_some_iff.mp h
    have hstep : Punctual now s t := Snmp.cancel_punctual hcancel
    exact hstep.trans (ih t.log (hp t.log) (hstep.rid hrid) (hnow.trans (hclock hstep.log)) h)

theorem userCallBack_punctual {c : ℕ} {reason : ℤ} {pdu : QueuePdu} (henv : env.Timed) (hrid : RidRange s.currentRid)
    (hnow : now ≤ env.clock s.log.length) (h : userCallBack env c reason pdu s = some s') : Punctual now s s' := by
  have hcalled : Punctual now s (s.logged (.called c reason pdu)) := Punctual.write [_] id
  exact hcalled.trans (Program.run_punctual hclock _ (henv _ _ _ _) hrid (hnow.trans (hclock hcalled.log)) h)

theorem Callback.run_punctual {cb : Callback} {reason : ℤ} {pdu : QueuePdu} (henv : env.Timed)
    (hcb : ∀ data, cb = .v3CallBack data → 0 < data.request.target.timeout) (hrid : RidRange s.currentRid)
    (hnow : now ≤ env.clock s.log.length) (h : cb.run env reason pdu s = some s') : Punctual now s s' := by
  cases cb with
  | user c => exact userCallBack_punctual hclock henv hrid hnow h
  | v3CallBack data =>
    rw [Callback.run, Snmp.v3CallBack] at h
    split at h
    · obtain ⟨⟨rc, t⟩, hengine, h⟩ := Option.bind_eq_some_iff.mp h
      have hstep := snmpEngine_punctual hengine hrid (hcb data rfl) hnow
      dsimp only at h
      split at h
      · exact hstep.trans
          (userCallBack_punctual hclock henv (hstep.rid hrid) (hnow.trans (hclock hstep.log)) h)
      · cases h
        exact hstep
    · exact userCallBack_punctual hclock henv hrid hnow h

end Callbacks

/-! ## The round of retries -/

/-- The callback of a message that is given up returns if it spares the message. -/
theorem Due.call_returns {n : ℕ} {l₁ l₂ : List CSNMPMessage} {m : CSNMPMessage} (h : Due env now s l₁ m l₂)
    (hr : Frame.Recorded env ⟨[], none, s⟩) (henv : env.Sparing n) (hwaiting : m.received = false)
    (hroom : s.queue.length + n ≤ ridCount) (cb : Callback) :
    ∃ s', cb.run env classTimedOut m.pdu
        { s with queue := l₁ ++ m.calling :: l₂, log := s.log ++ [.timedOut m.serial now] } = some s' ∧
      Grown n { s with queue := l₁ ++ m.calling :: l₂, log := s.log ++ [.timedOut m.serial now] } s' := by
  have hstart : Frame.Numbered
      ⟨[], some m.serial, { s with queue := l₁ ++ m.calling :: l₂, log := s.log ++ [.timedOut m.serial now] }⟩ :=
    h.numbered.replace [] [.timedOut m.serial now] h.queue (x := m.calling) rfl rfl (fun _ => rfl) (Or.inl rfl)
  obtain ⟨m₀, hm₀⟩ := hr.queue m (by simp [h.queue])
  have hpdu := (hm₀.waiting hwaiting).1
  have hid : m.pdu.requestId = m.uniqueId := by rw [hpdu, hm₀.requestId, hm₀.uniqueId]
  have hunlocked : ∀ x ∈ s.queue, ¬ x.locked = true := by
    intro x hx hlocked
    cases h.numbered.locked x hx hlocked
  refine Callback.run_returns cb henv (hpdu ▸ hm₀.tracked) hstart (fun x hx hlocked => ?_) ?_
  · rw [List.mem_append, List.mem_cons] at hx
    rcases hx with hx | rfl | hx
    · exact (hunlocked x (by simp [h.queue, hx]) hlocked).elim
    · exact hid.symm
    · exact (hunlocked x (by simp [h.queue, hx]) hlocked).elim
  · simpa [h.queue] using hroom

/-- Room for what the callbacks of the due messages may ask, each so many times. -/
def Engine.Roomy (n : ℕ) (now : Instant) (s : Engine) : Prop := s.queue.length + n * s.dues now ≤ ridCount

/-- A queue with fewer due messages, and with room for the callbacks of those. -/
structure Lighter (asks : ℕ) (now : Instant) (s : Engine) (queue : List CSNMPMessage) : Prop where
  timed : ∀ m ∈ queue, m.Timed
  room : queue.length + asks * queue.countP (CSNMPMessage.due now) ≤ s.queue.length + asks * s.dues now
  fewer : queue.countP (CSNMPMessage.due now) < s.dues now

namespace Due
variable {asks : ℕ} {l₁ l₂ : List CSNMPMessage} {m : CSNMPMessage}

theorem dues (h : Due env now s l₁ m l₂) : s.dues now = (l₁ ++ l₂).countP (CSNMPMessage.due now) + 1 := by
  have hone : m.due now = true := decide_eq_true h.due
  rw [Engine.dues_split now h.queue, if_pos hone]

theorem others_timed (h : Due env now s l₁ m l₂) (htimed : ∀ x ∈ s.queue, x.Timed) : ∀ x ∈ l₁ ++ l₂, x.Timed := by
  intro x hx
  apply htimed x
  rw [h.queue]
  simp only [List.mem_append, List.mem_cons] at hx ⊢
  tauto

theorem lighter (h : Due env now s l₁ m l₂) {queue : List CSNMPMessage} (htimed : ∀ x ∈ queue, x.Timed)
    (hlength : queue.length ≤ s.queue.length)
    (hdues : queue.countP (CSNMPMessage.due now) ≤ (l₁ ++ l₂).countP (CSNMPMessage.due now)) :
    Lighter asks now s queue := by
  have hfewer : queue.countP (CSNMPMessage.due now) < s.dues now := by
    rw [h.dues]
    exact Nat.lt_succ_of_le hdues
  exact ⟨htimed, Nat.add_le_add hlength (Nat.mul_le_mul_left asks hfewer.le), hfewer⟩

theorem lighter_gone (h : Due env now s l₁ m l₂) (htimed : ∀ x ∈ s.queue, x.Timed) :
    Lighter asks now s (l₁ ++ l₂) := by
  refine h.lighter (h.others_timed htimed) ?_ le_rfl
  rw [h.queue]
  simp

/-- A message that is put back is due later. -/
theorem lighter_back (h : Due env now s l₁ m l₂) (htimed : ∀ x ∈ s.queue, x.Timed) {y : CSNMPMessage} (hy : y.Timed)
    (hlater : now < y.sendTime) : Lighter asks now s (l₁ ++ y :: l₂) := by
  have hnot : ¬ y.due now = true := by
    rw [CSNMPMessage.due, decide_eq_true_iff, not_le]
    exact hlater
  refine h.lighter (fun x hx => ?_) ?_ ?_
  · rw [List.mem_append, List.mem_cons] at hx
    rcases hx with hx | rfl | hx
    · exact h.others_timed htimed x (List.mem_append_left _ hx)
    · exact hy
    · exact h.others_timed htimed x (List.mem_append_right _ hx)
  · rw [h.queue]
    simp
  · rw [List.countP_append, List.countP_append, List.countP_cons_of_neg hnot]

/-- The message that goes makes room for one, and what its callback asked for is room that was kept. -/
theorem lighter_called {k₁ k₂ : List CSNMPMessage} {cb : Callback} (h : Due env now s l₁ m l₂)
    (hclock : Monotone env.clock) (henv : env.Timed) (hsparing : env.Sparing asks)
    (hr : Frame.Recorded env ⟨[], none, s⟩) (htimed : ∀ x ∈ s.queue, x.Timed) (hroom : s.Roomy asks now)
    (hnow : now ≤ env.clock s.log.length) (hreceived : m.received = false) (hcallback : m.callBack = some cb)
    (hrun : cb.run env classTimedOut m.pdu
      { s with queue := l₁ ++ m.calling :: l₂, log := s.log ++ [.timedOut m.serial now] } = some s')
    (hk : s'.queue = k₁ ++ m.calling :: k₂) : Lighter asks now s (k₁ ++ k₂) := by
  have hm : m.Timed := htimed m (by simp [h.queue])
  have hstart : now ≤ env.clock (s.log ++ [Output.timedOut m.serial now]).length :=
    hnow.trans (hclock (by simp))
  have hcb : ∀ data, cb = .v3CallBack data → 0 < data.request.target.timeout := by
    rintro data rfl
    exact hm.2 data hcallback
  have hpunctual := Callback.run_punctual hclock henv hcb (by exact h.numbered.rid) hstart hrun
  have hcalling : m.calling.Timed := ⟨hm.1, fun data hdata => by cases hdata⟩
  have htimed' : ∀ x ∈ s'.queue, x.Timed := hpunctual.timed fun x hx => by
    simp only [List.mem_append, List.mem_cons] at hx
    rcases hx with hx | rfl | hx
    · exact h.others_timed htimed x (List.mem_append_left _ hx)
    · exact hcalling
    · exact h.others_timed htimed x (List.mem_append_right _ hx)
  -- the message is due while it is called for
  have hstill : m.calling.due now = true := decide_eq_true h.due
  have hfewer : (k₁ ++ k₂).countP (CSNMPMessage.due now) < s.dues now := by
    have hdues := hpunctual.dues
    rw [Engine.dues_split now hk, Engine.dues_split now rfl, if_pos hstill, ← h.dues] at hdues
    exact hdues
  have hkept : asks * (k₁ ++ k₂).countP (CSNMPMessage.due now) + asks ≤ asks * s.dues now :=
    Nat.mul_le_mul_left asks hfewer
  have hspace : s.queue.length + asks ≤ ridCount :=
    (Nat.add_le_add_left ((Nat.le_add_left asks _).trans hkept) _).trans hroom
  obtain ⟨t, hreturns, hgrown⟩ := h.call_returns hr hsparing hreceived hspace cb
  obtain rfl : s' = t := Option.some.inj (hrun.symm.trans hreturns)
  have hlength : s'.queue.length ≤ (l₁ ++ m.calling :: l₂).length + asks := hgrown.length
  refine ⟨fun x hx => htimed' x ?_, ?_, hfewer⟩
  · rw [hk]
    simp only [List.mem_append, List.mem_cons] at hx ⊢
    tauto
  · rw [hk] at hlength
    rw [h.queue]
    simp only [List.length_append, List.length_cons] at hlength ⊢
    omega

end Due

/-- A turn that goes on has one message less to do. -/
theorem retryTurn_lighter {n asks : ℕ} {x : Engine × ℤ} (hclock : Monotone env.clock) (henv : env.Timed)
    (hsparing : env.Sparing asks) (hf : Frame.Numbered ⟨[], none, s⟩) (hr : Frame.Recorded env ⟨[], none, s⟩)
    (htimed : ∀ m ∈ s.queue, m.Timed) (hroom : s.Roomy asks (env.clock n)) (hn : n ≤ s.log.length)
    (h : retryTurn env (env.clock n) (s, status) = .inl x) : Lighter asks (env.clock n) s x.1.queue := by
  have hnow : env.clock n ≤ env.clock s.log.length := hclock hn
  rcases retryTurn_cases env (env.clock n) status hf with ⟨hturn, -⟩ | ⟨l₁, m, l₂, hdue⟩
  · rw [hturn] at h
    cases h
  have hm : m.Timed := htimed m (by simp [hdue.queue])
  have hagain : env.clock n < env.again s m := hnow.trans_lt (Instant.lt_later _ hm.1)
  cases hreceived : m.received with
  | true =>
    rw [hdue.turn_received hreceived] at h
    cases h
    exact hdue.lighter_back htimed (y := { m with sendTime := env.again s m }) hm hagain
  | false =>
    rcases lt_or_ge 0 m.target.retry with hretry | hretry
    · rw [hdue.turn_resent hreceived hretry] at h
      dsimp only at h
      split at h
      · cases h
        exact hdue.lighter_back htimed (y := m.resent (env.again s m)) hm hagain
      · cases h
    · cases hcallback : m.callBack with
      | none =>
        rw [hdue.turn_blocking hreceived hretry hcallback] at h
        cases h
        exact hdue.lighter_gone htimed
      | some cb =>
        rcases hdue.turn_called status hreceived hretry hcallback with
          ⟨-, hturn⟩ | ⟨s', k₁, k₂, hrun, hk, -, hturn⟩
        · rw [hturn] at h
          cases h
        · rw [hturn] at h
          cases h
          exact hdue.lighter_called hclock henv hsparing hr htimed hroom hnow hreceived hcallback hrun hk

/-- The loop leaves when nothing is due, or when a message could not be sent. -/
theorem retryTurn_leaves {n asks : ℕ} {r : Option (Engine × ℤ)} (hsparing : env.Sparing asks)
    (hf : Frame.Numbered ⟨[], none, s⟩) (hr : Frame.Recorded env ⟨[], none, s⟩) (hroom : s.Roomy asks (env.clock n))
    (h : retryTurn env (env.clock n) (s, status) = .inr r) :
    ∃ x, r = some x ∧ (x.2 = classTlFailed ∨ ∀ m ∈ x.1.queue, env.clock n < m.sendTime) := by
  rcases retryTurn_cases env (env.clock n) status hf with ⟨hturn, hlater⟩ | ⟨l₁, m, l₂, hdue⟩
  · rw [hturn] at h
    cases h
    exact ⟨_, rfl, Or.inr hlater⟩
  cases hreceived : m.received with
  | true =>
    rw [hdue.turn_received hreceived] at h
    cases h
  | false =>
    rcases lt_or_ge 0 m.target.retry with hretry | hretry
    · rw [hdue.turn_resent hreceived hretry] at h
      dsimp only at h
      split at h
      · cases h
      · cases h
        exact ⟨_, rfl, Or.inl rfl⟩
    · cases hcallback : m.callBack with
      | none =>
        rw [hdue.turn_blocking hreceived hretry hcallback] at h
        cases h
      | some cb =>
        rcases hdue.turn_called status hreceived hretry hcallback with
          ⟨hrun, -⟩ | ⟨s', k₁, k₂, -, -, -, hturn⟩
        · have hkept : asks ≤ asks * s.dues (env.clock n) := by
            rw [hdue.dues]
            exact Nat.le_mul_of_pos_right asks (Nat.succ_pos _)
          obtain ⟨t, hreturns, -⟩ := hdue.call_returns hr hsparing hreceived
            ((Nat.add_le_add_left hkept _).trans hroom) cb
          rw [hrun] at hreturns
          cases hreturns
        · rw [hturn] at h
          cases h

/-- `DoRetries` ends after as many turns as messages are due, and returns. A callback may ask so many
times, but not cancel what it is called for. -/
theorem doRetries_ends (hclock : Monotone env.clock) (henv : env.Timed) {asks : ℕ} (hsparing : env.Sparing asks)
    {rid : ℕ} (hrid : RidRange rid) {es : List Event} (h : Runs.exec (step env) (Engine.init rid) es = some s)
    (htimed : ∀ m ∈ s.queue, m.Timed) (hroom : s.Roomy asks (env.clock s.log.length)) :
    ∃ s' status, doRetries env (s.dues (env.clock s.log.length) + 1) (env.clock s.log.length) s = some (s', status) ∧
      (status = classTlFailed ∨ ∀ m ∈ s'.queue, env.clock s.log.length < m.sendTime) := by
  obtain ⟨hf, hr, -⟩ := reached (P := fun _ => True) (fun _ _ _ _ _ => trivial) hrid trivial h
  suffices hrun : ∃ r, Loop.run (retryTurn env (env.clock s.log.length)) (s.dues (env.clock s.log.length) + 1)
      (s, classSuccess) = some r ∧ ∃ x, r = some x ∧
        (x.2 = classTlFailed ∨ ∀ m ∈ x.1.queue, env.clock s.log.length < m.sendTime) by
    obtain ⟨r, hrun, ⟨s', status⟩, rfl, hend⟩ := hrun
    exact ⟨s', status, by rw [doRetries, hrun, Option.join_some], hend⟩
  refine Loop.run_of_measure
    (P := fun x : Engine × ℤ => ReflTransGen (Move env) ⟨[], none, s⟩ ⟨[], none, x.1⟩ ∧
      (∀ m ∈ x.1.queue, m.Timed) ∧ x.1.Roomy asks (env.clock s.log.length))
    (Q := fun r : Option (Engine × ℤ) => ∃ x, r = some x ∧
      (x.2 = classTlFailed ∨ ∀ m ∈ x.1.queue, env.clock s.log.length < m.sendTime))
    (fun x : Engine × ℤ => x.1.dues (env.clock s.log.length)) ?_ ?_ ⟨ReflTransGen.refl, htimed, hroom⟩
    (Nat.lt_succ_self _)
  · rintro ⟨t, status⟩ x ⟨hmoves, htimed, hroom⟩ hturn
    have hnumbered := numbered_of_moves hmoves hf
    have hlog : s.log.length ≤ t.log.length := (log_prefix_of_moves hmoves).length_le
    have hlighter :=
      retryTurn_lighter hclock henv hsparing hnumbered (recorded_of_moves hmoves hr) htimed hroom hlog hturn
    exact ⟨⟨hmoves.trans (retryTurn_moves hnumbered hlog x (Or.inl hturn)), hlighter.timed,
      hlighter.room.trans hroom⟩, hlighter.fewer⟩
  · rintro ⟨t, status⟩ r ⟨hmoves, -, hroom⟩ hturn
    exact retryTurn_leaves hsparing (numbered_of_moves hmoves hf) (recorded_of_moves hmoves hr) hroom hturn

theorem Env.sample_timed : Env.sample.Timed := by
  intro log c reason pdu
  simp only [Env.sample]
  split
  · exact ⟨by decide, fun _ => trivial⟩
  · trivial

theorem Env.sample_sparing : Env.sample.Sparing 1 where
  spares log c reason pdu := by
    simp only [Env.sample]
    split
    · exact fun _ => trivial
    · trivial
  asks log c reason pdu := by
    simp only [Env.sample]
    split
    · exact ⟨Nat.one_pos, fun _ => trivial⟩
    · trivial

/-- In the second round the callback 7 is called, and asks. -/
theorem doRetries_ends_sample :
    ∃ s, Runs.exec (step Env.sample) (Engine.init 1000) [.ask .get (sampleRequest .version2c) 7, .pending 2] = some s ∧
    s.dues (Env.sample.clock s.log.length) = 1 ∧
    ∃ s' status, doRetries Env.sample (s.dues (Env.sample.clock s.log.length) + 1) (Env.sample.clock s.log.length) s =
        some (s', status) ∧
      (status = classTlFailed ∨ ∀ m ∈ s'.queue, Env.sample.clock s.log.length < m.sendTime) := by
  obtain ⟨s, h, hstate⟩ := (Option.any_eq_true _ _).mp (by decide +kernel :
    (Runs.exec (step Env.sample) (Engine.init 1000) [.ask .get (sampleRequest .version2c) 7, .pending 2]).any (fun s =>
      decide (∀ m ∈ s.queue, 0 < m.target.timeout ∧ m.callBack = some (.user 7)) &&
        decide (s.queue.length = 1 ∧ s.dues (Env.sample.clock s.log.length) = 1)) = true)
  rw [Bool.and_eq_true, decide_eq_true_iff, decide_eq_true_iff] at hstate
  obtain ⟨hqueue, hlength, hdues⟩ := hstate
  have htimed : ∀ m ∈ s.queue, m.Timed := by
    refine fun m hm => ⟨(hqueue m hm).1, fun data hdata => ?_⟩
    rw [(hqueue m hm).2] at hdata
    cases hdata
  refine ⟨s, h, hdues, doRetries_ends Env.sample_monotone Env.sample_timed Env.sample_sparing ⟨by decide, by decide⟩ h
    htimed ?_⟩
  rw [Engine.Roomy, hlength, hdues]
  decide

end SnmpB.Transport
