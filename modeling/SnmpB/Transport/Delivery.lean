import SnmpB.Transport.Records

/-! # Every request is answered once

Over any run, a request that was made with a callback has been refused, called back,
cancelled, or is still waiting, and one of these only.
-/
namespace SnmpB.Transport
open Agent Discovery Relation

variable {env : Env}

/-! ## Runs -/

theorem step_moves {s s' : Engine} {e : Event} (hf : Frame.Numbered ⟨[], none, s⟩)
    (hr : Frame.Recorded env ⟨[], none, s⟩) (h : step env s e = some s') :
    ReflTransGen (Move env) ⟨[], none, s⟩ ⟨[], none, s'⟩ := by
  cases e with
  | ask c r cbd =>
    obtain ⟨⟨status, t⟩, hask, rfl⟩ := Option.map_eq_some_iff.mp h
    exact moves_of_inners (Snmp.ask_moves hask hf)
  | response r fd =>
    obtain ⟨⟨status, t⟩, hresponse, rfl⟩ := Option.map_eq_some_iff.mp h
    exact moves_of_inners (snmpEngine_blocking hresponse hf)
  | cancel uniqueId =>
    obtain ⟨⟨status, t⟩, hcancel, rfl⟩ := Option.map_eq_some_iff.mp h
    exact moves_of_inners (Snmp.cancel_moves hcancel)
  | blocking c r =>
    obtain ⟨⟨status, t⟩, hcall, rfl⟩ := Option.map_eq_some_iff.mp h
    rcases call_cases hcall with ⟨-, rfl⟩ | ⟨r', hengine, -⟩
    · exact ReflTransGen.refl
    · exact moves_of_inners (snmpEngine_blocking hengine hf)
  | block uniqueId =>
    rw [step] at h
    split at h
    · rename_i hdone
      obtain ⟨⟨status, t⟩, hblock, rfl⟩ := Option.map_eq_some_iff.mp h
      exact blockForResponse_moves hdone hr.answered hblock
    · cases h
  | datagram d => exact handleEvents_moves hf h
  | pending fuel =>
    rw [step, processPendingEvents] at h
    split at h
    · cases h
      exact ReflTransGen.refl
    · obtain ⟨x, hretries, rfl⟩ := Option.map_eq_some_iff.mp h
      exact doRetries_moves hf hretries
  | destroy socket => exact deleteSocketFrom_moves hf (List.Sublist.refl _) h

theorem numbered_init {rid : ℕ} (hrid : RidRange rid) : Frame.Numbered ⟨[], none, Engine.init rid⟩ :=
  ⟨List.nodup_nil, by simp [Engine.init], hrid, List.nodup_nil, by simp [Engine.init], le_rfl, by simp [Engine.init]⟩

theorem recorded_init (rid : ℕ) : Frame.Recorded env ⟨[], none, Engine.init rid⟩ :=
  ⟨by simp [Engine.init], by simp, by simp [Engine.init]⟩

/-- What the moves keep holds in every state that a session reaches. -/
theorem reached {P : Frame → Prop} (hmove : ∀ f g, f.Numbered → P f → Move env f g → P g) {rid : ℕ} {s : Engine}
    {es : List Event} (hrid : RidRange rid) (hP : P ⟨[], none, Engine.init rid⟩)
    (h : Runs.exec (step env) (Engine.init rid) es = some s) :
    Frame.Numbered ⟨[], none, s⟩ ∧ Frame.Recorded env ⟨[], none, s⟩ ∧ P ⟨[], none, s⟩ := by
  refine Runs.exec_invariant (P := fun s =>
    Frame.Numbered ⟨[], none, s⟩ ∧ Frame.Recorded env ⟨[], none, s⟩ ∧ P ⟨[], none, s⟩) ?_
    ⟨numbered_init hrid, recorded_init rid, hP⟩ h
  rintro s e s' ⟨hf, hr, hP⟩ hstep
  have hmoves := step_moves hf hr hstep
  refine ReflTransGen.head_induction_on (motive := fun f _ => f.Numbered → f.Recorded env → P f →
    Frame.Numbered ⟨[], none, s'⟩ ∧ Frame.Recorded env ⟨[], none, s'⟩ ∧ P ⟨[], none, s'⟩) hmoves
    (fun hf hr hP => ⟨hf, hr, hP⟩) ?_ hf hr hP
  intro f g hfg _ ih hf hr hP
  exact ih (hfg.numbered hf) (hfg.recorded hr) (hmove f g hf hP hfg)

/-! ## Counting the callbacks -/

namespace Output

def asks (c : ℕ) : Output → Bool
  | .asked cbd _ => cbd == c
  | _ => false

def refuses (c : ℕ) : Output → Bool
  | .refused cbd _ => cbd == c
  | _ => false

def calls (c : ℕ) : Output → Bool
  | .called cbd _ _ => cbd == c
  | _ => false

def cancels (c : ℕ) : Output → Bool
  | .cancelled cbd => cbd == c
  | _ => false

/-- A sending on behalf of the callback. -/
def sends (c : ℕ) : Output → Bool
  | .sent (some m) _ _ => m.owner == some c
  | _ => false

/-- What a request allows to be sent. -/
def budget (c : ℕ) : Output → ℕ
  | .asked cbd r => if cbd = c then r.attempts 0 * r.sends else 0
  | _ => 0

end Output

namespace Engine

/-- How often requests with the callback data were made, came back at once, were called back, were cancelled,
and how many are in the queue. -/
def asked (s : Engine) (c : ℕ) : ℕ := s.log.countP (Output.asks c)
def refused (s : Engine) (c : ℕ) : ℕ := s.log.countP (Output.refuses c)
def called (s : Engine) (c : ℕ) : ℕ := s.log.countP (Output.calls c)
def cancelled (s : Engine) (c : ℕ) : ℕ := s.log.countP (Output.cancels c)
def waiting (s : Engine) (c : ℕ) : ℕ := s.queue.countP fun m => m.owner == some c

def sent (s : Engine) (c : ℕ) : ℕ := s.log.countP (Output.sends c)
def budget (s : Engine) (c : ℕ) : ℕ := (s.log.map (Output.budget c)).sum

end Engine

def Frame.Balanced (c : ℕ) (f : Frame) : Prop :=
  f.engine.asked c = f.engine.refused c + f.engine.called c + f.engine.cancelled c + f.engine.waiting c +
    f.owed.countP fun w => w.cbd == c

/-- What has been sent and what may still be sent stays within what was allowed. -/
def Frame.Thrifty (c : ℕ) (f : Frame) : Prop :=
  f.engine.sent c + (f.engine.queue.map fun m => if m.owner = some c then m.left else 0).sum +
    (f.owed.map fun w => if w.cbd = c then w.allowance else 0).sum ≤ f.engine.budget c

theorem CSNMPMessage.calling_owner (m : CSNMPMessage) : m.calling.owner = none := rfl

theorem CSNMPMessage.owner_of_some {m : CSNMPMessage} {cb : Callback} (h : m.callBack = some cb) :
    m.owner = some cb.cbd := by
  rw [owner, h]
  rfl

theorem CSNMPMessage.owner_of_none {m : CSNMPMessage} (h : m.callBack = none) : m.owner = none := by
  rw [owner, h]
  rfl

section Counting
variable (c : ℕ)

attribute [local simp] Frame.Balanced Engine.asked Engine.refused Engine.called Engine.cancelled Engine.waiting
  Engine.logged Engine.issued Engine.bounced Engine.addEntry Output.asks Output.refuses Output.calls Output.cancels
  CSNMPMessage.calling_owner List.countP_append List.countP_cons

theorem Inner.balanced {f g : Frame} (h : Inner env f g) (hf : f.Balanced c) : g.Balanced c := by
  cases h with
  | asked cbd r =>
    simp at hf ⊢
    omega
  | refused w status =>
    simp at hf ⊢
    omega
  | rid rid hrange => exact hf
  | issue w m hm howner hleft =>
    simp [howner] at hf ⊢
    omega
  | issueBlocking m hm howner =>
    simp [CSNMPMessage.owner_of_none howner] at hf ⊢
    omega
  | bounce w m hm howner hleft =>
    simp at hf ⊢
    omega
  | bounceBlocking m hm howner =>
    simp at hf ⊢
    omega
  | untracked raw ok =>
    simp at hf ⊢
    omega
  | called w m reason hsource =>
    simp at hf ⊢
    omega
  | cancel l₁ l₂ m hqueue hunlocked =>
    cases howner : m.owner with
    | none =>
      simp [hqueue, howner] at hf ⊢
      omega
    | some cbd =>
      simp [hqueue, howner] at hf ⊢
      omega

theorem Move.balanced {f g : Frame} (h : Move env f g) (hf : f.Balanced c) : g.Balanced c := by
  cases h with
  | inner h => exact h.balanced c hf
  | receive p =>
    simp at hf ⊢
    omega
  | answer l₁ l₂ m m' cb reason p hqueue hcallback hreceived hid hset =>
    simp [hqueue, CSNMPMessage.owner_of_some hcallback] at hf ⊢
    omega
  | answerBlocking l₁ l₂ m m' reason p hqueue hcallback hreceived hid hset =>
    have hcb := (CSNMPMessage.setPdu_frame hset).2.2.2.1
    simp [hqueue, CSNMPMessage.owner_of_none hcallback, CSNMPMessage.owner_of_none (hcb.trans hcallback)] at hf ⊢
    omega
  | expire l₁ l₂ m cb n hqueue hcallback hwaiting hretry hn hdue =>
    simp [hqueue, CSNMPMessage.owner_of_some hcallback] at hf ⊢
    omega
  | expireBlocking l₁ l₂ m n hqueue hcallback hwaiting hretry hn hdue =>
    simp [hqueue, CSNMPMessage.owner_of_none hcallback] at hf ⊢
    omega
  | finish l₁ l₂ m hqueue hcallback hbusy =>
    simp [hqueue, CSNMPMessage.owner_of_none hcallback] at hf ⊢
    omega
  | postpone l₁ l₂ m hqueue hreceived sendTime =>
    simp [hqueue, CSNMPMessage.owner] at hf ⊢
    omega
  | resend l₁ l₂ m n ok hqueue hwaiting hretry hn hdue =>
    simp [hqueue, CSNMPMessage.owner] at hf ⊢
    omega
  | returned uniqueId status =>
    simp at hf ⊢
    omega
  | destroyed l₁ l₂ m hqueue hunlocked =>
    cases howner : m.owner with
    | none =>
      simp [hqueue, howner] at hf ⊢
      omega
    | some cbd =>
      simp [hqueue, howner] at hf ⊢
      omega

end Counting

section Spending
variable (c : ℕ)

attribute [local simp] Frame.Thrifty Engine.sent Engine.budget Engine.logged Engine.issued Engine.bounced
  Engine.addEntry Output.sends Output.budget CSNMPMessage.calling_owner List.countP_append List.countP_cons
  List.map_append List.sum_append

theorem Inner.thrifty {f g : Frame} (h : Inner env f g) (hf : f.Thrifty c) : g.Thrifty c := by
  cases h with
  | asked cbd r =>
    simp at hf ⊢
    omega
  | refused w status =>
    simp at hf ⊢
    omega
  | rid rid hrange => exact hf
  | issue w m hm howner hleft =>
    by_cases hc : w.cbd = c
    · simp [howner, hc] at hf ⊢
      omega
    · simp [howner, hc] at hf ⊢
      omega
  | issueBlocking m hm howner =>
    simp [CSNMPMessage.owner_of_none howner] at hf ⊢
    omega
  | bounce w m hm howner hleft =>
    by_cases hc : w.cbd = c
    · simp [howner, hc] at hf ⊢
      omega
    · simp [howner, hc] at hf ⊢
      omega
  | bounceBlocking m hm howner =>
    simp [CSNMPMessage.owner_of_none howner] at hf ⊢
    omega
  | untracked raw ok =>
    simp at hf ⊢
    omega
  | called w m reason hsource =>
    simp at hf ⊢
    omega
  | cancel l₁ l₂ m hqueue hunlocked =>
    cases howner : m.owner with
    | none =>
      simp [hqueue, howner] at hf ⊢
      omega
    | some cbd =>
      simp [hqueue, howner] at hf ⊢
      omega

/-- A callback takes no more out of its message than the message had left. -/
theorem CSNMPMessage.allowance_le {m : CSNMPMessage} {cb : Callback} (h : m.callBack = some cb) :
    cb.allowance ≤ m.left := by
  rw [CSNMPMessage.left, h]
  exact Nat.le_add_left _ _

theorem CSNMPMessage.left_resent {m : CSNMPMessage} (h : 0 < m.target.retry) (sendTime : Instant) :
    m.left = (m.resent sendTime).left + 1 := by
  unfold CSNMPMessage.left CSNMPMessage.resent
  dsimp only
  omega

theorem Move.thrifty {f g : Frame} (h : Move env f g) (hf : f.Thrifty c) : g.Thrifty c := by
  cases h with
  | inner h => exact h.thrifty c hf
  | receive p =>
    simp at hf ⊢
    omega
  | answer l₁ l₂ m m' cb reason p hqueue hcallback hreceived hid hset =>
    have hle := CSNMPMessage.allowance_le hcallback
    by_cases hc : cb.cbd = c
    · simp [hqueue, CSNMPMessage.owner_of_some hcallback, hc] at hf ⊢
      omega
    · simp [hqueue, CSNMPMessage.owner_of_some hcallback, hc] at hf ⊢
      omega
  | answerBlocking l₁ l₂ m m' reason p hqueue hcallback hreceived hid hset =>
    have hcb := (CSNMPMessage.setPdu_frame hset).2.2.2.1
    simp [hqueue, CSNMPMessage.owner_of_none hcallback, CSNMPMessage.owner_of_none (hcb.trans hcallback)] at hf ⊢
    omega
  | expire l₁ l₂ m cb n hqueue hcallback hwaiting hretry hn hdue =>
    have hle := CSNMPMessage.allowance_le hcallback
    by_cases hc : cb.cbd = c
    · simp [hqueue, CSNMPMessage.owner_of_some hcallback, hc] at hf ⊢
      omega
    · simp [hqueue, CSNMPMessage.owner_of_some hcallback, hc] at hf ⊢
      omega
  | expireBlocking l₁ l₂ m n hqueue hcallback hwaiting hretry hn hdue =>
    simp [hqueue, CSNMPMessage.owner_of_none hcallback] at hf ⊢
    omega
  | finish l₁ l₂ m hqueue hcallback hbusy =>
    simp [hqueue, CSNMPMessage.owner_of_none hcallback] at hf ⊢
    omega
  | postpone l₁ l₂ m hqueue hreceived sendTime =>
    simp [hqueue, CSNMPMessage.owner, CSNMPMessage.left] at hf ⊢
    omega
  | @resend o b s l₁ l₂ m n ok hqueue hwaiting hretry hn hdue =>
    have hleft := CSNMPMessage.left_resent hretry ((env.clock s.log.length).later m.target.timeout)
    have howner : (m.resent ((env.clock s.log.length).later m.target.timeout)).owner = m.owner := rfl
    have hlocked : CSNMPMessage.owner { m with locked := true } = m.owner := rfl
    change Frame.Thrifty c ⟨o, b, { s with
      queue := l₁ ++ m.resent ((env.clock s.log.length).later m.target.timeout) :: l₂
      log := s.log ++ [.sent (some { m with locked := true }) m.rawPdu ok] }⟩
    by_cases hc : m.owner = some c
    · simp [hqueue, howner, hlocked, hc] at hf ⊢
      omega
    · simp [hqueue, howner, hlocked, hc] at hf ⊢
      omega
  | returned uniqueId status =>
    simp at hf ⊢
    omega
  | destroyed l₁ l₂ m hqueue hunlocked =>
    cases howner : m.owner with
    | none =>
      simp [hqueue, howner] at hf ⊢
      omega
    | some cbd =>
      simp [hqueue, howner] at hf ⊢
      omega

end Spending

/-! ## A small session -/

def sampleRequest (version : SnmpVersion) : Request where
  pdu := ⟨⟨[⟨[1, 3, 6, 1, 2, 1, 1, 1, 0], .null⟩], 0, 0⟩, .other, true, 0, []⟩
  nonReps := 0
  maxReps := 0
  target :=
    { kind := .utarget, valid := true, version, address := ⟨.udp, true, .ipv4, 161⟩, readCommunity := []
      writeCommunity := [], securityName := [], securityModel := if version = .version3 then 3 else 2
      timeout := 100, retry := 1 }

/-- The callback 7 makes a request of its own. -/
def Env.sample : Env where
  clock n := ⟨⟨n, 0⟩, by constructor <;> simp⟩
  send _ := true
  snmpSession := some 5
  snmpSessionIpv6 := 6
  load _ _ _ _ := (classSuccess, [48, 0])
  react _ cbd _ _ := if cbd = 7 then .ask .get (sampleRequest .version2c) 8 fun _ => .ret else .ret

def samplePdu (requestId : ℕ) (type : PduType) (oid : Oid) : QueuePdu :=
  ⟨⟨⟨[⟨oid, .null⟩], 0, 0⟩, type, 0, []⟩, requestId⟩

theorem Env.sample_monotone : Monotone Env.sample.clock := by
  intro n k h
  rw [Instant.le_iff]
  simp only [Env.sample, Msec.ms]
  omega

/-- A report, the answer to the repeated request, and no answer to that of the callback. -/
def sampleEvents : List Event :=
  [.ask .get (sampleRequest .version3) 7,
    .datagram ⟨classSuccess, samplePdu 1001 .report oidUsmStatsUnknownEngineIDs⟩,
    .datagram ⟨classSuccess, samplePdu 1002 .response [1, 3]⟩, .pending 3, .pending 3]

/-! ## Sessions -/

variable {rid : ℕ} {s : Engine} {es : List Event}

/-- Whatever callbacks do, however datagrams and timeouts come in between, and whichever messages cannot be
sent, no request is lost and none is answered twice. -/
theorem answered_once (hrid : RidRange rid) (h : Runs.exec (step env) (Engine.init rid) es = some s) (c : ℕ) :
    s.asked c = s.refused c + s.called c + s.cancelled c + s.waiting c := by
  have hinit : Frame.Balanced c ⟨[], none, Engine.init rid⟩ := by
    simp [Frame.Balanced, Engine.init, Engine.asked, Engine.refused, Engine.called, Engine.cancelled, Engine.waiting]
  exact (reached (fun f g _ hf hmove => hmove.balanced c hf) hrid hinit h).2.2

theorem answered_once_sample : ∃ s, Runs.exec (step Env.sample) (Engine.init 1000) sampleEvents = some s ∧
    s.asked 8 = 1 ∧ s.asked 8 = s.refused 8 + s.called 8 + s.cancelled 8 + s.waiting 8 := by
  obtain ⟨s, h, hasked⟩ := (Option.any_eq_true _ _).mp (by decide +kernel :
    (Runs.exec (step Env.sample) (Engine.init 1000) sampleEvents).any (fun s => s.asked 8 = 1) = true)
  exact ⟨s, h, of_decide_eq_true hasked, answered_once ⟨by decide, by decide⟩ h 8⟩

/-- A request is sent once and then once for every retry, three times over for SNMPv3. -/
theorem sent_le_budget (hrid : RidRange rid) (h : Runs.exec (step env) (Engine.init rid) es = some s) (c : ℕ) :
    s.sent c + (s.queue.map fun m => if m.owner = some c then m.left else 0).sum ≤ s.budget c := by
  have hinit : Frame.Thrifty c ⟨[], none, Engine.init rid⟩ := by
    simp [Frame.Thrifty, Engine.init, Engine.sent, Engine.budget]
  exact (reached (fun f g _ hf hmove => hmove.thrifty c hf) hrid hinit h).2.2

theorem sent_le_budget_sample : ∃ s, Runs.exec (step Env.sample) (Engine.init 1000) sampleEvents = some s ∧
    s.budget 7 = 6 ∧ s.sent 7 + (s.queue.map fun m => if m.owner = some 7 then m.left else 0).sum ≤ s.budget 7 := by
  obtain ⟨s, h, hbudget⟩ := (Option.any_eq_true _ _).mp (by decide +kernel :
    (Runs.exec (step Env.sample) (Engine.init 1000) sampleEvents).any (fun s => s.budget 7 = 6) = true)
  exact ⟨s, h, of_decide_eq_true hbudget, sent_le_budget ⟨by decide, by decide⟩ h 7⟩

end SnmpB.Transport
