import Mathlib.Logic.Relation
import SnmpB.Transport.Engine

/-! # The moves of the engine

Every step of the engine is a sequence of moves. Between two moves a request that is being
made, or a callback taken out of its message, is owed: it is on the stack of the program.
-/
namespace SnmpB.Transport
open Agent Discovery Relation

/-- What one attempt may send. -/
def Request.sends (r : Request) : ℕ := 1 + r.target.retry.toNat

/-- The attempts that are left after some reports: SNMPv3 may need one to discover the engine and
one to learn its time. -/
def Request.attempts (r : Request) (reports : ℕ) : ℕ := if r.target.version = .version3 then 3 - reports else 1

/-- What the callback may still cause to be sent. -/
def Callback.allowance : Callback → ℕ
  | .user _ => 0
  | .v3CallBack data => (2 - data.reportsReceived) * data.request.sends

namespace CSNMPMessage

def owner (m : CSNMPMessage) : Option ℕ := m.callBack.map Callback.cbd

/-- What the message may still cause to be sent. -/
def left (m : CSNMPMessage) : ℕ := m.target.retry.toNat + m.callBack.elim 0 Callback.allowance

/-- The callback has been taken out, and has not come back. -/
def calling (m : CSNMPMessage) : CSNMPMessage := { m with locked := true, callBack := none }

end CSNMPMessage

/-- A callback that is not in the queue; `source` is the message it was in. -/
structure Owed where
  cbd : ℕ
  allowance : ℕ
  source : Option CSNMPMessage

/-- The engine with what its callers owe, and the message whose callback is running. -/
structure Frame where
  owed : List Owed
  busy : Option ℕ
  engine : Engine

def RidRange (rid : ℕ) : Prop := pduMinRid ≤ rid ∧ rid ≤ pduMaxRid

variable (env : Env)

/-- A message that can be added now. -/
structure Fresh (s : Engine) (m : CSNMPMessage) : Prop where
  serial : m.serial = s.log.length
  unused : m.uniqueId ∉ s.queue.map (·.uniqueId)
  range : RidRange m.uniqueId
  sendTime : m.sendTime = (env.clock s.log.length).later m.target.timeout
  unlocked : m.locked = false
  waiting : m.received = false
  tracked : PduType.tracked m.pdu.type = true
  requestId : m.pdu.requestId = m.uniqueId

def Engine.issued (s : Engine) (m : CSNMPMessage) : Engine :=
  (s.addEntry m).logged (.sent (some m) m.rawPdu true)

/-- Added, not sent, and taken out again. -/
def Engine.bounced (s : Engine) (m : CSNMPMessage) : Engine :=
  (s.logged (.queued m)).logged (.sent (some m) m.rawPdu false)

/-- The moves that a callback can make. -/
inductive Inner : Frame → Frame → Prop
  | asked {o b s} (c : ℕ) (r : Request) :
    Inner ⟨o, b, s⟩ ⟨⟨c, r.attempts 0 * r.sends, none⟩ :: o, b, s.logged (.asked c r)⟩
  | refused {o b s} (w : Owed) (status : ℤ) :
    Inner ⟨w :: o, b, s⟩ ⟨o, b, s.logged (.refused w.cbd status)⟩
  | rid {o b s} (rid : ℕ) (hrange : RidRange rid) : Inner ⟨o, b, s⟩ ⟨o, b, { s with currentRid := rid }⟩
  | issue {o b s} (w : Owed) (m : CSNMPMessage) (hm : Fresh env s m) (howner : m.owner = some w.cbd)
      (hleft : 1 + m.left ≤ w.allowance) : Inner ⟨w :: o, b, s⟩ ⟨o, b, s.issued m⟩
  | issueBlocking {o b s} (m : CSNMPMessage) (hm : Fresh env s m) (howner : m.callBack = none) :
    Inner ⟨o, b, s⟩ ⟨o, b, s.issued m⟩
  | bounce {o b s} (w : Owed) (m : CSNMPMessage) (hm : Fresh env s m) (howner : m.owner = some w.cbd)
      (hleft : 1 ≤ w.allowance) :
    Inner ⟨w :: o, b, s⟩ ⟨{ w with allowance := w.allowance - 1 } :: o, b, s.bounced m⟩
  | bounceBlocking {o b s} (m : CSNMPMessage) (hm : Fresh env s m) (howner : m.callBack = none) :
    Inner ⟨o, b, s⟩ ⟨o, b, s.bounced m⟩
  | untracked {o b s} (raw : List ℕ) (ok : Bool) : Inner ⟨o, b, s⟩ ⟨o, b, s.logged (.sent none raw ok)⟩
  | called {o b s} (w : Owed) (m : CSNMPMessage) (reason : ℤ) (hsource : w.source = some m) :
    Inner ⟨w :: o, b, s⟩ ⟨o, b, s.logged (.called w.cbd reason m.pdu)⟩
  | cancel {o b} {s : Engine} (l₁ l₂ : List CSNMPMessage) (m : CSNMPMessage) (hqueue : s.queue = l₁ ++ m :: l₂)
      (hunlocked : m.locked = false) :
    Inner ⟨o, b, s⟩ ⟨o, b, { s with
      queue := l₁ ++ l₂, msgCount := s.msgCount - 1, log := s.log ++ (m.owner.map Output.cancelled).toList }⟩

/-- The moves of the event loop around them. -/
inductive Move : Frame → Frame → Prop
  | inner {f g} (h : Inner env f g) : Move f g
  | receive {o b s} (p : QueuePdu) : Move ⟨o, b, s⟩ ⟨o, b, s.logged (.received p)⟩
  | answer {o} {s : Engine} (l₁ l₂ : List CSNMPMessage) (m m' : CSNMPMessage) (cb : Callback) (reason : ℤ)
      (p : QueuePdu) (hqueue : s.queue = l₁ ++ m :: l₂) (hcallback : m.callBack = some cb)
      (hreceived : .received p ∈ s.log) (hid : p.requestId = m.uniqueId) (hset : m.setPdu reason p = some m') :
    Move ⟨o, none, s⟩
      ⟨⟨cb.cbd, cb.allowance, some m'⟩ :: o, some m.serial, { s with queue := l₁ ++ m'.calling :: l₂ }⟩
  | answerBlocking {o b} {s : Engine} (l₁ l₂ : List CSNMPMessage) (m m' : CSNMPMessage) (reason : ℤ)
      (p : QueuePdu) (hqueue : s.queue = l₁ ++ m :: l₂) (hcallback : m.callBack = none)
      (hreceived : .received p ∈ s.log) (hid : p.requestId = m.uniqueId) (hset : m.setPdu reason p = some m') :
    Move ⟨o, b, s⟩ ⟨o, b, { s with queue := l₁ ++ m' :: l₂ }⟩
  | expire {o} {s : Engine} (l₁ l₂ : List CSNMPMessage) (m : CSNMPMessage) (cb : Callback) (n : ℕ)
      (hqueue : s.queue = l₁ ++ m :: l₂) (hcallback : m.callBack = some cb) (hwaiting : m.received = false)
      (hretry : m.target.retry ≤ 0) (hn : n ≤ s.log.length) (hdue : m.sendTime ≤ env.clock n) :
    Move ⟨o, none, s⟩
      ⟨⟨cb.cbd, cb.allowance, some m⟩ :: o, some m.serial,
        { s with queue := l₁ ++ m.calling :: l₂, log := s.log ++ [.timedOut m.serial (env.clock n)] }⟩
  | expireBlocking {o b} {s : Engine} (l₁ l₂ : List CSNMPMessage) (m : CSNMPMessage) (n : ℕ)
      (hqueue : s.queue = l₁ ++ m :: l₂) (hcallback : m.callBack = none) (hwaiting : m.received = false)
      (hretry : m.target.retry ≤ 0) (hn : n ≤ s.log.length) (hdue : m.sendTime ≤ env.clock n) :
    Move ⟨o, b, s⟩
      ⟨o, b, { s with
        queue := l₁ ++ l₂, msgCount := s.msgCount - 1, log := s.log ++ [.timedOut m.serial (env.clock n)] }⟩
  | finish {o b} {s : Engine} (l₁ l₂ : List CSNMPMessage) (m : CSNMPMessage) (hqueue : s.queue = l₁ ++ m :: l₂)
      (hcallback : m.callBack = none) (hbusy : b = some m.serial ∨ b = none) :
    Move ⟨o, b, s⟩ ⟨o, none, { s with queue := l₁ ++ l₂, msgCount := s.msgCount - 1 }⟩
  | postpone {o b} {s : Engine} (l₁ l₂ : List CSNMPMessage) (m : CSNMPMessage) (hqueue : s.queue = l₁ ++ m :: l₂)
      (hreceived : m.received = true) (sendTime : Instant) :
    Move ⟨o, b, s⟩ ⟨o, b, { s with queue := l₁ ++ { m with sendTime } :: l₂ }⟩
  | resend {o b} {s : Engine} (l₁ l₂ : List CSNMPMessage) (m : CSNMPMessage) (n : ℕ) (ok : Bool)
      (hqueue : s.queue = l₁ ++ m :: l₂) (hwaiting : m.received = false) (hretry : 0 < m.target.retry)
      (hn : n ≤ s.log.length) (hdue : m.sendTime ≤ env.clock n) :
    Move ⟨o, b, s⟩
      ⟨o, b, { s with
        queue := l₁ ++ { m with
          target := { m.target with retry := m.target.retry - 1 }
          sendTime := (env.clock s.log.length).later m.target.timeout } :: l₂
        log := s.log ++ [.sent (some { m with locked := true }) m.rawPdu ok] }⟩
  | returned {o b s} (uniqueId : ℕ) (status : ℤ) : Move ⟨o, b, s⟩ ⟨o, b, s.logged (.returned uniqueId status)⟩
  | destroyed {o b} {s : Engine} (l₁ l₂ : List CSNMPMessage) (m : CSNMPMessage) (hqueue : s.queue = l₁ ++ m :: l₂)
      (hunlocked : m.locked = false) :
    Move ⟨o, b, s⟩
      ⟨o, b, { s with
        queue := l₁ ++ l₂
        log := s.log ++ (m.owner.map fun c => Output.called c classSessionDestroyed m.pdu).toList }⟩

/-! ## What all moves keep -/

/-- The messages can be told apart by their ids and by their addresses. -/
structure Frame.Numbered (f : Frame) : Prop where
  ids : (f.engine.queue.map (·.uniqueId)).Nodup
  range : ∀ m ∈ f.engine.queue, RidRange m.uniqueId
  rid : RidRange f.engine.currentRid
  serials : (f.engine.queue.map (·.serial)).Nodup
  serial_lt : ∀ m ∈ f.engine.queue, m.serial < f.engine.log.length
  count : f.engine.queue.length ≤ f.engine.msgCount
  locked : ∀ m ∈ f.engine.queue, m.locked = true → f.busy = some m.serial

variable {env}

theorem CSNMPMessage.setPdu_cases {m m' : CSNMPMessage} {reason : ℤ} {p : QueuePdu}
    (h : m.setPdu reason p = some m') :
    matchType m.pdu.type p.type = true ∧ (m.received = true ∧ m' = m ∨
      m' = { m with
        received := true, reason
        pdu := if m.pdu.type = .inform ∧ p.type = .response then stripNotification p else p }) := by
  unfold CSNMPMessage.setPdu at h
  split at h
  · cases h
  · rename_i hmatch
    refine ⟨by simpa using hmatch, ?_⟩
    split at h
    · rename_i hold
      exact Or.inl ⟨hold.1, (Option.some.inj h).symm⟩
    · exact Or.inr (Option.some.inj h).symm

/-- A response changes nothing that tells messages apart. -/
theorem CSNMPMessage.setPdu_frame {m m' : CSNMPMessage} {reason : ℤ} {p : QueuePdu}
    (h : m.setPdu reason p = some m') :
    m'.serial = m.serial ∧ m'.uniqueId = m.uniqueId ∧ m'.locked = m.locked ∧ m'.callBack = m.callBack ∧
      m'.target = m.target ∧ m'.rawPdu = m.rawPdu ∧ m'.sendTime = m.sendTime ∧ m'.received = true := by
  obtain ⟨-, ⟨hreceived, rfl⟩ | rfl⟩ := setPdu_cases h
  · exact ⟨rfl, rfl, rfl, rfl, rfl, rfl, rfl, hreceived⟩
  · exact ⟨rfl, rfl, rfl, rfl, rfl, rfl, rfl, rfl⟩

namespace Frame.Numbered

variable {o : List Owed} {b : Option ℕ} {s : Engine} {l₁ l₂ : List CSNMPMessage} {m : CSNMPMessage}

/-- Writing to the log, and moving the counter, is no concern of the numbering. -/
theorem write (h : Numbered ⟨o, b, s⟩) (o' : List Owed) (os : List Output) {rid : ℕ} (hrid : RidRange rid) :
    Numbered ⟨o', b, { s with currentRid := rid, log := s.log ++ os }⟩ where
  ids := h.ids
  range := h.range
  rid := hrid
  serials := h.serials
  serial_lt x hx := by
    have hlt : x.serial < s.log.length := h.serial_lt x hx
    simp only [List.length_append]
    omega
  count := h.count
  locked := h.locked

theorem add (h : Numbered ⟨o, b, s⟩) (o' : List Owed) (hm : Fresh env s m) : Numbered ⟨o', b, s.issued m⟩ where
  ids := List.nodup_cons.mpr ⟨hm.unused, h.ids⟩
  range := List.forall_mem_cons.mpr ⟨hm.range, h.range⟩
  rid := h.rid
  serials := by
    refine List.nodup_cons.mpr ⟨?_, h.serials⟩
    rw [List.mem_map]
    rintro ⟨x, hx, hserial⟩
    have hlt : x.serial < s.log.length := h.serial_lt x hx
    exact hlt.ne (hserial.trans hm.serial)
  serial_lt := by
    refine List.forall_mem_cons.mpr ⟨?_, fun x hx => ?_⟩
    · simp [Engine.issued, Engine.addEntry, Engine.logged, hm.serial]
    · have hlt := h.serial_lt x hx
      simp only [Engine.issued, Engine.addEntry, Engine.logged, List.length_append] at hlt ⊢
      omega
  count := Nat.succ_le_succ h.count
  locked := by
    refine List.forall_mem_cons.mpr ⟨fun hlocked => ?_, h.locked⟩
    rw [hm.unlocked] at hlocked
    cases hlocked

/-- A message put in the place of another with its numbers. -/
theorem replace (h : Numbered ⟨o, b, s⟩) (o' : List Owed) {b' : Option ℕ} (os : List Output)
    (hqueue : s.queue = l₁ ++ m :: l₂) {x : CSNMPMessage} (hserial : x.serial = m.serial) (hid : x.uniqueId = m.uniqueId)
    (hlocked : x.locked = true → b' = some m.serial) (hbusy : b = none ∨ b' = b) :
    Numbered ⟨o', b', { s with queue := l₁ ++ x :: l₂, log := s.log ++ os }⟩ := by
  obtain ⟨hids, hrange, hrid, hserials, hlt, hcount, hlock⟩ := h
  simp only [hqueue] at hids hrange hserials hlt hcount hlock
  refine ⟨?_, ?_, hrid, ?_, ?_, ?_, ?_⟩
  · simpa only [List.map_append, List.map_cons, hid] using hids
  · simp only [List.forall_mem_append, List.forall_mem_cons, hid] at hrange ⊢
    exact hrange
  · simpa only [List.map_append, List.map_cons, hserial] using hserials
  · intro y hy
    rw [List.length_append]
    rw [List.mem_append, List.mem_cons] at hy
    rcases hy with hy | rfl | hy
    · exact Nat.lt_add_right _ (hlt y (by simp [hy]))
    · rw [hserial]
      exact Nat.lt_add_right _ (hlt m (by simp))
    · exact Nat.lt_add_right _ (hlt y (by simp [hy]))
  · simpa only [List.length_append, List.length_cons] using hcount
  · have hother : ∀ y ∈ l₁ ++ m :: l₂, y.locked = true → b' = some y.serial := by
      intro y hy hylocked
      rcases hbusy with rfl | rfl
      · cases hlock y hy hylocked
      · exact hlock y hy hylocked
    intro y hy hylocked
    rw [List.mem_append, List.mem_cons] at hy
    rcases hy with hy | rfl | hy
    · exact hother y (by simp [hy]) hylocked
    · rw [hserial]
      exact hlocked hylocked
    · exact hother y (by simp [hy]) hylocked

/-- A message taken out. -/
theorem remove (h : Numbered ⟨o, b, s⟩) (o' : List Owed) {b' : Option ℕ} (os : List Output) {count : ℕ}
    (hqueue : s.queue = l₁ ++ m :: l₂) (hcount : s.msgCount - 1 ≤ count)
    (hbusy : b' = b ∨ b = some m.serial ∨ b = none) :
    Numbered ⟨o', b', { s with queue := l₁ ++ l₂, msgCount := count, log := s.log ++ os }⟩ := by
  obtain ⟨hids, hrange, hrid, hserials, hlt, hlen, hlock⟩ := h
  simp only [hqueue] at hids hrange hserials hlt hlen hlock
  have hsub : (l₁ ++ l₂).Sublist (l₁ ++ m :: l₂) := (List.Sublist.refl l₁).append (List.sublist_cons_self m l₂)
  refine ⟨hids.sublist (hsub.map _), fun x hx => hrange x (hsub.subset hx), hrid,
    hserials.sublist (hsub.map _), ?_, ?_, ?_⟩
  · intro x hx
    rw [List.length_append]
    exact Nat.lt_add_right _ (hlt x (hsub.subset hx))
  · simp only [List.length_append, List.length_cons] at hlen ⊢
    omega
  · intro x hx hxlocked
    have hxbusy := hlock x (hsub.subset hx) hxlocked
    rcases hbusy with rfl | hb | hb
    · exact hxbusy
    · exfalso
      have hserial : x.serial = m.serial := Option.some.inj (hxbusy.symm.trans hb)
      have hperm : List.Perm ((l₁ ++ m :: l₂).map (·.serial)) ((m :: (l₁ ++ l₂)).map (·.serial)) :=
        List.perm_middle.map _
      have hnot := (List.nodup_cons.mp (hperm.nodup_iff.mp hserials)).1
      exact hnot (List.mem_map.mpr ⟨x, hx, hserial⟩)
    · cases hb.symm.trans hxbusy

end Frame.Numbered

theorem Inner.numbered {f g : Frame} (h : Inner env f g) (hf : f.Numbered) : g.Numbered := by
  cases h with
  | asked c r => exact hf.write _ [_] hf.rid
  | refused w status => exact hf.write _ [_] hf.rid
  | rid rid hrange => simpa using hf.write _ [] hrange
  | issue w m hm howner hleft => exact hf.add _ hm
  | issueBlocking m hm howner => exact hf.add _ hm
  | bounce w m hm howner hleft =>
    simpa [Engine.bounced, Engine.logged] using hf.write _ [.queued m, .sent (some m) m.rawPdu false] hf.rid
  | bounceBlocking m hm howner =>
    simpa [Engine.bounced, Engine.logged] using hf.write _ [.queued m, .sent (some m) m.rawPdu false] hf.rid
  | untracked raw ok => exact hf.write _ [_] hf.rid
  | called w m reason hsource => exact hf.write _ [_] hf.rid
  | cancel l₁ l₂ m hqueue hunlocked => exact hf.remove _ _ hqueue le_rfl (Or.inl rfl)

theorem Move.numbered {f g : Frame} (h : Move env f g) (hf : f.Numbered) : g.Numbered := by
  cases h with
  | inner h => exact h.numbered hf
  | receive p => exact hf.write _ [_] hf.rid
  | answer l₁ l₂ m m' cb reason p hqueue hcallback hreceived hid hset =>
    obtain ⟨hserial, huid, -⟩ := CSNMPMessage.setPdu_frame hset
    simpa using hf.replace _ [] hqueue (x := m'.calling) hserial huid (fun _ => rfl) (Or.inl rfl)
  | answerBlocking l₁ l₂ m m' reason p hqueue hcallback hreceived hid hset =>
    obtain ⟨hserial, huid, hlocked, -⟩ := CSNMPMessage.setPdu_frame hset
    have hlock : m'.locked = true → _ := fun hl => hf.locked m (by simp [hqueue]) (hlocked ▸ hl)
    simpa using hf.replace _ [] hqueue hserial huid hlock (Or.inr rfl)
  | expire l₁ l₂ m cb n hqueue hcallback hwaiting hretry hn hdue =>
    exact hf.replace _ [_] hqueue (x := m.calling) rfl rfl (fun _ => rfl) (Or.inl rfl)
  | expireBlocking l₁ l₂ m n hqueue hcallback hwaiting hretry hn hdue =>
    exact hf.remove _ [_] hqueue le_rfl (Or.inl rfl)
  | finish l₁ l₂ m hqueue hcallback hbusy => simpa using hf.remove _ [] hqueue le_rfl (Or.inr hbusy)
  | postpone l₁ l₂ m hqueue hreceived sendTime =>
    have hlock := hf.locked m (by simp [hqueue])
    simpa using hf.replace _ [] hqueue (x := { m with sendTime }) rfl rfl hlock (Or.inr rfl)
  | resend l₁ l₂ m n ok hqueue hwaiting hretry hn hdue =>
    exact hf.replace _ [_] hqueue rfl rfl (hf.locked m (by simp [hqueue])) (Or.inr rfl)
  | returned uniqueId status => exact hf.write _ [_] hf.rid
  | destroyed l₁ l₂ m hqueue hunlocked =>
    exact hf.remove _ _ hqueue (Nat.sub_le _ _) (Or.inl rfl)

theorem numbered_of_inners {f g : Frame} (h : ReflTransGen (Inner env) f g) (hf : f.Numbered) : g.Numbered := by
  induction h with
  | refl => exact hf
  | tail _ hstep ih => exact hstep.numbered ih

end SnmpB.Transport
