import SnmpB.Transport.Retries

/-! # What the log tells of a message

Each message descends from the one that was queued under its address. A response it
holds was received for it, and it has waited its full time for every sending.
-/
namespace SnmpB.Transport
open Agent Discovery Relation

/-- What `SetPdu` keeps of a response. -/
def stored (type : PduType) (p : QueuePdu) : QueuePdu :=
  if type = .inform ∧ p.type = .response then CSNMPMessage.stripNotification p else p

/-- What a callback is handed for a message: its own PDU, or a response that was received for it. -/
def Handed (log : List Output) (m₀ : CSNMPMessage) (pdu : QueuePdu) : Prop :=
  pdu = m₀.pdu ∨ ∃ p, .received p ∈ log ∧ p.requestId = m₀.uniqueId ∧ matchType m₀.pdu.type p.type = true ∧
    pdu = stored m₀.pdu.type p

variable (env : Env)

/-- The time at which the message that was queued at the address has been sent a number of times, and
has waited after each. -/
def Env.waited (m₀ : CSNMPMessage) (sends : ℤ) : ℤ :=
  (env.clock m₀.serial).val.ms + sends * (m₀.target.timeout * 10)

/-- The message `m` in the queue is what became of `m₀`. -/
structure Descends (log : List Output) (m₀ m : CSNMPMessage) : Prop where
  queued : log[m.serial]? = some (.queued m₀)
  serial : m₀.serial = m.serial
  uniqueId : m₀.uniqueId = m.uniqueId
  rawPdu : m₀.rawPdu = m.rawPdu
  timeout : m₀.target.timeout = m.target.timeout
  retry : m.target.retry ≤ m₀.target.retry
  owner : m.callBack = none ∨ m.callBack = m₀.callBack
  handed : Handed log m₀ m.pdu
  waiting : m.received = false → m.pdu = m₀.pdu ∧
    (Monotone env.clock → env.waited m₀ (1 + (m₀.target.retry - m.target.retry)) ≤ m.sendTime.val.ms)
  answered : m.received = true → m.callBack = none ∧ PduType.tracked m.pdu.type = false
  tracked : PduType.tracked m₀.pdu.type = true
  requestId : m₀.pdu.requestId = m₀.uniqueId

/-- The facts behind an entry of the log. -/
def Witnessed (log : List Output) : Output → Prop
  | .queued m₀ => PduType.tracked m₀.pdu.type = true
  | .timedOut serial now => ∃ m₀, log[serial]? = some (.queued m₀) ∧ m₀.serial = serial ∧
      (Monotone env.clock → env.waited m₀ (1 + m₀.target.retry.toNat) ≤ now.val.ms)
  | .sent (some m) raw _ => ∃ m₀, log[m.serial]? = some (.queued m₀) ∧ m₀.rawPdu = raw
  | .called c _ pdu => ∃ m₀, .queued m₀ ∈ log ∧ m₀.owner = some c ∧ Handed log m₀ pdu
  | _ => True

structure Frame.Recorded (f : Frame) : Prop where
  queue : ∀ m ∈ f.engine.queue, ∃ m₀, Descends env f.engine.log m₀ m
  owed : ∀ w ∈ f.owed, ∀ m, w.source = some m →
    ∃ m₀, .queued m₀ ∈ f.engine.log ∧ m₀.owner = some w.cbd ∧ Handed f.engine.log m₀ m.pdu
  log : ∀ out ∈ f.engine.log, Witnessed env f.engine.log out

variable {env} {log os : List Output} {m₀ m m' : CSNMPMessage}

theorem getElem?_append_of_some {out : Output} {n : ℕ} (h : log[n]? = some out) : (log ++ os)[n]? = some out := by
  rw [List.getElem?_append_left (List.getElem?_eq_some_iff.mp h).1, h]

theorem Handed.append {pdu : QueuePdu} (h : Handed log m₀ pdu) (os : List Output) : Handed (log ++ os) m₀ pdu :=
  h.imp_right fun ⟨p, hp, hrest⟩ => ⟨p, List.mem_append_left os hp, hrest⟩

theorem Descends.append (h : Descends env log m₀ m) (os : List Output) : Descends env (log ++ os) m₀ m :=
  { h with queued := getElem?_append_of_some h.queued, handed := h.handed.append os }

theorem Witnessed.append {out : Output} (h : Witnessed env log out) (os : List Output) :
    Witnessed env (log ++ os) out := by
  unfold Witnessed at h ⊢
  split at h
  · exact h
  · obtain ⟨m₀, hm₀, hwaited⟩ := h
    exact ⟨m₀, getElem?_append_of_some hm₀, hwaited⟩
  · obtain ⟨m₀, hm₀, hraw⟩ := h
    exact ⟨m₀, getElem?_append_of_some hm₀, hraw⟩
  · obtain ⟨m₀, hm₀, howner, hhanded⟩ := h
    exact ⟨m₀, List.mem_append_left os hm₀, howner, hhanded.append os⟩
  · trivial

theorem stored_type (type : PduType) (p : QueuePdu) : (stored type p).type = p.type := by
  unfold stored CSNMPMessage.stripNotification
  split
  · split
    · split <;> rfl
    · rfl
  · rfl

theorem tracked_of_matchType {type answer : PduType} (h : matchType type answer = true) :
    PduType.tracked type = true ∧ PduType.tracked answer = false := by
  cases type <;> cases answer <;> simp_all [matchType, PduType.tracked]

/-! ## What becomes of a message -/

namespace Descends

theorem fresh {s : Engine} (hm : Fresh env s m) (raw : List ℕ) (ok : Bool) :
    Descends env (s.log ++ [.queued m, .sent (some m) raw ok]) m m where
  queued := by
    rw [hm.serial]
    simp
  serial := rfl
  uniqueId := rfl
  rawPdu := rfl
  timeout := rfl
  retry := le_rfl
  owner := Or.inr rfl
  handed := Or.inl rfl
  waiting _ := by
    refine ⟨rfl, fun _ => ?_⟩
    rw [hm.sendTime, Instant.later_ms, Env.waited, hm.serial]
    simp
  answered h := by
    rw [hm.waiting] at h
    cases h
  tracked := hm.tracked
  requestId := hm.requestId

theorem calling (h : Descends env log m₀ m) : Descends env log m₀ m.calling :=
  { h with owner := Or.inl rfl, answered := fun hreceived => ⟨rfl, (h.answered hreceived).2⟩ }

/-- A message that holds a response takes no other. -/
theorem waiting_of_set {reason : ℤ} {p : QueuePdu} (h : Descends env log m₀ m)
    (hset : m.setPdu reason p = some m') : m.received = false := by
  obtain ⟨hmatch, -⟩ := CSNMPMessage.setPdu_cases hset
  rw [Bool.eq_false_iff]
  intro hreceived
  have huntracked := (h.answered hreceived).2
  rw [(tracked_of_matchType hmatch).1] at huntracked
  cases huntracked

theorem of_calling (h : Descends env log m₀ m.calling) (hcallback : m.callBack = none) : Descends env log m₀ m :=
  { h with owner := Or.inl hcallback, answered := fun hreceived => ⟨hcallback, (h.answered hreceived).2⟩ }

theorem set {reason : ℤ} {p : QueuePdu} (h : Descends env log m₀ m) (hset : m.setPdu reason p = some m')
    (hreceived : .received p ∈ log) (hid : p.requestId = m.uniqueId) : Descends env log m₀ m'.calling := by
  have hwaiting := h.waiting_of_set hset
  have hpdu := (h.waiting hwaiting).1
  obtain ⟨hmatch, ⟨hold, -⟩ | rfl⟩ := CSNMPMessage.setPdu_cases hset
  · rw [hwaiting] at hold
    cases hold
  · have huntracked : PduType.tracked (stored m.pdu.type p).type = false := by
      rw [stored_type]
      exact (tracked_of_matchType hmatch).2
    have hhanded : Handed log m₀ (stored m.pdu.type p) := by
      rw [hpdu] at hmatch ⊢
      exact Or.inr ⟨p, hreceived, hid.trans h.uniqueId.symm, hmatch, rfl⟩
    exact
      { h with
        owner := Or.inl rfl, handed := hhanded, waiting := fun hfalse => by cases hfalse
        answered := fun _ => ⟨rfl, huntracked⟩ }

theorem postponed (h : Descends env log m₀ m) (hreceived : m.received = true) (sendTime : Instant) :
    Descends env log m₀ { m with sendTime } :=
  { h with waiting := fun hwaiting => by rw [hreceived] at hwaiting; cases hwaiting }

/-- One more sending is one more wait. -/
theorem resent {n : ℕ} (h : Descends env log m₀ m) (hwaiting : m.received = false) (hn : n ≤ log.length)
    (hdue : m.sendTime ≤ env.clock n) :
    Descends env log m₀ (m.resent ((env.clock log.length).later m.target.timeout)) := by
  obtain ⟨hpdu, hwaited⟩ := h.waiting hwaiting
  have hretry := h.retry
  refine
    { h with
      retry := ?_, waiting := fun _ => ⟨hpdu, fun hclock => ?_⟩ }
  · show m.target.retry - 1 ≤ m₀.target.retry
    omega
  · have hwaited := hwaited hclock
    have hnow : m.sendTime.val.ms ≤ (env.clock log.length).val.ms := hdue.trans (hclock hn)
    show env.waited m₀ (1 + (m₀.target.retry - (m.target.retry - 1))) ≤
      ((env.clock log.length).later m.target.timeout).val.ms
    rw [Instant.later_ms, ← h.timeout]
    have hsplit : env.waited m₀ (1 + (m₀.target.retry - (m.target.retry - 1))) =
        env.waited m₀ (1 + (m₀.target.retry - m.target.retry)) + m₀.target.timeout * 10 := by
      unfold Env.waited
      ring
    rw [hsplit]
    omega

theorem waited_of_due {now : Instant} (h : Descends env log m₀ m) (hwaiting : m.received = false)
    (hretry : m.target.retry ≤ 0) (hdue : m.sendTime ≤ now) (hclock : Monotone env.clock) :
    env.waited m₀ (1 + m₀.target.retry.toNat) ≤ now.val.ms := by
  have hwaited := (h.waiting hwaiting).2 hclock
  have hle : env.waited m₀ (1 + m₀.target.retry.toNat) ≤ env.waited m₀ (1 + (m₀.target.retry - m.target.retry)) := by
    have hmore := h.retry
    unfold Env.waited
    refine Int.add_le_add_left (Int.mul_le_mul_of_nonneg_right ?_ (by positivity)) _
    omega
  exact hle.trans (hwaited.trans hdue)

end Descends

/-! ## The records of a frame -/

theorem Witnessed.forall_append {outs : List Output} (h : ∀ out ∈ log, Witnessed env log out)
    (houts : ∀ out ∈ outs, Witnessed env (log ++ outs) out) : ∀ out ∈ log ++ outs, Witnessed env (log ++ outs) out := by
  intro out hout
  rcases List.mem_append.mp hout with hout | hout
  · exact (h out hout).append outs
  · exact houts out hout

namespace Frame.Recorded

variable {o o' : List Owed} {b : Option ℕ} {s : Engine} {l₁ l₂ : List CSNMPMessage}

/-- Records stay when a log grows, entries of the queue change, and owed callbacks come and go. -/
theorem grow (h : Recorded env ⟨o, b, s⟩) {o' : List Owed} {b' : Option ℕ} {s' : Engine} {outs : List Output}
    (hlog : s'.log = s.log ++ outs) (houts : ∀ out ∈ outs, Witnessed env (s.log ++ outs) out)
    (hqueue : ∀ m ∈ s'.queue, m ∈ s.queue ∨ ∃ m₀, Descends env (s.log ++ outs) m₀ m)
    (howed : ∀ w ∈ o', (∃ w' ∈ o, w.source = w'.source ∧ w.cbd = w'.cbd) ∨ ∀ m, w.source = some m →
      ∃ m₀, .queued m₀ ∈ s.log ++ outs ∧ m₀.owner = some w.cbd ∧ Handed (s.log ++ outs) m₀ m.pdu) :
    Recorded env ⟨o', b', s'⟩ where
  queue m hm := by
    rw [hlog]
    rcases hqueue m hm with hold | hnew
    · obtain ⟨m₀, hm₀⟩ := h.queue m hold
      exact ⟨m₀, hm₀.append outs⟩
    · exact hnew
  owed w hw m hsource := by
    rw [hlog]
    rcases howed w hw with ⟨w', hw', hsame, hcbd⟩ | hnew
    · obtain ⟨m₀, hm₀, howner, hhanded⟩ := h.owed w' hw' m (hsame ▸ hsource)
      exact ⟨m₀, List.mem_append_left outs hm₀, hcbd ▸ howner, hhanded.append outs⟩
    · exact hnew m hsource
  log := by
    show ∀ out ∈ s'.log, Witnessed env s'.log out
    rw [hlog]
    exact Witnessed.forall_append h.log houts

/-- The callback is still the one that was queued. -/
theorem source (h : Descends env s.log m₀ m) {cb : Callback} (hcallback : m.callBack = some cb) {pdu : QueuePdu}
    (hhanded : Handed s.log m₀ pdu) :
    .queued m₀ ∈ s.log ∧ m₀.owner = some cb.cbd ∧ Handed s.log m₀ pdu := by
  refine ⟨List.mem_of_getElem? h.queued, ?_, hhanded⟩
  rcases h.owner with hnone | howner
  · rw [hcallback] at hnone
    cases hnone
  · rw [CSNMPMessage.owner, ← howner, hcallback]
    rfl

end Frame.Recorded

theorem Fresh.witnessed {s : Engine} (hm : Fresh env s m) (ok : Bool) :
    ∀ out ∈ [Output.queued m, .sent (some m) m.rawPdu ok],
      Witnessed env (s.log ++ [.queued m, .sent (some m) m.rawPdu ok]) out := by
  rw [List.forall_mem_cons, List.forall_mem_singleton]
  refine ⟨hm.tracked, m, ?_, rfl⟩
  rw [hm.serial]
  simp

open Frame.Recorded in
theorem Inner.recorded {f g : Frame} (h : Inner env f g) (hf : f.Recorded env) : g.Recorded env := by
  have htail : ∀ {w : Owed} {o : List Owed}, ∀ x ∈ o, ∃ w' ∈ w :: o, x.source = w'.source ∧ x.cbd = w'.cbd :=
    fun x hx => ⟨x, List.mem_cons_of_mem _ hx, rfl, rfl⟩
  have hself : ∀ {o : List Owed}, ∀ x ∈ o, ∃ w' ∈ o, x.source = w'.source ∧ x.cbd = w'.cbd :=
    fun x hx => ⟨x, hx, rfl, rfl⟩
  cases h with
  | asked c r =>
    refine hf.grow rfl (by simp [Witnessed]) (fun m hm => Or.inl hm) ?_
    rw [List.forall_mem_cons]
    exact ⟨Or.inr (by simp), fun x hx => Or.inl (hself x hx)⟩
  | refused w status =>
    exact hf.grow rfl (by simp [Witnessed]) (fun m hm => Or.inl hm) fun x hx => Or.inl (htail x hx)
  | rid rid hrange =>
    exact hf.grow (List.append_nil _).symm (by simp) (fun m hm => Or.inl hm) fun x hx => Or.inl (hself x hx)
  | issue w m hm howner hleft =>
    refine hf.grow (List.append_assoc _ _ _) (hm.witnessed true) ?_ fun x hx => Or.inl (htail x hx)
    intro x hx
    rcases List.mem_cons.mp hx with rfl | hx
    · exact Or.inr ⟨x, Descends.fresh hm _ _⟩
    · exact Or.inl hx
  | issueBlocking m hm howner =>
    refine hf.grow (List.append_assoc _ _ _) (hm.witnessed true) ?_ fun x hx => Or.inl (hself x hx)
    intro x hx
    rcases List.mem_cons.mp hx with rfl | hx
    · exact Or.inr ⟨x, Descends.fresh hm _ _⟩
    · exact Or.inl hx
  | bounce w m hm howner hleft =>
    refine hf.grow (List.append_assoc _ _ _) (hm.witnessed false) (fun x hx => Or.inl hx) ?_
    rw [List.forall_mem_cons]
    exact ⟨Or.inl ⟨w, List.mem_cons_self, rfl, rfl⟩, fun x hx => Or.inl (htail x hx)⟩
  | bounceBlocking m hm howner =>
    exact hf.grow (List.append_assoc _ _ _) (hm.witnessed false) (fun x hx => Or.inl hx) fun x hx => Or.inl (hself x hx)
  | untracked raw ok =>
    exact hf.grow rfl (by simp [Witnessed]) (fun m hm => Or.inl hm) fun x hx => Or.inl (hself x hx)
  | called w m reason hsource =>
    refine hf.grow rfl ?_ (fun m hm => Or.inl hm) fun x hx => Or.inl (htail x hx)
    obtain ⟨m₀, hm₀, howner, hhanded⟩ := hf.owed w (by simp) m hsource
    rw [List.forall_mem_singleton]
    exact ⟨m₀, List.mem_append_left _ hm₀, howner, hhanded.append _⟩
  | cancel l₁ l₂ m hqueue hunlocked =>
    refine hf.grow rfl ?_ (fun x hx => Or.inl ?_) fun x hx => Or.inl (hself x hx)
    · cases m.owner <;> simp [Witnessed]
    · rw [hqueue]
      simp only [List.mem_append, List.mem_cons] at hx ⊢
      tauto

open Frame.Recorded in
theorem Move.recorded {f g : Frame} (h : Move env f g) (hf : f.Recorded env) : g.Recorded env := by
  have hself : ∀ {o : List Owed}, ∀ x ∈ o, (∃ w' ∈ o, x.source = w'.source ∧ x.cbd = w'.cbd) :=
    fun x hx => ⟨x, hx, rfl, rfl⟩
  have hswap : ∀ {log : List Output} {queue l₁ l₂ : List CSNMPMessage} {m m' : CSNMPMessage}, queue = l₁ ++ m :: l₂ →
      (∃ m₀, Descends env log m₀ m') →
        ∀ x ∈ l₁ ++ m' :: l₂, x ∈ queue ∨ ∃ m₀, Descends env log m₀ x := by
    intro log queue l₁ l₂ m m' hqueue hm' x hx
    rw [hqueue]
    simp only [List.mem_append, List.mem_cons] at hx ⊢
    rcases hx with hx | rfl | hx
    · exact Or.inl (Or.inl hx)
    · exact Or.inr hm'
    · exact Or.inl (Or.inr (Or.inr hx))
  have hdrop : ∀ {queue l₁ l₂ : List CSNMPMessage} {m : CSNMPMessage}, queue = l₁ ++ m :: l₂ →
      ∀ x ∈ l₁ ++ l₂, x ∈ queue := by
    intro queue l₁ l₂ m hqueue x hx
    rw [hqueue]
    simp only [List.mem_append, List.mem_cons] at hx ⊢
    tauto
  cases h with
  | inner h => exact h.recorded hf
  | receive p =>
    exact hf.grow rfl (by simp [Witnessed]) (fun x hx => Or.inl hx) fun x hx => Or.inl (hself x hx)
  | @answer o s l₁ l₂ m m' cb reason p hqueue hcallback hreceived hid hset =>
    obtain ⟨m₀, hm₀⟩ := hf.queue m (by simp [hqueue])
    have hm' := hm₀.set hset hreceived hid
    have hcb := (CSNMPMessage.setPdu_frame hset).2.2.2.1
    refine hf.grow (List.append_nil _).symm (by simp) ?_ ?_
    · exact hswap hqueue ⟨m₀, hm'.append []⟩
    · rw [List.forall_mem_cons, List.append_nil]
      refine ⟨Or.inr ?_, fun x hx => Or.inl (hself x hx)⟩
      intro x hx
      obtain rfl := Option.some.inj hx
      exact ⟨m₀, source hm₀ hcallback hm'.handed⟩
  | answerBlocking l₁ l₂ m m' reason p hqueue hcallback hreceived hid hset =>
    obtain ⟨m₀, hm₀⟩ := hf.queue m (by simp [hqueue])
    have hcb := (CSNMPMessage.setPdu_frame hset).2.2.2.1
    have hm' := (hm₀.set hset hreceived hid).of_calling (hcb.trans hcallback)
    refine hf.grow (List.append_nil _).symm (by simp) ?_ fun x hx => Or.inl (hself x hx)
    exact hswap hqueue ⟨m₀, hm'.append []⟩
  | @expire o s l₁ l₂ m cb n hqueue hcallback hwaiting hretry hn hdue =>
    obtain ⟨m₀, hm₀⟩ := hf.queue m (by simp [hqueue])
    refine hf.grow rfl ?_ (hswap hqueue ⟨m₀, hm₀.calling.append _⟩) ?_
    · rw [List.forall_mem_singleton]
      exact ⟨m₀, getElem?_append_of_some hm₀.queued, hm₀.serial, hm₀.waited_of_due hwaiting hretry hdue⟩
    · rw [List.forall_mem_cons]
      refine ⟨Or.inr ?_, fun x hx => Or.inl (hself x hx)⟩
      intro x hx
      obtain rfl := Option.some.inj hx
      obtain ⟨hmem, howner, hhanded⟩ := source hm₀ hcallback hm₀.handed
      exact ⟨m₀, List.mem_append_left _ hmem, howner, hhanded.append _⟩
  | expireBlocking l₁ l₂ m n hqueue hcallback hwaiting hretry hn hdue =>
    obtain ⟨m₀, hm₀⟩ := hf.queue m (by simp [hqueue])
    refine hf.grow rfl ?_ (fun x hx => Or.inl (hdrop hqueue x hx)) fun x hx => Or.inl (hself x hx)
    rw [List.forall_mem_singleton]
    exact ⟨m₀, getElem?_append_of_some hm₀.queued, hm₀.serial, hm₀.waited_of_due hwaiting hretry hdue⟩
  | finish l₁ l₂ m hqueue hcallback hbusy =>
    exact hf.grow (List.append_nil _).symm (by simp) (fun x hx => Or.inl (hdrop hqueue x hx)) fun x hx => Or.inl (hself x hx)
  | postpone l₁ l₂ m hqueue hreceived sendTime =>
    obtain ⟨m₀, hm₀⟩ := hf.queue m (by simp [hqueue])
    refine hf.grow (List.append_nil _).symm (by simp) ?_ fun x hx => Or.inl (hself x hx)
    exact hswap hqueue ⟨m₀, (hm₀.postponed hreceived sendTime).append []⟩
  | resend l₁ l₂ m n ok hqueue hwaiting hretry hn hdue =>
    obtain ⟨m₀, hm₀⟩ := hf.queue m (by simp [hqueue])
    refine hf.grow rfl ?_ ?_ fun x hx => Or.inl (hself x hx)
    · rw [List.forall_mem_singleton]
      exact ⟨m₀, getElem?_append_of_some hm₀.queued, hm₀.rawPdu⟩
    · exact hswap hqueue ⟨m₀, (hm₀.resent hwaiting hn hdue).append _⟩
  | returned uniqueId status =>
    exact hf.grow rfl (by simp [Witnessed]) (fun x hx => Or.inl hx) fun x hx => Or.inl (hself x hx)
  | destroyed l₁ l₂ m hqueue hunlocked =>
    obtain ⟨m₀, hm₀⟩ := hf.queue m (by simp [hqueue])
    refine hf.grow rfl ?_ (fun x hx => Or.inl (hdrop hqueue x hx)) fun x hx => Or.inl (hself x hx)
    cases hcallback : m.callBack with
    | none => simp [CSNMPMessage.owner, hcallback]
    | some cb =>
      obtain ⟨hmem, howner, hhanded⟩ := source hm₀ hcallback hm₀.handed
      simp only [CSNMPMessage.owner, hcallback, Option.map_some, Option.toList_some, List.forall_mem_singleton]
      exact ⟨m₀, List.mem_append_left _ hmem, howner, hhanded.append _⟩

theorem recorded_of_moves {f g : Frame} (h : ReflTransGen (Move env) f g) (hf : f.Recorded env) : g.Recorded env := by
  induction h with
  | refl => exact hf
  | tail _ hstep ih => exact hstep.recorded ih

theorem Frame.Recorded.answered {o : List Owed} {b : Option ℕ} {s : Engine} (h : Frame.Recorded env ⟨o, b, s⟩) :
    ∀ m ∈ s.queue, m.received = true → m.callBack = none := by
  intro m hm hreceived
  obtain ⟨m₀, hm₀⟩ := h.queue m hm
  exact (hm₀.answered hreceived).1

end SnmpB.Transport
