import SnmpB.Transport.EventLoop

/-! # Retries

A turn of the loop takes a message that is due: it postpones it, gives it up, or sends
it once more.
-/
namespace SnmpB.Transport
open Agent Discovery Relation

variable {env : Env} {o : List Owed} {b : Option ℕ} {s s' : Engine} {l₁ l₂ : List CSNMPMessage}
  {m : CSNMPMessage} {now : Instant} {status : ℤ}

/-- The time a message is due again. -/
def Env.again (env : Env) (s : Engine) (m : CSNMPMessage) : Instant :=
  (env.clock s.log.length).later m.target.timeout

/-- The message as it is after one more sending. -/
def CSNMPMessage.resent (m : CSNMPMessage) (sendTime : Instant) : CSNMPMessage :=
  { m with target := { m.target with retry := m.target.retry - 1 }, sendTime }

/-- The engine with a due message, before the turn that takes it. -/
structure Due (env : Env) (now : Instant) (s : Engine) (l₁ : List CSNMPMessage) (m : CSNMPMessage)
    (l₂ : List CSNMPMessage) : Prop where
  numbered : Frame.Numbered ⟨[], none, s⟩
  queue : s.queue = l₁ ++ m :: l₂
  next : s.getNextTimeoutEntry = some m
  due : m.sendTime ≤ now

namespace Due

theorem unlocked (h : Due env now s l₁ m l₂) : m.locked = false := by
  rw [Bool.eq_false_iff]
  intro hlocked
  cases h.numbered.locked m (by simp [h.queue]) hlocked

theorem not_greater (h : Due env now s l₁ m l₂) : m.sendTime.val.greater now.val = false := by
  rw [Bool.eq_false_iff, Ne, Instant.greater_iff, not_lt]
  exact h.due

theorem setLocked (h : Due env now s l₁ m l₂) :
    s.setLocked m.serial true = { s with queue := l₁ ++ { m with locked := true } :: l₂ } :=
  Engine.modify_split h.numbered.serials h.queue rfl _

/-- The turn in terms of what `ResendMessage` does with the locked message. -/
theorem turn_eq (h : Due env now s l₁ m l₂) :
    retryTurn env now (s, status) =
      match resendMessage env { m with locked := true } now
          { s with queue := l₁ ++ { m with locked := true } :: l₂ } with
      | none => .inr none
      | some (status, s) =>
        let s := s.setLocked m.serial false
        if status = classSuccess then .inl (s, status)
        else if status = classTimedOut then
          match s.deleteEntry m.uniqueId with
          | none => .inr none
          | some (_, s) => .inl (s, status)
        else .inr (some (s, status)) := by
  rw [retryTurn, h.next]
  dsimp only
  rw [h.not_greater, h.unlocked, h.setLocked]
  rfl

theorem modify (h : Due env now s l₁ m l₂) {x : CSNMPMessage} (hx : x.serial = m.serial)
    (f : CSNMPMessage → CSNMPMessage) :
    Engine.modify { s with queue := l₁ ++ x :: l₂ } m.serial f = { s with queue := l₁ ++ f x :: l₂ } :=
  Engine.modify_replaced h.numbered.serials h.queue hx rfl f

/-- "Don't bother to resend if we already have the response". -/
theorem turn_received (h : Due env now s l₁ m l₂) (hreceived : m.received = true) :
    retryTurn env now (s, status) =
      .inl ({ s with queue := l₁ ++ { m with sendTime := env.again s m } :: l₂ }, classSuccess) := by
  have hpostpone := h.modify (x := { m with locked := true }) rfl fun x => { x with sendTime := env.again s m }
  have hunlock := h.modify (x := { m with locked := true, sendTime := env.again s m }) rfl fun x =>
    { x with locked := false }
  rw [h.turn_eq, resendMessage, if_pos hreceived]
  dsimp only
  rw [if_pos rfl]
  have hsame : { m with locked := false, sendTime := env.again s m } = { m with sendTime := env.again s m } := by
    rw [← h.unlocked]
  rw [hsame] at hunlock
  exact congrArg (fun s => Sum.inl (s, classSuccess))
    ((congrArg (fun s => Engine.setLocked s m.serial false) hpostpone).trans hunlock)

/-- The locked message is written to, sent, and unlocked. -/
theorem resendMessage_waiting (h : Due env now s l₁ m l₂) (hwaiting : m.received = false)
    (hretry : 0 < m.target.retry) :
    ∃ t, resendMessage env { m with locked := true } now { s with queue := l₁ ++ { m with locked := true } :: l₂ } =
        some (if env.send s.log.length then classSuccess else classTlFailed, t) ∧
      t.setLocked m.serial false = { s with
        queue := l₁ ++ m.resent (env.again s m) :: l₂
        log := s.log ++ [.sent (some { m with locked := true }) m.rawPdu (env.send s.log.length)] } := by
  have hresend := h.modify (x := { m with locked := true }) rfl fun x =>
    { x with target := { x.target with retry := x.target.retry - 1 }, sendTime := env.again s m }
  have hunlock := Engine.modify_replaced
    (s := { s with log := s.log ++ [.sent (some { m with locked := true }) m.rawPdu (env.send s.log.length)] })
    (x := { m with
      locked := true, target := { m.target with retry := m.target.retry - 1 }, sendTime := env.again s m })
    h.numbered.serials h.queue rfl rfl fun x => { x with locked := false }
  have hsame : { m with
      locked := false, target := { m.target with retry := m.target.retry - 1 }, sendTime := env.again s m } =
      m.resent (env.again s m) := by
    rw [← h.unlocked]
    rfl
  rw [hsame] at hunlock
  have hleft : ¬ m.target.retry ≤ 0 := by omega
  refine ⟨_, ?_, hunlock⟩
  rw [resendMessage, if_neg (by simp [hwaiting]), if_neg hleft]
  exact congrArg (fun t : Engine => some (if env.send s.log.length then classSuccess else classTlFailed,
    t.logged (.sent (some { m with locked := true }) m.rawPdu (env.send s.log.length)))) hresend

theorem turn_resent (h : Due env now s l₁ m l₂) (hwaiting : m.received = false) (hretry : 0 < m.target.retry) :
    retryTurn env now (s, status) =
      let t := { s with
        queue := l₁ ++ m.resent (env.again s m) :: l₂
        log := s.log ++ [.sent (some { m with locked := true }) m.rawPdu (env.send s.log.length)] }
      if env.send s.log.length then .inl (t, classSuccess) else .inr (some (t, classTlFailed)) := by
  obtain ⟨t, hresend, hunlock⟩ := h.resendMessage_waiting hwaiting hretry
  rw [h.turn_eq, hresend]
  dsimp only
  rw [hunlock]
  cases env.send s.log.length with
  | false => rfl
  | true => rfl

/-- The message is given up, and there is nobody to tell. -/
theorem turn_blocking (h : Due env now s l₁ m l₂) (hwaiting : m.received = false) (hretry : m.target.retry ≤ 0)
    (hcallback : m.callBack = none) :
    retryTurn env now (s, status) =
      .inl ({ s with
        queue := l₁ ++ l₂, msgCount := s.msgCount - 1, log := s.log ++ [.timedOut m.serial now] }, classTimedOut) := by
  have hunlock := Engine.modify_replaced (s := { s with log := s.log ++ [.timedOut m.serial now] })
    (x := { m with locked := true }) h.numbered.serials h.queue rfl rfl fun x => { x with locked := false }
  have hsame : { m with locked := false } = m := by
    rw [← h.unlocked]
  rw [hsame] at hunlock
  have hids : ((l₁ ++ m :: l₂).map (·.uniqueId)).Nodup := h.queue ▸ h.numbered.ids
  have hdelete := Engine.deleteEntry_split
    (s := { s with queue := l₁ ++ m :: l₂, log := s.log ++ [.timedOut m.serial now] }) hids rfl h.unlocked
  have hgone : Engine.deleteEntry
      (Engine.setLocked
        (Engine.logged { s with queue := l₁ ++ { m with locked := true } :: l₂ } (.timedOut m.serial now))
        m.serial false) m.uniqueId = some (0, { s with
          queue := l₁ ++ l₂, msgCount := s.msgCount - 1, log := s.log ++ [.timedOut m.serial now] }) :=
    (congrArg (fun t => Engine.deleteEntry t m.uniqueId) hunlock).trans hdelete
  rw [h.turn_eq, resendMessage, if_neg (by simp [hwaiting]), if_pos hretry,
    callback_none (m := { m with locked := true }) hcallback]
  refine (if_neg (by decide)).trans ((if_pos rfl).trans ?_)
  dsimp only
  rw [hgone]

/-- The message is given up, and its callback runs. -/
theorem turn_called (h : Due env now s l₁ m l₂) (status : ℤ) (hwaiting : m.received = false) (hretry : m.target.retry ≤ 0)
    {cb : Callback} (hcallback : m.callBack = some cb) :
    (cb.run env classTimedOut m.pdu
        { s with queue := l₁ ++ m.calling :: l₂, log := s.log ++ [.timedOut m.serial now] } = none ∧
      retryTurn env now (s, status) = .inr none) ∨
    ∃ s' k₁ k₂,
      cb.run env classTimedOut m.pdu
          { s with queue := l₁ ++ m.calling :: l₂, log := s.log ++ [.timedOut m.serial now] } = some s' ∧
        s'.queue = k₁ ++ m.calling :: k₂ ∧
        ReflTransGen (Inner env)
          ⟨[⟨cb.cbd, cb.allowance, some m⟩], some m.serial,
            { s with queue := l₁ ++ m.calling :: l₂, log := s.log ++ [.timedOut m.serial now] }⟩
          ⟨[], some m.serial, s'⟩ ∧
        retryTurn env now (s, status) =
          .inl ({ s' with queue := k₁ ++ k₂, msgCount := s'.msgCount - 1 }, classTimedOut) := by
  have hstart : Frame.Numbered
      ⟨[], some m.serial, { s with queue := l₁ ++ m.calling :: l₂, log := s.log ++ [.timedOut m.serial now] }⟩ :=
    h.numbered.replace [] [.timedOut m.serial now] h.queue (x := m.calling) rfl rfl (fun _ => rfl) (Or.inl rfl)
  have htake := Engine.modify_replaced (s := { s with log := s.log ++ [.timedOut m.serial now] })
    (x := { m with locked := true }) h.numbered.serials h.queue rfl rfl fun x => { x with callBack := none }
  have hcall : callback env { m with locked := true } classTimedOut
      (Engine.logged { s with queue := l₁ ++ { m with locked := true } :: l₂ } (.timedOut m.serial now)) =
      (cb.run env classTimedOut m.pdu
        { s with queue := l₁ ++ m.calling :: l₂, log := s.log ++ [.timedOut m.serial now] }).map fun s => (0, s) := by
    rw [callback_some (m := { m with locked := true }) hcallback]
    exact congrArg (fun t => (cb.run env classTimedOut m.pdu t).map fun s => ((0 : ℤ), s)) htake
  rw [h.turn_eq, resendMessage, if_neg (by simp [hwaiting]), if_pos hretry, hcall]
  cases hrun : cb.run env classTimedOut m.pdu
      { s with queue := l₁ ++ m.calling :: l₂, log := s.log ++ [.timedOut m.serial now] } with
  | none => exact Or.inl ⟨rfl, rfl⟩
  | some s' =>
    obtain ⟨k₁, k₂, hk, hdelete, hmoves, -⟩ := called_moves hstart (by simp) m hrun
    refine Or.inr ⟨s', k₁, k₂, rfl, hk, hmoves, ?_⟩
    refine (if_neg (by decide)).trans ((if_pos rfl).trans ?_)
    rw [hdelete]

end Due

/-- The loop is over, or a message is due. -/
theorem retryTurn_cases (env : Env) (now : Instant) (status : ℤ) (hf : Frame.Numbered ⟨[], none, s⟩) :
    (retryTurn env now (s, status) = .inr (some (s, status)) ∧ ∀ m ∈ s.queue, now < m.sendTime) ∨
      ∃ l₁ m l₂, Due env now s l₁ m l₂ := by
  cases hnext : s.getNextTimeoutEntry with
  | none =>
    refine Or.inl ⟨by rw [retryTurn, hnext], ?_⟩
    rw [Engine.getNextTimeoutEntry_eq_none.mp hnext]
    simp
  | some m =>
    rcases lt_or_ge now m.sendTime with hlater | hdue
    · refine Or.inl ⟨?_, fun x hx => hlater.trans_le (Engine.getNextTimeoutEntry_le hnext x hx)⟩
      rw [retryTurn, hnext]
      exact if_pos (Instant.greater_iff.mpr hlater)
    · obtain ⟨l₁, l₂, hqueue⟩ := List.append_of_mem (Engine.getNextTimeoutEntry_mem hnext)
      exact Or.inr ⟨l₁, m, l₂, hf, hqueue, hnext, hdue⟩

/-- What a turn does is done by moves, whether the loop goes on or ends. -/
theorem retryTurn_moves (hf : Frame.Numbered ⟨[], none, s⟩) {n : ℕ} (hn : n ≤ s.log.length) (x : Engine × ℤ)
    (h : retryTurn env (env.clock n) (s, status) = .inl x ∨ retryTurn env (env.clock n) (s, status) = .inr (some x)) :
    ReflTransGen (Move env) ⟨[], none, s⟩ ⟨[], none, x.1⟩ := by
  rcases retryTurn_cases env (env.clock n) status hf with ⟨hturn, -⟩ | ⟨l₁, m, l₂, hdue⟩
  · rw [hturn] at h
    rcases h with h | h
    · cases h
    · cases h
      exact ReflTransGen.refl
  cases hreceived : m.received with
  | true =>
    rw [hdue.turn_received hreceived] at h
    rcases h with h | h
    · cases h
      exact ReflTransGen.single (Move.postpone l₁ l₂ m hdue.queue hreceived _)
    · cases h
  | false =>
    rcases lt_or_ge 0 m.target.retry with hretry | hretry
    · have hmove : ReflTransGen (Move env) ⟨[], none, s⟩ _ := ReflTransGen.single
        (Move.resend l₁ l₂ m n (env.send s.log.length) hdue.queue hreceived hretry hn hdue.due)
      rw [hdue.turn_resent hreceived hretry] at h
      dsimp only at h
      split at h
      · rcases h with h | h
        · cases h
          exact hmove
        · cases h
      · rcases h with h | h
        · cases h
        · cases h
          exact hmove
    · cases hcallback : m.callBack with
      | none =>
        rw [hdue.turn_blocking hreceived hretry hcallback] at h
        rcases h with h | h
        · cases h
          exact ReflTransGen.single (Move.expireBlocking l₁ l₂ m n hdue.queue hcallback hreceived hretry hn hdue.due)
        · cases h
      | some cb =>
        rcases hdue.turn_called status hreceived hretry hcallback with
          ⟨-, hturn⟩ | ⟨s', k₁, k₂, -, hk, hmoves, hturn⟩
        · rw [hturn] at h
          rcases h with h | h
          · cases h
          · cases h
        · rw [hturn] at h
          rcases h with h | h
          · cases h
            have hexpire : Move env ⟨[], none, s⟩ _ :=
              Move.expire l₁ l₂ m cb n hdue.queue hcallback hreceived hretry hn hdue.due
            exact ((ReflTransGen.single hexpire).trans (moves_of_inners hmoves)).tail
              (Move.finish k₁ k₂ m.calling hk rfl (Or.inl rfl))
          · cases h

theorem Move.log_prefix {f g : Frame} (h : Move env f g) : f.engine.log <+: g.engine.log := by
  cases h with
  | inner h => exact h.log_prefix
  | answer | answerBlocking | finish | postpone => exact List.prefix_rfl
  | receive | expire | expireBlocking | resend | returned | destroyed => exact List.prefix_append _ _

theorem log_prefix_of_moves {f g : Frame} (h : ReflTransGen (Move env) f g) : f.engine.log <+: g.engine.log := by
  induction h with
  | refl => exact List.prefix_rfl
  | tail _ hstep ih => exact ih.trans hstep.log_prefix

theorem doRetries_moves (hf : Frame.Numbered ⟨[], none, s⟩) {fuel : ℕ} {x : Engine × ℤ}
    (h : doRetries env fuel (env.clock s.log.length) s = some x) :
    ReflTransGen (Move env) ⟨[], none, s⟩ ⟨[], none, x.1⟩ := by
  have hrun := Option.join_eq_some_iff.mp h
  have hturn : ∀ y, ReflTransGen (Move env) ⟨[], none, s⟩ ⟨[], none, y.1⟩ → ∀ z : Engine × ℤ,
      retryTurn env (env.clock s.log.length) y = .inl z ∨ retryTurn env (env.clock s.log.length) y = .inr (some z) →
        ReflTransGen (Move env) ⟨[], none, s⟩ ⟨[], none, z.1⟩ := by
    intro y hy z hz
    have hlog : s.log.length ≤ y.1.log.length := (log_prefix_of_moves hy).length_le
    exact hy.trans (retryTurn_moves (numbered_of_moves hy hf) hlog z hz)
  refine Loop.run_invariant (P := fun y => ReflTransGen (Move env) ⟨[], none, s⟩ ⟨[], none, y.1⟩)
    (Q := fun r => ∀ y, r = some y → ReflTransGen (Move env) ⟨[], none, s⟩ ⟨[], none, y.1⟩)
    (fun y z hy hz => hturn y hy z (Or.inl hz)) ?_ ReflTransGen.refl hrun x rfl
  intro y r hy hz z hr
  subst hr
  exact hturn y hy z (Or.inr hz)

/-! ## The other steps -/

theorem blockForResponse_moves {uniqueId : ℕ} (hdone : s.done uniqueId = true)
    (hsync : ∀ m ∈ s.queue, m.received = true → m.callBack = none)
    (h : blockForResponse uniqueId s = some (status, s')) :
    ReflTransGen (Move env) ⟨[], none, s⟩ ⟨[], none, s'⟩ := by
  unfold blockForResponse at h
  unfold Engine.done at hdone
  cases hentry : s.getEntry uniqueId with
  | none =>
    rw [hentry] at h
    obtain ⟨-, rfl⟩ := Prod.mk.inj (Option.some.inj h)
    exact ReflTransGen.single (Move.returned _ _)
  | some m =>
    rw [hentry] at h hdone
    obtain ⟨⟨result, t⟩, hdelete, h⟩ := Option.map_eq_some_iff.mp h
    obtain ⟨-, rfl⟩ := Prod.mk.inj h
    rcases Engine.deleteEntry_cases hdelete with ⟨hnone, -⟩ | ⟨l₁, m', l₂, hentry', hqueue, -, rfl⟩
    · rw [hentry] at hnone
      cases hnone
    · obtain rfl : m = m' := Option.some.inj (hentry.symm.trans hentry')
      have hcallback := hsync m (by simp [hqueue]) hdone
      exact (ReflTransGen.single (Move.finish l₁ l₂ m hqueue hcallback (Or.inr rfl))).tail (Move.returned _ _)

theorem callbackHeld_eq {reason : ℤ} (h : callbackHeld env m reason s = some s') :
    s' = { s with log := s.log ++ (m.owner.map fun c => Output.called c reason m.pdu).toList } := by
  unfold callbackHeld at h
  have hheld : ∀ c, callbackHeld.held env m reason s c = some s' → s' = s.logged (.called c reason m.pdu) := by
    intro c hc
    unfold callbackHeld.held at hc
    dsimp only at hc
    split at hc
    · exact (Option.some.inj hc).symm
    · cases hc
  split at h
  · rename_i hnone
    obtain rfl := Option.some.inj h
    simp [CSNMPMessage.owner, hnone]
  · rename_i c huser
    rw [hheld c h]
    simp [CSNMPMessage.owner, huser, Engine.logged, Callback.cbd]
  · rename_i data hv3
    split at h
    · cases h
    · rw [hheld _ h]
      simp [CSNMPMessage.owner, hv3, Engine.logged, Callback.cbd]

theorem eraseP_serial_split {l : List CSNMPMessage} (hs : (l.map (·.serial)).Nodup) (hm : m ∈ l) :
    ∃ l₁ l₂, l = l₁ ++ m :: l₂ ∧ l.eraseP (fun x => x.serial == m.serial) = l₁ ++ l₂ := by
  obtain ⟨l₁, l₂, rfl⟩ := List.append_of_mem hm
  refine ⟨l₁, l₂, rfl, ?_⟩
  rw [List.map_append, List.map_cons] at hs
  have hnot : ∀ x ∈ l₁, ¬ (x.serial == m.serial) = true := by
    intro x hx hserial
    have heq : x.serial = m.serial := by simpa using hserial
    exact List.disjoint_of_nodup_append hs (List.mem_map.mpr ⟨x, hx, heq⟩) (by simp)
  rw [List.eraseP_append_right _ hnot, List.eraseP_cons, beq_self_eq_true]
  rfl

theorem deleteSocketFrom_moves {socket : ℕ} {l : List CSNMPMessage} (hf : Frame.Numbered ⟨[], none, s⟩)
    (hl : l.Sublist s.queue) (h : deleteSocketFrom env socket l s = some s') :
    ReflTransGen (Move env) ⟨[], none, s⟩ ⟨[], none, s'⟩ := by
  induction l generalizing s with
  | nil =>
    cases h
    exact ReflTransGen.refl
  | cons m l ih =>
    rw [deleteSocketFrom] at h
    split at h
    · split at h
      · cases h
      rename_i hlocked
      obtain ⟨t, hcall, h⟩ := Option.bind_eq_some_iff.mp h
      have ht := callbackHeld_eq hcall
      have hmem : m ∈ s.queue := hl.subset (by simp)
      obtain ⟨l₁, l₂, hqueue, herase⟩ := eraseP_serial_split hf.serials hmem
      have hmove : Move env ⟨[], none, s⟩ _ := Move.destroyed l₁ l₂ m hqueue (by simpa using hlocked)
      have hrest : l.Sublist (l₁ ++ l₂) := by
        have hnodup : s.queue.Nodup := List.Nodup.of_map _ hf.serials
        rw [hqueue] at hl hnodup
        have hm : m ∉ l₁ := fun hm => List.disjoint_of_nodup_append hnodup hm (by simp)
        have hsub := hl.erase m
        rwa [List.erase_cons_head, List.erase_append_right _ hm, List.erase_cons_head] at hsub
      subst ht
      dsimp only at h
      rw [herase] at h
      exact (ReflTransGen.single hmove).trans (ih (hmove.numbered hf) hrest h)
    · exact ih hf ((List.sublist_cons_self m l).trans hl) h

end SnmpB.Transport
