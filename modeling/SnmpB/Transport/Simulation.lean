import SnmpB.Transport.Moves

/-! # Steps of the engine as moves

What each function of the engine does to its state, told by the moves it makes.
-/
namespace SnmpB.Transport
open Agent Discovery Relation

variable {env : Env}

/-! ## Requests -/

theorem Request.refusal_ne {r : Request} {cb : Bool} {status : ℤ} (h : r.refusal cb = some status) :
    status ≠ classSuccess := by
  unfold Request.refusal at h
  repeat' split at h
  all_goals
    first
    | (obtain rfl := Option.some.inj h; decide)
    | cases h

theorem nextRid_range {rid : ℕ} (h : RidRange rid) : RidRange (nextRid rid) := by
  obtain ⟨hlow, hhigh⟩ := h
  unfold RidRange nextRid
  split
  · decide
  · omega

theorem makeReqIdLoop_spec {fuel : ℕ} {s s' : Engine} {rid : ℕ} (h : makeReqIdLoop fuel s = some (rid, s'))
    (hrid : RidRange s.currentRid) :
    s' = { s with currentRid := rid } ∧ RidRange rid ∧ rid ∉ s.queue.map (·.uniqueId) := by
  induction fuel generalizing s with
  | zero => cases h
  | succ fuel ih =>
    have hnext := nextRid_range hrid
    rw [makeReqIdLoop] at h
    split at h
    · exact ih (s := { s with currentRid := nextRid s.currentRid }) h hnext
    · rename_i hfree
      obtain ⟨rfl, rfl⟩ := Prod.mk.inj (Option.some.inj h)
      exact ⟨rfl, hnext, Engine.getEntry_eq_none.mp (Option.not_isSome_iff_eq_none.mp hfree)⟩

theorem bulkOverV1_tracked {type : PduType} {version : SnmpVersion} (h : PduType.tracked type = true) :
    PduType.tracked (bulkOverV1 type version) = true := by
  unfold bulkOverV1
  split
  · rfl
  · exact h

theorem Request.prepared_retry (r : Request) : r.prepared.target.retry = r.target.retry := by
  unfold Request.prepared SnmpTarget.withPort
  dsimp only
  split <;> rfl

theorem Request.prepared_version (r : Request) : r.prepared.target.version = r.target.version := by
  unfold Request.prepared SnmpTarget.withPort
  dsimp only
  split <;> rfl

theorem Request.prepared_action (r : Request) : r.prepared.pdu.action = r.pdu.action := by
  unfold Request.prepared
  dsimp only
  split <;> rfl

theorem Request.prepared_sends (r : Request) : r.prepared.sends = r.sends := by
  rw [Request.sends, Request.prepared_retry, Request.sends]

theorem PduAction.tracked_of_async {action : PduAction} (h : action.async = true) :
    PduType.tracked action.mapAction = true := by
  cases action <;> first | rfl | cases h

theorem sendTracked_cases {m : CSNMPMessage} {s s' : Engine} {status : ℤ}
    (h : sendTracked env m s = some (status, s')) (hunlocked : m.locked = false) :
    status = classSuccess ∧ s' = s.issued m ∨ status = classTlFailed ∧ s' = s.bounced m := by
  unfold sendTracked sendSnmpRequest at h
  dsimp only at h
  split at h
  · rename_i hok
    rw [hok] at h
    obtain ⟨rfl, rfl⟩ := Prod.mk.inj (Option.some.inj h)
    exact Or.inl ⟨rfl, rfl⟩
  · rename_i hok
    rw [Bool.eq_false_iff.mpr hok] at h
    simp [Engine.deleteEntry, Engine.getEntry, Engine.addEntry, Engine.logged, hunlocked] at h
    obtain ⟨rfl, rfl⟩ := h
    exact Or.inr ⟨rfl, by simp [Engine.bounced, Engine.logged]⟩

theorem newMessage_fresh {s : Engine} {rid : ℕ} {r : Request} {fd : Option ℕ} {raw : List ℕ}
    {callBack : Option Callback} (hrange : RidRange rid) (hunused : rid ∉ s.queue.map (·.uniqueId))
    (htracked : PduType.tracked r.pdu.action.mapAction = true) :
    Fresh env s (newMessage env s rid r fd raw callBack) :=
  ⟨rfl, hunused, hrange, rfl, rfl, rfl, bulkOverV1_tracked htracked, rfl⟩

/-- What `snmp_engine` can do: refuse, use up a request id, issue a message, or send one that nobody waits for. -/
theorem snmpEngine_cases {r : Request} {cb fd : Option ℕ} {reports : ℕ} {s s' : Engine} {status : ℤ}
    (h : snmpEngine env r cb fd reports s = some (status, s')) (hrid : RidRange s.currentRid) :
    (status ≠ classSuccess ∧ s' = s) ∨
    (PduType.tracked r.pdu.action.mapAction = true ∧ ∃ rid, RidRange rid ∧
      ((status ≠ classSuccess ∧ s' = { s with currentRid := rid }) ∨
        ∃ m raw, m = newMessage env { s with currentRid := rid } rid r.prepared fd raw (r.prepared.callBack cb reports) ∧
          Fresh env { s with currentRid := rid } m ∧
          (status = classSuccess ∧ s' = Engine.issued { s with currentRid := rid } m ∨
            status = classTlFailed ∧ s' = Engine.bounced { s with currentRid := rid } m))) ∨
    (PduType.tracked r.pdu.action.mapAction = false ∧ ∃ raw ok, s' = s.logged (.sent none raw ok)) := by
  unfold snmpEngine at h
  split at h
  · rename_i refusal hrefusal
    obtain ⟨rfl, rfl⟩ := Prod.mk.inj (Option.some.inj h)
    exact Or.inl ⟨Request.refusal_ne hrefusal, rfl⟩
  dsimp only at h
  split at h
  case isTrue htracked =>
    refine Or.inr (Or.inl ⟨htracked, ?_⟩)
    obtain ⟨⟨rid, t⟩, hrid', h⟩ := Option.bind_eq_some_iff.mp h
    obtain ⟨rfl, hrange, hunused⟩ := makeReqIdLoop_spec hrid' hrid
    refine ⟨rid, hrange, ?_⟩
    dsimp only at h
    split at h
    · rename_i hload
      obtain ⟨rfl, rfl⟩ := Prod.mk.inj (Option.some.inj h)
      exact Or.inl ⟨hload, rfl⟩
    · refine Or.inr ⟨_, _, rfl, ?_, sendTracked_cases h rfl⟩
      exact newMessage_fresh hrange hunused (by rwa [Request.prepared_action])
  case isFalse htracked =>
    split at h
    · rename_i hload
      obtain ⟨rfl, rfl⟩ := Prod.mk.inj (Option.some.inj h)
      exact Or.inl ⟨hload, rfl⟩
    · obtain ⟨-, rfl⟩ := Prod.mk.inj (Option.some.inj h)
      exact Or.inr (Or.inr ⟨by simpa using htracked, _, _, rfl⟩)

theorem Request.callBack_owner (r : Request) (c reports : ℕ) :
    (r.callBack (some c) reports).map Callback.cbd = some c := by
  unfold Request.callBack
  rw [Option.map_some, Option.map_some]
  split <;> rfl

/-- An attempt takes its share of what the request may send. -/
theorem newMessage_left {s : Engine} {rid : ℕ} {r : Request} {fd : Option ℕ} {raw : List ℕ} {c reports : ℕ}
    (hreports : reports ≤ 2) :
    1 + (newMessage env s rid r.prepared fd raw (r.prepared.callBack (some c) reports)).left ≤
      r.attempts reports * r.sends := by
  have hsends : 1 + r.prepared.target.retry.toNat = r.sends := r.prepared_sends
  have hone : 1 ≤ r.attempts reports := by
    unfold Request.attempts
    split <;> omega
  unfold CSNMPMessage.left newMessage Request.callBack
  rw [Option.map_some]
  dsimp only [Option.elim]
  split
  case isTrue h =>
    have hattempts : r.attempts reports = (2 - reports) + 1 := by
      rw [Request.attempts, if_pos (r.prepared_version ▸ h.1)]
      omega
    rw [Callback.allowance, Request.prepared_sends, ← Nat.add_assoc, hsends, hattempts, Nat.succ_mul, Nat.add_comm]
  case isFalse =>
    rw [Callback.allowance, Nat.add_zero, hsends]
    exact Nat.le_mul_of_pos_left _ hone

/-! ## What callbacks do -/

variable {o : List Owed} {b : Option ℕ} {s s' : Engine}

/-- A request with a callback: it ends in the queue, or it is still owed. -/
theorem snmpEngine_owed {r : Request} {c reports : ℕ} {fd : Option ℕ} {status : ℤ}
    (h : snmpEngine env r (some c) fd reports s = some (status, s')) (hasync : r.pdu.action.async = true)
    (hreports : reports ≤ 2) (hf : Frame.Numbered ⟨o, b, s⟩) (w : Owed) (hw : w.cbd = c)
    (hallowance : r.attempts reports * r.sends ≤ w.allowance) :
    (status = classSuccess ∧ ReflTransGen (Inner env) ⟨w :: o, b, s⟩ ⟨o, b, s'⟩) ∨
      (status ≠ classSuccess ∧
        ∃ allowance, ReflTransGen (Inner env) ⟨w :: o, b, s⟩ ⟨{ w with allowance } :: o, b, s'⟩) := by
  rcases snmpEngine_cases h hf.rid with ⟨hstatus, rfl⟩ | ⟨-, rid, hrange, hcases⟩ | ⟨huntracked, -⟩
  · exact Or.inr ⟨hstatus, w.allowance, ReflTransGen.refl⟩
  · have hmove : ReflTransGen (Inner env) ⟨w :: o, b, s⟩ ⟨w :: o, b, { s with currentRid := rid }⟩ :=
      ReflTransGen.single (Inner.rid rid hrange)
    rcases hcases with ⟨hstatus, rfl⟩ | ⟨m, raw, hnew, hm, hend⟩
    · exact Or.inr ⟨hstatus, w.allowance, hmove⟩
    · have howner : m.owner = some w.cbd := by
        rw [hnew, hw]
        exact Request.callBack_owner r.prepared c reports
      have hleft : 1 + m.left ≤ w.allowance := by
        rw [hnew]
        exact (newMessage_left hreports).trans hallowance
      rcases hend with ⟨rfl, rfl⟩ | ⟨rfl, rfl⟩
      · exact Or.inl ⟨rfl, hmove.tail (Inner.issue w m hm howner hleft)⟩
      · have hone := (Nat.le_add_right 1 _).trans hleft
        exact Or.inr ⟨by decide, w.allowance - 1, hmove.tail (Inner.bounce w m hm howner hone)⟩
  · rw [PduAction.tracked_of_async hasync] at huntracked
    cases huntracked

theorem snmpEngine_blocking {r : Request} {reports : ℕ} {fd : Option ℕ} {status : ℤ}
    (h : snmpEngine env r none fd reports s = some (status, s')) (hf : Frame.Numbered ⟨o, b, s⟩) :
    ReflTransGen (Inner env) ⟨o, b, s⟩ ⟨o, b, s'⟩ := by
  rcases snmpEngine_cases h hf.rid with ⟨-, rfl⟩ | ⟨-, rid, hrange, hcases⟩ | ⟨-, raw, ok, rfl⟩
  · exact ReflTransGen.refl
  · have hmove : ReflTransGen (Inner env) ⟨o, b, s⟩ ⟨o, b, { s with currentRid := rid }⟩ :=
      ReflTransGen.single (Inner.rid rid hrange)
    rcases hcases with ⟨-, rfl⟩ | ⟨m, raw, rfl, hm, ⟨-, rfl⟩ | ⟨-, rfl⟩⟩
    · exact hmove
    · exact hmove.tail (Inner.issueBlocking _ hm rfl)
    · exact hmove.tail (Inner.bounceBlocking _ hm rfl)
  · exact ReflTransGen.single (Inner.untracked raw ok)

theorem call_cases {c : AsyncCall} {action : PduAction} {r : Request} {cb : Option ℕ} {status : ℤ}
    (h : call env c action r cb s = some (status, s')) :
    (status ≠ classSuccess ∧ s' = s) ∨
      ∃ r' : Request, snmpEngine env r' cb none 0 s = some (status, s') ∧
        r'.pdu.action = action ∧ r'.target = r.target ∧ r'.pdu.vblist = r.pdu.vblist := by
  unfold call at h
  cases c with
  | get | getNext | set | getBulk => exact Or.inr ⟨_, h, rfl, rfl, rfl⟩
  | inform =>
    dsimp only at h
    split at h
    · obtain ⟨rfl, rfl⟩ := Prod.mk.inj (Option.some.inj h)
      exact Or.inl ⟨by decide, rfl⟩
    · refine Or.inr ⟨_, h, ?_, rfl, ?_⟩
      · dsimp only [checkNotifyTimestamp]
        split <;> rfl
      · dsimp only [checkNotifyTimestamp]
        split <;> rfl

theorem AsyncCall.action_async (c : AsyncCall) : c.action.async = true := by
  cases c <;> rfl

theorem Snmp.ask_moves {c : AsyncCall} {r : Request} {cbd : ℕ} {status : ℤ}
    (h : Snmp.ask env c r cbd s = some (status, s')) (hf : Frame.Numbered ⟨o, b, s⟩) :
    ReflTransGen (Inner env) ⟨o, b, s⟩ ⟨o, b, s'⟩ := by
  obtain ⟨⟨result, t⟩, hcall, h⟩ := Option.bind_eq_some_iff.mp h
  obtain ⟨rfl, rfl⟩ := Prod.mk.inj (Option.some.inj h)
  have hask : Inner env ⟨o, b, s⟩ _ := Inner.asked cbd r
  have hasked := hask.numbered hf
  have hstart := ReflTransGen.single hask
  rcases call_cases hcall with ⟨hstatus, rfl⟩ | ⟨r', hengine, haction, htarget, -⟩
  · rw [if_pos hstatus]
    exact hstart.tail (Inner.refused _ _)
  · have hallowance : r'.attempts 0 * r'.sends ≤ r.attempts 0 * r.sends := by
      rw [Request.attempts, Request.sends, htarget, ← Request.attempts, ← Request.sends]
    have hengine := snmpEngine_owed (o := o) (b := b) hengine (haction ▸ c.action_async) (by omega)
      ⟨hasked.ids, hasked.range, hasked.rid, hasked.serials, hasked.serial_lt, hasked.count, hasked.locked⟩
      ⟨cbd, r.attempts 0 * r.sends, none⟩ rfl hallowance
    rcases hengine with ⟨hstatus, hmoves⟩ | ⟨hstatus, allowance, hmoves⟩
    · rw [if_neg (not_not.mpr hstatus)]
      exact hstart.trans hmoves
    · rw [if_pos hstatus]
      exact (hstart.trans hmoves).tail (Inner.refused _ _)

/-- What `DeleteEntry` takes out. -/
theorem Engine.deleteEntry_cases {uniqueId : ℕ} {status : ℤ} (h : s.deleteEntry uniqueId = some (status, s')) :
    (s.getEntry uniqueId = none ∧ s' = s) ∨
      ∃ l₁ m l₂, s.getEntry uniqueId = some m ∧ s.queue = l₁ ++ m :: l₂ ∧ m.locked = false ∧
        s' = { s with queue := l₁ ++ l₂, msgCount := s.msgCount - 1 } := by
  unfold Engine.deleteEntry at h
  split at h
  · rename_i hnone
    obtain ⟨-, rfl⟩ := Prod.mk.inj (Option.some.inj h)
    exact Or.inl ⟨hnone, rfl⟩
  · rename_i m hentry
    split at h
    · cases h
    · rename_i hlocked
      obtain ⟨-, rfl⟩ := Prod.mk.inj (Option.some.inj h)
      obtain ⟨hm, l₁, l₂, hqueue, hbefore⟩ := List.find?_eq_some_iff_append.mp hentry
      refine Or.inr ⟨l₁, m, l₂, hentry, hqueue, by simpa using hlocked, ?_⟩
      have herase : s.queue.eraseP (fun m => m.uniqueId == uniqueId) = l₁ ++ l₂ := by
        rw [hqueue, List.eraseP_append_right _ (by simpa using hbefore), List.eraseP_cons, hm]
        rfl
      rw [herase]

theorem Snmp.cancel_moves {uniqueId : ℕ} {status : ℤ} (h : Snmp.cancel uniqueId s = some (status, s')) :
    ReflTransGen (Inner env) ⟨o, b, s⟩ ⟨o, b, s'⟩ := by
  obtain ⟨⟨result, t⟩, hdelete, h⟩ := Option.bind_eq_some_iff.mp h
  obtain ⟨rfl, rfl⟩ := Prod.mk.inj (Option.some.inj h)
  rcases Engine.deleteEntry_cases hdelete with ⟨hnone, rfl⟩ | ⟨l₁, m, l₂, hentry, hqueue, hlocked, rfl⟩
  · rw [hnone]
    exact ReflTransGen.refl
  · rw [hentry]
    have hmove : ReflTransGen (Inner env) ⟨o, b, _⟩ _ := ReflTransGen.single (Inner.cancel l₁ l₂ m hqueue hlocked)
    unfold CSNMPMessage.owner at hmove
    cases hcallback : m.callBack with
    | none => simpa [hcallback] using hmove
    | some cb => simpa [hcallback, Engine.logged] using hmove

theorem Program.run_moves (p : Program) (hf : Frame.Numbered ⟨o, b, s⟩) (h : p.run env s = some s') :
    ReflTransGen (Inner env) ⟨o, b, s⟩ ⟨o, b, s'⟩ := by
  induction p generalizing s with
  | ret =>
    cases h
    exact ReflTransGen.refl
  | ask call r cbd k ih =>
    obtain ⟨⟨status, t⟩, hask, h⟩ := Option.bind_eq_some_iff.mp h
    have hmoves := Snmp.ask_moves hask hf
    exact hmoves.trans (ih t.log (numbered_of_inners hmoves hf) h)
  | response r fd k ih =>
    obtain ⟨⟨status, t⟩, hresponse, h⟩ := Option.bind_eq_some_iff.mp h
    have hmoves := snmpEngine_blocking hresponse hf
    exact hmoves.trans (ih t.log (numbered_of_inners hmoves hf) h)
  | cancel uniqueId k ih =>
    obtain ⟨⟨status, t⟩, hcancel, h⟩ := Option.bind_eq_some_iff.mp h
    have hmoves : ReflTransGen (Inner env) ⟨o, b, s⟩ ⟨o, b, t⟩ := Snmp.cancel_moves hcancel
    exact hmoves.trans (ih t.log (numbered_of_inners hmoves hf) h)

/-- Numbers do not depend on what is owed. -/
theorem Frame.Numbered.owing (hf : Frame.Numbered ⟨o, b, s⟩) (o' : List Owed) : Frame.Numbered ⟨o', b, s⟩ :=
  ⟨hf.ids, hf.range, hf.rid, hf.serials, hf.serial_lt, hf.count, hf.locked⟩

theorem userCallBack_moves {reason : ℤ} {w : Owed} {m : CSNMPMessage} (hsource : w.source = some m)
    (hf : Frame.Numbered ⟨o, b, s⟩) (h : userCallBack env w.cbd reason m.pdu s = some s') :
    ReflTransGen (Inner env) ⟨w :: o, b, s⟩ ⟨o, b, s'⟩ := by
  have hcalled : Inner env ⟨w :: o, b, s⟩ _ := Inner.called w m reason hsource
  have hnumbered := hcalled.numbered (hf.owing _)
  exact (ReflTransGen.single hcalled).trans (Program.run_moves _ hnumbered h)

theorem V3CallBackData.reports_le {data : V3CallBackData} {p : QueuePdu} (h : data.hides p = true) :
    data.reportsReceived ≤ 1 := by
  simp only [V3CallBackData.hides, Bool.and_eq_true, Bool.or_eq_true, beq_iff_eq, decide_eq_true_eq] at h
  omega

/-- A callback that has been taken out of its message is called, or goes back into the queue. -/
theorem Callback.run_moves {cb : Callback} {reason : ℤ} {m : CSNMPMessage} (hf : Frame.Numbered ⟨o, b, s⟩)
    (h : cb.run env reason m.pdu s = some s') :
    ReflTransGen (Inner env) ⟨⟨cb.cbd, cb.allowance, some m⟩ :: o, b, s⟩ ⟨o, b, s'⟩ := by
  cases cb with
  | user cbd => exact userCallBack_moves (w := ⟨cbd, _, some m⟩) rfl hf h
  | v3CallBack data =>
    rw [Callback.run, Snmp.v3CallBack] at h
    split at h
    · rename_i hhides
      have hreports := V3CallBackData.reports_le hhides
      obtain ⟨⟨rc, t⟩, hengine, h⟩ := Option.bind_eq_some_iff.mp h
      have hallowance : data.request.attempts (data.reportsReceived + 1) * data.request.sends ≤
          (2 - data.reportsReceived) * data.request.sends := by
        refine Nat.mul_le_mul_right _ ?_
        unfold Request.attempts
        split <;> omega
      have hmoves := snmpEngine_owed hengine data.async (by omega) hf
        ⟨data.cbd, (2 - data.reportsReceived) * data.request.sends, some m⟩ rfl hallowance
      dsimp only at h
      rcases hmoves with ⟨hrc, hmoves⟩ | ⟨hrc, allowance, hmoves⟩
      · rw [if_neg (not_not.mpr hrc)] at h
        cases h
        exact hmoves
      · rw [if_pos hrc] at h
        have hnumbered := numbered_of_inners hmoves (hf.owing _)
        exact hmoves.trans (userCallBack_moves (w := ⟨data.cbd, allowance, some m⟩) rfl (hnumbered.owing _) h)
    · exact userCallBack_moves (w := ⟨data.cbd, _, some m⟩) rfl hf h

end SnmpB.Transport
