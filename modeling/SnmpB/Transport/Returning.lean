import SnmpB.Transport.RequestIds

/-! # Callbacks that return

A callback spins in `DeleteEntry` if it cancels the request it is called for, which is locked,
and in `MyMakeReqId` if it asks while all ids are taken. Nothing else keeps it from returning.
-/
namespace SnmpB.Transport
open Agent Discovery Relation

variable {env : Env} {o : List Owed} {b : Option ℕ} {s s' : Engine}

/-- The program cancels other requests than this one only. -/
def Program.Spares (uniqueId : ℕ) : Program → Prop
  | .ret => True
  | .ask _ _ _ k => ∀ log, (k log).Spares uniqueId
  | .response _ _ k => ∀ log, (k log).Spares uniqueId
  | .cancel other k => other ≠ uniqueId ∧ ∀ log, (k log).Spares uniqueId

/-- The program makes so many requests at most. -/
def Program.Asks : Program → ℕ → Prop
  | .ret, _ => True
  | .ask _ _ _ k, n => 0 < n ∧ ∀ log, (k log).Asks (n - 1)
  | .response _ _ k, n => ∀ log, (k log).Asks n
  | .cancel _ k, n => ∀ log, (k log).Asks n

/-- No callback cancels the request it is called for, and none makes more requests. -/
structure Env.Sparing (env : Env) (n : ℕ) : Prop where
  spares : ∀ log c reason pdu, (env.react log c reason pdu).Spares pdu.requestId
  asks : ∀ log c reason pdu, (env.react log c reason pdu).Asks n

/-- The queue has grown by so many messages at most, and none that is locked. -/
structure Grown (n : ℕ) (s s' : Engine) : Prop where
  length : s'.queue.length ≤ s.queue.length + n
  locked : ∀ m ∈ s'.queue, m.locked = true → m ∈ s.queue

theorem Grown.same {n : ℕ} (h : s'.queue = s.queue) : Grown n s s' :=
  ⟨h ▸ Nat.le_add_right _ _, fun _ hm _ => h ▸ hm⟩

theorem Grown.congr {n : ℕ} {t t' : Engine} (h : Grown n s t) (hs : s'.queue = s.queue) (ht : t'.queue = t.queue) :
    Grown n s' t' :=
  ⟨by rw [hs, ht]; exact h.length, by rw [hs, ht]; exact h.locked⟩

theorem Grown.trans {n k : ℕ} {t : Engine} (h : Grown n s t) (h' : Grown k t s') : Grown (n + k) s s' where
  length := by
    have hfirst := h.length
    have hsecond := h'.length
    omega
  locked m hm hlocked := h.locked m (h'.locked m hm hlocked) hlocked

/-- With room in the queue there is an id for one more message. -/
theorem myMakeReqId_isSome (hf : Frame.Numbered ⟨o, b, s⟩) (hroom : s.queue.length < ridCount) :
    ∃ x, myMakeReqId s = some x := by
  rw [← Option.ne_none_iff_exists', Ne, myMakeReqId_eq_none_iff hf.rid]
  have hrange : ∀ rid ∈ s.queue.map (·.uniqueId), RidRange rid := by
    rw [List.forall_mem_map]
    exact hf.range
  rw [ids_full_iff hf.ids hrange, List.length_map]
  exact hroom.ne

theorem sendTracked_isSome {m : CSNMPMessage} (hunlocked : m.locked = false) : ∃ x, sendTracked env m s = some x := by
  unfold sendTracked sendSnmpRequest
  dsimp only
  split
  · exact ⟨_, rfl⟩
  · simp [Engine.deleteEntry, Engine.getEntry, Engine.addEntry, Engine.logged, hunlocked]

theorem snmpEngine_isSome {r : Request} {cb fd : Option ℕ} {reports : ℕ} (hf : Frame.Numbered ⟨o, b, s⟩)
    (hroom : PduType.tracked r.pdu.action.mapAction = true → s.queue.length < ridCount) :
    ∃ x, snmpEngine env r cb fd reports s = some x := by
  unfold snmpEngine
  split
  · exact ⟨_, rfl⟩
  dsimp only
  split
  · rename_i htracked
    obtain ⟨⟨rid, t⟩, hrid⟩ := myMakeReqId_isSome hf (hroom htracked)
    rw [hrid]
    simp only [Option.bind_eq_bind, Option.bind_some]
    split
    · exact ⟨_, rfl⟩
    · exact sendTracked_isSome rfl
  · split
    · exact ⟨_, rfl⟩
    · exact ⟨_, rfl⟩

theorem snmpEngine_grown {r : Request} {cb fd : Option ℕ} {reports : ℕ} {status : ℤ}
    (h : snmpEngine env r cb fd reports s = some (status, s')) (hrid : RidRange s.currentRid) {n : ℕ}
    (hn : PduType.tracked r.pdu.action.mapAction = true → 1 ≤ n) : Grown n s s' := by
  rcases snmpEngine_cases h hrid with ⟨-, rfl⟩ | ⟨htracked, rid, -, hcases⟩ | ⟨-, raw, ok, rfl⟩
  · exact Grown.same rfl
  · rcases hcases with ⟨-, rfl⟩ | ⟨m, raw, -, hm, ⟨-, rfl⟩ | ⟨-, rfl⟩⟩
    · exact Grown.same rfl
    · refine ⟨Nat.add_le_add_left (hn htracked) _, fun x hx hlocked => ?_⟩
      rcases List.mem_cons.mp hx with rfl | hx
      · rw [hm.unlocked] at hlocked
        cases hlocked
      · exact hx
    · exact Grown.same rfl
  · exact Grown.same rfl

theorem call_isSome {c : AsyncCall} {action : PduAction} {r : Request} {cb : Option ℕ}
    (hf : Frame.Numbered ⟨o, b, s⟩) (hroom : s.queue.length < ridCount) :
    ∃ x, call env c action r cb s = some x := by
  unfold call
  cases c with
  | get | getNext | set | getBulk => exact snmpEngine_isSome hf fun _ => hroom
  | inform =>
    dsimp only
    split
    · exact ⟨_, rfl⟩
    · exact snmpEngine_isSome hf fun _ => hroom

theorem Snmp.ask_returns {c : AsyncCall} {r : Request} {cbd : ℕ} (hf : Frame.Numbered ⟨o, b, s⟩)
    (hroom : s.queue.length < ridCount) : ∃ x, Snmp.ask env c r cbd s = some x ∧ Grown 1 s x.2 := by
  have hasked : Frame.Numbered ⟨o, b, s.logged (.asked cbd r)⟩ := hf.write o [_] hf.rid
  have hsome : ∃ x, call env c c.action r (some cbd) (s.logged (.asked cbd r)) = some x := call_isSome hasked hroom
  obtain ⟨⟨status, t⟩, hcall⟩ := hsome
  have hgrown : Grown 1 s t := by
    rcases call_cases hcall with ⟨-, rfl⟩ | ⟨r', hengine, -⟩
    · exact Grown.same rfl
    · exact (snmpEngine_grown hengine hasked.rid fun _ => le_rfl).congr rfl rfl
  refine ⟨(status, if status ≠ classSuccess then t.logged (.refused cbd status) else t), ?_, ?_⟩
  · rw [Snmp.ask, hcall]
    rfl
  · refine hgrown.congr rfl ?_
    dsimp only
    split <;> rfl

theorem Snmp.cancel_returns {uniqueId : ℕ} (hunlocked : ∀ m ∈ s.queue, m.locked = true → m.uniqueId ≠ uniqueId) :
    ∃ x, Snmp.cancel uniqueId s = some x ∧ Grown 0 s x.2 := by
  have hdelete : ∃ x, s.deleteEntry uniqueId = some x ∧ Grown 0 s x.2 := by
    unfold Engine.deleteEntry
    split
    · exact ⟨_, rfl, Grown.same rfl⟩
    · rename_i m hentry
      obtain ⟨hm, hid⟩ := Engine.getEntry_mem hentry
      rw [if_neg fun hlocked => hunlocked m hm hlocked hid]
      exact ⟨_, rfl, List.length_eraseP_le, fun x hx _ => List.mem_of_mem_eraseP hx⟩
  obtain ⟨⟨status, t⟩, hdelete, hgrown⟩ := hdelete
  rw [Snmp.cancel, hdelete]
  refine ⟨_, rfl, hgrown.congr rfl ?_⟩
  cases (s.getEntry uniqueId).bind (·.callBack) <;> rfl

/-- A program that spares the locked message returns if there are ids for what it asks. -/
theorem Program.run_returns (p : Program) {n uniqueId : ℕ} (hspares : p.Spares uniqueId) (hasks : p.Asks n)
    (hf : Frame.Numbered ⟨o, b, s⟩) (hlocked : ∀ m ∈ s.queue, m.locked = true → m.uniqueId = uniqueId)
    (hroom : s.queue.length + n ≤ ridCount) : ∃ s', p.run env s = some s' ∧ Grown n s s' := by
  induction p generalizing s n with
  | ret => exact ⟨s, rfl, Grown.same rfl⟩
  | ask call r cbd k ih =>
    obtain ⟨hpos, hasks⟩ := hasks
    have hsome : ∃ x, Snmp.ask env call r cbd s = some x ∧ Grown 1 s x.2 := Snmp.ask_returns hf (by omega)
    obtain ⟨⟨status, t⟩, hask, hgrown⟩ := hsome
    have hlength := hgrown.length
    have hnumbered := numbered_of_inners (Snmp.ask_moves hask hf) hf
    obtain ⟨s', hrun, hrest⟩ := ih t.log (hspares t.log) (hasks t.log) hnumbered
      (fun m hm hl => hlocked m (hgrown.locked m hm hl) hl) (by dsimp only at hlength; omega)
    refine ⟨s', ?_, ?_⟩
    · rw [Program.run, hask]
      exact hrun
    · have hboth := hgrown.trans hrest
      rwa [Nat.add_sub_cancel' hpos] at hboth
  | response r fd k ih =>
    have hsome : ∃ x, Snmp.response env r fd s = some x := snmpEngine_isSome hf (by intro h; cases h)
    obtain ⟨⟨status, t⟩, hresponse⟩ := hsome
    have hgrown : Grown 0 s t := snmpEngine_grown hresponse hf.rid (by intro h; cases h)
    have hnumbered := numbered_of_inners (snmpEngine_blocking hresponse hf) hf
    obtain ⟨s', hrun, hrest⟩ := ih t.log (hspares t.log) (hasks t.log) hnumbered
      (fun m hm hl => hlocked m (hgrown.locked m hm hl) hl) (by have hlength := hgrown.length; omega)
    refine ⟨s', ?_, ?_⟩
    · rw [Program.run, hresponse]
      exact hrun
    · have hboth := hgrown.trans hrest
      rwa [Nat.zero_add] at hboth
  | cancel other k ih =>
    obtain ⟨hother, hspares⟩ := hspares
    have hsome : ∃ x, Snmp.cancel other s = some x ∧ Grown 0 s x.2 :=
      Snmp.cancel_returns fun m hm hl hid => hother (hid.symm.trans (hlocked m hm hl))
    obtain ⟨⟨status, t⟩, hcancel, hgrown⟩ := hsome
    have hmoves : ReflTransGen (Inner env) ⟨o, b, s⟩ ⟨o, b, t⟩ := Snmp.cancel_moves hcancel
    have hnumbered := numbered_of_inners hmoves hf
    obtain ⟨s', hrun, hrest⟩ := ih t.log (hspares t.log) (hasks t.log) hnumbered
      (fun m hm hl => hlocked m (hgrown.locked m hm hl) hl)
      (by have hlength := hgrown.length; dsimp only at hlength; omega)
    refine ⟨s', ?_, ?_⟩
    · rw [Program.run, hcancel]
      exact hrun
    · have hboth := hgrown.trans hrest
      rwa [Nat.zero_add] at hboth

theorem userCallBack_returns {n c : ℕ} {reason : ℤ} {pdu : QueuePdu} (henv : env.Sparing n)
    (hf : Frame.Numbered ⟨o, b, s⟩) (hlocked : ∀ m ∈ s.queue, m.locked = true → m.uniqueId = pdu.requestId)
    (hroom : s.queue.length + n ≤ ridCount) : ∃ s', userCallBack env c reason pdu s = some s' ∧ Grown n s s' := by
  obtain ⟨s', hrun, hgrown⟩ := Program.run_returns (s := s.logged (.called c reason pdu)) _
    (henv.spares (s.log ++ [.called c reason pdu]) c reason pdu) (henv.asks _ c reason pdu)
    (hf.write o [_] hf.rid) hlocked hroom
  exact ⟨s', hrun, hgrown.congr rfl rfl⟩

/-- A message that holds no report has no callback of the library's own to run. -/
theorem Callback.run_returns {n : ℕ} (cb : Callback) {reason : ℤ} {pdu : QueuePdu} (henv : env.Sparing n)
    (htracked : PduType.tracked pdu.type = true) (hf : Frame.Numbered ⟨o, b, s⟩)
    (hlocked : ∀ m ∈ s.queue, m.locked = true → m.uniqueId = pdu.requestId)
    (hroom : s.queue.length + n ≤ ridCount) : ∃ s', cb.run env reason pdu s = some s' ∧ Grown n s s' := by
  cases cb with
  | user c => exact userCallBack_returns henv hf hlocked hroom
  | v3CallBack data =>
    have hshown : data.hides pdu = false := by
      have hno : pdu.type ≠ .report := by
        intro hreport
        rw [hreport] at htracked
        cases htracked
      simp [V3CallBackData.hides, hno]
    rw [Callback.run, Snmp.v3CallBack, hshown]
    exact userCallBack_returns henv hf hlocked hroom

end SnmpB.Transport
