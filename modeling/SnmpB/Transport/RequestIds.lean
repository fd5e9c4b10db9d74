import Mathlib.Data.Finset.Card
import Mathlib.Order.Interval.Finset.Nat
import SnmpB.Transport.Delivery

/-! # Request ids

The ids go round a range. A new request takes the next one that no outstanding message
has, so that a response can belong to one message only.
-/
namespace SnmpB.Transport
open Agent Discovery Relation

variable {env : Env} {s s' : Engine}

def ridCount : ℕ := pduMaxRid - pduMinRid + 1

theorem nextRid_eq {rid : ℕ} (h : RidRange rid) :
    nextRid rid = pduMinRid + (rid - pduMinRid + 1) % ridCount := by
  obtain ⟨hlow, hhigh⟩ := h
  unfold nextRid
  split
  · simp only [pduMinRid, pduMaxRid, ridCount] at *
    omega
  · simp only [pduMinRid, pduMaxRid, ridCount] at *
    omega

theorem nextRid_iterate {rid : ℕ} (h : RidRange rid) (k : ℕ) :
    RidRange (nextRid^[k] rid) ∧ nextRid^[k] rid = pduMinRid + (rid - pduMinRid + k) % ridCount := by
  induction k with
  | zero =>
    obtain ⟨hlow, hhigh⟩ := h
    refine ⟨⟨hlow, hhigh⟩, ?_⟩
    rw [Function.iterate_zero_apply]
    simp only [pduMinRid, pduMaxRid, ridCount] at *
    omega
  | succ k ih =>
    obtain ⟨hrange, heq⟩ := ih
    rw [Function.iterate_succ_apply']
    refine ⟨nextRid_range hrange, ?_⟩
    rw [nextRid_eq hrange, heq, Nat.add_sub_cancel_left, Nat.mod_add_mod, Nat.add_assoc]

/-- Going on from any id, every id of the range comes up. -/
theorem exists_iterate {rid other : ℕ} (h : RidRange rid) (hother : RidRange other) :
    ∃ k < ridCount, nextRid^[k + 1] rid = other := by
  obtain ⟨hlow, hhigh⟩ := h
  obtain ⟨hlow', hhigh'⟩ := hother
  refine ⟨(other + ridCount - rid - 1) % ridCount, Nat.mod_lt _ (by decide), ?_⟩
  rw [(nextRid_iterate ⟨hlow, hhigh⟩ _).2]
  simp only [pduMinRid, pduMaxRid, ridCount] at *
  omega

/-- The loop skips the ids that are in use, and takes the first that is not. -/
theorem makeReqIdLoop_eq (fuel : ℕ) (s : Engine) :
    (makeReqIdLoop fuel s = none ∧ ∀ k < fuel, nextRid^[k + 1] s.currentRid ∈ s.queue.map (·.uniqueId)) ∨
      ∃ k < fuel, (∀ j < k, nextRid^[j + 1] s.currentRid ∈ s.queue.map (·.uniqueId)) ∧
        nextRid^[k + 1] s.currentRid ∉ s.queue.map (·.uniqueId) ∧
        makeReqIdLoop fuel s =
          some (nextRid^[k + 1] s.currentRid, { s with currentRid := nextRid^[k + 1] s.currentRid }) := by
  induction fuel generalizing s with
  | zero => exact Or.inl ⟨rfl, by simp⟩
  | succ fuel ih =>
    have hused : ∀ {rid : ℕ}, (Engine.getEntry { s with currentRid := rid } rid).isSome = true ↔
        rid ∈ s.queue.map (·.uniqueId) := by
      intro rid
      rw [Option.isSome_iff_ne_none, Ne, Engine.getEntry_eq_none, not_not]
    rw [makeReqIdLoop]
    by_cases h : nextRid s.currentRid ∈ s.queue.map (·.uniqueId)
    · rw [if_pos (hused.mpr h)]
      have hcons : ∀ n, (∀ j < n, nextRid^[j + 1] (nextRid s.currentRid) ∈ s.queue.map (·.uniqueId)) →
          ∀ j < n + 1, nextRid^[j + 1] s.currentRid ∈ s.queue.map (·.uniqueId) := by
        intro n hn j hj
        cases j with
        | zero => exact h
        | succ j =>
          rw [Function.iterate_succ_apply]
          exact hn j (by omega)
      rcases ih { s with currentRid := nextRid s.currentRid } with ⟨hnone, hall⟩ | ⟨k, hk, hskip, hfree, heq⟩
      · exact Or.inl ⟨hnone, hcons fuel hall⟩
      · exact Or.inr ⟨k + 1, by omega, hcons k hskip, hfree, heq⟩
    · rw [if_neg (mt hused.mp h)]
      exact Or.inr ⟨0, by omega, by simp, h, rfl⟩

theorem myMakeReqId_eq_none_iff (hrid : RidRange s.currentRid) :
    myMakeReqId s = none ↔ ∀ rid, RidRange rid → rid ∈ s.queue.map (·.uniqueId) := by
  rcases makeReqIdLoop_eq (pduMaxRid - pduMinRid + 1) s with ⟨hnone, hall⟩ | ⟨k, hk, -, hfree, heq⟩
  · refine iff_of_true hnone fun rid hrange => ?_
    obtain ⟨k, hk, rfl⟩ := exists_iterate hrid hrange
    exact hall k hk
  · refine iff_of_false (by rw [myMakeReqId, heq]; simp) fun hall => ?_
    exact hfree (hall _ (nextRid_iterate hrid (k + 1)).1)

/-- Distinct ids of the range use it up exactly if there are as many of them. -/
theorem ids_full_iff {ids : List ℕ} (hnodup : ids.Nodup) (hrange : ∀ rid ∈ ids, RidRange rid) :
    (∀ rid, RidRange rid → rid ∈ ids) ↔ ids.length = ridCount := by
  have hcard : (Finset.Icc pduMinRid pduMaxRid).card = ridCount := by
    rw [Nat.card_Icc]
    rfl
  have hsub : ids.toFinset ⊆ Finset.Icc pduMinRid pduMaxRid := by
    intro rid hid
    exact Finset.mem_Icc.mpr (hrange rid (List.mem_toFinset.mp hid))
  rw [← List.toFinset_card_of_nodup hnodup, ← hcard]
  constructor
  · intro hall
    refine congrArg Finset.card (hsub.antisymm fun rid hid => ?_)
    exact List.mem_toFinset.mpr (hall rid (Finset.mem_Icc.mp hid))
  · intro hlength rid hid
    have heq := Finset.eq_of_subset_of_card_le hsub hlength.ge
    exact List.mem_toFinset.mp (heq ▸ Finset.mem_Icc.mpr hid)

/-! ## Sessions -/

variable {rid : ℕ} {es : List Event}

/-- Outstanding messages have ids of their own, and a new request finds one unless all are taken. -/
theorem requestIds_distinct (hrid : RidRange rid) (h : Runs.exec (step env) (Engine.init rid) es = some s) :
    (s.queue.map (·.uniqueId)).Nodup ∧ (∀ m ∈ s.queue, RidRange m.uniqueId) ∧
      (myMakeReqId s = none ↔ s.queue.length = ridCount) ∧
      ∀ id t, myMakeReqId s = some (id, t) → t = { s with currentRid := id } ∧ RidRange id ∧ s.getEntry id = none := by
  obtain ⟨hf, -, -⟩ := reached (P := fun _ => True) (fun _ _ _ _ _ => trivial) hrid trivial h
  have hrange : ∀ rid ∈ s.queue.map (·.uniqueId), RidRange rid := by
    rw [List.forall_mem_map]
    exact hf.range
  refine ⟨hf.ids, hf.range, ?_, fun id t hid => ?_⟩
  · rw [myMakeReqId_eq_none_iff hf.rid, ids_full_iff hf.ids hrange, List.length_map]
  · obtain ⟨ht, hin, hfree⟩ := makeReqIdLoop_spec hid hf.rid
    exact ⟨ht, hin, Engine.getEntry_eq_none.mpr hfree⟩

/-- A request with a long timeout, and a later one that is due earlier. -/
def twoRequests : List Event :=
  let r := sampleRequest .version2c
  [.ask .get { r with target := { r.target with timeout := 500 } } 7, .ask .get r 8]

theorem requestIds_distinct_sample :
    ∃ s, Runs.exec (step Env.sample) (Engine.init pduMaxRid) twoRequests = some s ∧
    s.queue.map (·.uniqueId) = [1001, 1000] ∧ (s.queue.map (·.uniqueId)).Nodup ∧ (∀ m ∈ s.queue, RidRange m.uniqueId) ∧
      (myMakeReqId s = none ↔ s.queue.length = ridCount) ∧
      ∀ id t, myMakeReqId s = some (id, t) → t = { s with currentRid := id } ∧ RidRange id ∧ s.getEntry id = none := by
  obtain ⟨s, h, hids⟩ := (Option.any_eq_true _ _).mp (by decide +kernel :
    (Runs.exec (step Env.sample) (Engine.init pduMaxRid) twoRequests).any
      (fun s => s.queue.map (·.uniqueId) = [1001, 1000]) = true)
  exact ⟨s, h, of_decide_eq_true hids, requestIds_distinct ⟨by decide, by decide⟩ h⟩

/-- A message is given up only after it has been sent as often as its target says, each time waiting
the whole timeout. -/
theorem timedOut_waited (hclock : Monotone env.clock) (hrid : RidRange rid)
    (h : Runs.exec (step env) (Engine.init rid) es = some s) {serial : ℕ} {now : Instant}
    (hout : .timedOut serial now ∈ s.log) :
    ∃ m₀, s.log[serial]? = some (.queued m₀) ∧
      (env.clock serial).val.ms + (1 + m₀.target.retry.toNat) * (m₀.target.timeout * 10) ≤ now.val.ms := by
  obtain ⟨-, hr, -⟩ := reached (P := fun _ => True) (fun _ _ _ _ _ => trivial) hrid trivial h
  obtain ⟨m₀, hm₀, rfl, hwaited⟩ := hr.log _ hout
  exact ⟨m₀, hm₀, hwaited hclock⟩

theorem timedOut_waited_sample : ∃ s, Runs.exec (step Env.sample) (Engine.init 1000) sampleEvents = some s ∧
    ∃ m₀, s.log[9]? = some (.queued m₀) ∧ (Env.sample.clock 9).val.ms +
      (1 + m₀.target.retry.toNat) * (m₀.target.timeout * 10) ≤ (Env.sample.clock 12).val.ms := by
  obtain ⟨s, h, hout⟩ := (Option.any_eq_true _ _).mp (by decide +kernel :
    (Runs.exec (step Env.sample) (Engine.init 1000) sampleEvents).any
      (fun s => .timedOut 9 (Env.sample.clock 12) ∈ s.log) = true)
  exact ⟨s, h, timedOut_waited Env.sample_monotone ⟨by decide, by decide⟩ h (of_decide_eq_true hout)⟩

/-- A response that is handed to a callback came in under the id that the request of this callback was queued
under, and its type answers that request. -/
theorem called_received (hrid : RidRange rid) (h : Runs.exec (step env) (Engine.init rid) es = some s) {c : ℕ}
    {reason : ℤ} {pdu : QueuePdu} (hout : .called c reason pdu ∈ s.log)
    (htype : pdu.type = .response ∨ pdu.type = .report) :
    ∃ m₀ p, .queued m₀ ∈ s.log ∧ m₀.owner = some c ∧ .received p ∈ s.log ∧ p.requestId = m₀.uniqueId ∧
      matchType m₀.pdu.type p.type = true ∧ pdu = stored m₀.pdu.type p := by
  obtain ⟨-, hr, -⟩ := reached (P := fun _ => True) (fun _ _ _ _ _ => trivial) hrid trivial h
  obtain ⟨m₀, hm₀, howner, rfl | ⟨p, hp⟩⟩ := hr.log _ hout
  · have htracked : PduType.tracked m₀.pdu.type = true := hr.log _ hm₀
    rcases htype with htype | htype
    · rw [htype] at htracked
      cases htracked
    · rw [htype] at htracked
      cases htracked
  · exact ⟨m₀, p, hm₀, howner, hp⟩

theorem called_received_sample : ∃ s, Runs.exec (step Env.sample) (Engine.init 1000) sampleEvents = some s ∧
    ∃ m₀ p, .queued m₀ ∈ s.log ∧ m₀.owner = some 7 ∧ .received p ∈ s.log ∧ p.requestId = m₀.uniqueId ∧
      matchType m₀.pdu.type p.type = true ∧ samplePdu 1002 .response [1, 3] = stored m₀.pdu.type p := by
  obtain ⟨s, h, hout⟩ := (Option.any_eq_true _ _).mp (by decide +kernel :
    (Runs.exec (step Env.sample) (Engine.init 1000) sampleEvents).any
      (fun s => .called 7 classAsyncResponse (samplePdu 1002 .response [1, 3]) ∈ s.log) = true)
  exact ⟨s, h, called_received ⟨by decide, by decide⟩ h (of_decide_eq_true hout) (Or.inl rfl)⟩

/-- Every sending of a message repeats its bytes. -/
theorem sent_same_bytes (hrid : RidRange rid) (h : Runs.exec (step env) (Engine.init rid) es = some s)
    {m m' : CSNMPMessage} {raw raw' : List ℕ} {ok ok' : Bool} (hserial : m.serial = m'.serial)
    (hout : .sent (some m) raw ok ∈ s.log) (hout' : .sent (some m') raw' ok' ∈ s.log) : raw = raw' := by
  obtain ⟨-, hr, -⟩ := reached (P := fun _ => True) (fun _ _ _ _ _ => trivial) hrid trivial h
  obtain ⟨m₀, hm₀, rfl⟩ := hr.log _ hout
  obtain ⟨m₁, hm₁, rfl⟩ := hr.log _ hout'
  rw [hserial, hm₁] at hm₀
  cases hm₀
  rfl

end SnmpB.Transport
