import SnmpB.Library.Runs
import SnmpB.Transport.Simulation

/-! # The event loop as moves

A message whose callback runs is locked, so that the callback finds it but cannot take
it out; afterwards the loop takes it out itself.
-/
namespace SnmpB.Transport
open Agent Discovery Relation

variable {env : Env} {o : List Owed} {b : Option ℕ} {s s' : Engine} {l₁ l₂ : List CSNMPMessage}
  {m : CSNMPMessage}

/-! ## Messages by their address and by their id -/

theorem Engine.modify_split (hs : (s.queue.map (·.serial)).Nodup) (hqueue : s.queue = l₁ ++ m :: l₂) {n : ℕ}
    (hn : n = m.serial) (f : CSNMPMessage → CSNMPMessage) :
    s.modify n f = { s with queue := l₁ ++ f m :: l₂ } := by
  subst hn
  rw [hqueue, List.map_append, List.map_cons] at hs
  have hperm : List.Perm (m.serial :: (l₁.map (·.serial) ++ l₂.map (·.serial)))
      (l₁.map (·.serial) ++ m.serial :: l₂.map (·.serial)) := List.perm_middle.symm
  have hnot := (List.nodup_cons.mp (hperm.nodup_iff.mpr hs)).1
  rw [List.mem_append, not_or] at hnot
  have hkeep : ∀ l : List CSNMPMessage, m.serial ∉ l.map (·.serial) →
      l.map (fun x => if x.serial = m.serial then f x else x) = l := by
    intro l hl
    conv_rhs => rw [← List.map_id l]
    refine List.map_congr_left fun x hx => ?_
    rw [if_neg fun hserial => hl (List.mem_map.mpr ⟨x, hx, hserial⟩)]
    rfl
  rw [Engine.modify, hqueue, List.map_append, List.map_cons, if_pos rfl, hkeep l₁ hnot.1, hkeep l₂ hnot.2]

/-- The same where another message has been written in its place. -/
theorem Engine.modify_replaced (hs : (s.queue.map (·.serial)).Nodup) (hqueue : s.queue = l₁ ++ m :: l₂)
    {x : CSNMPMessage} (hx : x.serial = m.serial) {n : ℕ} (hn : n = m.serial) (f : CSNMPMessage → CSNMPMessage) :
    Engine.modify { s with queue := l₁ ++ x :: l₂ } n f = { s with queue := l₁ ++ f x :: l₂ } := by
  refine Engine.modify_split (s := { s with queue := l₁ ++ x :: l₂ }) ?_ rfl (hn.trans hx.symm) f
  rw [hqueue] at hs
  simpa only [List.map_append, List.map_cons, hx] using hs

theorem Engine.getEntry_split (hids : (s.queue.map (·.uniqueId)).Nodup) (hqueue : s.queue = l₁ ++ m :: l₂) :
    s.getEntry m.uniqueId = some m := by
  refine List.find?_eq_some_iff_append.mpr ⟨by simp, l₁, l₂, hqueue, fun x hx => ?_⟩
  rw [hqueue, List.map_append, List.map_cons] at hids
  have hdisjoint := List.disjoint_of_nodup_append hids
  have hne : x.uniqueId ≠ m.uniqueId := by
    intro heq
    exact hdisjoint (List.mem_map.mpr ⟨x, hx, heq⟩) (by simp)
  simpa using hne

theorem Engine.deleteEntry_split (hids : (s.queue.map (·.uniqueId)).Nodup) (hqueue : s.queue = l₁ ++ m :: l₂)
    (hlocked : m.locked = false) :
    s.deleteEntry m.uniqueId = some (0, { s with queue := l₁ ++ l₂, msgCount := s.msgCount - 1 }) := by
  have hentry := Engine.getEntry_split hids hqueue
  cases hdelete : s.deleteEntry m.uniqueId with
  | none => simp [Engine.deleteEntry, hentry, hlocked] at hdelete
  | some x =>
    obtain ⟨status, t⟩ := x
    have hstatus : status = 0 := by
      simp only [Engine.deleteEntry, hentry, hlocked] at hdelete
      simpa using (congrArg Prod.fst (Option.some.inj hdelete)).symm
    subst hstatus
    rcases Engine.deleteEntry_cases hdelete with ⟨hnone, -⟩ | ⟨k₁, m', k₂, hentry', hqueue', -, rfl⟩
    · rw [hentry] at hnone
      cases hnone
    · obtain rfl : m = m' := Option.some.inj (hentry.symm.trans hentry')
      have hsame : k₁ ++ k₂ = l₁ ++ l₂ := by
        have hnodup : (l₁ ++ m :: l₂).Nodup := hqueue ▸ List.Nodup.of_map _ hids
        have herase := congrArg (·.erase m) (hqueue'.symm.trans hqueue)
        have hk : m ∉ k₁ := fun hm => by
          rw [← hqueue, hqueue'] at hnodup
          exact List.disjoint_of_nodup_append hnodup hm (by simp)
        have hl : m ∉ l₁ := fun hm => List.disjoint_of_nodup_append hnodup hm (by simp)
        simpa [List.erase_append_right _ hk, List.erase_append_right _ hl] using herase
      rw [hsame]

/-! ## What a callback leaves alone -/

theorem Inner.keeps {f g : Frame} (h : Inner env f g) (hm : m ∈ f.engine.queue) (hlocked : m.locked = true) :
    m ∈ g.engine.queue := by
  cases h with
  | asked | refused | rid | bounce | bounceBlocking | untracked | called => exact hm
  | issue | issueBlocking => exact List.mem_cons_of_mem _ hm
  | cancel l₁ l₂ x hqueue hunlocked =>
    have hne : m ≠ x := by
      rintro rfl
      rw [hlocked] at hunlocked
      cases hunlocked
    simp only [hqueue, List.mem_append, List.mem_cons] at hm ⊢
    tauto

theorem keeps_of_inners {f g : Frame} (h : ReflTransGen (Inner env) f g) (hm : m ∈ f.engine.queue)
    (hlocked : m.locked = true) : m ∈ g.engine.queue := by
  induction h with
  | refl => exact hm
  | tail _ hstep ih => exact hstep.keeps ih hlocked

theorem Inner.log_prefix {f g : Frame} (h : Inner env f g) : f.engine.log <+: g.engine.log := by
  cases h with
  | asked | refused | untracked | called => exact List.prefix_append _ _
  | rid => exact List.prefix_rfl
  | issue w m | issueBlocking m | bounce w m | bounceBlocking m =>
    exact (List.prefix_append _ [Output.queued m]).trans (List.prefix_append _ _)
  | cancel => exact List.prefix_append _ _

theorem moves_of_inners {f g : Frame} (h : ReflTransGen (Inner env) f g) : ReflTransGen (Move env) f g :=
  ReflTransGen.mono (fun _ _ => Move.inner) _ _ h

theorem numbered_of_moves {f g : Frame} (h : ReflTransGen (Move env) f g) (hf : f.Numbered) : g.Numbered := by
  induction h with
  | refl => exact hf
  | tail _ hstep ih => exact hstep.numbered ih

/-- A callback has run, and its message is unlocked and taken out. -/
theorem called_moves {cb : Callback} {reason : ℤ} (hf : Frame.Numbered ⟨o, some m.serial, s⟩)
    (hmem : m.calling ∈ s.queue) (source : CSNMPMessage) (h : cb.run env reason source.pdu s = some s') :
    ∃ k₁ k₂, s'.queue = k₁ ++ m.calling :: k₂ ∧
      (s'.setLocked m.serial false).deleteEntry m.uniqueId =
        some (0, { s' with queue := k₁ ++ k₂, msgCount := s'.msgCount - 1 }) ∧
      ReflTransGen (Inner env) ⟨⟨cb.cbd, cb.allowance, some source⟩ :: o, some m.serial, s⟩ ⟨o, some m.serial, s'⟩ ∧
      ReflTransGen (Move env) ⟨⟨cb.cbd, cb.allowance, some source⟩ :: o, some m.serial, s⟩
        ⟨o, none, { s' with queue := k₁ ++ k₂, msgCount := s'.msgCount - 1 }⟩ := by
  have hmoves := Callback.run_moves (m := source) hf h
  have hend := numbered_of_inners hmoves (hf.owing _)
  have hmem' : m.calling ∈ s'.queue := keeps_of_inners hmoves hmem rfl
  obtain ⟨k₁, k₂, hk⟩ := List.append_of_mem hmem'
  refine ⟨k₁, k₂, hk, ?_, hmoves,
    (moves_of_inners hmoves).tail (Move.finish k₁ k₂ m.calling hk rfl (Or.inl rfl))⟩
  have hids : ((k₁ ++ { m.calling with locked := false } :: k₂).map (·.uniqueId)).Nodup := by
    have hids := hend.ids
    rw [hk] at hids
    simpa only [List.map_append, List.map_cons] using hids
  rw [Engine.setLocked, Engine.modify_split (s := s') (m := m.calling) (n := m.serial) hend.serials hk rfl]
  exact Engine.deleteEntry_split (m := { m.calling with locked := false }) hids rfl rfl

theorem callback_none {reason : ℤ} (h : m.callBack = none) : callback env m reason s = some (1, s) := by
  rw [callback, h]

theorem callback_some {reason : ℤ} {cb : Callback} (h : m.callBack = some cb) :
    callback env m reason s =
      (cb.run env reason m.pdu (s.modify m.serial fun m => { m with callBack := none })).map fun s => (0, s) := by
  rw [callback, h]

/-! ## Datagrams -/

theorem answer_moves {m' : CSNMPMessage} {reason : ℤ} {p : QueuePdu} (hf : Frame.Numbered ⟨o, none, s⟩)
    (hqueue : s.queue = l₁ ++ m :: l₂) (hset : m.setPdu reason p = some m') (hid : p.requestId = m.uniqueId)
    (hreceived : .received p ∈ s.log) (h : answer env p.requestId m' s = some s') :
    ReflTransGen (Move env) ⟨o, none, s⟩ ⟨o, none, s'⟩ := by
  obtain ⟨hserial, huid, hlock, hcallback, -⟩ := CSNMPMessage.setPdu_frame hset
  have hunlocked : m'.locked = false := by
    rw [hlock, Bool.eq_false_iff]
    intro hlocked
    cases hf.locked m (by simp [hqueue]) hlocked
  rw [answer, Engine.modify_split hf.serials hqueue hserial] at h
  have hswap := Engine.modify_replaced (s := s) (x := { m' with locked := true }) hf.serials hqueue hserial hserial
  obtain ⟨⟨status, t⟩, hcall, h⟩ := Option.bind_eq_some_iff.mp h
  cases hcb : m'.callBack with
  | none =>
    rw [callback_none (m := { m' with locked := true }) hcb] at hcall
    obtain ⟨rfl, rfl⟩ := Prod.mk.inj (Option.some.inj hcall)
    have hsame : { m' with locked := false } = m' := by
      rw [← hunlocked]
    have hunlock := hswap fun m => { m with locked := false }
    rw [hsame] at hunlock
    obtain rfl := hunlock.symm.trans (Option.some.inj h)
    exact ReflTransGen.single (Move.answerBlocking l₁ l₂ m m' reason p hqueue (hcallback ▸ hcb) hreceived hid hset)
  | some cb =>
    have hmove : Move env ⟨o, none, s⟩ _ :=
      Move.answer l₁ l₂ m m' cb reason p hqueue (hcallback ▸ hcb) hreceived hid hset
    have hnumbered := hmove.numbered hf
    rw [callback_some (m := { m' with locked := true }) hcb] at hcall
    obtain ⟨t', hrun, ht⟩ := Option.map_eq_some_iff.mp hcall
    obtain ⟨rfl, rfl⟩ := Prod.mk.inj ht
    have htake := hswap fun m => { m with callBack := none }
    rw [← hserial] at hmove hnumbered
    obtain ⟨k₁, k₂, -, hdelete, -, hmoves⟩ :=
      called_moves (m := m') (hnumbered.owing o) (by simp) m' ((congrArg _ htake).symm.trans hrun)
    dsimp only at h
    rw [if_pos rfl, hid, ← huid, hdelete] at h
    cases h
    exact (ReflTransGen.single hmove).trans hmoves

theorem handleEvents_moves {d : Datagram} (hf : Frame.Numbered ⟨o, none, s⟩) (h : handleEvents env d s = some s') :
    ReflTransGen (Move env) ⟨o, none, s⟩ ⟨o, none, s'⟩ := by
  unfold handleEvents at h
  split at h
  · cases h
    exact ReflTransGen.refl
  dsimp only at h
  have hreceive : Move env ⟨o, none, s⟩ _ := Move.receive d.pdu
  have hstart := ReflTransGen.single hreceive
  split at h
  · cases h
    exact hstart
  rename_i m hentry
  split at h
  · cases h
  split at h
  · cases h
    exact hstart
  rename_i m' hset
  obtain ⟨hmem, hid⟩ := Engine.getEntry_mem hentry
  obtain ⟨l₁, l₂, hqueue⟩ := List.append_of_mem hmem
  have hreceived : Output.received d.pdu ∈ (s.logged (.received d.pdu)).log := by simp [Engine.logged]
  exact hstart.trans (answer_moves (hreceive.numbered hf) hqueue hset hid.symm hreceived h)

end SnmpB.Transport
