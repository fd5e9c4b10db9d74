import SnmpB.Discovery.Sweep

/-! # Which address an iteration targets

The address is advanced on the path that success and failure share, so the
iterations count through the addresses whatever happens to their messages.
-/
namespace SnmpB.Discovery

/-- Nothing stops the loop: no message that was built fails to be sent, and nobody aborts. -/
def Unstopped (version : SnmpVersion) (useProbe : Bool) (outcome : ℕ → Outcome) : Prop :=
  ∀ j, (outcome j).aborting = false ∧ (builds version useProbe (outcome j) = true → (outcome j).sent = true)

theorem Cursor.Tracks.lt {c : Cursor} {v : ℕ} (h : c.Tracks v) : v < space c.curAddress.ipVersion := by
  rw [← h.1]
  exact number_lt _ _

theorem sendLoop_head {version : SnmpVersion} {useProbe : Bool} {outcome : ℕ → Outcome} {remaining j : ℕ}
    {c : Cursor} {it : Iteration} (h : (sendLoop version useProbe outcome remaining j c).1[0]? = some it) :
    it.target = c.curAddress := by
  cases remaining with
  | zero => cases h
  | succ remaining =>
    rw [sendLoop] at h
    simp only at h
    split at h
    · cases h
      rfl
    · split at h
      · cases h
        rfl
      · cases h
        rfl

/-- Success and failure go on with the same cursor. -/
theorem sendLoop_tail {version : SnmpVersion} {useProbe : Bool} {outcome : ℕ → Outcome} {remaining j i : ℕ}
    {c : Cursor} {it : Iteration}
    (h : (sendLoop version useProbe outcome remaining j c).1[i + 1]? = some it) :
    ∃ remaining', (sendLoop version useProbe outcome remaining' (j + 1) c.next).1[i]? = some it := by
  cases remaining with
  | zero => cases h
  | succ remaining =>
    rw [sendLoop] at h
    simp only at h
    split at h
    · cases h
    · split at h
      · cases h
      · rw [List.getElem?_cons_succ] at h
        exact ⟨remaining, h⟩

theorem sendLoop_target {version : SnmpVersion} {useProbe : Bool} {outcome : ℕ → Outcome}
    {remaining j : ℕ} {c : Cursor} {v : ℕ} (hc : c.Tracks v) {i : ℕ} {it : Iteration}
    (h : (sendLoop version useProbe outcome remaining j c).1[i]? = some it) :
    it.target.number = (v + i) % space c.curAddress.ipVersion ∧
    it.target.ipVersion = c.curAddress.ipVersion ∧ it.target.port = c.curAddress.port := by
  induction i generalizing remaining j c v with
  | zero =>
    rw [sendLoop_head h, Nat.add_zero, Nat.mod_eq_of_lt hc.lt]
    exact ⟨hc.1, rfl, rfl⟩
  | succ i ih =>
    obtain ⟨remaining', hrest⟩ := sendLoop_tail h
    obtain ⟨hnumber, hversion, hport⟩ := ih (Cursor.next_wraps hc) hrest
    rw [Cursor.next_ipVersion] at hnumber hversion
    rw [Cursor.next_port] at hport
    refine ⟨?_, hversion, hport⟩
    rw [hnumber, Nat.mod_add_mod, Nat.add_assoc, Nat.add_comm 1 i]

theorem sendLoop_length {version : SnmpVersion} {useProbe : Bool} {outcome : ℕ → Outcome}
    (ho : Unstopped version useProbe outcome) (remaining j : ℕ) (c : Cursor) :
    (sendLoop version useProbe outcome remaining j c).1.length = remaining := by
  induction remaining generalizing j c with
  | zero => rfl
  | succ remaining ih =>
    obtain ⟨haborting, hsent⟩ := ho j
    have hgoing : (builds version useProbe (outcome j) && !(outcome j).sent) = false := by
      cases hbuilt : builds version useProbe (outcome j) with
      | false => rfl
      | true => rw [hsent hbuilt]; rfl
    rw [sendLoop]
    simp only [hgoing, haborting, Bool.false_eq_true, ↓reduceIte, List.length_cons, ih]

/-- Main result: iteration `j` targets the start address plus `j` whatever messages cannot be built, and
where nothing stops the loop there is an iteration for every address. -/
theorem sendProbes_targets (version : SnmpVersion) (useProbe : Bool) (outcome : ℕ → Outcome)
    (startAddr : UdpAddress) (numAddr : BitVec 64) :
    (∀ j it, (sendProbes version useProbe outcome startAddr numAddr).1[j]? = some it →
      it.target.number = (startAddr.number + j) % space startAddr.ipVersion ∧
      it.target.ipVersion = startAddr.ipVersion ∧ it.target.port = startAddr.port) ∧
    (Unstopped version useProbe outcome →
      (sendProbes version useProbe outcome startAddr numAddr).1.length = numAddr.toNat) := by
  refine ⟨fun j it h => ?_, fun ho => sendLoop_length ho _ _ _⟩
  have htarget := sendLoop_target (Cursor.start_tracks startAddr) h
  rwa [Cursor.start_curAddress] at htarget

end SnmpB.Discovery
