import SnmpB.Agent.Session

/-! # Stopping a walk

`Stop` sets the one stop flag, and every start function that gets past `Setup`
clears it. A stopped walk therefore sends nothing more as long as no query is
started before its next callback.
-/
namespace SnmpB.Agent

variable {env : Printing}

def Event.Restarts (e : Event) (a : AgentState) : Prop :=
  ∃ oid usevblist, e.starts = some (oid, usevblist) ∧ (setup a oid usevblist).isSome

namespace Session

/-- A walk whose next callback, if there is one, meets the stop flag. -/
structure Stopped (walk : ℕ) (s : Session) : Prop where
  numbered : s.Numbered
  earlier : walk < s.started
  stopped : s.Outstanding walk → s.agent.stop = true

theorem issuedBy_append (s : Session) (query : ℕ) (more : List (ℕ × Request)) :
    { s with issued := s.issued ++ more }.issuedBy query =
      s.issuedBy query ++ more.filterMap fun x => if x.1 = query then some x.2 else none :=
  List.filterMap_append

theorem Stopped.step {walk : ℕ} {s s' : Session} {e : Event} (hs : Stopped walk s)
    (hcond : s.Outstanding walk → ¬ e.Restarts s.agent) (h : s.step env e = some s') :
    Stopped walk s' ∧ s'.issuedBy walk = s.issuedBy walk := by
  have hnumbered := hs.numbered.step h
  rcases step_cases h with ⟨oid, usevblist, kind, ret, hstarts, rfl, hrefused⟩ |
    ⟨i, r, p, ret, -, hp, hret, rfl⟩ | ⟨agent, view, rfl, hkept⟩
  · -- with the walk outstanding the start function has not got past Setup
    have hout : s.Outstanding walk → ret = (s.agent, none) := by
      intro hout
      apply hrefused
      by_contra hsome
      exact hcond hout ⟨oid, usevblist, hstarts, Option.isSome_iff_ne_none.mpr hsome⟩
    obtain ⟨agent, sent⟩ := ret
    cases sent with
    | none =>
      refine ⟨⟨hnumbered, hs.earlier, ?_⟩, rfl⟩
      intro hout'
      obtain ⟨rfl, -⟩ := Prod.mk.inj (hout hout')
      exact hs.stopped hout'
    | some request =>
      have hother : s.started ≠ walk := Nat.ne_of_gt hs.earlier
      refine ⟨⟨hnumbered, hs.earlier.trans (Nat.lt_succ_self _), ?_⟩, ?_⟩
      · rintro ⟨q, hq, hquery, hkind⟩
        rcases List.mem_append.mp hq with hq | hq
        · cases (Prod.mk.inj (hout ⟨q, hq, hquery, hkind⟩)).2
        · obtain rfl := List.mem_singleton.mp hq
          exact absurd hquery hother
      · apply (issuedBy_append s walk _).trans
        simp [hother]
  · obtain ⟨hstop, hreissued⟩ := callback_stop hret
    refine ⟨⟨hnumbered, hs.earlier, ?_⟩, ?_⟩
    · rintro ⟨q, hq, hquery, hkind⟩
      obtain ⟨q', hq', hquery', hkind'⟩ := mem_returned_pending hp hq
      change ret.agent.stop = true
      rw [hstop]
      exact hs.stopped ⟨q', hq', hquery'.trans hquery, hkind'.trans hkind⟩
    · apply (issuedBy_append s walk _).trans
      cases hsent : ret.reissued with
      | none => exact List.append_nil _
      | some request =>
        obtain ⟨hkind, hgoing⟩ := hreissued (by rw [hsent]; rfl)
        have hother : p.query ≠ walk := by
          intro hquery
          have hstopped := hs.stopped ⟨p, List.mem_of_getElem? hp, hquery, hkind⟩
          rw [hgoing] at hstopped
          cases hstopped
        simp [hother]
  · exact ⟨⟨hnumbered, hs.earlier, fun hout => hkept.stop (hs.stopped hout)⟩, rfl⟩

/-- Main result: after `Stop`, a walk sends nothing more in every run in which no start function
gets past `Setup` while the walk is outstanding. -/
theorem stopped_walk_sends_nothing {agent : AgentState} {before after : List Event} {s s' : Session}
    {walk : ℕ} (hbefore : Runs.exec (Session.step env) (Session.idle agent) before = some s)
    (hout : s.Outstanding walk)
    (hafter : Runs.exec (Session.step env) s (.stop :: after) = some s')
    (hcond : Runs.Each (Session.step env) (fun m e => m.Outstanding walk → ¬ e.Restarts m.agent) s
      (.stop :: after)) : s'.issuedBy walk = s.issuedBy walk := by
  have hnumbered := numbered_of_exec hbefore
  obtain ⟨m, hm, hrest⟩ := Runs.exec_cons.mp hafter
  obtain ⟨p, hp, hquery, hkind⟩ := hout
  have hstopped : Stopped walk m ∧ m.issuedBy walk = s.issuedBy walk := by
    unfold Session.step at hm
    split at hm
    · cases hm
    · cases hm
      exact ⟨⟨⟨hnumbered.pending, hnumbered.issued, hnumbered.formatted⟩,
        hquery ▸ hnumbered.pending p hp, fun _ => rfl⟩, rfl⟩
  refine (Runs.exec_invariant_of
    (P := fun t => Stopped walk t ∧ t.issuedBy walk = s.issuedBy walk) ?_ (hcond.2 m hm) hstopped hrest).2
  rintro t e t' ⟨ht, hsame⟩ hc hstep
  obtain ⟨ht', hsame'⟩ := ht.step hc hstep
  exact ⟨ht', hsame'.trans hsame⟩

def walkSession : Session :=
  (Session.idle SnmpB.Agent.idle).start .walk (SnmpB.Agent.walkFrom blank "1.3.6" 0 SnmpB.Agent.idle)

theorem walkSession_exec : Runs.exec (Session.step blank) (Session.idle SnmpB.Agent.idle)
    [.walkFrom "1.3.6" 0] = some walkSession := rfl

theorem walkSession_outstanding : walkSession.Outstanding 0 :=
  ⟨⟨0, .walk, walkRequest⟩, List.mem_cons_self, rfl, rfl⟩

def answerOnly : List Event :=
  [.selectAgentProfile none, .response 0 (answered [⟨[1, 3, 6, 1], .int32 0⟩])]

def getThenAnswer : List Event :=
  [.varbindsBuildList [⟨[1, 3, 6, 1, 2, 1, 1, 1, 0], .null⟩], .get "" true 0,
    .response 0 (answered [⟨[1, 3, 6, 1], .int32 0⟩])]

theorem stopped_walk_sends_nothing_answered :
    ∃ s', Runs.exec (Session.step blank) walkSession (.stop :: answerOnly) = some s' ∧
      s'.issuedBy 0 = walkSession.issuedBy 0 := by
  have hcond : Runs.Each (Session.step blank) (fun m e => m.Outstanding 0 → ¬ e.Restarts m.agent)
      walkSession (.stop :: answerOnly) := by
    refine ⟨?_, fun _ _ => ⟨?_, fun _ _ => ⟨?_, fun _ _ => trivial⟩⟩⟩ <;>
    · rintro - ⟨oid, usevblist, hstarts, -⟩
      cases hstarts
  exact ⟨_, rfl, stopped_walk_sends_nothing walkSession_exec walkSession_outstanding rfl hcond⟩

/-- The GET clears the stop flag, and the answer that comes in afterwards sends the walk on. -/
theorem get_resumes_stopped_walk :
    ¬ ∀ (env : Printing) (agent : AgentState) (before after : List Event) (s s' : Session) (walk : ℕ),
      Runs.exec (Session.step env) (Session.idle agent) before = some s → s.Outstanding walk →
      Runs.exec (Session.step env) s (.stop :: after) = some s' → s'.issuedBy walk = s.issuedBy walk := by
  intro h
  have hsame := h blank SnmpB.Agent.idle [.walkFrom "1.3.6" 0] getThenAnswer walkSession _ 0
    walkSession_exec walkSession_outstanding rfl
  revert hsame
  decide

end Session

end SnmpB.Agent
