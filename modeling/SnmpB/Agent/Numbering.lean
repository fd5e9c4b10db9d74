import SnmpB.Agent.Buffer

/-! # The numbers of the objects

The counter of objects is carried over the callbacks of a query: it numbers the
lines and is printed as their total. A response with an error status puts it back
to where the varbind stands in its PDU.
-/
namespace SnmpB.Agent
open Mib

/-! ## The texts at the end of a query -/

namespace AgentState

theorem totalsText_inj {requests n m : ℕ} (h : totalsText requests n = totalsText requests m) : n = m := by
  have htext := congrArg String.toList h
  unfold totalsText at htext
  simp only [String.toList_append, List.append_cancel_left_eq, List.append_cancel_right_eq] at htext
  have hdigits : Nat.toDigits 10 n = Nat.toDigits 10 m := by
    have hlist : ∀ k : ℕ, (toString k).toList = Nat.toDigits 10 k := fun k => String.toList_ofList
    rwa [hlist, hlist] at htext
  rw [← @Nat.ofDigitChars_ten_toDigits n, hdigits, Nat.ofDigitChars_ten_toDigits]

end AgentState

/-- How an error text begins. -/
def IsRed (html : String) : Prop := "<font color=red>".toList <+: html.toList

theorem isRed_append {html more : String} (h : IsRed html) : IsRed (html ++ more) := by
  unfold IsRed
  rw [String.toList_append]
  exact h.trans (List.prefix_append ..)

theorem not_isRed_totalsText (requests objects : ℕ) : ¬ IsRed (AgentState.totalsText requests objects) := by
  intro hred
  have hgreen : "<font color=#009000>".toList <+: (AgentState.totalsText requests objects).toList := by
    unfold AgentState.totalsText
    simp only [String.toList_append, List.append_assoc]
    exact List.IsPrefix.trans (by decide) (List.prefix_append ..)
  have hboth := List.prefix_of_prefix_length_le hred hgreen (by decide)
  revert hboth
  decide

variable {env : Printing}

theorem isRed_noResponseText (reason : ℤ) : IsRed (noResponseText env reason) := by
  have hstart : IsRed "<font color=red>No response received: (" := by
    unfold IsRed
    decide
  exact isRed_append (isRed_append (isRed_append (isRed_append hstart)))

theorem isRed_errorText (pduError : ℕ) : IsRed (errorText env pduError) := by
  have hstart : IsRed "<font color=red>" := by
    unfold IsRed
    decide
  exact isRed_append (isRed_append hstart)

theorem isRed_couldNotSendText (kind : String) (status : ℤ) : IsRed (couldNotSendText env kind status) := by
  have hstart : IsRed "<font color=red>Could not send " := by
    unfold IsRed
    decide
  exact isRed_append (isRed_append (isRed_append (isRed_append hstart)))

variable {iswalk : Bool} {r : Response} {a : AgentState} {ret : Returned}

theorem asyncCallback_overwrites (h : asyncCallback env iswalk r a = some ret) (hover : r.overwrites iswalk) :
    ∃ objects html, IsRed html ∧ ret = ⟨AgentState.failQuery { a with objects } html, [], none⟩ := by
  unfold asyncCallback at h
  split at h
  · cases h
    exact ⟨a.objects, timeoutText, by unfold IsRed; decide, rfl⟩
  · split at h
    · cases h
      exact ⟨a.objects, _, isRed_noResponseText r.reason, rfl⟩
    · rename_i hreason
      obtain ⟨hend, herror⟩ := hover.resolve_left hreason
      rw [if_neg hend] at h
      split at h
      · cases h
        exact ⟨a.objects, _, isRed_errorText r.pdu.errorStatus, rfl⟩
      · rename_i hindex
        have hempty := herror.resolve_left hindex
        rw [handleVarbinds, if_pos hempty] at h
        cases h
        exact ⟨r.startObjects a, emptyPduText, by unfold IsRed; decide, rfl⟩

theorem afterLoop_texts (env : Printing) (iswalk : Bool) (status : ℤ) (exit : Exit) (a : AgentState) :
    afterLoop env iswalk status exit a = (a.endQuery, none) ∨
    (∃ request, afterLoop env iswalk status exit a = (a, some request)) ∨
    ∃ html, IsRed html ∧ afterLoop env iswalk status exit a = (a.failQuery html, none) := by
  rcases @afterLoop_cases env iswalk status exit a with ⟨-, hafter⟩ |
    ⟨last, rfl, hgo, ⟨-, hafter⟩ | ⟨hsend, -⟩⟩
  · exact Or.inl hafter
  · exact Or.inr (Or.inl ⟨_, hafter⟩)
  · refine Or.inr (Or.inr ⟨couldNotSendText env "GETBULK" (pduStatus [last] status), isRed_couldNotSendText .., ?_⟩)
    rw [afterLoop, hgo.1, hgo.2]
    simp only [reissue, if_neg hsend, Bool.not_false, Bool.and_true, ↓reduceIte]

/-! ## Numbered lines -/

def Numbered (lines : List ObjectLine) : Prop := lines.map (·.number) = List.range' 1 lines.length

theorem Numbered.of_prefix {lines shown : List ObjectLine} (h : Numbered lines) (hbegins : shown <+: lines) :
    Numbered shown := by
  obtain ⟨rest, rfl⟩ := hbegins
  unfold Numbered at h ⊢
  rw [List.map_append, List.length_append, ← List.range'_append_1] at h
  exact (List.append_inj h (by simp)).1

theorem Numbered.append {lines more : List ObjectLine} (h : Numbered lines)
    (hmore : more.map (·.number) = List.range' (lines.length + 1) more.length) : Numbered (lines ++ more) := by
  unfold Numbered at h ⊢
  rw [List.map_append, List.length_append, h, hmore, ← List.range'_append_1, Nat.add_comm 1]

/-- The loop numbers its lines from the counter on. -/
theorem varbindLoop_numbers {fuel : ℕ} {ctx : Locals} {vbs : List Vb} {z : ℕ} {last : Vb} {a a' : AgentState}
    {lines : List ObjectLine} {exit : Exit} (h : varbindLoop env fuel ctx vbs z last a = some (a', lines, exit)) :
    lines.map (·.number) = List.range' (a.objects + 1) lines.length ∧ a'.objects = a.objects + lines.length := by
  induction vbs generalizing z last a lines with
  | nil =>
    cases h
    exact ⟨rfl, rfl⟩
  | cons vb rest ih =>
    rw [varbindLoop] at h
    split at h
    · cases h
      exact ⟨rfl, rfl⟩
    · split at h
      · cases h
      · rename_i counted line hformat
        cases h
        obtain ⟨res, -, rfl, -, rfl⟩ := formatVarbind_some hformat
        exact ⟨rfl, rfl⟩
      · rename_i counted line hformat
        obtain ⟨res, -, rfl, -, rfl⟩ := formatVarbind_some hformat
        split at h
        · cases h
        · rename_i a₂ lines' exit' hrest
          cases h
          obtain ⟨hnumbers, hobjects⟩ := ih hrest
          rw [AgentState.flush_objects] at hnumbers hobjects
          constructor
          · rw [List.map_cons, hnumbers, List.length_cons, List.range'_succ]
            rfl
          · rw [hobjects, List.length_cons, Nat.add_assoc, Nat.add_comm 1]

/-! ## A whole query -/

/-- The loop is entered with the counter put back. -/
def Response.resets (iswalk : Bool) (r : Response) : Prop :=
  ¬ r.overwrites iswalk ∧ ¬ (iswalk = true ∧ r.pdu.errorStatus = noSuchName) ∧ r.pdu.errorStatus ≠ 0

/-- The number put back to is the one reached. -/
def Query.Continues (iswalk : Bool) (q : Query) (r : Response) : Prop :=
  r.resets iswalk → r.pdu.errorIndex = q.agent.objects + 1

/-- The total at the end of what is on display. -/
def Query.prints (q : Query) (n : ℕ) : Prop :=
  ∃ msg, q.agent.query.getLast? = some (msg ++ [.text (AgentState.totalsText q.agent.requests n)])

structure Query.Tallied (q : Query) : Prop where
  numbers : Numbered q.agent.displayed
  total : q.outstanding = none → ∀ n, q.prints n → n = q.agent.displayed.length

theorem prints_endQuery {formatted : List ObjectLine} {issued : List Request} {n : ℕ}
    (h : Query.prints ⟨a.endQuery, formatted, none, issued⟩ n) : n = a.objects := by
  obtain ⟨msg, hlast⟩ := h
  unfold AgentState.endQuery AgentState.cleanup at hlast
  simp only [List.getLast?_append, List.getLast?_singleton, Option.some_or, Option.some.injEq] at hlast
  have htotals := List.append_inj_right' (hlast.symm.trans (List.append_cons ..)) rfl
  simp only [List.cons.injEq, Chunk.text.injEq, and_true] at htotals
  exact AgentState.totalsText_inj htotals

theorem not_prints_failQuery {html : String} {formatted : List ObjectLine} {issued : List Request} {n : ℕ}
    (hred : IsRed html) : ¬ Query.prints ⟨a.failQuery html, formatted, none, issued⟩ n := by
  rintro ⟨msg, hlast⟩
  unfold AgentState.failQuery AgentState.cleanup at hlast
  simp only [List.getLast?_append, List.getLast?_singleton, Option.some_or, Option.some.injEq] at hlast
  have htotals := List.append_inj_right' (hlast.symm.trans (List.nil_append _).symm) rfl
  simp only [List.cons.injEq, Chunk.text.injEq, and_true] at htotals
  exact not_isRed_totalsText _ _ (htotals ▸ hred)

/-- While a query goes on its lines are counted and on the way to the display. -/
structure Query.Counted (q : Query) : Prop where
  numbers : Numbered q.formatted
  objects : q.agent.objects = q.formatted.length
  buffered : q.agent.buffered = q.formatted

theorem displayed_begins (a : AgentState) : a.displayed <+: a.buffered := List.prefix_append ..

theorem enterLoop_objects {q : Query} (hcontinues : q.Continues iswalk r) (hover : ¬ r.overwrites iswalk)
    (hwalk : ¬ (iswalk = true ∧ r.pdu.errorStatus = noSuchName)) :
    (r.enterLoop q.agent).objects = q.agent.objects := by
  change r.startObjects q.agent = q.agent.objects
  unfold Response.startObjects
  split
  · rfl
  · rename_i hstatus
    have hindex := hcontinues ⟨hover, hwalk, hstatus⟩
    omega

/-- One callback: the query goes on with its lines counted, or it ends. -/
theorem step_tallied {q q' : Query} (hq : q.Counted) (hcontinues : q.Continues iswalk r)
    (h : q.step env iswalk r = some q') : q'.Tallied ∧ (q'.outstanding.isSome → q'.Counted) := by
  obtain ⟨-, ret, hret, rfl⟩ := Query.step_some h
  have hshown : ∀ {lines : List ObjectLine}, Numbered (q.agent.buffered ++ lines) → Numbered q.agent.displayed :=
    fun hnumbers => hnumbers.of_prefix ((displayed_begins q.agent).trans (List.prefix_append ..))
  have hnumbers : Numbered q.agent.buffered := hq.buffered ▸ hq.numbers
  by_cases hover : r.overwrites iswalk
  · obtain ⟨objects, html, hred, rfl⟩ := asyncCallback_overwrites hret hover
    refine ⟨⟨?_, fun _ n hprints => absurd hprints (not_prints_failQuery hred)⟩, nofun⟩
    rw [AgentState.failQuery_displayed]
    exact hnumbers.of_prefix (displayed_begins q.agent)
  · rcases asyncCallback_cases env hret with ⟨hno, -⟩ | ⟨-, -, rfl⟩ | ⟨-, hwalk, a', lines, exit, hloop, rfl⟩
    · exact absurd hno hover
    · refine ⟨⟨?_, ?_⟩, nofun⟩
      · rw [AgentState.endQuery_displayed]
        exact hnumbers
      · intro _ n hprints
        rw [prints_endQuery hprints, AgentState.endQuery_displayed, hq.buffered, hq.objects]
    · obtain ⟨hlines, hobjects⟩ := varbindLoop_numbers hloop
      have hkept := varbindLoop_buffered hloop
      rw [enterLoop_objects hcontinues hover hwalk, hq.objects] at hlines hobjects
      rw [enterLoop_buffered, hq.buffered] at hkept
      have hall : Numbered (q.formatted ++ lines) := hq.numbers.append hlines
      have hlength : a'.objects = a'.buffered.length := by
        rw [hkept, hobjects, List.length_append]
      rcases afterLoop_texts env iswalk r.sendStatus exit a' with hafter | ⟨request, hafter⟩ | ⟨html, hred, hafter⟩
      · rw [hafter]
        refine ⟨⟨?_, ?_⟩, nofun⟩
        · rw [AgentState.endQuery_displayed, hkept]
          exact hall
        · intro _ n hprints
          rw [prints_endQuery hprints, AgentState.endQuery_displayed, hlength]
      · rw [hafter]
        refine ⟨⟨?_, nofun⟩, fun _ => ⟨hall, ?_, hkept⟩⟩
        · apply hall.of_prefix
          rw [← hkept]
          exact displayed_begins a'
        · rw [hlength, hkept]
      · rw [hafter]
        refine ⟨⟨?_, fun _ n hprints => absurd hprints (not_prints_failQuery hred)⟩, nofun⟩
        rw [AgentState.failQuery_displayed]
        apply hall.of_prefix
        rw [← hkept]
        exact displayed_begins a'

theorem start_counted {request : Request} (hs : Started a) : (Query.start a request).Counted := by
  refine ⟨rfl, hs.objects, ?_⟩
  rw [AgentState.buffered, Query.start, hs.displayed, hs.msg]
  rfl

/-- Main result: over all callbacks of a query the lines on display are numbered from one on, and the
total at its end is their number, when no response with an error status puts the counter back. -/
theorem objects_tallied {request : Request} (hs : Started a) {rs : List Response} {q : Query}
    (h : Runs.exec (Query.step env iswalk) (Query.start a request) rs = some q)
    (hcontinues : Runs.Each (Query.step env iswalk) (Query.Continues iswalk) (Query.start a request) rs) :
    q.Tallied := by
  have hboth : q.Tallied ∧ (q.outstanding.isSome → q.Counted) := by
    induction rs using List.reverseRecOn generalizing q with
    | nil =>
      cases h
      refine ⟨⟨?_, nofun⟩, fun _ => start_counted hs⟩
      rw [Query.start, hs.displayed]
      rfl
    | append_singleton rs r ih =>
      obtain ⟨m, hm, hstep⟩ := Runs.exec_snoc.mp h
      obtain ⟨heach, hlast⟩ := (Runs.each_snoc hm).mp hcontinues
      obtain ⟨⟨pending, hpending⟩, -⟩ := Query.step_some hstep
      have hcounted := (ih hm heach).2 (by simp [hpending])
      exact step_tallied hcounted hlast hstep
  exact hboth.1

/-- Two objects, and then an error at this index of a response with three varbinds. -/
def twoThenError (errorIndex : ℤ) : List Response :=
  [answered [⟨[1, 3, 6, 1], .int32 0⟩, ⟨[1, 3, 6, 2], .int32 0⟩],
    ⟨-6, ⟨[⟨[1, 3, 6, 3], .null⟩, ⟨[1, 3, 6, 4], .null⟩, ⟨[1, 3, 6, 5], .null⟩], 5, errorIndex⟩, 0, 0⟩]

theorem prints_of_last {q : Query} {n : ℕ}
    (h : q.agent.query.getLast?.bind List.getLast? = some (.text (AgentState.totalsText q.agent.requests n))) :
    q.prints n := by
  obtain ⟨msg, hmsg, hlast⟩ := Option.bind_eq_some_iff.mp h
  refine ⟨msg.dropLast, ?_⟩
  rw [hmsg, List.dropLast_append_getLast? _ hlast]

theorem continues_twoThenError : Runs.Each (Query.step blank true) (Query.Continues true)
    (Query.start walking walkRequest) (twoThenError 3) := by
  refine ⟨fun hresets => absurd rfl hresets.2.2, ?_⟩
  intro m hm
  refine ⟨fun _ => ?_, fun _ _ => trivial⟩
  have hobjects : (Query.step blank true (Query.start walking walkRequest) (twoThenError 3)[0]).map (·.agent.objects) =
      some 2 := by decide
  have hstep : Query.step blank true (Query.start walking walkRequest) (twoThenError 3)[0] = some m := hm
  rw [hstep] at hobjects
  have hsame : m.agent.objects = 2 := Option.some.inj hobjects
  rw [hsame]
  rfl

theorem objects_tallied_third :
    ∃ q, Runs.exec (Query.step blank true) (Query.start walking walkRequest) (twoThenError 3) = some q ∧
      q.prints 3 ∧ q.Tallied := by
  have hsome : (Runs.exec (Query.step blank true) (Query.start walking walkRequest) (twoThenError 3)).isSome := by
    decide
  refine ⟨_, (Option.some_get hsome).symm, ?_, ?_⟩
  · apply prints_of_last
    decide +kernel +revert
  · exact objects_tallied (walkFrom_some blank idle_walkFrom).1 (Option.some_get hsome).symm continues_twoThenError

/-- The error of the second response is numbered one again, and one is printed as the total of three lines. -/
theorem error_restarts_numbers :
    (¬ ∀ (env : Printing) (iswalk : Bool) (a : AgentState) (request : Request) (rs : List Response) (q : Query),
      Started a → Runs.exec (Query.step env iswalk) (Query.start a request) rs = some q →
        Numbered q.agent.displayed) ∧
    ¬ ∀ (env : Printing) (iswalk : Bool) (a : AgentState) (request : Request) (rs : List Response) (q : Query),
      Started a → Runs.exec (Query.step env iswalk) (Query.start a request) rs = some q →
        q.outstanding = none → ∀ n, q.prints n → n = q.agent.displayed.length := by
  have hsome : (Runs.exec (Query.step blank true) (Query.start walking walkRequest) (twoThenError 1)).isSome := by
    decide
  constructor
  · intro h
    have hnumbers := h blank true walking walkRequest _ _ (walkFrom_some blank idle_walkFrom).1
      (Option.some_get hsome).symm
    unfold Numbered at hnumbers
    revert hnumbers
    decide +revert
  · intro h
    have hover : ((Runs.exec (Query.step blank true) (Query.start walking walkRequest) (twoThenError 1)).get
        hsome).outstanding = none := by decide +revert
    have hprints : ((Runs.exec (Query.step blank true) (Query.start walking walkRequest) (twoThenError 1)).get
        hsome).prints 1 := by
      apply prints_of_last
      decide +kernel +revert
    have htotal := h blank true walking walkRequest _ _ (walkFrom_some blank idle_walkFrom).1
      (Option.some_get hsome).symm hover 1 hprints
    clear hover hprints
    revert htotal
    decide +revert

end SnmpB.Agent
