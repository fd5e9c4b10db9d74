import SnmpB.Discovery.Display
import SnmpB.Discovery.Thread

/-! # Under which version an answer is recorded

A report carries the version of the pass in progress. It is the version of the
answer if the answer is read while the pass of its own version waits.
-/
namespace SnmpB.Discovery
open Runs

def Report.Right (r : Report) : Prop := r.version = r.message.version

/-- An accepted answer taken from the socket is of the version of the pass that waits. -/
def InOwnPass (s : ThreadState) (e : Event) : Prop :=
  match e, s.stage with
  | .wakeup _, .receiving p _ =>
    ∀ d, (s.sockets p.transport).head? = some d → d.accepted = true → d.version = p.version
  | _, _ => True

/-- Every report has the version of its answer, and every protocol in the list of agents is one in
which an agent at that address answered. -/
def RecordsRight (s : ThreadState) : Prop :=
  (∀ r ∈ s.wait.reports, r.Right) ∧
  ∀ row ∈ displayed s.wait.reports, ∀ v, row.Lists v →
    ∃ d ∈ s.answered, d.accepted = true ∧ d.sender = row.address ∧ d.version = v

theorem receiveTurn_reports (timeoutSec : ℕ) (version : SnmpVersion) (w : Wakeup) (s : Waiting) :
    (receiveTurn timeoutSec version w s).1.reports = s.reports ++ reportOf version w.message := by
  simp only [receiveTurn]
  split_ifs <;> rfl

theorem mem_reportOf {version : SnmpVersion} {message : Option Datagram} {r : Report} :
    r ∈ reportOf version message ↔
      message = some r.message ∧ r.message.accepted = true ∧ r.version = version := by
  cases message with
  | none => simp [reportOf]
  | some d =>
    simp only [reportOf, Option.toList_some, List.mem_map, List.mem_filter, List.mem_singleton,
      Option.some.injEq]
    constructor
    · rintro ⟨d', ⟨rfl, haccepted⟩, rfl⟩
      exact ⟨rfl, haccepted, rfl⟩
    · rintro ⟨rfl, haccepted, rfl⟩
      exact ⟨r.message, ⟨rfl, haccepted⟩, rfl⟩

/-- The reports a step adds. -/
def newReports (s : ThreadState) (e : Event) : List Report :=
  match e, s.stage with
  | .wakeup _, .receiving p _ => reportOf p.version (s.sockets p.transport).head?
  | _, _ => []

theorem step_reports {cfg : Settings} {s s' : ThreadState} {e : Event} (h : step cfg s e = some s') :
    s'.wait.reports = s.wait.reports ++ newReports s e := by
  cases move_of_step h with
  | wakeup p rest elapsed hstage =>
    simp only [newReports, hstage]
    exact receiveTurn_reports ..
  | _ => exact (List.append_nil _).symm

theorem newReports_right_iff {s : ThreadState} {e : Event} :
    (∀ r ∈ newReports s e, r.Right) ↔ InOwnPass s e := by
  unfold newReports InOwnPass
  split
  · constructor
    · intro h d hd haccepted
      exact (h ⟨d, _⟩ (mem_reportOf.mpr ⟨hd, haccepted, rfl⟩)).symm
    · intro h r hr
      obtain ⟨hmessage, haccepted, hversion⟩ := mem_reportOf.mp hr
      exact hversion.trans (h r.message hmessage haccepted).symm
  · simp

/-- Answers on the sockets and in the reports have arrived. -/
structure Arrived (s : ThreadState) : Prop where
  sockets : ∀ t, ∀ d ∈ s.sockets t, d ∈ s.answered
  reports : ∀ r ∈ s.wait.reports, r.message ∈ s.answered ∧ r.message.accepted = true

theorem start_arrived (cfg : Settings) (aborting : Bool) (sockets : IpVersion → List Datagram) :
    Arrived (.start cfg aborting sockets) := by
  constructor
  · rintro (_ | _) d hd
    · exact List.mem_append_left _ hd
    · exact List.mem_append_right _ hd
  · exact fun r hr => absurd hr List.not_mem_nil

theorem mem_update_socket {sockets : IpVersion → List Datagram} {t t' : IpVersion}
    {queue : List Datagram} {d : Datagram} (h : d ∈ Function.update sockets t queue t') :
    d ∈ queue ∨ d ∈ sockets t' := by
  by_cases ht : t' = t
  · rw [ht, Function.update_self] at h
    exact Or.inl h
  · rw [Function.update_of_ne ht] at h
    exact Or.inr h

theorem step_arrived {cfg : Settings} {s s' : ThreadState} {e : Event} (hs : Arrived s)
    (h : step cfg s e = some s') : Arrived s' := by
  have hreports := step_reports h
  cases move_of_step h with
  | arrive t d =>
    constructor
    · intro t' d' hd'
      rcases mem_update_socket hd' with hd' | hd'
      · rcases List.mem_append.mp hd' with hd' | hd'
        · exact List.mem_append_left _ (hs.sockets t d' hd')
        · exact List.mem_append_right _ hd'
      · exact List.mem_append_left _ (hs.sockets t' d' hd')
    · intro r hr
      exact ⟨List.mem_append_left _ (hs.reports r hr).1, (hs.reports r hr).2⟩
  | wakeup p rest elapsed hstage =>
    constructor
    · intro t' d' hd'
      rcases mem_update_socket hd' with hd' | hd'
      · exact hs.sockets p.transport d' (List.mem_of_mem_tail hd')
      · exact hs.sockets t' d' hd'
    · intro r hr
      rw [hreports] at hr
      rcases List.mem_append.mp hr with hr | hr
      · exact hs.reports r hr
      · simp only [newReports, hstage] at hr
        obtain ⟨hhead, haccepted, -⟩ := mem_reportOf.mp hr
        exact ⟨hs.sockets p.transport r.message (List.mem_of_head? hhead), haccepted⟩
  | _ => exact ⟨hs.sockets, hs.reports⟩

/-- Every report is right exactly if every answer is read in a pass of its own version. -/
theorem each_inOwnPass_iff {cfg : Settings} {es : List Event} : ∀ {s s' : ThreadState},
    exec (step cfg) s es = some s' →
      ((∀ r ∈ s'.wait.reports, r.Right) ↔
        (∀ r ∈ s.wait.reports, r.Right) ∧ Each (step cfg) InOwnPass s es) := by
  induction es with
  | nil =>
    intro s s' h
    cases h
    simp [Each]
  | cons e es ih =>
    intro s s' h
    obtain ⟨m, hstep, hrest⟩ := exec_cons.mp h
    rw [ih hrest, each_cons hstep, step_reports hstep, List.forall_mem_append, newReports_right_iff, and_assoc]

theorem records_right_iff {cfg : Settings} {aborting : Bool} {sockets : IpVersion → List Datagram}
    {es : List Event} {s : ThreadState}
    (h : exec (step cfg) (.start cfg aborting sockets) es = some s) :
    Each (step cfg) InOwnPass (.start cfg aborting sockets) es ↔ RecordsRight s := by
  have harrived : Arrived s :=
    exec_invariant (fun _ _ _ hs hstep => step_arrived hs hstep) (start_arrived cfg aborting sockets) h
  have hnone : ∀ r ∈ (ThreadState.start cfg aborting sockets).wait.reports, r.Right :=
    fun r hr => absurd hr List.not_mem_nil
  have hiff := each_inOwnPass_iff h
  constructor
  · intro heach
    have hright := hiff.mpr ⟨hnone, heach⟩
    refine ⟨hright, fun row hrow v hv => ?_⟩
    obtain ⟨r, hr, haddress, hversion⟩ := (lists_iff hrow).mp hv
    obtain ⟨hanswered, haccepted⟩ := harrived.reports r hr
    exact ⟨r.message, hanswered, haccepted, haddress, (hright r hr).symm.trans hversion⟩
  · intro hright
    exact (hiff.mp hright.1).2

/-- One agent that knows only SNMPv1. -/
def lateAnswer : Datagram := ⟨"10.0.0.7/161", .version1, ⟨[], 0, 0⟩, .success⟩

/-- The answer comes in time. -/
theorem records_right_timely :
    ∃ s, exec (step twoPasses) (.start twoPasses false fun _ => [])
        [.choose, .probe true true, .arrive .ipv4 lateAnswer, .wakeup false] = some s ∧
      (Each (step twoPasses) InOwnPass (.start twoPasses false fun _ => [])
        [.choose, .probe true true, .arrive .ipv4 lateAnswer, .wakeup false] ↔ RecordsRight s) :=
  ⟨_, rfl, records_right_iff rfl⟩

/-- The answer to the V1 probe comes while the V2c pass waits, and is listed as V2c. -/
theorem records_late_answer :
    ¬ ∀ (cfg : Settings) (aborting : Bool) (sockets : IpVersion → List Datagram) (es : List Event)
      (s : ThreadState), exec (step cfg) (.start cfg aborting sockets) es = some s →
      RecordsRight s := by
  intro h
  have hright := h twoPasses false (fun _ => [])
    [.choose, .probe true true, .wakeup true, .leave, .choose, .probe true true,
      .arrive .ipv4 lateAnswer, .wakeup false] _ rfl
  obtain ⟨d, hd, -, -, hversion⟩ := hright.2 ⟨"10.0.0.7/161", ['V', '2', 'c'], ⟨[], 0, 0⟩⟩
    (List.mem_cons_self ..) .version2c (List.infix_refl _)
  rw [List.mem_singleton.mp hd] at hversion
  cases hversion

end SnmpB.Discovery
