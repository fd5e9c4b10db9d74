import SnmpB.Library.CString
import SnmpB.Library.Runs
import SnmpB.Agent.Seeds
import SnmpB.Oid.Text

/-! # What the request loops read of an answer

The table view looks up the column in the OID of the first answer, and both loops
look behind the column in the text of every answer. Here each access is checked.
-/
namespace SnmpB.Agent
open Mib

/-! ## The text of an OID -/

theorem clean_dotted (oid : Oid) : CString.Clean (Oid.dotted oid) := by
  intro hmem
  rcases Oid.mem_dotted hmem with hdigit | hdot
  · revert hdigit
    decide
  · revert hdot
    decide

/-- The instance part, where it can be read. -/
def readInstance (roid : Oid) (vb : Vb) : Option (List Char) :=
  CString.behindCommon (Oid.dotted roid) (Oid.dotted vb.oid)

theorem readInstance_eq {roid : Oid} {vb : Vb} (hne : roid ≠ []) (hbegins : roid <+: vb.oid) :
    readInstance roid vb = if vb.oid = roid then none else some (instancePart roid vb) := by
  obtain ⟨rest, hrest⟩ := hbegins
  unfold readInstance instancePart
  have hclean := clean_dotted vb.oid
  by_cases hnil : rest = []
  · rw [hnil, List.append_nil] at hrest
    rw [if_pos hrest.symm, ← hrest]
    have hself := @CString.behindCommon_append (Oid.dotted roid) [] (Oid.dotted_ne_nil hne)
    rw [List.append_nil] at hself
    exact hself (clean_dotted roid)
  · have hlonger : vb.oid ≠ roid := by
      intro heq
      rw [heq] at hrest
      exact hnil (List.append_right_eq_self.mp hrest)
    rw [← hrest, Oid.dotted_append hne hnil] at hclean
    rw [if_neg hlonger, ← hrest, Oid.dotted_append hne hnil, CString.behindCommon_append (Oid.dotted_ne_nil hne) hclean,
      if_neg (List.cons_ne_nil _ _), Oid.restOf_append (Oid.dotted_ne_nil hne)]

/-! ## The passes with their accesses -/

/-- The pass of the table view with the accesses checked. -/
def TableView.checkedPass (env : Printing) (t : TableView) (reply : Reply) (cells : ℕ → Reply) :
    Pass TableView AgentState :=
  if pduStatus [t.tvb] reply.status ≠ 0 then .left t.finish
  else
    let tvb := reply.getVb t.tvb
    match t.columnOid tvb.oid with
    | none => .outOfBounds
    | some roid =>
      if tvb.value.getSyntax = .endOfMibView then .left t.finish
      else if Oid.nCompare tvb.oid roid.length roid ≠ 0 then .left t.finish
      else
        match readInstance roid tvb with
        | none => .outOfBounds
        | some f =>
          .next { t with
            agent := { t.agent with msg := t.agent.msg ++ t.row env f cells }
            roid, first := false, tvb, rows := t.rows + 1 }

/-- The pass of the instance selection with the accesses checked. -/
def Selecting.checkedPass (s : Selecting) (reply : Reply) : Pass Selecting (List (List Char)) :=
  if pduStatus [s.tvb] reply.status ≠ 0 then .left s.ilist
  else
    let tvb := reply.getVb s.tvb
    if tvb.value.getSyntax = .endOfMibView then .left s.ilist
    else if Oid.nCompare tvb.oid s.roid.length s.roid ≠ 0 then .left s.ilist
    else
      match readInstance s.roid tvb with
      | none => .outOfBounds
      | some f => .next { s with tvb, ilist := if f = [] then s.ilist else s.ilist ++ [f] }

/-- The first answer is longer than the row, and no answer in the view is the column itself. -/
def TableView.Readable (t : TableView) (reply : Reply) : Prop :=
  pduStatus [t.tvb] reply.status = 0 →
    let tvb := reply.getVb t.tvb
    if t.first then
      t.poid.length < tvb.oid.length ∧
        (tvb.value.getSyntax = .endOfMibView ∨ ∀ subid, tvb.oid ≠ t.poid ++ [subid])
    else tvb.value.getSyntax = .endOfMibView ∨ tvb.oid ≠ t.roid

/-- No answer in the view is the column itself. -/
def Selecting.Readable (s : Selecting) (reply : Reply) : Prop :=
  pduStatus [s.tvb] reply.status = 0 →
    (reply.getVb s.tvb).value.getSyntax = .endOfMibView ∨ (reply.getVb s.tvb).oid ≠ s.roid

/-- The column is below the row, and no longer empty once it is known. -/
structure TableView.Placed (t : TableView) : Prop where
  first : t.first = true → t.roid = t.poid
  later : t.first = false → t.roid ≠ []

variable {env : Printing}

theorem TableView.columnOid_ne_nil {t : TableView} {toid roid : Oid} (ht : t.Placed)
    (h : t.columnOid toid = some roid) : roid ≠ [] := by
  unfold TableView.columnOid at h
  split at h
  · obtain ⟨subid, -, rfl⟩ := Option.map_eq_some_iff.mp h
    simp
  · rename_i hfirst
    cases h
    exact ht.later (Bool.eq_false_iff.mpr hfirst)

/-- A checked pass is the pass, but where the answer is the column. -/
theorem TableView.checkedPass_eq {t : TableView} (ht : t.Placed) (reply : Reply) (cells : ℕ → Reply) :
    t.checkedPass env reply cells = t.pass env reply cells ∨
    (t.checkedPass env reply cells = .outOfBounds ∧ pduStatus [t.tvb] reply.status = 0 ∧
      (reply.getVb t.tvb).value.getSyntax ≠ .endOfMibView ∧
      t.columnOid (reply.getVb t.tvb).oid = some (reply.getVb t.tvb).oid) := by
  unfold TableView.checkedPass TableView.pass
  split
  · exact Or.inl rfl
  · rename_i hstatus
    cases hcolumn : t.columnOid (reply.getVb t.tvb).oid with
    | none =>
      left
      simp only [hcolumn]
    | some roid =>
      simp only [hcolumn]
      split
      · exact Or.inl rfl
      · rename_i hview
        split
        · exact Or.inl rfl
        · rename_i hscope
          have hbegins := (Oid.nCompare_root _ _).mp (not_not.mp hscope)
          rw [readInstance_eq (columnOid_ne_nil ht hcolumn) hbegins]
          split
          · rename_i hequal
            split at hequal
            · rename_i hsame
              exact Or.inr ⟨rfl, not_not.mp hstatus, hview, by rw [hsame]⟩
            · cases hequal
          · rename_i f hequal
            split at hequal
            · cases hequal
            · cases hequal
              exact Or.inl rfl

theorem TableView.pass_outOfBounds {t : TableView} {reply : Reply} {cells : ℕ → Reply}
    (h : t.pass env reply cells = .outOfBounds) :
    pduStatus [t.tvb] reply.status = 0 ∧ t.columnOid (reply.getVb t.tvb).oid = none := by
  unfold TableView.pass at h
  split at h
  · cases h
  · rename_i hstatus
    refine ⟨not_not.mp hstatus, ?_⟩
    simp only at h
    split at h
    · assumption
    · split at h
      · cases h
      · split at h
        · cases h
        · cases h

/-- The two accesses that can be out of bounds. -/
theorem TableView.checkedPass_outOfBounds_iff {t : TableView} (ht : t.Placed) (reply : Reply) (cells : ℕ → Reply) :
    t.checkedPass env reply cells = .outOfBounds ↔
      pduStatus [t.tvb] reply.status = 0 ∧
        (t.columnOid (reply.getVb t.tvb).oid = none ∨
          ((reply.getVb t.tvb).value.getSyntax ≠ .endOfMibView ∧
            t.columnOid (reply.getVb t.tvb).oid = some (reply.getVb t.tvb).oid)) := by
  constructor
  · intro h
    rcases @TableView.checkedPass_eq env t ht reply cells with hpass | ⟨-, hstatus, hview, hcolumn⟩
    · obtain ⟨hstatus, hcolumn⟩ := TableView.pass_outOfBounds (hpass.symm.trans h)
      exact ⟨hstatus, Or.inl hcolumn⟩
    · exact ⟨hstatus, Or.inr ⟨hview, hcolumn⟩⟩
  · rintro ⟨hstatus, hcolumn | ⟨hview, hcolumn⟩⟩
    · unfold TableView.checkedPass
      rw [if_neg (not_not.mpr hstatus)]
      simp only [hcolumn]
    · have hscope : Oid.nCompare (reply.getVb t.tvb).oid (reply.getVb t.tvb).oid.length (reply.getVb t.tvb).oid = 0 :=
        (Oid.nCompare_root _ _).mpr List.prefix_rfl
      have hread : readInstance (reply.getVb t.tvb).oid (reply.getVb t.tvb) = none := by
        rw [readInstance_eq (columnOid_ne_nil ht hcolumn) List.prefix_rfl, if_pos rfl]
      unfold TableView.checkedPass
      rw [if_neg (not_not.mpr hstatus)]
      simp only [hcolumn, if_neg hview, if_neg (not_not.mpr hscope), hread]

theorem TableView.columnOid_eq_none {t : TableView} {toid : Oid} :
    t.columnOid toid = none ↔ t.first = true ∧ toid.length ≤ t.poid.length := by
  unfold TableView.columnOid
  split
  · rename_i hfirst
    rw [Option.map_eq_none_iff, List.getElem?_eq_none_iff]
    exact ⟨fun hle => ⟨hfirst, hle⟩, And.right⟩
  · rename_i hfirst
    exact iff_of_false nofun fun hno => hfirst hno.1

theorem TableView.columnOid_eq_self {t : TableView} {toid : Oid} (ht : t.Placed) :
    t.columnOid toid = some toid ↔ if t.first then ∃ subid, toid = t.poid ++ [subid] else toid = t.roid := by
  unfold TableView.columnOid
  split
  · rename_i hfirst
    rw [Option.map_eq_some_iff, ht.first hfirst]
    constructor
    · rintro ⟨subid, -, heq⟩
      exact ⟨subid, heq.symm⟩
    · rintro ⟨subid, rfl⟩
      exact ⟨subid, by simp, rfl⟩
  · rw [Option.some.injEq]
    exact eq_comm

theorem TableView.checkedPass_iff {t : TableView} (ht : t.Placed) (reply : Reply) (cells : ℕ → Reply) :
    t.checkedPass env reply cells ≠ .outOfBounds ↔ t.Readable reply := by
  rw [ne_eq, TableView.checkedPass_outOfBounds_iff ht, TableView.columnOid_eq_none, TableView.columnOid_eq_self ht,
    not_and]
  unfold TableView.Readable
  refine imp_congr_right fun _ => ?_
  simp only
  cases hfirst : t.first with
  | true =>
    simp only [↓reduceIte, true_and, not_or, not_le, not_and_or, not_not, not_exists]
  | false =>
    simp only [Bool.false_eq_true, ↓reduceIte, false_and, false_or, not_and_or, not_not]

theorem Selecting.checkedPass_iff {s : Selecting} (hs : s.roid ≠ []) (reply : Reply) :
    s.checkedPass reply ≠ .outOfBounds ↔ s.Readable reply := by
  unfold Selecting.checkedPass Selecting.Readable
  split
  · rename_i hstatus
    exact iff_of_true nofun fun hno => absurd hno hstatus
  · rename_i hstatus
    simp only
    split
    · rename_i hview
      exact iff_of_true nofun fun _ => Or.inl hview
    · rename_i hview
      split
      · rename_i hscope
        refine iff_of_true nofun fun _ => Or.inr ?_
        intro heq
        exact hscope (heq ▸ (Oid.nCompare_root _ _).mpr List.prefix_rfl)
      · rename_i hscope
        have hbegins := (Oid.nCompare_root _ _).mp (not_not.mp hscope)
        rw [readInstance_eq hs hbegins]
        by_cases heq : (reply.getVb s.tvb).oid = s.roid
        · rw [if_pos heq]
          refine iff_of_false (fun hno => hno rfl) ?_
          intro hreadable
          exact (hreadable (not_not.mp hstatus)).elim hview fun hno => hno heq
        · rw [if_neg heq]
          exact iff_of_true nofun fun _ => Or.inr heq

/-! ## Every answer of a loop -/

def TableView.checkedFollow (env : Printing) (t : TableView) (replies : Reply × (ℕ → Reply)) : Option TableView :=
  (t.checkedPass env replies.1 replies.2).state?

def Selecting.checkedFollow (s : Selecting) (reply : Reply) : Option Selecting := (s.checkedPass reply).state?

theorem TableView.checkedFollow_placed {t t' : TableView} {replies : Reply × (ℕ → Reply)} (ht : t.Placed)
    (h : t.checkedFollow env replies = some t') : t'.Placed := by
  unfold TableView.checkedFollow at h
  rcases @TableView.checkedPass_eq env t ht replies.1 replies.2 with hpass | ⟨hout, -⟩
  · rw [hpass] at h
    obtain ⟨-, -, hfirst, hcolumn, -⟩ := TableView.pass_next h
    refine ⟨fun hno => ?_, fun _ => columnOid_ne_nil ht hcolumn⟩
    rw [hfirst] at hno
    cases hno
  · rw [hout] at h
    cases h

theorem Selecting.checkedFollow_roid {s s' : Selecting} {reply : Reply} (h : s.checkedFollow reply = some s') :
    s'.roid = s.roid := by
  unfold Selecting.checkedFollow Selecting.checkedPass at h
  split at h
  · cases h
  · simp only at h
    split at h
    · cases h
    · split at h
      · cases h
      · split at h
        · cases h
        · cases h
          rfl

/-- An empty OID has no node. -/
theorem selectTableInstance_oid {oid : String} {a : AgentState} {s : Selecting}
    (h : selectTableInstance oid a = some (.inr s)) : Oid.ofText oid ≠ [] := by
  intro hnil
  unfold selectTableInstance at h
  split at h
  · cases h
  · obtain ⟨pnode, hnode, -⟩ := Option.map_eq_some_iff.mp h
    rw [hnil] at hnode
    cases hnode

/-- Main result: against any agent, both loops read inside the OIDs of the answers and their texts exactly
when the first answer of a table view is longer than the row and no answer is the column itself. -/
theorem reads_inside_iff (env : Printing) (oid : String) (a : AgentState) :
    (∀ t, tableViewFrom oid a = some (.inr t) → ∀ replies,
      (Runs.Each (TableView.checkedFollow env) (fun t r => t.checkedPass env r.1 r.2 ≠ .outOfBounds) t replies ↔
        Runs.Each (TableView.checkedFollow env) (fun t r => t.Readable r.1) t replies)) ∧
    (∀ s, selectTableInstance oid a = some (.inr s) → ∀ replies,
      (Runs.Each Selecting.checkedFollow (fun s r => s.checkedPass r ≠ .outOfBounds) s replies ↔
        Runs.Each Selecting.checkedFollow (fun s r => s.Readable r) s replies)) := by
  constructor
  · intro t ht replies
    obtain ⟨hroid, -, hfirst⟩ := tableViewFrom_some ht
    have hplaced : t.Placed := ⟨fun _ => hroid, fun hno => by rw [hfirst] at hno; cases hno⟩
    exact Runs.each_congr (fun t r t' hI hstep => TableView.checkedFollow_placed hI hstep)
      (fun t r hI => TableView.checkedPass_iff hI r.1 r.2) hplaced replies
  · intro s hs replies
    obtain ⟨hroid, -⟩ := selectTableInstance_some hs
    have hne : s.roid ≠ [] := hroid ▸ selectTableInstance_oid hs
    have hkept : ∀ (s : Selecting) (r : Reply) s', s.roid ≠ [] → s.checkedFollow r = some s' → s'.roid ≠ [] :=
      fun s r s' hI hstep => Selecting.checkedFollow_roid hstep ▸ hI
    exact Runs.each_congr hkept (fun s r hI => Selecting.checkedPass_iff hI r) hne replies

/-- An instance of the column, and the end of the view behind it. -/
def instanceThenEnd : List Reply := [⟨0, ⟨[stuckVb], 0, 0⟩⟩, ⟨0, ⟨[⟨[1, 3, 6, 1, 1, 5], .endOfMibView⟩], 0, 0⟩⟩]

theorem reads_inside_iff_session :
    (Runs.Each (TableView.checkedFollow blank) (fun t r => t.checkedPass blank r.1 r.2 ≠ .outOfBounds) viewing
        (instanceThenEnd.map fun reply => (reply, fun _ => stuckReply)) ↔
      Runs.Each (TableView.checkedFollow blank) (fun t r => t.Readable r.1) viewing
        (instanceThenEnd.map fun reply => (reply, fun _ => stuckReply))) ∧
    (Runs.Each Selecting.checkedFollow (fun s r => s.checkedPass r ≠ .outOfBounds) selecting instanceThenEnd ↔
      Runs.Each Selecting.checkedFollow (fun s r => s.Readable r) selecting instanceThenEnd) :=
  ⟨(reads_inside_iff blank "1.3.6.1" tableSession).1 viewing tableSession_view _,
    (reads_inside_iff blank "1.3.6.1.1" tableSession).2 selecting tableSession_select _⟩

/-- There is nothing behind the row in the OID that comes with the end of the view, and nothing behind the
column where an answer is the column itself. -/
theorem end_of_view_read_outside :
    (¬ ∀ env oid a t, tableViewFrom oid a = some (.inr t) → ∀ replies,
      Runs.Each (TableView.checkedFollow env) (fun t r => t.checkedPass env r.1 r.2 ≠ .outOfBounds) t replies) ∧
    (¬ ∀ env oid a t, tableViewFrom oid a = some (.inr t) → ∀ replies,
      Runs.Each (TableView.checkedFollow env) (fun t r => t.poid.length < (r.1.getVb t.tvb).oid.length →
        t.checkedPass env r.1 r.2 ≠ .outOfBounds) t replies) ∧
    ¬ ∀ oid a s, selectTableInstance oid a = some (.inr s) → ∀ replies,
      Runs.Each Selecting.checkedFollow (fun s r => s.checkedPass r ≠ .outOfBounds) s replies := by
  refine ⟨?_, ?_, ?_⟩
  · intro h
    have hpass := h blank "1.3.6.1" tableSession viewing tableSession_view
      [(⟨0, ⟨[⟨[1, 3, 6, 1], .endOfMibView⟩], 0, 0⟩⟩, fun _ => stuckReply)]
    exact hpass.1 rfl
  · intro h
    have hpass := h blank "1.3.6.1" tableSession viewing tableSession_view
      [(⟨0, ⟨[⟨[1, 3, 6, 1, 1], .int32 0⟩], 0, 0⟩⟩, fun _ => stuckReply)]
    exact hpass.1 (by decide) rfl
  · intro h
    have hpass := h "1.3.6.1.1" tableSession selecting tableSession_select
      [⟨0, ⟨[⟨[1, 3, 6, 1, 1], .int32 0⟩], 0, 0⟩⟩]
    exact hpass.1 rfl

end SnmpB.Agent
