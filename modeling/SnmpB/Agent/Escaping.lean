import SnmpB.Library.Escape
import SnmpB.Agent.Reading
import SnmpB.Agent.Session

/-! # What agents write into the Query view

The view is rich text, so a value with markup in it changes what is displayed. The
lines of both callbacks and the rows of the table view are compared with the ones
that have every text of the agent escaped.
-/
namespace SnmpB.Agent
open Mib

/-! ## Escaping -/

def special : List Char := ['<', '>', '&', '"']

/-- A text without markup. -/
def Inert (text : String) : Prop := ∀ c ∈ text.toList, c ∉ special

instance (text : String) : Decidable (Inert text) :=
  inferInstanceAs (Decidable (∀ c ∈ text.toList, c ∉ special))

def escapeChar (c : Char) : List Char :=
  if c = '<' then "&lt;".toList
  else if c = '>' then "&gt;".toList
  else if c = '&' then "&amp;".toList
  else if c = '"' then "&quot;".toList
  else [c]

theorem toHtmlEscaped_toList (text : String) :
    (toHtmlEscaped text).toList = text.toList.flatMap escapeChar :=
  String.toList_ofList

theorem escapeChar_eq_self {c : Char} (h : c ∉ special) : escapeChar c = [c] := by
  simp only [special, List.mem_cons, List.not_mem_nil, or_false, not_or] at h
  simp [escapeChar, h]

theorem escapeChar_special {c : Char} (h : c ∈ special) : 1 < (escapeChar c).length := by
  simp only [special, List.mem_cons, List.not_mem_nil, or_false] at h
  rcases h with rfl | rfl | rfl | rfl <;> decide

theorem escapeChar_proper : Escape.Proper escapeChar := by
  intro c
  by_cases hc : c ∈ special
  · exact Or.inr (escapeChar_special hc)
  · exact Or.inl (escapeChar_eq_self hc)

theorem toHtmlEscaped_eq_self_iff (text : String) : toHtmlEscaped text = text ↔ Inert text := by
  rw [← String.toList_inj, toHtmlEscaped_toList, escapeChar_proper.flatMap_eq_self_iff]
  refine forall₂_congr fun c _ => ⟨fun hsame hc => ?_, escapeChar_eq_self⟩
  have hlonger := escapeChar_special hc
  rw [hsame] at hlonger
  exact absurd hlonger (Nat.lt_irrefl 1)

theorem inert_dotted {text : List Char} {oid : Oid} (h : text ⊆ Oid.dotted oid) :
    Inert (String.ofList text) := by
  intro c hc hspecial
  rw [String.toList_ofList] at hc
  simp only [special, List.mem_cons, List.not_mem_nil, or_false] at hspecial
  rcases Oid.mem_dotted (h hc) with hdigit | rfl
  · rcases hspecial with rfl | rfl | rfl | rfl <;> revert hdigit <;> decide
  · revert hspecial
    decide

theorem restOf_subset (b f : List Char) : Oid.restOf b f ⊆ f := by
  induction b generalizing f with
  | nil => exact List.tail_subset f
  | cons c b ih =>
    cases f with
    | nil => exact fun _ h => h
    | cons d f =>
      rw [Oid.restOf]
      split
      · exact fun _ h => List.mem_cons_of_mem d (ih f h)
      · exact List.subset_cons_self d f

/-! ## The varbinds a callback prints -/

structure PrintedVarbind where
  z : ℕ
  vb : Vb
  number : ℕ
  res : Resolved

namespace PrintedVarbind

/-- Where the remaining part of the OID comes from. -/
def Located (p : PrintedVarbind) : Prop :=
  ∀ node f, p.res.node = some (node, f) → f ⊆ Oid.dotted p.vb.oid

def rawValue (env : Printing) (p : PrintedVarbind) : String :=
  match p.res.node with
  | some (node, _) => env.printableValue p.res.mib.handle node p.vb
  | none => env.vbPrintableValue p.vb

def escapedName (p : PrintedVarbind) : String :=
  match p.res.node with
  | some (node, f) => node.name ++ toHtmlEscaped (String.ofList f)
  | none => toHtmlEscaped p.vb.oid.getPrintable

/-- The line as it ought to be: every text of the agent is escaped. -/
def escapedLine (env : Printing) (ctx : Locals) (p : PrintedVarbind) : ObjectLine :=
  { number := p.number, name := p.escapedName
    outcome :=
      if ctx.failed p.z p.vb then .error (ctx.failure env p.vb)
      else .value (toHtmlEscaped (p.rawValue env)) }

def line (env : Printing) (ctx : Locals) (p : PrintedVarbind) : ObjectLine :=
  objectLine env ctx p.z p.vb p.number p.res

/-- The value of a varbind without a node is inert where it is printed. -/
def Harmless (env : Printing) (ctx : Locals) (p : PrintedVarbind) : Prop :=
  p.res.node = none → ctx.failed p.z p.vb = false → Inert (env.vbPrintableValue p.vb)

theorem escapedName_eq {p : PrintedVarbind} (h : p.Located) : p.escapedName = printedName p.res.node p.vb := by
  unfold escapedName printedName
  cases hnode : p.res.node with
  | none => exact (toHtmlEscaped_eq_self_iff _).mpr (inert_dotted (List.Subset.refl _))
  | some found =>
    obtain ⟨node, f⟩ := found
    simp only [(toHtmlEscaped_eq_self_iff _).mpr (inert_dotted (h node f hnode))]

theorem line_eq_escapedLine_iff {env : Printing} {ctx : Locals} {p : PrintedVarbind} (h : p.Located) :
    p.line env ctx = p.escapedLine env ctx ↔ p.Harmless env ctx := by
  simp only [line, objectLine, escapedLine, ObjectLine.mk.injEq, true_and, escapedName_eq h]
  unfold Harmless
  cases hfailed : ctx.failed p.z p.vb with
  | true => simp
  | false =>
    simp only [Bool.false_eq_true, ↓reduceIte, LineOutcome.value.injEq, forall_const]
    unfold printedValue rawValue
    cases hnode : p.res.node with
    | some found => simp
    | none => simp only [forall_const]; rw [← toHtmlEscaped_eq_self_iff, eq_comm]

end PrintedVarbind

/-- The varbinds that get a line: up to one that leaves the loop before it is counted, and with
one that fails at a known node as the last. -/
def printedBy (resolve : Vb → MibState → Option Resolved) (leaves : Vb → Bool) (ctx : Locals) :
    List Vb → ℕ → ℕ → MibState → List PrintedVarbind
  | [], _, _, _ => []
  | vb :: rest, z, objects, mib =>
    if leaves vb then []
    else
      match resolve vb mib with
      | none => []
      | some res =>
        ⟨z, vb, objects + 1, res⟩ ::
          if ctx.failed z vb && res.node.isSome then []
          else printedBy resolve leaves ctx rest (z + 1) (objects + 1) res.mib

/-- A resolution that cuts the remaining part off the printed OID. -/
def CutsOid (resolve : Vb → MibState → Option Resolved) : Prop :=
  ∀ vb mib res node f, resolve vb mib = some res → res.node = some (node, f) → f ⊆ Oid.dotted vb.oid

theorem located_of_printedBy {resolve : Vb → MibState → Option Resolved} (hcuts : CutsOid resolve)
    {leaves : Vb → Bool} {ctx : Locals} {vbs : List Vb} {z objects : ℕ} {mib : MibState}
    {p : PrintedVarbind} (h : p ∈ printedBy resolve leaves ctx vbs z objects mib) : p.Located := by
  induction vbs generalizing z objects mib with
  | nil => cases h
  | cons vb rest ih =>
    rw [printedBy] at h
    split at h
    · cases h
    · split at h
      · cases h
      · rename_i res hres
        rcases List.mem_cons.mp h with rfl | hrest
        · exact fun node f hnode => hcuts vb mib res node f hres hnode
        · split at hrest
          · cases hrest
          · exact ih hrest

theorem lines_escaped_iff {env : Printing} {ctx : Locals} {printed : List PrintedVarbind}
    (h : ∀ p ∈ printed, p.Located) :
    printed.map (·.line env ctx) = printed.map (·.escapedLine env ctx) ↔
      ∀ p ∈ printed, p.Harmless env ctx := by
  rw [List.map_inj_left]
  exact forall₂_congr fun p hp => PrintedVarbind.line_eq_escapedLine_iff (h p hp)

/-! ## The loops of the callbacks -/

def restartResolve (fuel : ℕ) (vb : Vb) (mib : MibState) : Option Resolved :=
  Loop.run (nodeRestart vb) (fuel + 1) ⟨mib, []⟩

def plainResolve (vb : Vb) (mib : MibState) : Option Resolved := some ⟨mib, [], nodeOf mib vb⟩

theorem loadOr_inr {text : String} {s : Restart} {next : Restart → Restart ⊕ Resolved} {res : Resolved}
    (h : loadOr text s next = .inr res) : ∃ s', next s' = .inr res := by
  unfold loadOr at h
  simp only at h
  split at h
  · cases h
  · exact ⟨_, h⟩

theorem nodeRestart_inr {vb : Vb} {s : Restart} {res : Resolved} (h : nodeRestart vb s = .inr res) :
    ∀ node f, res.node = some (node, f) → f ⊆ Oid.dotted vb.oid := by
  intro node f hnode
  unfold nodeRestart at h
  split at h
  · obtain ⟨s', hleft⟩ := loadOr_inr h
    cases hleft
    cases hnode
  · rename_i found _
    -- whether the value is an OID or not, the node is passed on with what is cut off its own OID
    have hvalue : ∀ s : Restart, (if isOidType found then
          loadOr vb.getOidValue.getPrintable s fun s =>
            .inr ⟨s.mib, s.loading, some (found, Oid.restOf (Oid.dotted found.oid) (Oid.dotted vb.oid))⟩
        else .inr ⟨s.mib, s.loading, some (found, Oid.restOf (Oid.dotted found.oid) (Oid.dotted vb.oid))⟩) =
          (.inr res : Restart ⊕ Resolved) → f ⊆ Oid.dotted vb.oid := by
      intro s hleft
      have hcut : ∃ s : Restart, (.inr ⟨s.mib, s.loading,
          some (found, Oid.restOf (Oid.dotted found.oid) (Oid.dotted vb.oid))⟩ : Restart ⊕ Resolved) = .inr res := by
        split at hleft
        · exact loadOr_inr hleft
        · exact ⟨s, hleft⟩
      obtain ⟨s, hcut⟩ := hcut
      cases hcut
      cases hnode
      exact restOf_subset _ _
    simp only at h
    split at h
    · obtain ⟨s', hleft⟩ := loadOr_inr h
      exact hvalue s' hleft
    · exact hvalue s h

theorem restartResolve_cuts (fuel : ℕ) : CutsOid (restartResolve fuel) := by
  intro vb mib res node f hres
  exact Loop.run_result (P := fun res : Resolved => ∀ node f, res.node = some (node, f) → f ⊆ Oid.dotted vb.oid)
    (fun _ _ hleft => nodeRestart_inr hleft) hres node f

theorem plainResolve_cuts : CutsOid plainResolve := by
  intro vb mib res node f hres hnode
  cases hres
  obtain ⟨found, -, hfound⟩ := Option.map_eq_some_iff.mp hnode
  cases hfound
  exact restOf_subset _ _

variable {env : Printing}

theorem varbindLoop_lines {fuel : ℕ} {ctx : Locals} {vbs : List Vb} {z : ℕ} {last : Vb}
    {a a' : AgentState} {lines : List ObjectLine} {exit : Exit}
    (h : varbindLoop env fuel ctx vbs z last a = some (a', lines, exit)) :
    lines = (printedBy (restartResolve fuel) (ctx.outOfScope a.theoid) ctx vbs z a.objects a.mib).map
      (·.line env ctx) := by
  induction vbs generalizing z last a lines with
  | nil =>
    cases h
    rfl
  | cons vb rest ih =>
    rw [varbindLoop] at h
    rw [printedBy]
    split at h
    · rename_i hout
      cases h
      rw [if_pos hout]
      rfl
    · rename_i hin
      rw [if_neg hin]
      split at h
      · cases h
      · rename_i a₁ line hformat
        cases h
        obtain ⟨res, hres, rfl, hleft, rfl⟩ := formatVarbind_some hformat
        rw [show restartResolve fuel vb a.mib = some res from hres]
        simp only [← hleft, ↓reduceIte, List.map_cons, List.map_nil]
        rfl
      · rename_i a₁ line hformat
        obtain ⟨res, hres, rfl, hleft, rfl⟩ := formatVarbind_some hformat
        split at h
        · cases h
        · rename_i a₂ lines' exit' hrest
          cases h
          have hsame := ih hrest
          rw [AgentState.flush_theoid, AgentState.flush_objects, AgentState.flush_mib] at hsame
          rw [show restartResolve fuel vb a.mib = some res from hres]
          simp only [← hleft, Bool.false_eq_true, ↓reduceIte, List.map_cons]
          rw [hsame]
          rfl

theorem setLoop_lines (ctx : Locals) (vbs : List Vb) (z : ℕ) (a : AgentState) :
    (setLoop env ctx vbs z a).2 =
      (printedBy plainResolve (·.value.getSyntax == .endOfMibView) ctx vbs z a.objects a.mib).map
        (·.line env ctx) := by
  induction vbs generalizing z a with
  | nil => rfl
  | cons vb rest ih =>
    rw [setLoop, printedBy]
    split
    · rename_i hend
      rw [if_pos (beq_iff_eq.mpr hend)]
      rfl
    · rename_i hend
      rw [if_neg (fun h => hend (beq_iff_eq.mp h))]
      simp only [plainResolve, List.map_cons]
      split
      · rfl
      · simp only [ih, AgentState.flush_objects, AgentState.flush_mib]
        rfl

/-! ## The callbacks -/

instance (iswalk : Bool) (r : Response) : Decidable (r.overwrites iswalk) :=
  inferInstanceAs (Decidable (_ ∨ _))

/-- The varbinds `AsyncCallback` prints. -/
def Response.printed (iswalk : Bool) (r : Response) (a : AgentState) : List PrintedVarbind :=
  if r.overwrites iswalk ∨ (iswalk = true ∧ r.pdu.errorStatus = noSuchName) then []
  else
    printedBy (restartResolve r.fuel) ((r.locals iswalk).outOfScope a.theoid) (r.locals iswalk)
      (r.handled iswalk) ((r.locals iswalk).pduIndex - 1) (r.startObjects a) a.mib

/-- The varbinds `AsyncCallbackSet` prints. -/
def Response.printedSet (r : Response) (a : AgentState) : List PrintedVarbind :=
  if r.overwrites false then []
  else
    printedBy plainResolve (·.value.getSyntax == .endOfMibView) (r.locals false) (r.handled false)
      ((r.locals false).pduIndex - 1) (r.startObjects a) a.mib

theorem Response.printed_located {iswalk : Bool} {r : Response} {a : AgentState} :
    ∀ p ∈ r.printed iswalk a, p.Located := by
  intro p hp
  unfold Response.printed at hp
  split at hp
  · cases hp
  · exact located_of_printedBy (restartResolve_cuts r.fuel) hp

theorem Response.printedSet_located {r : Response} {a : AgentState} :
    ∀ p ∈ r.printedSet a, p.Located := by
  intro p hp
  unfold Response.printedSet at hp
  split at hp
  · cases hp
  · exact located_of_printedBy plainResolve_cuts hp

theorem mem_endQuery_buffered {a : AgentState} {l : ObjectLine} (h : l ∈ a.endQuery.buffered) :
    l ∈ a.buffered := by
  rw [AgentState.buffered, AgentState.endQuery_displayed] at h
  rcases List.mem_append.mp h with hshown | hpending
  · exact hshown
  · refine List.mem_append_right _ ?_
    simpa [AgentState.endQuery, AgentState.cleanup, linesOf] using hpending

theorem mem_failQuery_buffered {a : AgentState} {html : String} {l : ObjectLine}
    (h : l ∈ (a.failQuery html).buffered) : l ∈ a.buffered := by
  rw [AgentState.buffered, AgentState.failQuery_displayed] at h
  rcases List.mem_append.mp h with hshown | hpending
  · exact List.mem_append_left _ hshown
  · cases hpending

/-- The lines a callback formats are those of the varbinds it prints, and it adds no others to
the view and the buffer. -/
theorem asyncCallback_lines {iswalk : Bool} {r : Response} {a : AgentState} {ret : Returned}
    (h : asyncCallback env iswalk r a = some ret) :
    ret.formatted = (r.printed iswalk a).map (·.line env (r.locals iswalk)) ∧
    ∀ l ∈ ret.agent.buffered, l ∈ a.buffered ∨ l ∈ ret.formatted := by
  unfold Response.printed
  rcases asyncCallback_cases env h with ⟨hover, objects, html, rfl⟩ | ⟨-, hend, rfl⟩ |
    ⟨hover, hwalk, a', lines, exit, hloop, rfl⟩
  · rw [if_pos (Or.inl hover)]
    exact ⟨rfl, fun l hl => Or.inl (mem_failQuery_buffered hl)⟩
  · rw [if_pos (Or.inr hend)]
    exact ⟨rfl, fun l hl => Or.inl (mem_endQuery_buffered hl)⟩
  · rw [if_neg (fun hor => hor.elim hover hwalk)]
    refine ⟨varbindLoop_lines hloop, fun l hl => ?_⟩
    have hkept := varbindLoop_buffered hloop
    rw [enterLoop_buffered] at hkept
    have hadds : l ∈ a'.buffered := by
      rcases afterLoop_cases iswalk r.sendStatus exit a' with ⟨-, hafter⟩ |
        ⟨last, -, -, ⟨-, hafter⟩ | ⟨-, html, hafter⟩⟩
      · rw [hafter] at hl
        exact mem_endQuery_buffered hl
      · rw [hafter] at hl
        exact hl
      · rw [hafter] at hl
        exact mem_failQuery_buffered hl
    rw [hkept] at hadds
    exact List.mem_append.mp hadds

/-- Appending the buffer to the view shows nothing that was not pending. -/
theorem mem_append_buffered {a : AgentState} {html : String} {l : ObjectLine}
    (h : l ∈ AgentState.buffered { a with
      msg := a.msg ++ [.text html], query := a.query ++ [a.msg ++ [.text html]] }) : l ∈ a.buffered := by
  simpa [AgentState.buffered, AgentState.displayed, or_assoc] using h

theorem mem_fail_buffered {a : AgentState} {objects : ℕ} {html : String} {l : ObjectLine}
    (h : l ∈ AgentState.buffered { a with
      objects, msg := [.text html], query := a.query ++ [[.text html]] }) : l ∈ a.buffered := by
  simp [AgentState.buffered, AgentState.displayed] at h ⊢
  exact Or.inl h

theorem asyncCallbackSet_lines (r : Response) (a : AgentState) :
    (asyncCallbackSet env r a).2 = (r.printedSet a).map (·.line env (r.locals false)) ∧
    ∀ l ∈ (asyncCallbackSet env r a).1.buffered, l ∈ a.buffered ∨ l ∈ (asyncCallbackSet env r a).2 := by
  unfold Response.printedSet
  rcases @asyncCallbackSet_cases env r a with ⟨hover, objects, html, hset⟩ | ⟨hover, a', lines, hloop, hset⟩
  · rw [if_pos hover, hset]
    exact ⟨rfl, fun l hl => Or.inl (mem_fail_buffered hl)⟩
  · rw [if_neg hover, hset]
    have hlines := @setLoop_lines env (r.locals false) (r.handled false) ((r.locals false).pduIndex - 1)
      { a with objects := r.startObjects a }
    have hkept := @setLoop_buffered env (r.locals false) (r.handled false) ((r.locals false).pduIndex - 1)
      { a with objects := r.startObjects a }
    rw [hloop] at hlines hkept
    refine ⟨hlines, fun l hl => ?_⟩
    have hadds : l ∈ a'.buffered := mem_append_buffered hl
    rw [hkept] at hadds
    exact List.mem_append.mp hadds

/-! ## The table view -/

namespace TableView

/-- The value a cell shows; there is none where the agent has no instance. -/
def cellValue (env : Printing) (t : TableView) (f : List Char) (node : SmiNode) (reply : Reply) :
    Option String :=
  let svb : Vb := ⟨appendText (nodeOid node) f, .null⟩
  let got := reply.getVb svb
  if reply.pdu.errorStatus = noSuchName ∨ isException got = true ∨ pduStatus [svb] reply.status ≠ 0 then none
  else some (env.printableValue t.agent.mib.handle node got)

def escapedCell (value : Option String) : Chunk :=
  match value with
  | none => .text "<td>not available</td>"
  | some value => .text s!"<td>{toHtmlEscaped value}</td>"

/-- The row as it ought to be: the instance and the values are escaped. -/
def escapedRow (env : Printing) (t : TableView) (f : List Char) (cells : ℕ → Reply) : List Chunk :=
  (if f = [] then [] else [.text s!"<tr><td bgcolor=pink>{toHtmlEscaped (String.ofList f)}</td>"]) ++
    t.columns.mapIdx (fun i node => escapedCell (t.cellValue env f node (cells i))) ++ [.text "</tr>"]

theorem cell_read (t : TableView) (f : List Char) (node : SmiNode) (reply : Reply) :
    t.cell env f node reply = escapedCell (t.cellValue env f node reply) := by
  unfold cell cellValue
  simp only
  split
  · rfl
  · rfl

theorem row_eq_escapedRow {t : TableView} {f : List Char} (h : Inert (String.ofList f)) (cells : ℕ → Reply) :
    t.row env f cells = t.escapedRow env f cells := by
  unfold row escapedRow
  simp only [cell_read, (toHtmlEscaped_eq_self_iff _).mpr h]

/-- Every row of a table view is escaped. -/
theorem pass_escaped {t t' : TableView} {reply : Reply} {cells : ℕ → Reply}
    (h : t.pass env reply cells = .next t') :
    ∃ f, t'.agent.msg = t.agent.msg ++ t.escapedRow env f cells := by
  unfold pass at h
  split at h
  · cases h
  · simp only at h
    split at h
    · cases h
    · rename_i roid hroid
      split at h
      · cases h
      · split at h
        · cases h
        · cases h
          have hinert : Inert (String.ofList (instancePart roid (reply.getVb t.tvb))) :=
            inert_dotted (List.Subset.trans (List.tail_subset _) (restOf_subset _ _))
          exact ⟨_, congrArg (t.agent.msg ++ ·) (row_eq_escapedRow hinert cells)⟩

end TableView

/-- A rendering that shows the octets of a string as characters. -/
def clearText : Printing :=
  { printableValue := fun _ _ _ => ""
    vbPrintableValue := fun vb =>
      match vb.value with
      | .octets bytes => String.ofList (bytes.map Char.ofNat)
      | _ => ""
    errorMsg := fun _ => "" }

/-- `<b>` under an OID that no loaded module resolves. -/
def markupReply : Response := answered [⟨besideProduct, .octets [60, 98, 62]⟩]

end SnmpB.Agent
