import SnmpB.Oid.Text
import SnmpB.Selection.Dialog

/-! # The OID of the varbind

The node of the last selection decides about the instance suffix and the name,
while the text of the OID may have been edited since. Where the text still
belongs to that node, both follow the text, the name as far as the memory it is
read from still holds the text.
-/
namespace SnmpB.Selection
open Agent Mib MibSelection

def isScalarOid (h : SmiHandle) (oid : Oid) : Bool :=
  (getNodeFromOid h oid).any fun node => node.oid == oid && node.nodekind == .scalar

/-- The OID a text asks for: that of a scalar is followed by the only instance. -/
def oidShown (h : SmiHandle) (text : String) : Oid :=
  Oid.ofText (if isScalarOid h (Oid.ofText text) then text ++ ".0" else text)

/-- A name for a text: the text itself, or the name of its node and what follows the node's OID. -/
def Names (h : SmiHandle) (text name : String) : Prop :=
  name = text ∨ ∃ node, resolve h text = some node ∧ ∃ rest,
    text.toList = Oid.dotted node.oid ++ rest ∧ Oid.endsToken rest = true ∧
      name = node.name ++ String.ofList rest

/-- A text with a node is ASCII and begins with the OID of the node, up to a dot or its end. -/
def BeginsWithNode (h : SmiHandle) (text : String) : Prop :=
  ∀ node, resolve h text = some node → node.oid ≠ [] ∧ ∃ rest,
    text.toList = Oid.dotted node.oid ++ rest ∧ Oid.endsToken rest = true ∧
      ∀ c ∈ rest, 0 < c.toNat ∧ c.toNat < 128

/-- The node of the OID selected last suits the text: it is the node of the text as well, or there
is none and the text is not that of a scalar. -/
def NodeSuits (h : SmiHandle) (selected text : String) : Prop :=
  (resolve h selected = resolve h text ∧ BeginsWithNode h text) ∨
    (resolve h selected = none ∧ isScalarOid h (Oid.ofText text) = false)

theorem resolve_some {h : SmiHandle} {text : String} {node : SmiNode} (hnode : resolve h text = some node) :
    Oid.ofText text ≠ [] ∧ getNodeFromOid h (Oid.ofText text) = some node ∧
      ((Oid.ofText text).length ≤ node.oid.length ∨ node.nodekind = .column) := by
  rw [resolve] at hnode
  split at hnode
  · cases hnode
  · next hne =>
    obtain ⟨hget, hkind⟩ := Option.filter_eq_some_iff.mp hnode
    refine ⟨hne, hget, ?_⟩
    simpa using hkind

theorem getNodeFromOid_isPrefix {h : SmiHandle} {oid : Oid} {node : SmiNode}
    (hnode : getNodeFromOid h oid = some node) : node.oid <+: oid.map (· % 2 ^ 32) :=
  (SmiHandle.smiGetNodeByOid_some hnode).1

/-- The node of a text is a scalar exactly when the text is the OID of a scalar. -/
theorem resolve_scalar {h : SmiHandle} {text : String} (hbegins : BeginsWithNode h text) :
    (resolve h text).any (·.nodekind == .scalar) = isScalarOid h (Oid.ofText text) := by
  apply Bool.eq_iff_iff.mpr
  rw [isScalarOid, Option.any_eq_true, Option.any_eq_true]
  constructor
  · rintro ⟨node, hnode, hscalar⟩
    rw [beq_iff_eq] at hscalar
    obtain ⟨hne, hget, hlen⟩ := resolve_some hnode
    obtain ⟨hoid, rest, htext, hends, hascii⟩ := hbegins node hnode
    have hpre := getNodeFromOid_isPrefix hget
    have hsmall : ∀ n ∈ node.oid, n < 2 ^ 64 := by
      intro n hn
      obtain ⟨k, -, rfl⟩ := List.mem_map.mp (hpre.subset hn)
      omega
    have hlatin : toLatin1 text = Oid.dotted node.oid ++ rest := by
      rw [← htext]
      apply toLatin1_ascii
      intro c hc
      rw [htext, List.mem_append] at hc
      exact hc.elim Oid.dotted_ascii (hascii c)
    obtain ⟨oid, hparsed⟩ : ∃ oid, Oid.strToOid (toLatin1 text) = some oid := by
      rw [← Option.isSome_iff_exists]
      by_contra hnone
      rw [Option.not_isSome_iff_eq_none] at hnone
      exact hne (by rw [Oid.ofText, hnone]; rfl)
    have htextOid : Oid.ofText text = oid := by rw [Oid.ofText, hparsed]; rfl
    rw [hlatin] at hparsed
    have hextends := Oid.strToOid_dotted_append hoid hsmall hends hparsed
    have hlen : oid.length ≤ node.oid.length := by
      rw [← htextOid]
      exact hlen.resolve_right (by rw [hscalar]; decide)
    have heq : node.oid = oid := hextends.eq_of_length_le hlen
    refine ⟨node, hget, ?_⟩
    rw [htextOid, heq, hscalar]
    simp
  · rintro ⟨node, hget, hnode⟩
    rw [Bool.and_eq_true, beq_iff_eq, beq_iff_eq] at hnode
    obtain ⟨hoid, hscalar⟩ := hnode
    have hne : Oid.ofText text ≠ [] := by
      intro hnil
      rw [hnil] at hget
      cases hget
    refine ⟨node, ?_, by simpa using hscalar⟩
    rw [resolve]
    simp only [hne, ↓reduceIte]
    refine Option.filter_eq_some_iff.mpr ⟨hget, ?_⟩
    simp [hoid]

theorem beginsWithNode_printable {h : SmiHandle} (hobjects : ∀ m ∈ h.modules, ∀ node ∈ m.nodes, node.oid ≠ [])
    {oid : Oid} (hoid : ∀ n ∈ oid, n < 2 ^ 32) : BeginsWithNode h oid.getPrintable := by
  intro node hnode
  obtain ⟨-, hget, -⟩ := resolve_some hnode
  rw [Oid.ofText_getPrintable fun n hn => (hoid n hn).trans (by decide)] at hget
  have hpre := getNodeFromOid_isPrefix hget
  rw [List.map_congr_left fun n hn => Nat.mod_eq_of_lt (hoid n hn), List.map_id'] at hpre
  obtain ⟨-, m, hm, hmem⟩ := SmiHandle.smiGetNodeByOid_some hget
  have hne := hobjects m hm node hmem
  obtain ⟨rest, rfl⟩ := hpre
  refine ⟨hne, ?_⟩
  rw [Oid.getPrintable, String.toList_ofList]
  by_cases hrest : rest = []
  · refine ⟨[], ?_, rfl, fun c hc => by cases hc⟩
    rw [hrest, List.append_nil, List.append_nil]
  · refine ⟨'.' :: Oid.dotted rest, Oid.dotted_append hne hrest, rfl, fun c hc => ?_⟩
    have hmem : c ∈ Oid.dotted (node.oid ++ rest) := by
      rw [Oid.dotted_append hne hrest]
      exact List.mem_append_right _ hc
    exact Oid.dotted_ascii hmem

namespace MibSelection

variable (p : Platform)

theorem names_of_suits {m : MibSelection} {selected : String} (hresult : m.resultOid = m.oidLe)
    (hnode : m.node = resolve m.handle selected) (hsuits : NodeSuits m.handle selected m.oidLe) :
    m.setVbOid.vb.oid = oidShown m.handle m.oidLe ∧
      (resolve m.handle selected = none ∨ p.Keeps (toLatin1 m.oidLe) →
        Names m.handle m.oidLe (m.getName p)) := by
  have hscalar : m.node.any (·.nodekind == .scalar) = isScalarOid m.handle (Oid.ofText m.oidLe) := by
    rcases hsuits with ⟨hsame, hbegins⟩ | ⟨hnone, hnot⟩
    · rw [hnode, hsame, resolve_scalar hbegins]
    · rw [hnode, hnone, hnot]
      rfl
  refine ⟨by rw [setVbOid, oidShown, ← hscalar, hresult], fun hread => ?_⟩
  rw [getName, hresult]
  cases hkept : m.node with
  | none => exact Or.inl rfl
  | some node =>
    rw [hnode] at hkept
    have hkeeps : p.Keeps (toLatin1 m.oidLe) := hread.resolve_left (by simp [hkept])
    rcases hsuits with ⟨hsame, hbegins⟩ | ⟨hnone, -⟩
    · rw [hsame] at hkept
      obtain ⟨hoid, rest, htext, hends, hascii⟩ := hbegins node hkept
      have hlatin : toLatin1 m.oidLe = Oid.dotted node.oid ++ rest := by
        rw [← htext]
        apply toLatin1_ascii
        intro c hc
        rw [htext, List.mem_append] at hc
        exact hc.elim Oid.dotted_ascii (hascii c)
      refine Or.inr ⟨node, hkept, rest, htext, hends, ?_⟩
      rw [hkeeps, hlatin]
      simp only [Oid.restOf_append (Oid.dotted_ne_nil hoid), List.length_append, Nat.add_sub_cancel,
        List.drop_left]
      split
      · next hrest => rw [hrest, String.ofList_nil, String.append_empty]
      · rw [p.fromUtf8_ascii rest fun c hc => (hascii c hc).2]
    · rw [hnone] at hkept
      cases hkept

/-- The members the handlers of the value and of the syntax leave alone. -/
def oidPart (m : MibSelection) : SmiHandle × Option SmiNode × String × String :=
  (m.handle, m.node, m.oidLe, m.resultOid)

@[simp] theorem valCbChanged_oidPart (m : MibSelection) (index : Option ℕ) :
    (m.valCbChanged index).oidPart = m.oidPart := by
  rw [valCbChanged]
  simp only
  split <;> rfl

@[simp] theorem valCbClear_oidPart (m : MibSelection) : m.valCbClear.oidPart = m.oidPart := by
  rw [valCbClear]
  split
  · rfl
  · exact valCbChanged_oidPart _ none

@[simp] theorem valCbAddItem_oidPart (m : MibSelection) (item : String × ℕ) :
    (m.valCbAddItem item).oidPart = m.oidPart := by
  rw [valCbAddItem]
  split
  · exact valCbChanged_oidPart _ (some 0)
  · rfl

@[simp] theorem valCbSetCurrentIndex_oidPart (m : MibSelection) (index : ℕ) :
    (m.valCbSetCurrentIndex index).oidPart = m.oidPart := by
  rw [valCbSetCurrentIndex]
  split
  · rfl
  · exact valCbChanged_oidPart m (some index)

theorem foldl_oidPart {α : Type*} {f : MibSelection → α → MibSelection}
    (hf : ∀ m a, (f m a).oidPart = m.oidPart) (m : MibSelection) (as : List α) :
    (as.foldl f m).oidPart = m.oidPart := by
  induction as generalizing m with
  | nil => rfl
  | cons a as ih =>
    rw [List.foldl_cons, ih]
    exact hf m a

@[simp] theorem setValueWidget_oidPart (m : MibSelection) : m.setValueWidget.oidPart = m.oidPart := by
  rw [← valCbClear_oidPart m, setValueWidget]
  simp only
  split
  · exact foldl_oidPart valCbAddItem_oidPart m.valCbClear _
  · rfl

@[simp] theorem getSyntaxCb_oidPart (m : MibSelection) (index : ℕ) :
    (m.getSyntaxCb index).oidPart = m.oidPart := by
  rw [getSyntaxCb]
  simp only
  split
  · exact setValueWidget_oidPart _
  · rfl

@[simp] theorem syntaxCbSetCurrentIndex_oidPart (m : MibSelection) (index : ℕ) :
    (m.syntaxCbSetCurrentIndex index).oidPart = m.oidPart := by
  rw [syntaxCbSetCurrentIndex]
  split
  · rfl
  · exact getSyntaxCb_oidPart _ index

@[simp] theorem setSyntax_oidPart (m : MibSelection) (st : Option SnmpSyntax) :
    (m.setSyntax st).oidPart = m.oidPart := by
  rw [setSyntax]
  cases indexFor st m.type <;> simp

@[simp] theorem setInitialValue_oidPart (m : MibSelection) (value : String) :
    (m.setInitialValue p value).oidPart = m.oidPart := by
  rw [setInitialValue]
  split
  · refine (foldl_oidPart (fun m i => ?_) _ _).trans rfl
    rw [pickEntry]
    split
    · exact valCbSetCurrentIndex_oidPart m i
    · rfl
  · rfl

@[simp] theorem okButtonPressed_oidPart (m : MibSelection) : (m.okButtonPressed p).1.oidPart = m.oidPart := by
  rw [okButtonPressed]
  split
  · rfl
  · simp only
    split <;> rfl

def Kept (handle : SmiHandle) (selected : String) (m : MibSelection) : Prop :=
  m.handle = handle ∧ m.node = resolve handle selected ∧ m.resultOid = m.oidLe

theorem Kept.of_oidPart {handle : SmiHandle} {selected : String} {m m' : MibSelection}
    (h : Kept handle selected m) (heq : m'.oidPart = m.oidPart) : Kept handle selected m' := by
  simp only [oidPart, Prod.mk.injEq] at heq
  obtain ⟨hhandle, hnode, hline, hresult⟩ := heq
  obtain ⟨hhandle', hnode', hresult'⟩ := h
  exact ⟨hhandle.trans hhandle', hnode.trans hnode', hresult.trans (hresult'.trans hline.symm)⟩

theorem setOidInfoType_kept (m : MibSelection) (oid : String) (inst : Option String) :
    Kept m.handle oid (m.setOidInfoType oid inst) := ⟨rfl, rfl, rfl⟩

theorem setOidInfoType_oidLe (m : MibSelection) (oid : String) : (m.setOidInfoType oid none).oidLe = oid := by
  rw [setOidInfoType]
  cases resolve m.handle oid <;> simp

/-- Behind the resolution of a printed OID, whatever was edited before, the two follow its text. -/
theorem names_of_printable {m m' : MibSelection} {oid : Oid}
    (hobjects : ∀ mod ∈ m.handle.modules, ∀ node ∈ mod.nodes, node.oid ≠ [])
    (hoid : ∀ n ∈ oid, n < 2 ^ 32) (hpart : m'.oidPart = (m.setOidInfoType oid.getPrintable none).oidPart) :
    m'.setVbOid.vb.oid = oidShown m.handle oid.getPrintable ∧
      (p.Keeps (Oid.dotted oid) → Names m.handle oid.getPrintable (m'.getName p)) := by
  obtain ⟨hhandle, hnode, hresult⟩ := (setOidInfoType_kept m oid.getPrintable none).of_oidPart hpart
  have hline : m'.oidLe = oid.getPrintable :=
    (congrArg (·.2.2.1) hpart).trans (setOidInfoType_oidLe m oid.getPrintable)
  have hnames := @names_of_suits p m' oid.getPrintable hresult
  rw [hline, hhandle, toLatin1_getPrintable] at hnames
  obtain ⟨hvb, hname⟩ := hnames hnode (Or.inl ⟨rfl, beginsWithNode_printable hobjects hoid⟩)
  exact ⟨hvb, fun hkeeps => hname (Or.inr hkeeps)⟩

/-- Without a dialog the OID is set whether or not OK is accepted. -/
theorem bgrun_names {handle : SmiHandle} (flags : Flags) {oid : Oid}
    (hobjects : ∀ mod ∈ handle.modules, ∀ node ∈ mod.nodes, node.oid ≠ [])
    (hoid : ∀ n ∈ oid, n < 2 ^ 32) :
    (bgrun p handle flags oid.getPrintable none).vb.oid = oidShown handle oid.getPrintable ∧
      (p.Keeps (Oid.dotted oid) →
        Names handle oid.getPrintable ((bgrun p handle flags oid.getPrintable none).getName p)) := by
  have hpart := (okButtonPressed_oidPart p (((create handle flags).setOidInfoType oid.getPrintable
    none).setSyntax none)).trans (setSyntax_oidPart _ none)
  rw [bgrun]
  generalize (okButtonPressed p _).1 = m' at hpart ⊢
  have hnames := names_of_printable (m := create handle flags) p hobjects hoid hpart
  exact hnames

end MibSelection

def UiEvent.selected (selected : String) : UiEvent → String
  | .selectNode oid _ => oid
  | _ => selected

def lastSelected (selected : String) (es : List UiEvent) : String := es.foldl UiEvent.selected selected

namespace MibSelection

variable (p : Platform)

theorem start_kept (handle : SmiHandle) (flags : Flags) (oid : String) (inst : Option String)
    (st : Option SnmpSyntax) (initVal : String) :
    Kept handle oid (start p handle flags oid inst st initVal) := by
  have hkept : Kept handle oid (((create handle flags).setOidInfoType oid inst).setSyntax st) :=
    (setOidInfoType_kept (create handle flags) oid inst).of_oidPart (setSyntax_oidPart _ st)
  rw [start]
  split
  · exact hkept.of_oidPart (setInitialValue_oidPart p _ initVal)
  · exact hkept

theorem step_kept {handle : SmiHandle} {selected : String} {m m' : MibSelection} {e : UiEvent}
    (h : Kept handle selected m) (hstep : m.step p e = some m') : Kept handle (e.selected selected) m' := by
  cases e with
  | selectNode oid inst =>
    cases hstep
    obtain ⟨rfl, -, -⟩ := h
    exact (setOidInfoType_kept m oid inst).of_oidPart (setSyntax_oidPart _ none)
  | editOid text =>
    cases hstep
    obtain ⟨hhandle, hnode, -⟩ := h
    exact ⟨hhandle, hnode, rfl⟩
  | pickSyntax index =>
    rw [step] at hstep
    split at hstep
    · cases hstep
      exact h.of_oidPart (syntaxCbSetCurrentIndex_oidPart m index)
    · cases hstep
  | editValue text =>
    rw [step] at hstep
    split at hstep
    · apply h.of_oidPart
      rw [editValue] at hstep
      split at hstep
      · cases hstep
        split <;> rfl
      · split at hstep
        · cases hstep
        · cases hstep
          rfl
    · cases hstep
  | pickValue index =>
    rw [step] at hstep
    split at hstep
    · cases hstep
      exact h.of_oidPart (valCbSetCurrentIndex_oidPart m index)
    · cases hstep
  | ok =>
    rw [step] at hstep
    split at hstep
    · next hrefused =>
      cases hstep
      apply h.of_oidPart
      rw [← okButtonPressed_oidPart p m, hrefused]
    · cases hstep

theorem exec_kept {handle : SmiHandle} {selected : String} {m m' : MibSelection} {es : List UiEvent}
    (h : Kept handle selected m) (hrun : Runs.exec (step p) m es = some m') :
    Kept handle (lastSelected selected es) m' := by
  induction es generalizing m selected with
  | nil =>
    cases hrun
    exact h
  | cons e es ih =>
    obtain ⟨m₁, hstep, hrest⟩ := Runs.exec_cons.mp hrun
    exact ih (step_kept p h hstep) hrest

/-- In a run that ends with a text the node selected last suits, OK puts the OID shown into the
varbind, with the instance of a scalar. The name is one of the OID shown where there is no node, or
where the memory still holds the text. -/
theorem accepted_oid_shown (handle : SmiHandle) (flags : Flags) (oid : String) (inst : Option String)
    (st : Option SnmpSyntax) (initVal : String) (es : List UiEvent) (m m' : MibSelection)
    (hrun : Runs.exec (step p) (start p handle flags oid inst st initVal) es = some m)
    (hsuits : NodeSuits handle (lastSelected oid es) m.oidLe) (hok : m.okButtonPressed p = (m', true)) :
    m'.setVbOid.vb.oid = oidShown handle m.oidLe ∧
      (resolve handle (lastSelected oid es) = none ∨ p.Keeps (toLatin1 m.oidLe) →
        Names handle m.oidLe (m'.setVbOid.getName p)) := by
  have hkept := exec_kept p (start_kept p handle flags oid inst st initVal) hrun
  have hpart : m'.oidPart = m.oidPart := by
    rw [← okButtonPressed_oidPart p m, hok]
  obtain ⟨rfl, hselected, hresult⟩ := hkept.of_oidPart hpart
  have hline : m'.oidLe = m.oidLe := congrArg (·.2.2.1) hpart
  rw [← hline] at hsuits ⊢
  exact names_of_suits p hresult hselected hsuits

end MibSelection

theorem accepted_oid_shown_selected : ∃ m m' : MibSelection,
    Runs.exec (MibSelection.step asciiPlatform)
      (.start asciiPlatform ipHandle ⟨true, false, false⟩ "1.3.6.1.2.1.4.1" none none "")
      [.editOid "1.3.6.1.2.1.4.1.0", .selectNode "1.3.6.1.2.1.4.2" none] = some m ∧
      m.okButtonPressed asciiPlatform = (m', true) ∧
      m'.setVbOid.vb.oid = oidShown ipHandle m.oidLe ∧
      Names ipHandle m.oidLe (m'.setVbOid.getName asciiPlatform) := by
  have hrun : (Runs.exec (MibSelection.step asciiPlatform)
      (.start asciiPlatform ipHandle ⟨true, false, false⟩ "1.3.6.1.2.1.4.1" none none "")
      [.editOid "1.3.6.1.2.1.4.1.0", .selectNode "1.3.6.1.2.1.4.2" none]).any (fun m =>
        (m.okButtonPressed asciiPlatform).2 && m.oidLe == "1.3.6.1.2.1.4.2") = true := by decide
  obtain ⟨m, hm, hend⟩ := (Option.any_eq_true _ _).mp hrun
  rw [Bool.and_eq_true, beq_iff_eq] at hend
  obtain ⟨hok, hline⟩ := hend
  have htext : Oid.getPrintable [1, 3, 6, 1, 2, 1, 4, 2] = "1.3.6.1.2.1.4.2" := by decide
  have haccepted : m.okButtonPressed asciiPlatform = ((m.okButtonPressed asciiPlatform).1, true) :=
    Prod.ext rfl hok
  refine ⟨m, _, hm, haccepted, ?_⟩
  have hsuits : NodeSuits ipHandle "1.3.6.1.2.1.4.2" m.oidLe := by
    rw [hline, ← htext]
    exact Or.inl ⟨rfl, beginsWithNode_printable (by decide) (by decide)⟩
  obtain ⟨hvb, hname⟩ := MibSelection.accepted_oid_shown asciiPlatform ipHandle ⟨true, false, false⟩
    "1.3.6.1.2.1.4.1" none none "" [.editOid "1.3.6.1.2.1.4.1.0", .selectNode "1.3.6.1.2.1.4.2" none] m _ hm
    hsuits haccepted
  exact ⟨hvb, hname (Or.inr rfl)⟩

/-- The other way round, the node of the selection appends a second instance. -/
theorem edited_oid_suffixed : ¬ ∀ (p : Platform) (handle : SmiHandle) (flags : Flags) (oid : String)
    (inst : Option String) (st : Option SnmpSyntax) (initVal : String) (es : List UiEvent)
    (m m' : MibSelection),
    Runs.exec (MibSelection.step p) (.start p handle flags oid inst st initVal) es = some m →
    m.okButtonPressed p = (m', true) →
    m'.setVbOid.vb.oid = oidShown handle m.oidLe ∧ Names handle m.oidLe (m'.setVbOid.getName p) := by
  intro h
  obtain ⟨hoid, -⟩ := h asciiPlatform ipHandle ⟨true, false, false⟩ "1.3.6.1.2.1.4.2" none none ""
    [.editOid "1.3.6.1.2.1.4.2.0"] _ _ rfl rfl
  revert hoid
  decide

end SnmpB.Selection
