import SnmpB.Selection.Dialog

/-! # The value of the varbind

OK encodes the cached text, not the text of the value field. The two agree after
a finished edit and whenever the enumeration box calls its handler; a cleared
field leaves the cache behind.
-/
namespace SnmpB.Selection
open Agent Mib

namespace MibSelection

/-- The cached text is the text of the value field. -/
def Shown (m : MibSelection) : Prop := m.resultString = m.valLe

theorem valCbChanged_connected {m : MibSelection} (h : m.valCbConnected = true) (index : Option ℕ) :
    ∃ text, m.valCbChanged index = { m with valCbIndex := index, resultString := text, valLe := text } := by
  simp only [valCbChanged, h, ↓reduceIte, getValueCb]
  exact ⟨_, rfl⟩

theorem valCbChanged_unconnected {m : MibSelection} (h : m.valCbConnected = false) (index : Option ℕ) :
    m.valCbChanged index = { m with valCbIndex := index } := by
  simp [valCbChanged, h]

theorem foldl_valCbAddItem {m : MibSelection} (h : m.valCb ≠ []) (items : List (String × ℕ)) :
    items.foldl valCbAddItem m = { m with valCb := m.valCb ++ items } := by
  induction items generalizing m with
  | nil => simp
  | cons item items ih =>
    have hadd : m.valCbAddItem item = { m with valCb := m.valCb ++ [item] } := by
      rw [valCbAddItem, if_neg h]
    rw [List.foldl_cons, hadd, ih (by simp)]
    simp

/-- Filling an empty box calls the handler once, if it is connected. -/
theorem foldl_valCbAddItem_empty {m : MibSelection} (h : m.valCb = []) (item : String × ℕ)
    (items : List (String × ℕ)) :
    ∃ index resultString valLe, (item :: items).foldl valCbAddItem m =
        { m with valCb := item :: items, valCbIndex := index, resultString, valLe } ∧
      (m.valCbConnected = true → resultString = valLe) ∧
      (m.valCbConnected = false → resultString = m.resultString ∧ valLe = m.valLe) := by
  have hadd : m.valCbAddItem item = { m with valCb := [item] }.valCbChanged (some 0) := by
    rw [valCbAddItem, if_pos h, h, List.nil_append]
  rw [List.foldl_cons, hadd]
  by_cases hc : m.valCbConnected = true
  · obtain ⟨text, htext⟩ := valCbChanged_connected (m := { m with valCb := [item] }) hc (some 0)
    refine ⟨some 0, text, text, ?_, fun _ => rfl, fun hno => ?_⟩
    · rw [htext, foldl_valCbAddItem (by simp)]
      rfl
    · rw [hno] at hc
      cases hc
  · rw [Bool.not_eq_true] at hc
    refine ⟨some 0, m.resultString, m.valLe, ?_, fun hno => ?_, fun _ => ⟨rfl, rfl⟩⟩
    · rw [valCbChanged_unconnected (m := { m with valCb := [item] }) hc, foldl_valCbAddItem (by simp)]
      rfl
    · rw [hno] at hc
      cases hc

/-- What `SetValueWidget` does to the box, the field and the cache. -/
structure WidgetSet (m m' : MibSelection) : Prop where
  frame : ∃ valCb valCbIndex valCbConnected valLe validator resultString, m' =
    { m with valCb, valCbIndex, valCbConnected, valLe, valLeConnected := true, validator, resultString }
  connected : m'.valCbConnected = (m.valCbConnected || enumerates m.type)
  filled : m'.valCb ≠ [] ↔ enumerates m.type = true
  rewritten : m.valCb ≠ [] ∨ (enumerates m.type = true ∧ m.valCbConnected = true) → m'.Shown
  emptied : m.valCb ≠ [] → enumerates m.type = false → m'.resultString = "" ∧ m'.valLe = ""
  kept : m.valCb = [] → ¬(enumerates m.type = true ∧ m.valCbConnected = true) →
    m'.resultString = m.resultString ∧ m'.valLe = m.valLe

theorem valCbClear_spec {m : MibSelection} (hbox : m.valCb ≠ [] → m.valCbConnected = true) :
    ∃ index resultString valLe,
      m.valCbClear = { m with valCb := [], valCbIndex := index, resultString, valLe } ∧
      (m.valCb ≠ [] → resultString = "" ∧ valLe = "") ∧
      (m.valCb = [] → resultString = m.resultString ∧ valLe = m.valLe) := by
  by_cases h : m.valCb = []
  · refine ⟨m.valCbIndex, m.resultString, m.valLe, ?_, fun hne => absurd h hne, fun _ => ⟨rfl, rfl⟩⟩
    rw [valCbClear, if_pos h, ← h]
  · refine ⟨none, "", "", ?_, fun _ => ⟨rfl, rfl⟩, fun hnil => absurd hnil h⟩
    simp only [valCbClear, if_neg h, valCbChanged, hbox h, ↓reduceIte, getValueCb]
    rfl

theorem enumerates_items {type : Option SmiType} (h : enumerates type = true) :
    ∃ item items, (type.map (·.namedNumbers)).getD [] = item :: items := by
  cases type with
  | none => cases h
  | some type =>
    obtain ⟨hitems, -⟩ := of_decide_eq_true h
    exact List.exists_cons_of_ne_nil hitems

theorem setValueWidget_spec {m : MibSelection} (hbox : m.valCb ≠ [] → m.valCbConnected = true) :
    WidgetSet m m.setValueWidget := by
  obtain ⟨index, resultString, valLe, hclear, hfull, hempty⟩ := valCbClear_spec hbox
  rw [setValueWidget, hclear]
  simp only
  by_cases henum : enumerates m.type = true
  · obtain ⟨item, items, hitems⟩ := enumerates_items henum
    obtain ⟨index', resultString', valLe', hfold, hsame, hkept⟩ := foldl_valCbAddItem_empty
      (m := { m with valCb := [], valCbIndex := index, resultString, valLe }) rfl item items
    rw [if_pos henum, hitems, hfold]
    refine
      { frame := ⟨_, _, _, _, _, _, rfl⟩
        connected := by simp [henum]
        filled := by simp [henum]
        rewritten := ?_
        emptied := fun _ hno => by rw [henum] at hno; cases hno
        kept := ?_ }
    · rintro (hne | ⟨-, hc⟩)
      · exact hsame (hbox hne)
      · exact hsame hc
    · intro hnil hnot
      have hc : m.valCbConnected = false := by
        by_contra hc
        exact hnot ⟨henum, by simpa using hc⟩
      obtain ⟨hr, hv⟩ := hkept hc
      obtain ⟨hr', hv'⟩ := hempty hnil
      exact ⟨hr.trans hr', hv.trans hv'⟩
  · rw [if_neg henum]
    refine
      { frame := ⟨_, _, _, _, _, _, rfl⟩
        connected := by simp [henum]
        filled := by simp [henum]
        rewritten := ?_
        emptied := fun hne _ => hfull hne
        kept := fun hnil _ => hempty hnil }
    rintro (hne | ⟨hyes, -⟩)
    · obtain ⟨hr, hv⟩ := hfull hne
      exact hr.trans hv.symm
    · exact absurd hyes henum

/-- The widgets of a dialog with a value field: a filled box is connected. -/
structure Drawn (m : MibSelection) : Prop where
  value : m.flags.value = true
  box : m.valCb ≠ [] → m.valCbConnected = true
  current : m.syntaxCb < syntaxItems.length

/-- What `GetSyntaxCb` establishes once and every handler keeps. -/
structure Opened (m : MibSelection) : Prop extends Drawn m where
  line : m.valLeConnected = true
  selected : m.resultSyntax = syntaxItem m.syntaxCb

/-- Clearing the field for a type runs the handler of the box: a filled box is emptied, or a
connected one is filled. A second clear finds what the first one filled and connected. -/
def Refills (m : MibSelection) (type : Option SmiType) (again : Bool) : Prop :=
  m.valCb ≠ [] ∨ (enumerates type = true ∧ (m.valCbConnected = true ∨ again = true))

instance (m : MibSelection) (type : Option SmiType) (again : Bool) : Decidable (m.Refills type again) :=
  inferInstanceAs (Decidable (_ ∨ _ ∧ (_ ∨ _)))

structure Cleared (m m' : MibSelection) (again : Bool) : Prop where
  opened : m'.Opened
  typeEq : m'.type = m.type
  connected : m'.valCbConnected = (m.valCbConnected || enumerates m.type)
  filled : m'.valCb ≠ [] ↔ enumerates m.type = true
  rewritten : m.Refills m.type again → m'.Shown
  kept : ¬ m.Refills m.type again → m'.resultString = m.resultString ∧ m'.valLe = ""
  emptied : m.valCb ≠ [] → enumerates m.type = false → m'.resultString = "" ∧ m'.valLe = ""

theorem getSyntaxCb_cleared {m : MibSelection} (h : m.Drawn) :
    Cleared m (m.getSyntaxCb m.syntaxCb) false ∧ (m.getSyntaxCb m.syntaxCb).syntaxCb = m.syntaxCb := by
  have hset : WidgetSet { m with resultSyntax := syntaxItem m.syntaxCb, valLe := "" }
      (m.getSyntaxCb m.syntaxCb) := by
    rw [getSyntaxCb]
    simp only [h.value, ↓reduceIte]
    exact setValueWidget_spec h.box
  generalize m.getSyntaxCb m.syntaxCb = m' at hset
  obtain ⟨⟨valCb, valCbIndex, valCbConnected, valLe, validator, resultString, rfl⟩,
    hconnected, hfilled, hrewritten, hemptied, hkept⟩ := hset
  simp only at hconnected hfilled hrewritten hemptied hkept
  refine ⟨?_, rfl⟩
  refine
    { opened :=
        { value := h.value
          box := fun hne => by simp [hconnected, hfilled.mp hne]
          current := h.current
          line := rfl
          selected := rfl }
      typeEq := rfl
      connected := hconnected
      filled := hfilled
      rewritten := ?_
      kept := ?_
      emptied := hemptied }
  · rintro (hne | ⟨henum, hc | hno⟩)
    · exact hrewritten (Or.inl hne)
    · exact hrewritten (Or.inr ⟨henum, hc⟩)
    · cases hno
  · intro hnot
    have hnil : m.valCb = [] := by
      by_contra hne
      exact hnot (Or.inl hne)
    exact hkept hnil fun henum => hnot (Or.inr ⟨henum.1, Or.inl henum.2⟩)

theorem Cleared.trans {m m' m'' : MibSelection} (h : Cleared m m' false) (h' : Cleared m' m'' false) :
    Cleared m m'' true := by
  have htype : enumerates m'.type = enumerates m.type := congrArg enumerates h.typeEq
  have hidle : enumerates m.type = false → ¬ m'.Refills m'.type false := by
    rintro henum (hne | ⟨hyes, -⟩)
    · rw [h.filled, henum] at hne
      cases hne
    · rw [htype, henum] at hyes
      cases hyes
  refine
    { opened := h'.opened
      typeEq := h'.typeEq.trans h.typeEq
      connected := by rw [h'.connected, h.connected, htype, Bool.or_assoc, Bool.or_self]
      filled := by rw [h'.filled, htype]
      rewritten := ?_
      kept := ?_
      emptied := ?_ }
  · intro hrefills
    by_cases henum : enumerates m.type = true
    · exact h'.rewritten (Or.inl (h.filled.mpr henum))
    · rw [Bool.not_eq_true] at henum
      have hne : m.valCb ≠ [] := hrefills.resolve_right fun hyes => by rw [henum] at hyes; cases hyes.1
      obtain ⟨hr, hv⟩ := h'.kept (hidle henum)
      exact (hr.trans (h.emptied hne henum).1).trans hv.symm
  · intro hnot
    have henum : enumerates m.type = false := by
      by_contra hyes
      exact hnot (Or.inr ⟨by simpa using hyes, Or.inr rfl⟩)
    obtain ⟨hr, -⟩ := h.kept fun hrefills =>
      hnot (hrefills.imp_right fun hyes => ⟨hyes.1, Or.inr rfl⟩)
    obtain ⟨hr', hv'⟩ := h'.kept (hidle henum)
    exact ⟨hr'.trans hr, hv'⟩
  · intro hne henum
    obtain ⟨hr', hv'⟩ := h'.kept (hidle henum)
    exact ⟨hr'.trans (h.emptied hne henum).1, hv'⟩

theorem syntaxCbSetCurrentIndex_cleared {m : MibSelection} (h : m.Drawn) {index : ℕ}
    (hindex : index < syntaxItems.length) (hne : index ≠ m.syntaxCb) :
    Cleared m (m.syntaxCbSetCurrentIndex index) false := by
  rw [syntaxCbSetCurrentIndex, if_neg (Ne.symm hne)]
  have hmoved : Drawn { m with syntaxCb := index } := ⟨h.value, h.box, hindex⟩
  obtain ⟨hopened, htype, hconnected, hfilled, hrewritten, hkept, hemptied⟩ :=
    (getSyntaxCb_cleared hmoved).1
  exact ⟨hopened, htype, hconnected, hfilled, hrewritten, hkept, hemptied⟩

theorem indexFor_lt {st : Option SnmpSyntax} {type : Option SmiType} {index : ℕ}
    (h : indexFor st type = some index) : index < syntaxItems.length := by
  cases st with
  | some st => cases st <;> cases h <;> decide
  | none =>
    cases type with
    | none =>
      cases h
      decide
    | some type =>
      simp only [indexFor, indexOfType] at h
      split at h
      · cases h; decide
      · cases h; decide
      · split at h
        · cases h; decide
        · split at h
          · cases h; decide
          · split at h <;> cases h <;> decide
      · split at h
        · cases h; decide
        · split at h <;> cases h <;> decide
      all_goals cases h <;> decide

/-- Whether `SetSyntax` changes the syntax, so that its handler runs twice. -/
def movesSyntax (m : MibSelection) (st : Option SnmpSyntax) (type : Option SmiType) : Bool :=
  (indexFor st type).any (· ≠ m.syntaxCb)

theorem setSyntax_cleared {m : MibSelection} (h : m.Drawn) (st : Option SnmpSyntax) :
    Cleared m (m.setSyntax st) (m.movesSyntax st m.type) := by
  rw [setSyntax, movesSyntax]
  cases hindex : indexFor st m.type with
  | none => exact (getSyntaxCb_cleared h).1
  | some index =>
    by_cases heq : index = m.syntaxCb
    · simp only [syntaxCbSetCurrentIndex, heq, ↓reduceIte, Option.any_some, ne_eq, not_true_eq_false,
        decide_false]
      exact (getSyntaxCb_cleared h).1
    · have hfirst := syntaxCbSetCurrentIndex_cleared h (indexFor_lt hindex) heq
      simp only [Option.any_some, ne_eq, heq, not_false_eq_true, decide_true]
      exact hfirst.trans (getSyntaxCb_cleared hfirst.opened.toDrawn).1

def typeAt (h : SmiHandle) (oid : String) : Option SmiType := (resolve h oid).bind smiGetNodeType

variable (p : Platform)

/-- The steps that leave a text behind in the cache: a clear of the field that does not reach the
handler of the box, and a text the validator does not accept. -/
def LeavesBehind (m : MibSelection) : UiEvent → Prop
  | .selectNode oid _ =>
    ¬ m.Refills (typeAt m.handle oid) (m.movesSyntax none (typeAt m.handle oid)) ∧ m.resultString ≠ ""
  | .pickSyntax index => index ≠ m.syntaxCb ∧ ¬ m.Refills m.type false ∧ m.resultString ≠ ""
  | .editValue text => m.accepts p text = false ∧ text ≠ m.resultString
  | _ => False

/-- The steps that write the cache and the field together: a finished edit, another entry of the
box, and a clear that reaches the handler of the box. -/
def Rewrites (m : MibSelection) : UiEvent → Prop
  | .selectNode oid _ => m.Refills (typeAt m.handle oid) (m.movesSyntax none (typeAt m.handle oid))
  | .pickSyntax index => index ≠ m.syntaxCb ∧ m.Refills m.type false
  | .editValue text => m.accepts p text = true
  | .pickValue index => m.valCbIndex ≠ some index
  | _ => False

instance (m : MibSelection) : ∀ e, Decidable (m.LeavesBehind p e)
  | .selectNode .. => inferInstanceAs (Decidable (¬ _ ∧ _))
  | .pickSyntax _ => inferInstanceAs (Decidable (_ ∧ ¬ _ ∧ _))
  | .editValue _ => inferInstanceAs (Decidable (_ ∧ _))
  | .editOid _ | .pickValue _ | .ok => inferInstanceAs (Decidable False)

instance (m : MibSelection) : ∀ e, Decidable (m.Rewrites p e)
  | .selectNode .. => inferInstanceAs (Decidable (m.Refills _ _))
  | .pickSyntax _ => inferInstanceAs (Decidable (_ ∧ _))
  | .editValue _ => inferInstanceAs (Decidable (_ = _))
  | .pickValue _ => inferInstanceAs (Decidable (¬ _))
  | .editOid _ | .ok => inferInstanceAs (Decidable False)

theorem selectNode_cleared {m : MibSelection} (h : m.Drawn) (oid : String) (inst : Option String) :
    ∃ m₀, m₀.resultString = m.resultString ∧ m₀.type = typeAt m.handle oid ∧
      (∀ again, m₀.Refills m₀.type again ↔ m.Refills (typeAt m.handle oid) again) ∧
      Cleared m₀ (m.getSelectedOid oid inst) (m.movesSyntax none (typeAt m.handle oid)) := by
  refine ⟨m.setOidInfoType oid inst, rfl, rfl, fun _ => Iff.rfl, ?_⟩
  exact setSyntax_cleared (m := m.setOidInfoType oid inst) ⟨h.value, h.box, h.current⟩ none

theorem Cleared.shown {m m' : MibSelection} {again : Bool} (h : Cleared m m' again)
    (hkept : ¬ (¬ m.Refills m.type again ∧ m.resultString ≠ "")) : m'.Shown := by
  by_cases hrefills : m.Refills m.type again
  · exact h.rewritten hrefills
  · obtain ⟨hr, hv⟩ := h.kept hrefills
    have hblank : m.resultString = "" := by
      by_contra hne
      exact hkept ⟨hrefills, hne⟩
    exact (hr.trans hblank).trans hv.symm

theorem valCbSetCurrentIndex_opened {m : MibSelection} (h : m.Opened) (hbox : m.valCb ≠ [])
    (index : ℕ) : (m.valCbSetCurrentIndex index).Opened ∧
      (m.valCbIndex ≠ some index → (m.valCbSetCurrentIndex index).Shown) ∧
      (m.Shown → (m.valCbSetCurrentIndex index).Shown) := by
  rw [valCbSetCurrentIndex]
  by_cases hsame : m.valCbIndex = some index
  · rw [if_pos hsame]
    exact ⟨h, fun hne => absurd hsame hne, id⟩
  · rw [if_neg hsame]
    obtain ⟨text, htext⟩ := valCbChanged_connected (h.box hbox) (some index)
    rw [htext]
    exact ⟨⟨⟨h.value, h.box, h.current⟩, h.line, h.selected⟩, fun _ => rfl, fun _ => rfl⟩

theorem valCbSetCurrentIndex_valCb (m : MibSelection) (index : ℕ) :
    (m.valCbSetCurrentIndex index).valCb = m.valCb := by
  rw [valCbSetCurrentIndex]
  split
  · rfl
  · rw [valCbChanged]
    simp only
    split <;> rfl

theorem editValue_cases {m m' : MibSelection} {text : String} (h : m.editValue p text = some m') :
    (m.accepts p text = true ∧
      m' = if m.valLeConnected then { m with valLe := text, resultString := text }
        else { m with valLe := text }) ∨
      (m.accepts p text = false ∧ m' = { m with valLe := text }) := by
  rw [editValue] at h
  by_cases haccepts : m.accepts p text = true
  · rw [if_pos haccepts] at h
    exact Or.inl ⟨haccepts, (Option.some.inj h).symm⟩
  · rw [if_neg haccepts] at h
    by_cases hbefore : m.accepts p m.valLe = true
    · rw [if_pos hbefore] at h
      cases h
    · rw [if_neg hbefore] at h
      exact Or.inr ⟨by simpa using haccepts, (Option.some.inj h).symm⟩

theorem okButtonPressed_refused {m m' : MibSelection} (h : m.okButtonPressed p = (m', false)) :
    ∃ syntaxText, m' = { m with syntaxText } := by
  rw [okButtonPressed] at h
  by_cases hoid : m.resultOid = ""
  · rw [if_pos hoid] at h
    cases h
    exact ⟨m.syntaxText, rfl⟩
  · rw [if_neg hoid] at h
    simp only at h
    split at h
    · cases h
    · cases h
      exact ⟨_, rfl⟩
    · cases h

theorem step_shown {m m' : MibSelection} {e : UiEvent} (h : m.Opened) (hstep : m.step p e = some m') :
    m'.Opened ∧ (m.Rewrites p e → m'.Shown) ∧ (m.Shown → ¬ m.LeavesBehind p e → m'.Shown) := by
  cases e with
  | selectNode oid inst =>
    cases hstep
    obtain ⟨m₀, htext, htype, hrefills, hcleared⟩ := selectNode_cleared h.toDrawn oid inst
    refine ⟨hcleared.opened, fun hyes => hcleared.rewritten ((hrefills _).mpr hyes), ?_⟩
    intro _ hkept
    apply hcleared.shown
    rwa [hrefills, htext]
  | editOid text =>
    cases hstep
    exact ⟨⟨⟨h.value, h.box, h.current⟩, h.line, h.selected⟩, False.elim, fun hshown _ => hshown⟩
  | pickSyntax index =>
    rw [step] at hstep
    by_cases hindex : index < syntaxItems.length
    · rw [if_pos hindex] at hstep
      cases hstep
      by_cases heq : m.syntaxCb = index
      · rw [syntaxCbSetCurrentIndex, if_pos heq]
        exact ⟨h, fun hyes => absurd heq.symm hyes.1, fun hshown _ => hshown⟩
      · have hcleared := syntaxCbSetCurrentIndex_cleared h.toDrawn hindex (Ne.symm heq)
        refine ⟨hcleared.opened, fun hyes => hcleared.rewritten hyes.2, fun _ hkept => ?_⟩
        exact hcleared.shown fun hleft => hkept ⟨Ne.symm heq, hleft⟩
    · rw [if_neg hindex] at hstep
      cases hstep
  | editValue text =>
    rw [step, if_pos h.value] at hstep
    rcases editValue_cases p hstep with ⟨-, rfl⟩ | ⟨hrefused, rfl⟩
    · rw [if_pos h.line]
      exact ⟨⟨⟨h.value, h.box, h.current⟩, h.line, h.selected⟩, fun _ => rfl, fun _ _ => rfl⟩
    · refine ⟨⟨⟨h.value, h.box, h.current⟩, h.line, h.selected⟩, fun hyes => ?_, fun _ hkept => ?_⟩
      · rw [Rewrites, hrefused] at hyes
        cases hyes
      · by_contra hne
        exact hkept ⟨hrefused, Ne.symm hne⟩
  | pickValue index =>
    rw [step] at hstep
    by_cases hindex : index < m.valCb.length
    · rw [if_pos hindex] at hstep
      cases hstep
      have hbox : m.valCb ≠ [] := List.ne_nil_of_length_pos (Nat.zero_lt_of_lt hindex)
      obtain ⟨hopened, hpicked, hkept⟩ := valCbSetCurrentIndex_opened h hbox index
      exact ⟨hopened, hpicked, fun hshown _ => hkept hshown⟩
    · rw [if_neg hindex] at hstep
      cases hstep
  | ok =>
    rw [step] at hstep
    split at hstep
    · next hrefused =>
      cases hstep
      obtain ⟨syntaxText, rfl⟩ := okButtonPressed_refused p hrefused
      exact ⟨⟨⟨h.value, h.box, h.current⟩, h.line, h.selected⟩, False.elim, fun hshown _ => hshown⟩
    · cases hstep

/-- The loop visits entries that exist, since it never changes the box. -/
theorem foldl_pickEntry_shown {n : ℕ} {is : List ℕ} {m : MibSelection} (h : m.Opened) (hshown : m.Shown)
    (hlt : ∀ i ∈ is, i < m.valCb.length) :
    (is.foldl (pickEntry n) m).Opened ∧ (is.foldl (pickEntry n) m).Shown := by
  induction is generalizing m with
  | nil => exact ⟨h, hshown⟩
  | cons i is ih =>
    rw [List.foldl_cons, pickEntry]
    split
    · have hi := hlt i (List.mem_cons_self ..)
      have hbox : m.valCb ≠ [] := List.ne_nil_of_length_pos (Nat.zero_lt_of_lt hi)
      obtain ⟨hopened, -, hkept⟩ := valCbSetCurrentIndex_opened h hbox i
      apply ih hopened (hkept hshown)
      intro j hj
      rw [valCbSetCurrentIndex_valCb]
      exact hlt j (List.mem_cons_of_mem i hj)
    · exact ih h hshown fun j hj => hlt j (List.mem_cons_of_mem i hj)

theorem setInitialValue_shown {m : MibSelection} (h : m.Opened) (value : String) :
    (m.setInitialValue p value).Opened ∧ (m.setInitialValue p value).Shown := by
  have hset : Opened { m with valLe := value, resultString := value } :=
    ⟨⟨h.value, h.box, h.current⟩, h.line, h.selected⟩
  rw [setInitialValue, getValueLe]
  simp only
  split
  · exact foldl_pickEntry_shown hset rfl fun i hi => List.mem_range.mp hi
  · exact ⟨hset, rfl⟩

theorem start_shown (handle : SmiHandle) {flags : Flags} (hvalue : flags.value = true) (oid : String)
    (inst : Option String) (st : Option SnmpSyntax) (initVal : String) :
    (start p handle flags oid inst st initVal).Opened ∧
      (start p handle flags oid inst st initVal).Shown := by
  have hcleared := setSyntax_cleared (m := (create handle flags).setOidInfoType oid inst)
    ⟨hvalue, fun hne => absurd rfl hne, (by decide : 0 < syntaxItems.length)⟩ st
  have hshown := hcleared.shown fun hleft => hleft.2 rfl
  rw [start]
  split
  · exact setInitialValue_shown p hcleared.opened initVal
  · exact ⟨hcleared.opened, hshown⟩

theorem okButtonPressed_accepted {m m' : MibSelection} (h : m.Opened)
    (hok : m.okButtonPressed p = (m', true)) :
    encode p m.resultString (syntaxItem m.syntaxCb) = .value m'.vb.value := by
  have hmem : syntaxItem m.syntaxCb ∈ syntaxItems := by
    rw [syntaxItem, List.getElem?_eq_getElem h.current, Option.getD_some]
    exact List.getElem_mem h.current
  have hencoded := encode_ne_unchanged p m.resultString hmem
  rw [okButtonPressed, h.selected] at hok
  by_cases hoid : m.resultOid = ""
  · rw [if_pos hoid] at hok
    cases hok
  · rw [if_neg hoid] at hok
    simp only at hok
    split at hok
    · next v hv =>
      cases hok
      exact hv
    · cases hok
    · next hunchanged => exact absurd hunchanged hencoded

/-- In a run that rewrites the cache behind every step that leaves a text in it, OK stores the text
shown, encoded under the syntax selected. -/
theorem accepted_value_shown (handle : SmiHandle) (flags : Flags) (oid : String) (inst : Option String)
    (st : Option SnmpSyntax) (initVal : String) (es : List UiEvent) (m m' : MibSelection)
    (hvalue : flags.value = true)
    (hrun : Runs.exec (step p) (start p handle flags oid inst st initVal) es = some m)
    (hrepaired : Runs.Repaired (step p) (LeavesBehind p) (Rewrites p)
      (start p handle flags oid inst st initVal) es)
    (hok : m.okButtonPressed p = (m', true)) :
    encode p m.valLe (syntaxItem m.syntaxCb) = .value m'.setVbOid.vb.value := by
  obtain ⟨hopened, hshown⟩ := start_shown p handle hvalue oid inst st initVal
  have hopened' : m.Opened := Runs.exec_invariant (P := Opened)
    (fun _ _ _ h hstep => (step_shown p h hstep).1) hopened hrun
  have hshown' : m.Shown := Runs.exec_repaired (I := Opened)
    (fun _ _ _ h hstep => (step_shown p h hstep).1)
    (fun _ _ _ h hyes hstep => (step_shown p h hstep).2.1 hyes)
    (fun _ _ _ h hs hkept hstep => (step_shown p h hstep).2.2 hs hkept)
    hopened (Or.inl hshown) hrepaired hrun
  rw [← hshown']
  have hstored := okButtonPressed_accepted p hopened' hok
  exact hstored

end MibSelection

def setTtl : MibSelection :=
  .start asciiPlatform ipHandle ⟨true, true, false⟩ "1.3.6.1.2.1.4.2" none none ""

theorem accepted_value_shown_picked : ∃ m m' : MibSelection,
    Runs.exec (MibSelection.step asciiPlatform) setTtl
      [.editValue "64", .selectNode "1.3.6.1.2.1.4.1" none, .pickValue 1] = some m ∧
      m.okButtonPressed asciiPlatform = (m', true) ∧
      encode asciiPlatform m.valLe (MibSelection.syntaxItem m.syntaxCb) =
        .value m'.setVbOid.vb.value :=
  ⟨_, _, rfl, rfl, MibSelection.accepted_value_shown asciiPlatform ipHandle ⟨true, true, false⟩
    "1.3.6.1.2.1.4.2" none none "" [.editValue "64", .selectNode "1.3.6.1.2.1.4.1" none, .pickValue 1]
    _ _ rfl rfl (by decide) rfl⟩

/-- Without the pick, 64 is stored for `ipForwarding` though the field is empty. -/
theorem cleared_value_stored : ¬ ∀ (p : Platform) (handle : SmiHandle) (flags : Flags) (oid : String)
    (inst : Option String) (st : Option SnmpSyntax) (initVal : String) (es : List UiEvent)
    (m m' : MibSelection), flags.value = true →
    Runs.exec (MibSelection.step p) (.start p handle flags oid inst st initVal) es = some m →
    m.okButtonPressed p = (m', true) →
    encode p m.valLe (MibSelection.syntaxItem m.syntaxCb) = .value m'.setVbOid.vb.value := by
  intro h
  have hstored := h asciiPlatform ipHandle ⟨true, true, false⟩ "1.3.6.1.2.1.4.2" none none ""
    [.editValue "64", .selectNode "1.3.6.1.2.1.4.1" none] _ _ rfl rfl rfl
  revert hstored
  decide

end SnmpB.Selection
