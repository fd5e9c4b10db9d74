import SnmpB.Selection.Name
import SnmpB.Selection.Value

/-! # Editing a varbind of the list

A row of the list of varbinds keeps the text of the OID, the syntax and the cached text
of the value. Editing it builds another dialog from these, and OK encodes what that
dialog has made of the text.
-/
namespace SnmpB.Selection
open Agent Mib MibSelection

/-- `vb_data`. -/
structure VbData where
  vb : Vb
  st : SnmpSyntax
  val : String
  deriving DecidableEq

/-- A row of `VarbindsList`, with the data behind it. -/
structure VarbindItem where
  name : String
  oid : String
  syntaxName : String
  data : VbData
  deriving DecidableEq

/-- What the getters of an accepted dialog give. -/
def MibSelection.item (p : Platform) (m : MibSelection) : VarbindItem :=
  ⟨m.getName p, m.resultOid, m.syntaxText, ⟨m.vb, m.resultSyntax, m.resultString⟩⟩

/-- `MIBSELECTION_SET|MIBSELECTION_VALUE`. -/
def setValueFlags : Flags := ⟨true, true, false⟩

/-- `VarbindsFrom`, with the instance selected for a column, if any. -/
def varbindsFrom (p : Platform) (handle : SmiHandle) (oid : String) (inst : Option String) : VarbindItem :=
  (bgrun p handle ⟨false, false, false⟩ oid inst).item p

/-- The dialog of `VarbindsNew`, when it opens. -/
def varbindsNew (p : Platform) (handle : SmiHandle) : MibSelection :=
  start p handle setValueFlags "" none none ""

/-- `VarbindsEdit` where OK is all the user presses; refused, it leaves the row alone. -/
def varbindsEdit (p : Platform) (handle : SmiHandle) (item : VarbindItem) (inst : Option String) :
    VarbindItem :=
  match (start p handle setValueFlags item.oid inst (some item.data.st) item.data.val).okButtonPressed p with
  | (m, true) => m.setVbOid.item p
  | (_, false) => item

/-- The rows `VarbindsNew` and `VarbindsFrom` add to the list. -/
inductive Built (p : Platform) (handle : SmiHandle) : VarbindItem → Prop
  | new (es : List UiEvent) {m m' : MibSelection} (hrun : Runs.exec (step p) (varbindsNew p handle) es = some m)
      (hok : m.okButtonPressed p = (m', true)) : Built p handle (m'.setVbOid.item p)
  | bgrun (oid : String) (inst : Option String) : Built p handle (varbindsFrom p handle oid inst)

def numbers (type : Option SmiType) : List (String × ℕ) := (type.map (·.namedNumbers)).getD []

namespace MibSelection

theorem valCbChanged_frame (m : MibSelection) (i : Option ℕ) : ∃ text line,
    m.valCbChanged i = { m with valCbIndex := i, resultString := text, valLe := line } := by
  rw [valCbChanged]
  simp only
  split
  · exact ⟨_, _, rfl⟩
  · exact ⟨_, _, rfl⟩

theorem valCbSetCurrentIndex_frame (m : MibSelection) (i : ℕ) : ∃ index text line,
    m.valCbSetCurrentIndex i = { m with valCbIndex := index, resultString := text, valLe := line } := by
  rw [valCbSetCurrentIndex]
  split
  · exact ⟨m.valCbIndex, m.resultString, m.valLe, rfl⟩
  · exact ⟨some i, valCbChanged_frame m (some i)⟩

theorem pickEntry_frame (n : ℕ) (m : MibSelection) (i : ℕ) : ∃ index text line,
    pickEntry n m i = { m with valCbIndex := index, resultString := text, valLe := line } := by
  rw [pickEntry]
  split
  · exact valCbSetCurrentIndex_frame m i
  · exact ⟨m.valCbIndex, m.resultString, m.valLe, rfl⟩

theorem foldl_pickEntry_frame (n : ℕ) (is : List ℕ) (m : MibSelection) : ∃ index text line,
    is.foldl (pickEntry n) m = { m with valCbIndex := index, resultString := text, valLe := line } := by
  induction is generalizing m with
  | nil => exact ⟨m.valCbIndex, m.resultString, m.valLe, rfl⟩
  | cons i is ih =>
    obtain ⟨_, _, _, hpick⟩ := pickEntry_frame n m i
    obtain ⟨index, text, line, hrest⟩ := ih (pickEntry n m i)
    refine ⟨index, text, line, ?_⟩
    rw [List.foldl_cons, hrest, hpick]

/-- An entry that is not current and has the number puts its text into the cache. -/
theorem pickEntry_other {n i : ℕ} {m : MibSelection} (hc : m.valCbConnected = true)
    (hentry : m.valCb[i]?.map (·.2) = some n) (hother : m.valCbIndex ≠ some i) :
    (pickEntry n m i).resultString = toString n := by
  rw [pickEntry, if_pos hentry, valCbSetCurrentIndex, if_neg hother, valCbChanged]
  simp only [hc, ↓reduceIte, getValueCb, Option.bind_some]
  obtain ⟨entry, hget, rfl⟩ := Option.map_eq_some_iff.mp hentry
  rw [hget]
  rfl

theorem pickEntry_same {n i : ℕ} {m : MibSelection} (h : m.valCb[i]?.map (·.2) ≠ some n ∨ m.valCbIndex = some i) :
    pickEntry n m i = m := by
  rw [pickEntry]
  split
  · next hentry => rw [valCbSetCurrentIndex, if_pos (h.resolve_left (not_not_intro hentry))]
  · rfl

/-- Once the text is that of the number, no further entry changes it. -/
theorem foldl_pickEntry_settled {n : ℕ} (is : List ℕ) {m : MibSelection} (hc : m.valCbConnected = true)
    (htext : m.resultString = toString n) : (is.foldl (pickEntry n) m).resultString = toString n := by
  induction is generalizing m with
  | nil => exact htext
  | cons i is ih =>
    rw [List.foldl_cons]
    by_cases hpicks : m.valCb[i]?.map (·.2) = some n ∧ m.valCbIndex ≠ some i
    · have hpicked := pickEntry_other hc hpicks.1 hpicks.2
      obtain ⟨_, _, _, hframe⟩ := pickEntry_frame n m i
      rw [hframe] at hpicked ⊢
      exact ih hc hpicked
    · rw [pickEntry_same (by tauto)]
      exact ih hc htext

/-- The loop over the entries behind the current one. -/
theorem foldl_pickEntry_later {n : ℕ} {is : List ℕ} {m : MibSelection} (hc : m.valCbConnected = true)
    (hother : ∀ i ∈ is, m.valCbIndex ≠ some i) :
    ((∃ i ∈ is, m.valCb[i]?.map (·.2) = some n) → (is.foldl (pickEntry n) m).resultString = toString n) ∧
      ((¬ ∃ i ∈ is, m.valCb[i]?.map (·.2) = some n) → is.foldl (pickEntry n) m = m) := by
  induction is with
  | nil => exact ⟨fun ⟨_, hi, _⟩ => absurd hi List.not_mem_nil, fun _ => rfl⟩
  | cons i is ih =>
    rw [List.foldl_cons]
    by_cases hentry : m.valCb[i]?.map (·.2) = some n
    · have hpicked := pickEntry_other hc hentry (hother i List.mem_cons_self)
      refine ⟨fun _ => ?_, fun hno => absurd ⟨i, List.mem_cons_self, hentry⟩ hno⟩
      obtain ⟨_, _, _, hframe⟩ := pickEntry_frame n m i
      rw [hframe] at hpicked ⊢
      exact foldl_pickEntry_settled is hc hpicked
    · rw [pickEntry_same (Or.inl hentry)]
      obtain ⟨hfound, hnone⟩ := ih fun j hj => hother j (List.mem_cons_of_mem i hj)
      constructor
      · rintro ⟨j, hj, hjentry⟩
        rcases List.mem_cons.mp hj with rfl | hj
        · exact absurd hjentry hentry
        · exact hfound ⟨j, hj, hjentry⟩
      · exact fun hno => hnone fun ⟨j, hj, hjentry⟩ => hno ⟨j, List.mem_cons_of_mem i hj, hjentry⟩

/-- The whole loop, where the first entry is current. -/
theorem foldl_pickEntry_range {n : ℕ} {m : MibSelection} (hc : m.valCbConnected = true)
    (hfirst : m.valCbIndex = some 0) :
    ((∃ entry ∈ m.valCb.tail, entry.2 = n) →
        ((List.range m.valCb.length).foldl (pickEntry n) m).resultString = toString n) ∧
      ((¬ ∃ entry ∈ m.valCb.tail, entry.2 = n) →
        (List.range m.valCb.length).foldl (pickEntry n) m = m) := by
  cases hbox : m.valCb with
  | nil => exact ⟨fun ⟨_, hentry, _⟩ => absurd hentry List.not_mem_nil, fun _ => rfl⟩
  | cons first rest =>
    have hlater := @foldl_pickEntry_later n ((List.range rest.length).map Nat.succ) m hc (by
      intro i hi
      obtain ⟨j, -, rfl⟩ := List.mem_map.mp hi
      rw [hfirst]
      simp)
    have hmem : (∃ i ∈ (List.range rest.length).map Nat.succ, m.valCb[i]?.map (·.2) = some n) ↔
        ∃ entry ∈ rest, entry.2 = n := by
      rw [hbox]
      constructor
      · rintro ⟨i, hi, hentry⟩
        obtain ⟨j, -, rfl⟩ := List.mem_map.mp hi
        obtain ⟨entry, hget, hn⟩ := Option.map_eq_some_iff.mp hentry
        exact ⟨entry, List.mem_of_getElem? hget, hn⟩
      · rintro ⟨entry, hentry, hn⟩
        obtain ⟨j, hj, hget⟩ := List.getElem_of_mem hentry
        refine ⟨j + 1, List.mem_map_of_mem (List.mem_range.mpr hj), ?_⟩
        rw [List.getElem?_cons_succ, List.getElem?_eq_getElem hj, hget, Option.map_some, hn]
    rw [hmem] at hlater
    rw [List.length_cons, List.range_succ_eq_map, List.foldl_cons, pickEntry_same (Or.inr hfirst)]
    exact hlater

/-- A box filled by `SetValueWidget`: the first entry is current, and the handler, if it is
connected, has put its text into the cache. -/
theorem setValueWidget_box {m : MibSelection} (henum : enumerates m.type = true) :
    m.setValueWidget.valCb = numbers m.type ∧ m.setValueWidget.valCbIndex = some 0 ∧
      (m.valCbConnected = true → ∃ first, (numbers m.type).head? = some first ∧
        m.setValueWidget.resultString = toString first.2) := by
  obtain ⟨item, items, hitems⟩ := enumerates_items henum
  have hclear : ∃ index text line, m.valCbClear =
      { m with valCb := [], valCbIndex := index, resultString := text, valLe := line } := by
    rw [valCbClear]
    split
    · next hnil => exact ⟨m.valCbIndex, m.resultString, m.valLe, by rw [← hnil]⟩
    · exact ⟨none, valCbChanged_frame { m with valCb := [] } none⟩
  obtain ⟨index, text, line, hclear⟩ := hclear
  rw [setValueWidget, hclear, numbers, hitems]
  simp only [henum, ↓reduceIte, List.foldl_cons, valCbAddItem, valCbChanged, List.nil_append]
  by_cases hc : m.valCbConnected = true
  · simp only [hc, ↓reduceIte, getValueCb]
    rw [foldl_valCbAddItem (by simp)]
    exact ⟨rfl, rfl, fun _ => ⟨item, rfl, rfl⟩⟩
  · rw [if_neg hc, foldl_valCbAddItem (by simp)]
    exact ⟨rfl, rfl, fun hyes => absurd hyes hc⟩

theorem getSyntaxCb_box {m : MibSelection} (hvalue : m.flags.value = true) (index : ℕ)
    (henum : enumerates m.type = true) :
    (m.getSyntaxCb index).valCb = numbers m.type ∧ (m.getSyntaxCb index).valCbIndex = some 0 ∧
      (m.valCbConnected = true → ∃ first, (numbers m.type).head? = some first ∧
        (m.getSyntaxCb index).resultString = toString first.2) := by
  rw [getSyntaxCb]
  simp only [hvalue, ↓reduceIte]
  exact setValueWidget_box (m := { m with resultSyntax := syntaxItem index, valLe := "" }) henum

/-- The last call of the handler in `SetSyntax`, behind another one when the syntax changes. -/
theorem setSyntax_last {m : MibSelection} (h : m.Drawn) {st : Option SnmpSyntax} {index : ℕ}
    (hindex : indexFor st m.type = some index) :
    ∃ m' : MibSelection, m'.Drawn ∧ m'.type = m.type ∧ m'.syntaxCb = index ∧
      m.setSyntax st = m'.getSyntaxCb index ∧
      (index ≠ m.syntaxCb → m'.valCbConnected = (m.valCbConnected || enumerates m.type)) := by
  by_cases heq : m.syntaxCb = index
  · refine ⟨m, h, rfl, heq, ?_, fun hne => absurd heq.symm hne⟩
    have hsame : m.syntaxCbSetCurrentIndex index = m := if_pos heq
    rw [setSyntax, hindex]
    simp only [hsame, heq]
  · have hcleared := syntaxCbSetCurrentIndex_cleared h (indexFor_lt hindex) (Ne.symm heq)
    have hmoved : Drawn { m with syntaxCb := index } := ⟨h.value, h.box, indexFor_lt hindex⟩
    have hcurrent : (m.syntaxCbSetCurrentIndex index).syntaxCb = index := by
      rw [syntaxCbSetCurrentIndex, if_neg heq]
      exact (getSyntaxCb_cleared hmoved).2
    refine ⟨m.syntaxCbSetCurrentIndex index, hcleared.opened.toDrawn, hcleared.typeEq, hcurrent, ?_,
      fun _ => hcleared.connected⟩
    rw [setSyntax, hindex]
    simp only [hcurrent]

theorem indexOfSyntax_items {st : SnmpSyntax} (h : st ∈ syntaxItems) :
    ∃ index, indexOfSyntax st = some index ∧ syntaxItem index = st ∧ (index = 0 ↔ st = .int32) := by
  simp only [syntaxItems, List.mem_cons, List.not_mem_nil, or_false] at h
  rcases h with rfl | rfl | rfl | rfl | rfl | rfl | rfl | rfl | rfl | rfl | rfl <;>
    exact ⟨_, rfl, rfl, by decide⟩

/-- A dialog that has been given a syntax, before it is given a value. -/
structure Prepared (m : MibSelection) (type : Option SmiType) (st : SnmpSyntax) : Prop where
  opened : m.Opened
  typeEq : m.type = type
  selectedEq : m.resultSyntax = st
  box : enumerates type = true → m.valCb = numbers type ∧ m.valCbIndex = some 0 ∧ m.valCbConnected = true
  noBox : enumerates type = false → m.valCb = []
  first : enumerates type = true → st ≠ .int32 →
    ∃ first, (numbers type).head? = some first ∧ m.resultString = toString first.2
  blank : enumerates type = false ∨ st = .int32 → m.resultString = ""

theorem setSyntax_prepared (handle : SmiHandle) (oid : String) (inst : Option String) {st : SnmpSyntax}
    (hst : st ∈ syntaxItems) :
    (((create handle setValueFlags).setOidInfoType oid inst).setSyntax (some st)).Prepared
      (typeAt handle oid) st := by
  have hdrawn : ((create handle setValueFlags).setOidInfoType oid inst).Drawn :=
    ⟨rfl, fun hne => absurd rfl hne, (by decide : 0 < syntaxItems.length)⟩
  have htype : ((create handle setValueFlags).setOidInfoType oid inst).type = typeAt handle oid := rfl
  have hbox : ((create handle setValueFlags).setOidInfoType oid inst).valCb = [] := rfl
  have hcb : ((create handle setValueFlags).setOidInfoType oid inst).syntaxCb = 0 := rfl
  have hc : ((create handle setValueFlags).setOidInfoType oid inst).valCbConnected = false := rfl
  have htext : ((create handle setValueFlags).setOidInfoType oid inst).resultString = "" := rfl
  generalize (create handle setValueFlags).setOidInfoType oid inst = m at hdrawn htype hbox hcb hc htext
  obtain ⟨index, hindex, hitem, hzero⟩ := indexOfSyntax_items hst
  have hcleared := setSyntax_cleared hdrawn (some st)
  have hindex' : indexFor (some st) m.type = some index := hindex
  obtain ⟨m', hdrawn', htype', hcb', hlast, hconnected⟩ := setSyntax_last hdrawn hindex'
  have hsyntaxCb : (m.setSyntax (some st)).syntaxCb = index := by
    rw [hlast, ← hcb']
    exact (getSyntaxCb_cleared hdrawn').2
  have henum' : enumerates m'.type = enumerates (typeAt handle oid) := by rw [htype', htype]
  have hmoves : m.movesSyntax (some st) m.type = true ↔ st ≠ .int32 := by
    rw [movesSyntax, hindex', hcb, ne_eq, ← hzero]
    simp
  constructor
  case opened => exact hcleared.opened
  case typeEq => exact hcleared.typeEq.trans htype
  case selectedEq => rw [hcleared.opened.selected, hsyntaxCb, hitem]
  case box =>
    intro henum
    obtain ⟨hfilled, hindex, -⟩ := getSyntaxCb_box hdrawn'.value index (henum'.trans henum)
    refine ⟨?_, ?_, ?_⟩
    · rw [hlast, hfilled, htype', htype]
    · rw [hlast, hindex]
    · rw [hcleared.connected, htype, henum, Bool.or_true]
  case noBox =>
    intro henum
    by_contra hne
    have hfilled := hcleared.filled.mp hne
    rw [htype, henum] at hfilled
    cases hfilled
  case first =>
    intro henum hne
    obtain ⟨-, -, hfirst⟩ := getSyntaxCb_box hdrawn'.value index (henum'.trans henum)
    have hne' : index ≠ m.syntaxCb := by
      rw [hcb]
      exact fun h => hne (hzero.mp h)
    obtain ⟨first, hhead, htext⟩ := hfirst (by rw [hconnected hne', htype, henum, Bool.or_true])
    rw [htype', htype] at hhead
    exact ⟨first, hhead, by rw [hlast, htext]⟩
  case blank =>
    intro hno
    have hrefills : ¬ m.Refills m.type (m.movesSyntax (some st) m.type) := by
      rintro (hne | ⟨henum, hyes | hyes⟩)
      · exact hne hbox
      · rw [hc] at hyes
        cases hyes
      · rw [htype] at henum
        rcases hno with hno | hno
        · rw [henum] at hno
          cases hno
        · exact hmoves.mp hyes hno
    rw [(hcleared.kept hrefills).1, htext]

end MibSelection

variable (p : Platform)

/-- The number whose text takes the place of the cached one while the dialog is built: the first of
an enumeration for no text and another syntax than Integer32, and for a text the number it
reads as, or 0 if it is none, where an entry behind the first has it. -/
def Replaces (type : Option SmiType) (st : SnmpSyntax) (val : String) (n : ℕ) : Prop :=
  enumerates type = true ∧
    if val = "" then st ≠ .int32 ∧ ∃ first, (numbers type).head? = some first ∧ first.2 = n
    else (toUInt p val).getD 0 = n ∧ ∃ entry ∈ (numbers type).tail, entry.2 = n

variable {p}

theorem Replaces.unique {type : Option SmiType} {st : SnmpSyntax} {val : String} {n n' : ℕ}
    (h : Replaces p type st val n) (h' : Replaces p type st val n') : n = n' := by
  obtain ⟨-, h⟩ := h
  obtain ⟨-, h'⟩ := h'
  by_cases hval : val = ""
  · rw [if_pos hval] at h h'
    obtain ⟨-, first, hfirst, rfl⟩ := h
    obtain ⟨-, first', hfirst', rfl⟩ := h'
    rw [hfirst] at hfirst'
    cases hfirst'
    rfl
  · rw [if_neg hval] at h h'
    exact h.1.symm.trans h'.1

namespace MibSelection

variable (p) in
/-- The cached text of a dialog that is given a value. -/
theorem setInitialValue_text {m : MibSelection} {type : Option SmiType} {st : SnmpSyntax} {val : String}
    (h : m.Prepared type st) (hval : val ≠ "") :
    (m.setInitialValue p val).resultSyntax = st ∧
      ((∃ n, Replaces p type st val n ∧ (m.setInitialValue p val).resultString = toString n) ∨
        ((∀ n, ¬ Replaces p type st val n) ∧ (m.setInitialValue p val).resultString = val)) := by
  rw [setInitialValue, getValueLe]
  simp only
  by_cases henum : enumerates type = true
  · obtain ⟨hbox, hfirst, hc⟩ := h.box henum
    have hany : m.type.any (·.basetype == .enum) = true := by
      rw [h.typeEq]
      cases type with
      | none => cases henum
      | some type => simpa [enumerates] using (of_decide_eq_true henum).2
    obtain ⟨hfound, hnone⟩ := @foldl_pickEntry_range ((toUInt p val).getD 0)
      { m with valLe := val, resultString := val } hc hfirst
    obtain ⟨_, _, _, hframe⟩ := foldl_pickEntry_frame ((toUInt p val).getD 0) (List.range m.valCb.length)
      { m with valLe := val, resultString := val }
    simp only [hbox] at hfound hnone
    rw [if_pos hany]
    refine ⟨?_, ?_⟩
    · rw [hframe]
      exact h.selectedEq
    · rw [hbox]
      by_cases hentry : ∃ entry ∈ (numbers type).tail, entry.2 = (toUInt p val).getD 0
      · refine Or.inl ⟨_, ⟨henum, ?_⟩, hfound hentry⟩
        rw [if_neg hval]
        exact ⟨rfl, hentry⟩
      · refine Or.inr ⟨fun n hn => ?_, ?_⟩
        · obtain ⟨-, hn⟩ := hn
          rw [if_neg hval] at hn
          obtain ⟨rfl, hn⟩ := hn
          exact hentry hn
        · rw [hnone hentry]
  · have hno : ∀ n, ¬ Replaces p type st val n := fun n hn => henum hn.1
    have hbox := h.noBox (by simpa using henum)
    split
    · rw [hbox]
      exact ⟨h.selectedEq, Or.inr ⟨hno, rfl⟩⟩
    · exact ⟨h.selectedEq, Or.inr ⟨hno, rfl⟩⟩

variable (p) in
/-- The cached text and the syntax of a dialog built from a row. -/
theorem start_text (handle : SmiHandle) (oid : String) (inst : Option String) {st : SnmpSyntax}
    (hst : st ∈ syntaxItems) (val : String) :
    (start p handle setValueFlags oid inst (some st) val).resultSyntax = st ∧
      ((∃ n, Replaces p (typeAt handle oid) st val n ∧
          (start p handle setValueFlags oid inst (some st) val).resultString = toString n) ∨
        ((∀ n, ¬ Replaces p (typeAt handle oid) st val n) ∧
          (start p handle setValueFlags oid inst (some st) val).resultString = val)) := by
  have hprepared := setSyntax_prepared handle oid inst hst
  rw [start]
  by_cases hval : val = ""
  · rw [if_neg (by simp [hval])]
    refine ⟨hprepared.selectedEq, ?_⟩
    simp only [Replaces, hval, ↓reduceIte]
    by_cases hfirst : enumerates (typeAt handle oid) = true ∧ st ≠ .int32
    · obtain ⟨first, hhead, htext⟩ := hprepared.first hfirst.1 hfirst.2
      exact Or.inl ⟨first.2, ⟨hfirst.1, hfirst.2, first, hhead, rfl⟩, htext⟩
    · refine Or.inr ⟨fun n hn => hfirst ⟨hn.1, hn.2.1⟩, hprepared.blank ?_⟩
      rw [← Bool.not_eq_true]
      tauto
  · rw [if_pos ⟨rfl, hval⟩]
    exact setInitialValue_text p hprepared hval

theorem okButtonPressed_value {m : MibSelection} {v : Value} (hoid : m.resultOid ≠ "")
    (h : encode p m.resultString m.resultSyntax = .value v) : ∃ name,
      m.okButtonPressed p = ({ m with syntaxText := name, vb := { m.vb with value := v } }, true) := by
  rw [okButtonPressed, if_neg hoid, h]
  exact ⟨_, rfl⟩

theorem okButtonPressed_refuses {m : MibSelection}
    (h : m.resultOid = "" ∨ ∃ text, encode p m.resultString m.resultSyntax = .message text) :
    (m.okButtonPressed p).2 = false := by
  rw [okButtonPressed]
  split
  · rfl
  · next hoid =>
    obtain ⟨text, htext⟩ := h.resolve_left hoid
    rw [htext]

end MibSelection

theorem encode_blank (p : Platform) {st : SnmpSyntax} (h : st ∈ syntaxItems) :
    ∃ v, encode p "" st = .value v := by
  simp only [syntaxItems, List.mem_cons, List.not_mem_nil, or_false] at h
  rcases h with rfl | rfl | rfl | rfl | rfl | rfl | rfl | rfl | rfl | rfl | rfl
  case inr.inr.inr.inr.inr.inr.inr.inr.inr.inl =>
    rw [encode]
    split
    · exact ⟨_, rfl⟩
    · exact ⟨_, rfl⟩
  all_goals exact ⟨_, rfl⟩

/-- What a row built by a dialog keeps: its value is that of its text. -/
structure Stored (p : Platform) (item : VarbindItem) : Prop where
  known : item.data.st ∈ syntaxItems
  encoded : item.oid ≠ "" → encode p item.data.val item.data.st = .value item.data.vb.value

/-- The row of a dialog with a syntax of the box. -/
theorem stored_of_value {m m' : MibSelection} (hknown : m.resultSyntax ∈ syntaxItems)
    (hok : m.okButtonPressed p = (m', true)) : Stored p (m'.setVbOid.item p) := by
  have hoid : m.resultOid ≠ "" := by
    intro hoid
    have hrefused := okButtonPressed_refuses (p := p) (Or.inl hoid)
    rw [hok] at hrefused
    cases hrefused
  cases hencode : encode p m.resultString m.resultSyntax with
  | value v =>
    obtain ⟨name, haccepted⟩ := okButtonPressed_value hoid hencode
    rw [hok] at haccepted
    cases haccepted
    exact ⟨hknown, fun _ => hencode⟩
  | message text =>
    have hrefused := okButtonPressed_refuses (p := p) (Or.inr ⟨text, hencode⟩)
    rw [hok] at hrefused
    cases hrefused
  | unchanged => exact absurd hencode (encode_ne_unchanged p _ hknown)

theorem MibSelection.Opened.known {m : MibSelection} (h : m.Opened) : m.resultSyntax ∈ syntaxItems := by
  rw [h.selected, syntaxItem, List.getElem?_eq_getElem h.current, Option.getD_some]
  exact List.getElem_mem h.current

/-- Without a value field the handlers of the syntax only choose it. -/
theorem setSyntax_plain {m : MibSelection} (hvalue : m.flags.value = false) (hcb : m.syntaxCb < syntaxItems.length)
    (st : Option SnmpSyntax) : ∃ index < syntaxItems.length,
      m.setSyntax st = { m with syntaxCb := index, resultSyntax := syntaxItem index } := by
  have hplain : ∀ {m : MibSelection}, m.flags.value = false → ∀ index,
      m.getSyntaxCb index = { m with resultSyntax := syntaxItem index } := by
    intro m hvalue index
    rw [getSyntaxCb]
    simp only [hvalue, Bool.false_eq_true, ↓reduceIte]
  rw [setSyntax]
  cases hindex : indexFor st m.type with
  | none => exact ⟨m.syntaxCb, hcb, hplain hvalue _⟩
  | some index =>
    have hlt := indexFor_lt hindex
    simp only [syntaxCbSetCurrentIndex]
    split
    · exact ⟨m.syntaxCb, hcb, hplain hvalue _⟩
    · rw [hplain (m := { m with syntaxCb := index }) hvalue]
      exact ⟨index, hlt, hplain (m := { m with syntaxCb := index, resultSyntax := syntaxItem index }) hvalue _⟩

theorem Built.stored {handle : SmiHandle} {item : VarbindItem} (h : Built p handle item) : Stored p item := by
  cases h with
  | new es hrun hok =>
    rename_i m m'
    have hopened : m.Opened := Runs.exec_invariant (P := Opened)
      (fun _ _ _ h hstep => (step_shown p h hstep).1)
      (start_shown p handle (rfl : setValueFlags.value = true) "" none none "").1 hrun
    exact stored_of_value hopened.known hok
  | bgrun oid inst =>
    obtain ⟨index, hlt, hset⟩ := setSyntax_plain
      (m := (create handle ⟨false, false, false⟩).setOidInfoType oid inst) rfl
      (by decide : 0 < syntaxItems.length) none
    have hknown : syntaxItem index ∈ syntaxItems := by
      rw [syntaxItem, List.getElem?_eq_getElem hlt, Option.getD_some]
      exact List.getElem_mem hlt
    rw [varbindsFrom, MibSelection.bgrun, hset]
    cases hok : okButtonPressed p { (create handle ⟨false, false, false⟩).setOidInfoType oid inst with
      syntaxCb := index, resultSyntax := syntaxItem index } with
    | mk m' accepted =>
      cases accepted with
      | true => exact stored_of_value hknown hok
      | false =>
        obtain ⟨_, rfl⟩ := okButtonPressed_refused p hok
        refine ⟨hknown, fun hoid => ?_⟩
        -- no text is refused, so the OID was
        obtain ⟨v, hblank⟩ := encode_blank p hknown
        obtain ⟨_, haccepted⟩ := okButtonPressed_value (p := p)
          (m := { (create handle ⟨false, false, false⟩).setOidInfoType oid inst with
            syntaxCb := index, resultSyntax := syntaxItem index }) hoid hblank
        rw [hok] at haccepted
        cases haccepted

/-- The OID that OK makes of a text. -/
def textOid (handle : SmiHandle) (text : String) : Oid :=
  Oid.ofText (if (resolve handle text).any (·.nodekind == .scalar) then text ++ ".0" else text)

/-- The text is not that of a column without an instance, for which one would be asked. -/
def Instanced (handle : SmiHandle) (text : String) : Prop :=
  ∀ node, resolve handle text = some node → node.nodekind = .column →
    node.oid.length < (Oid.ofText text).length

theorem start_oid (p : Platform) {handle : SmiHandle} {oid : String} (h : Instanced handle oid)
    (flags : Flags) (inst : Option String) (st : Option SnmpSyntax) (val : String) :
    (start p handle flags oid inst st val).resultOid = oid ∧
      (start p handle flags oid inst st val).node = resolve handle oid := by
  have hpart : (start p handle flags oid inst st val).oidPart =
      ((create handle flags).setOidInfoType oid inst).oidPart := by
    rw [start]
    split <;> simp
  have hoid : ((create handle flags).setOidInfoType oid inst).resultOid = oid := by
    rw [setOidInfoType]
    cases hnode : resolve (create handle flags).handle oid with
    | none => rfl
    | some node =>
      refine if_neg ?_
      rintro ⟨hcolumn, hlength⟩
      exact absurd (h node hnode hcolumn) (Nat.not_lt.mpr hlength)
  exact ⟨(congrArg (·.2.2.2) hpart).trans hoid, congrArg (·.2.1) hpart⟩

/-- The OID, the syntax and the value of a row. -/
def SameVarbind (item item' : VarbindItem) : Prop :=
  item'.oid = item.oid ∧ item'.data.vb = item.data.vb ∧ item'.data.st = item.data.st

/-- The OID kept is that of the text, and a number that takes the place of the text encodes as the
text does; or OK is refused. -/
def EditKeeps (p : Platform) (handle : SmiHandle) (item : VarbindItem) : Prop :=
  (item.data.vb.oid = textOid handle item.oid ∧
    ∀ n, Replaces p (typeAt handle item.oid) item.data.st item.data.val n →
      encode p (toString n) item.data.st = encode p item.data.val item.data.st) ∨
  item.oid = "" ∨ ∃ n text, Replaces p (typeAt handle item.oid) item.data.st item.data.val n ∧
    encode p (toString n) item.data.st = .message text

theorem varbindsEdit_accepted {handle : SmiHandle} {item : VarbindItem} (inst : Option String) {v : Value}
    (hinst : Instanced handle item.oid) (hknown : item.data.st ∈ syntaxItems) (hoid : item.oid ≠ "")
    (hencode : encode p (start p handle setValueFlags item.oid inst (some item.data.st)
      item.data.val).resultString item.data.st = .value v) :
    SameVarbind item (varbindsEdit p handle item inst) ↔
      item.data.vb.oid = textOid handle item.oid ∧ v = item.data.vb.value := by
  obtain ⟨hresult, hnode⟩ := start_oid p hinst setValueFlags inst (some item.data.st) item.data.val
  obtain ⟨hst, -⟩ := start_text p handle item.oid inst hknown item.data.val
  rw [varbindsEdit]
  generalize start p handle setValueFlags item.oid inst (some item.data.st) item.data.val = m at *
  rw [← hst] at hencode
  rw [← hresult] at hoid
  obtain ⟨name, hok⟩ := okButtonPressed_value hoid hencode
  rw [hok]
  have hvb : ({ m with syntaxText := name, vb := { m.vb with value := v } } : MibSelection).setVbOid.vb =
      ⟨textOid handle item.oid, v⟩ := by
    rw [setVbOid, textOid, ← hnode, ← hresult]
  generalize textOid handle item.oid = oid at hvb ⊢
  constructor
  · rintro ⟨-, hsame, -⟩
    have hkept : (⟨oid, v⟩ : Vb) = item.data.vb := hvb.symm.trans hsame
    exact ⟨(congrArg Vb.oid hkept).symm, congrArg Vb.value hkept⟩
  · rintro ⟨hoid', rfl⟩
    refine ⟨hresult, hvb.trans ?_, hst⟩
    rw [← hoid']

theorem varbindsEdit_refused {handle : SmiHandle} {item : VarbindItem} (inst : Option String)
    (hinst : Instanced handle item.oid) (hknown : item.data.st ∈ syntaxItems)
    (h : item.oid = "" ∨ ∃ text, encode p (start p handle setValueFlags item.oid inst (some item.data.st)
      item.data.val).resultString item.data.st = .message text) :
    varbindsEdit p handle item inst = item := by
  obtain ⟨hresult, -⟩ := start_oid p hinst setValueFlags inst (some item.data.st) item.data.val
  obtain ⟨hst, -⟩ := start_text p handle item.oid inst hknown item.data.val
  rw [varbindsEdit]
  generalize start p handle setValueFlags item.oid inst (some item.data.st) item.data.val = m at *
  rw [← hst, ← hresult] at h
  have hrefused := okButtonPressed_refuses (p := p) h
  cases hok : m.okButtonPressed p with
  | mk m' accepted =>
    rw [hok] at hrefused
    cases hrefused
    rfl

/-- OK at once leaves the OID, the syntax and the value of a row exactly if the row keeps an OID of
its text and no number of an enumeration takes the place of another value. -/
theorem varbindsEdit_same_iff (p : Platform) (handle : SmiHandle) (item : VarbindItem)
    (inst : Option String) (hbuilt : Built p handle item) (hinst : Instanced handle item.oid) :
    SameVarbind item (varbindsEdit p handle item inst) ↔ EditKeeps p handle item := by
  obtain ⟨hknown, hencoded⟩ := hbuilt.stored
  by_cases hoid : item.oid = ""
  · rw [varbindsEdit_refused inst hinst hknown (Or.inl hoid)]
    exact iff_of_true ⟨rfl, rfl, rfl⟩ (Or.inr (Or.inl hoid))
  have hvalue := hencoded hoid
  obtain ⟨-, ⟨n, hn, htext⟩ | ⟨hnone, htext⟩⟩ := start_text p handle item.oid inst hknown item.data.val
  · cases hencode : encode p (toString n) item.data.st with
    | value v =>
      rw [varbindsEdit_accepted inst hinst hknown hoid (htext ▸ hencode)]
      constructor
      · rintro ⟨htextOid, rfl⟩
        refine Or.inl ⟨htextOid, fun n' hn' => ?_⟩
        rw [hn'.unique hn, hencode, hvalue]
      · rintro (⟨htextOid, hsame⟩ | hblank | ⟨n', text, hn', hmessage⟩)
        · have hv := hsame n hn
          rw [hencode, hvalue] at hv
          exact ⟨htextOid, Encoded.value.inj hv⟩
        · exact absurd hblank hoid
        · rw [hn'.unique hn, hencode] at hmessage
          cases hmessage
    | message text =>
      rw [varbindsEdit_refused inst hinst hknown (Or.inr ⟨text, htext ▸ hencode⟩)]
      exact iff_of_true ⟨rfl, rfl, rfl⟩ (Or.inr (Or.inr ⟨n, text, hn, hencode⟩))
    | unchanged => exact absurd hencode (encode_ne_unchanged p _ hknown)
  · rw [varbindsEdit_accepted inst hinst hknown hoid (htext ▸ hvalue)]
    constructor
    · rintro ⟨htextOid, -⟩
      exact Or.inl ⟨htextOid, fun n hn => absurd hn (hnone n)⟩
    · rintro (⟨htextOid, -⟩ | hblank | ⟨n, -, hn, -⟩)
      · exact ⟨htextOid, rfl⟩
      · exact absurd hblank hoid
      · exact absurd hn (hnone n)

/-- The second value of `ipForwarding`, picked from the box. -/
theorem varbindsEdit_same_iff_picked : ∃ item, Built asciiPlatform ipHandle item ∧
    (SameVarbind item (varbindsEdit asciiPlatform ipHandle item none) ↔
      EditKeeps asciiPlatform ipHandle item) := by
  have hbuilt : ∃ item, Built asciiPlatform ipHandle item ∧ item.oid = "1.3.6.1.2.1.4.1" :=
    ⟨_, .new [.selectNode "1.3.6.1.2.1.4.1" none, .pickValue 1] rfl rfl, by decide⟩
  obtain ⟨item, hitem, hoid⟩ := hbuilt
  refine ⟨item, hitem, varbindsEdit_same_iff asciiPlatform ipHandle item none hitem ?_⟩
  intro node hnode hcolumn
  rw [hoid] at hnode
  have hscalar : (resolve ipHandle "1.3.6.1.2.1.4.1").all (·.nodekind != .column) = true := by decide
  rw [hnode, Option.all_some, hcolumn] at hscalar
  cases hscalar

/-- An enumeration with a negative number, which the library hands out as unsigned. -/
def levelHandle : SmiHandle :=
  ⟨[wellKnown,
    { name := "LEVEL-MIB", path := "LEVEL-MIB", language := 2
      nodes := [⟨"level", [1, 3, 6, 1, 4, 1, 1], .scalar,
        some ⟨none, .enum, [("unknown", 2 ^ 32 - 1), ("none", 0)]⟩, "LEVEL-MIB"⟩] }],
    ["", "LEVEL-MIB"]⟩

/-- The row with the value -1 typed for `level`. -/
def levelRow : VarbindItem :=
  ⟨"level", "1.3.6.1.4.1.1", "INTEGER32", ⟨⟨[1, 3, 6, 1, 4, 1, 1, 0], .int32 (-1)⟩, .int32, "-1"⟩⟩

theorem negative_value_replaced : ¬ ∀ (p : Platform) (handle : SmiHandle) (item : VarbindItem)
    (inst : Option String), Built p handle item → Instanced handle item.oid →
    SameVarbind item (varbindsEdit p handle item inst) := by
  intro h
  have hbuilt : ∃ item, Built asciiPlatform levelHandle item ∧ item = levelRow :=
    ⟨_, .new [.selectNode "1.3.6.1.4.1.1" none, .editValue "-1"] rfl rfl, by decide⟩
  obtain ⟨item, hbuilt, rfl⟩ := hbuilt
  have hscalar : (resolve levelHandle levelRow.oid).all (·.nodekind != .column) = true := by decide
  have hinst : Instanced levelHandle levelRow.oid := by
    intro node hnode hcolumn
    rw [hnode, Option.all_some, hcolumn] at hscalar
    cases hscalar
  obtain ⟨-, hvb, -⟩ := h asciiPlatform levelHandle levelRow none hbuilt hinst
  revert hvb
  decide

end SnmpB.Selection
