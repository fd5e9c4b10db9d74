import SnmpB.Discovery.Display
import Mathlib.Data.List.TakeWhile

/-! # The columns of a discovered agent

`SendAgentInfo` reads five varbinds through one `Vb` object, which keeps its value
when the PDU has no varbind at a position.
-/
namespace SnmpB.Discovery
open Agent

/-- What the loop fills: the octets of four texts and the ticks. -/
structure InfoTexts where
  description : List ℕ
  uptime : ℕ
  contact : List ℕ
  name : List ℕ
  location : List ℕ
  deriving DecidableEq, Repr

def InfoTexts.empty : InfoTexts := ⟨[], 0, [], [], []⟩

def InfoTexts.put (texts : InfoTexts) (k : ℕ) (text : List ℕ) : InfoTexts :=
  match k with
  | 0 => { texts with description := text }
  | 2 => { texts with contact := text }
  | 3 => { texts with name := text }
  | 4 => { texts with location := text }
  | _ => texts

def bufSize : ℕ := 5000

/-- The text in `buf`; `none` where the terminator is written behind the buffer. -/
def bufText : Value → Option (List ℕ)
  | .octets bytes =>
    let len := min bytes.length bufSize
    if len < bufSize then some ((bytes.take len).takeWhile (· != 0)) else none
  | _ => some []

/-- A turn of the loop of `SendAgentInfo`. -/
def infoTurn (pdu : Pdu) (s : Vb × InfoTexts) (k : ℕ) : Option (Vb × InfoTexts) :=
  let vb := pdu.getVb s.1 k
  if k = 1 then some (vb, { s.2 with uptime := vb.value.getUnsignedLong.getD 0 })
  else (bufText vb.value).map fun text => (vb, s.2.put k text)

def infoTexts (pdu : Pdu) : Option InfoTexts :=
  ((List.range 5).foldlM (infoTurn pdu) (Vb.empty, InfoTexts.empty)).map (·.2)

def AgentInfo.columnsOf (fromOctets : List ℕ → String) (getPrintable : ℕ → String) (info : AgentInfo)
    (texts : InfoTexts) : List String :=
  [fromOctets texts.name, info.address, String.ofList info.protocol, getPrintable texts.uptime,
    fromOctets texts.contact, fromOctets texts.location, fromOctets texts.description]

/-- The list that is sent. How octets and ticks are printed are parameters. -/
def AgentInfo.columns (fromOctets : List ℕ → String) (getPrintable : ℕ → String) (info : AgentInfo) :
    Option (List String) :=
  (infoTexts info.pdu).map (info.columnsOf fromOctets getPrintable)

/-- The octet string at a position. -/
def ownText (pdu : Pdu) (k : ℕ) : List ℕ :=
  match (pdu.vblist[k]?).map Vb.value with
  | some (.octets bytes) => bytes
  | _ => []

def ownUptime (pdu : Pdu) : ℕ :=
  match (pdu.vblist[1]?).map Vb.value with
  | some (.timeticks n) => n
  | _ => 0

/-- Every field from its own varbind. -/
def ownTexts (pdu : Pdu) : InfoTexts :=
  ⟨ownText pdu 0, ownUptime pdu, ownText pdu 2, ownText pdu 3, ownText pdu 4⟩

/-- The varbind in the turn `k`. -/
def heldAt (pdu : Pdu) (k : ℕ) : Vb := (pdu.vblist[k]?).getD (pdu.vblist.getLast?.getD .empty)

theorem heldAt_inside {pdu : Pdu} {k : ℕ} {vb : Vb} (h : pdu.vblist[k]? = some vb) : heldAt pdu k = vb := by
  rw [heldAt, h]
  rfl

theorem heldAt_behind {pdu : Pdu} {k : ℕ} (h : pdu.vblist.length ≤ k) :
    heldAt pdu k = pdu.vblist.getLast?.getD .empty := by
  rw [heldAt, List.getElem?_eq_none h]
  rfl

theorem getVb_first (pdu : Pdu) : pdu.getVb .empty 0 = heldAt pdu 0 := by
  rw [Pdu.getVb, heldAt]
  cases h : pdu.vblist with
  | nil => rfl
  | cons vb rest => rfl

/-- The cell that is read through keeps the last varbind. -/
theorem getVb_held (pdu : Pdu) (k : ℕ) : pdu.getVb (heldAt pdu k) (k + 1) = heldAt pdu (k + 1) := by
  rw [Pdu.getVb]
  cases hnext : pdu.vblist[k + 1]? with
  | some vb => exact (heldAt_inside hnext).symm
  | none =>
    have hlength := List.getElem?_eq_none_iff.mp hnext
    rw [heldAt_behind hlength, Option.getD_none]
    rcases Nat.lt_or_eq_of_le hlength with hlt | heq
    · exact heldAt_behind (Nat.le_of_lt_succ hlt)
    · rw [heldAt, List.getLast?_eq_getElem?, heq, Nat.add_sub_cancel]
      cases pdu.vblist[k]? <;> rfl

theorem infoTurn_text {pdu : Pdu} {vb : Vb} {k : ℕ} (hk : k ≠ 1) (hvb : pdu.getVb vb k = heldAt pdu k)
    (texts : InfoTexts) :
    infoTurn pdu (vb, texts) k = (bufText (heldAt pdu k).value).map fun text => (heldAt pdu k, texts.put k text) := by
  simp only [infoTurn, hvb, hk, ↓reduceIte]

theorem infoTexts_eq_some_iff {pdu : Pdu} {texts : InfoTexts} :
    infoTexts pdu = some texts ↔
      bufText (heldAt pdu 0).value = some texts.description ∧
      (heldAt pdu 1).value.getUnsignedLong.getD 0 = texts.uptime ∧
      bufText (heldAt pdu 2).value = some texts.contact ∧
      bufText (heldAt pdu 3).value = some texts.name ∧
      bufText (heldAt pdu 4).value = some texts.location := by
  have hrange : List.range 5 = [0, 1, 2, 3, 4] := rfl
  have huptime : ∀ texts, infoTurn pdu (heldAt pdu 0, texts) 1 =
      some (heldAt pdu 1, { texts with uptime := (heldAt pdu 1).value.getUnsignedLong.getD 0 }) := by
    intro texts
    simp only [infoTurn, getVb_held pdu 0, ↓reduceIte]
  have h0 := infoTurn_text Nat.zero_ne_one (getVb_first pdu)
  have h2 := infoTurn_text (by decide) (getVb_held pdu 1)
  have h3 := infoTurn_text (by decide) (getVb_held pdu 2)
  have h4 := infoTurn_text (by decide) (getVb_held pdu 3)
  simp only [infoTexts, hrange, List.foldlM_cons, List.foldlM_nil, h0, Option.map_eq_some_iff, Option.bind_eq_bind,
    Option.bind_map, Function.comp_def, huptime, Option.bind_some, h2, h3, h4, Option.bind_eq_some_iff]
  constructor
  · rintro ⟨s, ⟨description, hdescription, contact, hcontact, name, hname, location, hlocation, hs⟩, rfl⟩
    cases hs
    exact ⟨hdescription, rfl, hcontact, hname, hlocation⟩
  · rintro ⟨hdescription, huptime, hcontact, hname, hlocation⟩
    refine ⟨(heldAt pdu 4, texts), ⟨_, hdescription, _, hcontact, _, hname, _, hlocation, ?_⟩, rfl⟩
    rw [huptime]
    rfl

/-- An octet string that is whole as a text in the buffer. -/
def Whole : Value → Prop
  | .octets bytes => bytes.length < bufSize ∧ 0 ∉ bytes
  | _ => True

/-- Nothing of it is seen as a text. -/
def Textless : Value → Prop
  | .octets bytes => bytes.length < bufSize ∧ ∀ b, bytes.head? = some b → b = 0
  | _ => True

theorem bufText_octets (bytes : List ℕ) :
    bufText (.octets bytes) = if bytes.length < bufSize then some (bytes.takeWhile (· != 0)) else none := by
  simp only [bufText]
  by_cases hlt : bytes.length < bufSize
  · rw [Nat.min_eq_left hlt.le, if_pos hlt, if_pos hlt, List.take_length]
  · rw [Nat.min_eq_right (Nat.le_of_not_lt hlt), if_neg hlt, if_neg (Nat.lt_irrefl _)]

theorem takeWhile_eq_self_iff_notMem {bytes : List ℕ} : bytes.takeWhile (· != 0) = bytes ↔ 0 ∉ bytes := by
  rw [List.takeWhile_eq_self_iff]
  simp only [bne_iff_ne]
  exact ⟨fun h hmem => h 0 hmem rfl, fun h b hb hzero => h (hzero ▸ hb)⟩

theorem takeWhile_eq_nil_iff_head {bytes : List ℕ} :
    bytes.takeWhile (· != 0) = [] ↔ ∀ b, bytes.head? = some b → b = 0 := by
  cases bytes with
  | nil => simp
  | cons b bytes => simp [List.takeWhile_cons]

theorem bufText_whole_iff {value : Value} :
    bufText value = some (match value with | .octets bytes => bytes | _ => []) ↔ Whole value := by
  cases value with
  | octets bytes =>
    rw [bufText_octets, Whole, ← takeWhile_eq_self_iff_notMem]
    split <;> simp_all
  | _ => exact iff_of_true rfl trivial

theorem bufText_textless_iff {value : Value} : bufText value = some [] ↔ Textless value := by
  cases value with
  | octets bytes =>
    rw [bufText_octets, Textless, ← takeWhile_eq_nil_iff_head]
    split <;> simp_all
  | _ => exact iff_of_true rfl trivial

/-- Where a text is the octet string at its own position. -/
theorem text_own_iff {pdu : Pdu} {k : ℕ} :
    bufText (heldAt pdu k).value = some (ownText pdu k) ↔
      (∀ vb, pdu.vblist[k]? = some vb → Whole vb.value) ∧
      (pdu.vblist.length ≤ k → ∀ vb, pdu.vblist.getLast? = some vb → Textless vb.value) := by
  cases hk : pdu.vblist[k]? with
  | some vb =>
    have hlt : k < pdu.vblist.length := (List.getElem?_eq_some_iff.mp hk).1
    have hown : ownText pdu k = match vb.value with | .octets bytes => bytes | _ => [] := by
      rw [ownText, hk, Option.map_some]
      cases vb.value <;> rfl
    rw [heldAt_inside hk, hown, bufText_whole_iff]
    simp only [Option.some.injEq, forall_eq']
    exact (and_iff_left fun hle => absurd hlt (Nat.not_lt_of_le hle)).symm
  | none =>
    have hle := List.getElem?_eq_none_iff.mp hk
    have hown : ownText pdu k = [] := by rw [ownText, hk, Option.map_none]
    rw [heldAt_behind hle, hown, bufText_textless_iff]
    cases hlast : pdu.vblist.getLast? with
    | none => simp [Vb.empty, Textless]
    | some vb => simp [hle]

theorem uptime_own_iff {pdu : Pdu} :
    (heldAt pdu 1).value.getUnsignedLong.getD 0 = ownUptime pdu ↔
      (∀ vb, pdu.vblist[1]? = some vb → ∀ n, vb.value = .cntr32 n ∨ vb.value = .gauge32 n → n = 0) ∧
      ∀ vb, pdu.vblist = [vb] → ∀ n, vb.value.getUnsignedLong = some n → n = 0 := by
  cases hk : pdu.vblist[1]? with
  | some vb =>
    have hmany : ∀ vb', pdu.vblist ≠ [vb'] := by
      intro vb' h
      rw [h] at hk
      cases hk
    rw [heldAt_inside hk, ownUptime, hk, Option.map_some]
    simp only [Option.some.injEq, forall_eq', hmany, false_implies, implies_true, and_true]
    cases vb.value <;> simp [Value.getUnsignedLong]
  | none =>
    have hle := List.getElem?_eq_none_iff.mp hk
    rw [heldAt_behind hle, ownUptime, hk, Option.map_none]
    simp only [reduceCtorEq, false_implies, implies_true, true_and]
    match hlist : pdu.vblist with
    | [] => simp [Vb.empty, Value.getUnsignedLong]
    | [vb] =>
      simp only [List.getLast?_singleton, Option.getD_some, List.cons.injEq, and_true, forall_eq']
      cases vb.value.getUnsignedLong <;> simp
    | _ :: _ :: _ =>
      rw [hlist] at hle
      simp at hle

/-- No field is filled from the varbind of another one. -/
structure FieldsInPlace (vblist : List Vb) : Prop where
  whole : ∀ k ∈ [0, 2, 3, 4], ∀ vb, vblist[k]? = some vb → Whole vb.value
  ticks : ∀ vb, vblist[1]? = some vb → ∀ n, vb.value = .cntr32 n ∨ vb.value = .gauge32 n → n = 0
  short : vblist.length < 5 → ∀ vb, vblist.getLast? = some vb → Textless vb.value
  single : ∀ vb, vblist = [vb] → ∀ n, vb.value.getUnsignedLong = some n → n = 0

theorem infoTexts_own_iff (pdu : Pdu) : infoTexts pdu = some (ownTexts pdu) ↔ FieldsInPlace pdu.vblist := by
  simp only [infoTexts_eq_some_iff, ownTexts, text_own_iff, uptime_own_iff]
  constructor
  · rintro ⟨h0, ⟨hticks, hsingle⟩, h2, h3, h4⟩
    refine ⟨?_, hticks, fun hlt => h4.2 (Nat.le_of_lt_succ hlt), hsingle⟩
    intro k hk
    simp only [List.mem_cons, List.not_mem_nil, or_false] at hk
    rcases hk with rfl | rfl | rfl | rfl
    · exact h0.1
    · exact h2.1
    · exact h3.1
    · exact h4.1
  · intro h
    have htext : ∀ k ∈ [0, 2, 3, 4], (∀ vb, pdu.vblist[k]? = some vb → Whole vb.value) ∧
        (pdu.vblist.length ≤ k → ∀ vb, pdu.vblist.getLast? = some vb → Textless vb.value) := by
      intro k hk
      refine ⟨h.whole k hk, fun hle => h.short (Nat.lt_of_le_of_lt hle ?_)⟩
      simp only [List.mem_cons, List.not_mem_nil, or_false] at hk
      omega
    exact ⟨htext 0 (by decide), ⟨h.ticks, h.single⟩, htext 2 (by decide), htext 3 (by decide), htext 4 (by decide)⟩

theorem eq_of_printed {α : Type*} [DecidableEq α] {x y : α} (h : ∀ print : α → String, print x = print y) :
    x = y := by
  by_contra hne
  have hprint := h fun z => if z = x then "x" else ""
  simp only [↓reduceIte, Ne.symm hne] at hprint
  exact absurd hprint (by decide)

/-- The columns are those of the agent's own varbinds exactly if they are in place. -/
theorem columns_own_iff (info : AgentInfo) :
    (∀ fromOctets getPrintable, info.columns fromOctets getPrintable =
        some (info.columnsOf fromOctets getPrintable (ownTexts info.pdu))) ↔
      FieldsInPlace info.pdu.vblist := by
  rw [← infoTexts_own_iff]
  constructor
  · intro h
    obtain ⟨texts, htexts, -⟩ := Option.map_eq_some_iff.mp (h (fun _ => "") fun _ => "")
    simp only [AgentInfo.columns, htexts, Option.map_some, Option.some.injEq, AgentInfo.columnsOf,
      List.cons.injEq, and_true, true_and] at h
    have hname := eq_of_printed fun print => (h print fun _ => "").1
    have huptime := eq_of_printed fun print => (h (fun _ => "") print).2.1
    have hcontact := eq_of_printed fun print => (h print fun _ => "").2.2.1
    have hlocation := eq_of_printed fun print => (h print fun _ => "").2.2.2.1
    have hdescription := eq_of_printed fun print => (h print fun _ => "").2.2.2.2
    rw [htexts, Option.some.injEq]
    cases texts
    simp only [ownTexts] at hname huptime hcontact hlocation hdescription ⊢
    rw [hname, huptime, hcontact, hlocation, hdescription]
  · intro h fromOctets getPrintable
    rw [AgentInfo.columns, h, Option.map_some]

/-- A report with one counter, which becomes the uptime. -/
theorem counter_is_uptime :
    ¬ ∀ (info : AgentInfo) (fromOctets : List ℕ → String) (getPrintable : ℕ → String),
      info.columns fromOctets getPrintable =
        some (info.columnsOf fromOctets getPrintable (ownTexts info.pdu)) := by
  intro h
  have hreport := h ⟨"10.0.0.7/161", protocolName .version3,
    ⟨[⟨[1, 3, 6, 1, 6, 3, 15, 1, 1, 4, 0], .cntr32 7⟩], 0, 0⟩⟩ (fun _ => "") (fun n => if n = 0 then "0" else "7")
  revert hreport
  decide

end SnmpB.Discovery
