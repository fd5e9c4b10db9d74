import SnmpB.Agent.Callback

/-! # Rendering a value by the type of its node

`GetPrintableValue` chooses a member of a union by the base type of the node and
fills it from the varbind, whose syntax the agent chose. A getter that does not
know the syntax leaves the union as it was on the stack.
-/
namespace SnmpB.Agent
open Mib

/-! ## The values of libsmi -/

/-- The union in a `SmiValue`; the numbers share their bits. -/
inductive SmiUnion
  | bits (n : ℕ)
  | oid (subids : Oid)
  | ptr (bytes : List ℕ)
  deriving DecidableEq, Repr

structure SmiValue where
  basetype : SmiBasetype
  len : ℕ
  value : SmiUnion
  deriving DecidableEq, Repr

def smiRenderName : ℕ := 0x02
def smiRenderAll : ℕ := 0xff

/-- What `GetPrintableValue` calls: the type a type is derived from and the rendering of libsmi,
and the printing of the value objects. -/
structure Renderer where
  smiGetParentType : SmiType → Option SmiType
  smiRenderValue : SmiValue → SmiType → ℕ → String
  getPrintable : Value → String

namespace Renderer

/-- `vb->get_printable_value()`. -/
def getPrintableValue (r : Renderer) (vb : Vb) : String :=
  if vb.value.isNull then "" else r.getPrintable vb.value

/-- The type of the node, or the one it is derived from when it has no name of its own. -/
def renderType (r : Renderer) (node : Option SmiNode) : Option SmiType :=
  (node.bind smiGetNodeType).bind fun type =>
    if type.name = none ∧ type.basetype ≠ .enum ∧ type.basetype ≠ .bits then r.smiGetParentType type
    else some type

def bufferSize : ℕ := 5000

/-- The case of UNSIGNED64, which two other cases fall into, and the "last resort". -/
def unsigned64Case (r : Renderer) (type : SmiType) (vb : Vb) : String :=
  match vb.value.getCounter64 with
  | some n => r.smiRenderValue ⟨type.basetype, 0, .bits n⟩ type smiRenderAll
  | none => r.getPrintableValue vb

/-- `Agent::GetPrintableValue` with the union as `stack` on entry; `none` where the terminator is
written behind the buffer. -/
def agentPrintable (r : Renderer) (stack : ℕ) (node : Option SmiNode) (vb : Vb) : Option String :=
  match r.renderType node with
  | none => some (r.getPrintableValue vb)
  | some type =>
    match type.basetype with
    | .unsigned32 =>
      let value := (vb.value.getUnsignedLong).getD stack
      if vb.value.getSyntax = .timeticks then some (r.getPrintableValue vb)
      else some (r.smiRenderValue ⟨.unsigned32, 0, .bits value⟩ type smiRenderAll)
    | .integer32 =>
      let value := (vb.value.getLong.map asUnsigned).getD stack
      some (r.smiRenderValue ⟨.integer32, 0, .bits value⟩ type smiRenderAll)
    | .enum =>
      let value := (vb.value.getLong.map asUnsigned).getD stack
      some (r.smiRenderValue ⟨.enum, 0, .bits value⟩ type smiRenderAll)
    | .objectIdentifier =>
      let val := vb.getOidValue
      if val = [] then some ""
      else some (r.smiRenderValue ⟨.objectIdentifier, val.length, .oid val⟩ type smiRenderName)
    | .octetString | .bits =>
      match vb.value with
      | .octets bytes =>
        let len := min bytes.length bufferSize
        if len < bufferSize then
          some (r.smiRenderValue ⟨type.basetype, len, .ptr (bytes.take len)⟩ type smiRenderAll)
        else none
      | .opaqueStr _ | .ipaddr _ => some (r.getPrintableValue vb)
      | _ => some (r.unsigned64Case type vb)
    | .unsigned64 => some (r.unsigned64Case type vb)
    | _ => some (r.getPrintableValue vb)

/-- The value of a varbind as a value of a base type, where the base type can hold its syntax. -/
def heldAs (basetype : SmiBasetype) (value : Value) : Option SmiValue :=
  match basetype, value with
  | .unsigned32, .cntr32 n | .unsigned32, .gauge32 n | .unsigned32, .timeticks n =>
    some ⟨basetype, 0, .bits n⟩
  | .unsigned64, .cntr64 n | .unsigned64, .cntr32 n | .unsigned64, .gauge32 n | .unsigned64, .timeticks n =>
    some ⟨basetype, 0, .bits n⟩
  | .integer32, .int32 v | .enum, .int32 v => some ⟨basetype, 0, .bits (asUnsigned v)⟩
  | .objectIdentifier, .oid v => some ⟨basetype, v.length, .oid v⟩
  | .octetString, .octets bytes | .bits, .octets bytes => some ⟨basetype, bytes.length, .ptr bytes⟩
  | _, _ => none

/-- The text is the varbind's own printable form, or the rendering of what the varbind holds where
the base type can hold it. -/
def ShowsHeld (r : Renderer) (stack : ℕ) (node : Option SmiNode) (vb : Vb) : Prop :=
  r.agentPrintable stack node vb = some (r.getPrintableValue vb) ∨
  ∃ type value flags, r.renderType node = some type ∧ heldAs type.basetype vb.value = some value ∧
    r.agentPrintable stack node vb = some (r.smiRenderValue value type flags)

def withRender (r : Renderer) (smiRenderValue : SmiValue → SmiType → ℕ → String) : Renderer :=
  { r with smiRenderValue }

/-- Whatever libsmi makes of a value and whatever is on the stack. -/
def AlwaysShowsHeld (r : Renderer) (node : Option SmiNode) (vb : Vb) : Prop :=
  ∀ smiRenderValue stack, (r.withRender smiRenderValue).ShowsHeld stack node vb

/-- The pairs of a base type and a value for which `GetPrintableValue` stays with the varbind. -/
def Fits (r : Renderer) (basetype : SmiBasetype) (vb : Vb) : Prop :=
  match basetype with
  | .unsigned32 => vb.value.getSyntax ∈ [SnmpSyntax.cntr32, .gauge32, .timeticks]
  | .integer32 | .enum => vb.value.getSyntax = .int32
  | .objectIdentifier => vb.getOidValue ≠ [] ∨ r.getPrintableValue vb = ""
  | .octetString | .bits =>
    (∃ bytes, vb.value = .octets bytes ∧ bytes.length < bufferSize) ∨
      vb.value.getSyntax ∈ [SnmpSyntax.opaqueStr, .ipaddr] ∨ vb.value.isNull = true
  | .unsigned64 =>
    vb.value.getSyntax ∈ [SnmpSyntax.cntr64, .cntr32, .gauge32, .timeticks] ∨ vb.value.isNull = true
  | _ => True

/-! ## When the rendering stays with the varbind -/

variable {r : Renderer} {node : Option SmiNode} {type : SmiType} {vb : Vb}

/-- A rendering that no printable form equals. -/
def loud (r : Renderer) (vb : Vb) : Renderer :=
  r.withRender fun _ _ _ => r.getPrintableValue vb ++ "?"

theorem loud_ne (r : Renderer) (vb : Vb) : r.getPrintableValue vb ++ "?" ≠ r.getPrintableValue vb := by
  intro h
  have hlength := congrArg String.length h
  rw [String.length_append] at hlength
  have hmark : "?".length = 1 := rfl
  omega

/-- Every value there is goes through a `Counter64`. -/
theorem loud_unsigned64Case (hvalue : vb.value.isNull = false) :
    (r.loud vb).unsigned64Case type vb = r.getPrintableValue vb ++ "?" := by
  unfold unsigned64Case
  split
  · rfl
  · rename_i hnone
    rw [Value.getCounter64_eq_none_iff, hvalue] at hnone
    cases hnone

/-- A value the base type cannot hold must not be rendered. -/
theorem not_always_of_loud (stack : ℕ) (htype : r.renderType node = some type)
    (hheld : heldAs type.basetype vb.value = none)
    (hloud : (r.loud vb).agentPrintable stack node vb = some (r.getPrintableValue vb ++ "?")) :
    ¬ AlwaysShowsHeld r node vb := by
  intro h
  rcases h (r.loud vb).smiRenderValue stack with hown | ⟨type', value, flags, htype', hvalue, -⟩
  · exact loud_ne r vb (Option.some.inj (hloud.symm.trans hown))
  · obtain rfl : type = type' := Option.some.inj (htype.symm.trans htype')
    rw [hheld] at hvalue
    cases hvalue

/-! ### What a base type holds -/

theorem heldAs_int32 {basetype : SmiBasetype} (hbase : basetype = .integer32 ∨ basetype = .enum) (v : ℤ) :
    heldAs basetype (.int32 v) = some ⟨basetype, 0, .bits (asUnsigned v)⟩ := by
  rcases hbase with rfl | rfl
  · rfl
  · rfl

theorem heldAs_octets {basetype : SmiBasetype} (hbase : basetype = .octetString ∨ basetype = .bits)
    (bytes : List ℕ) : heldAs basetype (.octets bytes) = some ⟨basetype, bytes.length, .ptr bytes⟩ := by
  rcases hbase with rfl | rfl
  · rfl
  · rfl

/-! ### What each case of the switch returns -/

theorem agentPrintable_unsigned32 {stack : ℕ} (htype : r.renderType node = some type)
    (hbase : type.basetype = .unsigned32) :
    r.agentPrintable stack node vb =
      if vb.value.getSyntax = .timeticks then some (r.getPrintableValue vb)
      else some (r.smiRenderValue ⟨.unsigned32, 0, .bits (vb.value.getUnsignedLong.getD stack)⟩ type
        smiRenderAll) := by
  unfold agentPrintable
  rw [htype]
  simp only [hbase]

theorem agentPrintable_long {stack : ℕ} (htype : r.renderType node = some type)
    (hbase : type.basetype = .integer32 ∨ type.basetype = .enum) :
    r.agentPrintable stack node vb =
      some (r.smiRenderValue ⟨type.basetype, 0, .bits ((vb.value.getLong.map asUnsigned).getD stack)⟩ type
        smiRenderAll) := by
  unfold agentPrintable
  rw [htype]
  rcases hbase with hbase | hbase
  · simp only [hbase]
  · simp only [hbase]

theorem agentPrintable_objectIdentifier {stack : ℕ} (htype : r.renderType node = some type)
    (hbase : type.basetype = .objectIdentifier) :
    r.agentPrintable stack node vb =
      if vb.getOidValue = [] then some ""
      else some (r.smiRenderValue ⟨.objectIdentifier, vb.getOidValue.length, .oid vb.getOidValue⟩ type
        smiRenderName) := by
  unfold agentPrintable
  rw [htype]
  simp only [hbase]

theorem agentPrintable_octets {stack : ℕ} {bytes : List ℕ} (htype : r.renderType node = some type)
    (hbase : type.basetype = .octetString ∨ type.basetype = .bits) (hvalue : vb.value = .octets bytes) :
    r.agentPrintable stack node vb =
      if bytes.length < bufferSize then
        some (r.smiRenderValue ⟨type.basetype, bytes.length, .ptr bytes⟩ type smiRenderAll)
      else none := by
  unfold agentPrintable
  rw [htype]
  have hcopied : (if min bytes.length bufferSize < bufferSize then
        some (r.smiRenderValue ⟨type.basetype, min bytes.length bufferSize,
          .ptr (bytes.take (min bytes.length bufferSize))⟩ type smiRenderAll)
      else none) =
      if bytes.length < bufferSize then
        some (r.smiRenderValue ⟨type.basetype, bytes.length, .ptr bytes⟩ type smiRenderAll)
      else none := by
    by_cases hshort : bytes.length < bufferSize
    · rw [Nat.min_eq_left (Nat.le_of_lt hshort), if_pos hshort, if_pos hshort, List.take_length]
    · rw [Nat.min_eq_right (Nat.le_of_not_lt hshort), if_neg (Nat.lt_irrefl _), if_neg hshort]
  rcases hbase with hbase | hbase
  · simp only [hbase, hvalue] at hcopied ⊢
    exact hcopied
  · simp only [hbase, hvalue] at hcopied ⊢
    exact hcopied

theorem agentPrintable_foreign {stack : ℕ} (htype : r.renderType node = some type)
    (hbase : type.basetype = .octetString ∨ type.basetype = .bits)
    (hvalue : ∀ bytes, vb.value ≠ .octets bytes) :
    r.agentPrintable stack node vb =
      if vb.value.getSyntax ∈ [SnmpSyntax.opaqueStr, .ipaddr] then some (r.getPrintableValue vb)
      else some (r.unsigned64Case type vb) := by
  unfold agentPrintable
  rw [htype]
  rcases hbase with hbase | hbase
  all_goals
    simp only [hbase]
    cases hv : vb.value with
    | octets bytes => exact absurd hv (hvalue bytes)
    | _ => rfl

theorem agentPrintable_unsigned64 {stack : ℕ} (htype : r.renderType node = some type)
    (hbase : type.basetype = .unsigned64) :
    r.agentPrintable stack node vb = some (r.unsigned64Case type vb) := by
  unfold agentPrintable
  rw [htype]
  simp only [hbase]

/-! ### The base types one by one -/

theorem always_unsigned32_iff (htype : r.renderType node = some type) (hbase : type.basetype = .unsigned32) :
    AlwaysShowsHeld r node vb ↔ Fits r .unsigned32 vb := by
  constructor
  · intro h
    by_contra hmisfit
    refine not_always_of_loud 0 htype ?_ ?_ h
    · rw [hbase]
      cases hvalue : vb.value <;> simp_all [Fits, heldAs, Value.getSyntax]
    · have hticks : vb.value.getSyntax ≠ .timeticks := fun hticks => hmisfit (by simp [Fits, hticks])
      rw [agentPrintable_unsigned32 (r := r.loud vb) htype hbase, if_neg hticks]
      rfl
  · intro hfits smiRenderValue stack
    have hprint := @agentPrintable_unsigned32 (r.withRender smiRenderValue) node type vb stack htype hbase
    by_cases hticks : vb.value.getSyntax = .timeticks
    · rw [if_pos hticks] at hprint
      exact Or.inl hprint
    · rw [if_neg hticks] at hprint
      obtain ⟨n, hn, hheld⟩ : ∃ n, vb.value.getUnsignedLong = some n ∧
          heldAs type.basetype vb.value = some ⟨.unsigned32, 0, .bits n⟩ := by
        rw [hbase]
        cases hvalue : vb.value <;> simp_all [Fits, heldAs, Value.getSyntax, Value.getUnsignedLong]
      rw [hn] at hprint
      exact Or.inr ⟨type, _, smiRenderAll, htype, hheld, hprint⟩

theorem always_long_iff (htype : r.renderType node = some type)
    (hbase : type.basetype = .integer32 ∨ type.basetype = .enum) :
    AlwaysShowsHeld r node vb ↔ vb.value.getSyntax = .int32 := by
  constructor
  · intro h
    by_contra hmisfit
    refine not_always_of_loud 0 htype ?_ ?_ h
    · rcases hbase with hbase | hbase
      all_goals
        rw [hbase]
        cases hvalue : vb.value <;> simp_all [heldAs, Value.getSyntax]
    · rw [agentPrintable_long (r := r.loud vb) htype hbase]
      rfl
  · intro hint smiRenderValue stack
    have hprint := @agentPrintable_long (r.withRender smiRenderValue) node type vb stack htype hbase
    obtain ⟨v, hv⟩ : ∃ v, vb.value = .int32 v := by
      cases hvalue : vb.value <;> simp_all [Value.getSyntax]
    have hheld : heldAs type.basetype vb.value = some ⟨type.basetype, 0, .bits (asUnsigned v)⟩ := by
      rw [hv]
      exact heldAs_int32 hbase v
    rw [hv] at hprint
    exact Or.inr ⟨type, _, smiRenderAll, htype, hheld, hprint⟩

theorem always_objectIdentifier_iff (htype : r.renderType node = some type)
    (hbase : type.basetype = .objectIdentifier) :
    AlwaysShowsHeld r node vb ↔ Fits r .objectIdentifier vb := by
  have hprint := fun (r' : Renderer) stack => @agentPrintable_objectIdentifier r' node type vb stack
  by_cases hnil : vb.getOidValue = []
  · -- the empty text is returned whatever the renderer
    constructor
    · intro h
      have hempty := hprint (r.loud vb) 0 htype hbase
      rw [if_pos hnil] at hempty
      rcases h (r.loud vb).smiRenderValue 0 with hown | ⟨type', value, flags, -, -, hloud⟩
      · exact Or.inr (Option.some.inj (hempty.symm.trans hown)).symm
      · have hlength := congrArg String.length (Option.some.inj (hempty.symm.trans hloud))
        rw [show (r.withRender (r.loud vb).smiRenderValue).smiRenderValue value type' flags =
          r.getPrintableValue vb ++ "?" from rfl, String.length_append] at hlength
        have hempty : "".length = 0 := rfl
        have hmark : "?".length = 1 := rfl
        omega
    · rintro (hsome | hown) smiRenderValue stack
      · exact absurd hnil hsome
      · have hempty := hprint (r.withRender smiRenderValue) stack htype hbase
        rw [if_pos hnil] at hempty
        exact Or.inl (hempty.trans (congrArg some hown.symm))
  · refine iff_of_true (fun smiRenderValue stack => ?_) (Or.inl hnil)
    have hshown := hprint (r.withRender smiRenderValue) stack htype hbase
    rw [if_neg hnil] at hshown
    have hheld : heldAs type.basetype vb.value =
        some ⟨.objectIdentifier, vb.getOidValue.length, .oid vb.getOidValue⟩ := by
      rw [hbase]
      unfold Vb.getOidValue at hnil ⊢
      cases hvalue : vb.value <;> simp_all [heldAs]
    exact Or.inr ⟨type, _, smiRenderName, htype, hheld, hshown⟩

theorem always_unsigned64_iff (htype : r.renderType node = some type) (hbase : type.basetype = .unsigned64) :
    AlwaysShowsHeld r node vb ↔ Fits r .unsigned64 vb := by
  constructor
  · intro h
    by_contra hmisfit
    refine not_always_of_loud 0 htype ?_ ?_ h
    · rw [hbase]
      cases hvalue : vb.value <;> simp_all [Fits, heldAs, Value.getSyntax]
    · rw [agentPrintable_unsigned64 (r := r.loud vb) htype hbase,
        loud_unsigned64Case (Bool.eq_false_iff.mpr fun hnull => hmisfit (Or.inr hnull))]
  · intro hfits smiRenderValue stack
    have hprint := @agentPrintable_unsigned64 (r.withRender smiRenderValue) node type vb stack htype hbase
    rcases hfits with hnumber | hnull
    · obtain ⟨n, hn, hheld⟩ : ∃ n, vb.value.getCounter64 = some n ∧
          heldAs type.basetype vb.value = some ⟨type.basetype, 0, .bits n⟩ := by
        rw [hbase]
        cases hvalue : vb.value <;> simp_all [heldAs, Value.getSyntax, Value.getCounter64]
      rw [unsigned64Case, hn] at hprint
      exact Or.inr ⟨type, _, smiRenderAll, htype, hheld, hprint⟩
    · rw [unsigned64Case, (Value.getCounter64_eq_none_iff _).mpr hnull] at hprint
      exact Or.inl hprint

theorem always_octets_iff (htype : r.renderType node = some type)
    (hbase : type.basetype = .octetString ∨ type.basetype = .bits) :
    AlwaysShowsHeld r node vb ↔ Fits r .octetString vb := by
  by_cases hoctets : ∃ bytes, vb.value = .octets bytes
  · obtain ⟨bytes, hvalue⟩ := hoctets
    have hprint := fun (r' : Renderer) stack => @agentPrintable_octets r' node type vb stack bytes
    have hheld : heldAs type.basetype vb.value = some ⟨type.basetype, bytes.length, .ptr bytes⟩ := by
      rw [hvalue]
      exact heldAs_octets hbase bytes
    have hfits : Fits r .octetString vb ↔ bytes.length < bufferSize := by
      simp [Fits, hvalue, Value.getSyntax, Value.isNull]
    rw [hfits]
    constructor
    · intro h
      by_contra hlong
      have hoverrun := hprint (r.withRender r.smiRenderValue) 0 htype hbase hvalue
      rw [if_neg hlong] at hoverrun
      rcases h r.smiRenderValue 0 with hown | ⟨_, _, _, -, -, hshown⟩
      · cases hoverrun.symm.trans hown
      · cases hoverrun.symm.trans hshown
    · intro hshort smiRenderValue stack
      have hshown := hprint (r.withRender smiRenderValue) stack htype hbase hvalue
      rw [if_pos hshort] at hshown
      exact Or.inr ⟨type, _, smiRenderAll, htype, hheld, hshown⟩
  · have hvalue : ∀ bytes, vb.value ≠ .octets bytes := fun bytes hb => hoctets ⟨bytes, hb⟩
    have hprint := fun (r' : Renderer) stack => @agentPrintable_foreign r' node type vb stack
    constructor
    · intro h
      by_contra hmisfit
      refine not_always_of_loud 0 htype ?_ ?_ h
      · rcases hbase with hbase | hbase
        all_goals
          rw [hbase]
          cases hv : vb.value <;> simp_all [heldAs]
      · have hown : vb.value.getSyntax ∉ [SnmpSyntax.opaqueStr, .ipaddr] :=
          fun hown => hmisfit (Or.inr (Or.inl hown))
        rw [hprint (r.loud vb) 0 htype hbase hvalue, if_neg hown,
          loud_unsigned64Case (Bool.eq_false_iff.mpr fun hnull => hmisfit (Or.inr (Or.inr hnull)))]
    · rintro (⟨bytes, hb, -⟩ | hown | hnull) smiRenderValue stack
      · exact absurd hb (hvalue bytes)
      · have hshown := hprint (r.withRender smiRenderValue) stack htype hbase hvalue
        rw [if_pos hown] at hshown
        exact Or.inl hshown
      · have hshown := hprint (r.withRender smiRenderValue) stack htype hbase hvalue
        rw [unsigned64Case, (Value.getCounter64_eq_none_iff _).mpr hnull, ite_self] at hshown
        exact Or.inl hshown

/-- Main result: the rendering stays with the varbind exactly when the base type of the node, if it
has one, fits the syntax the agent chose. -/
theorem alwaysShowsHeld_iff (r : Renderer) (node : Option SmiNode) (vb : Vb) :
    AlwaysShowsHeld r node vb ↔ ∀ type, r.renderType node = some type → Fits r type.basetype vb := by
  cases htype : r.renderType node with
  | none =>
    refine iff_of_true (fun smiRenderValue stack => Or.inl ?_) (fun _ h => by cases h)
    unfold agentPrintable
    rw [show (r.withRender smiRenderValue).renderType node = none from htype]
  | some type =>
    simp only [Option.some.injEq, forall_eq']
    cases hbase : type.basetype with
    | unsigned32 => exact always_unsigned32_iff htype hbase
    | integer32 => exact always_long_iff htype (Or.inl hbase)
    | enum => exact always_long_iff htype (Or.inr hbase)
    | objectIdentifier => exact always_objectIdentifier_iff htype hbase
    | octetString => exact always_octets_iff htype (Or.inl hbase)
    | bits => exact always_octets_iff htype (Or.inr hbase)
    | unsigned64 => exact always_unsigned64_iff htype hbase
    | _ =>
      refine iff_of_true (fun smiRenderValue stack => Or.inl ?_) trivial
      unfold agentPrintable
      rw [show (r.withRender smiRenderValue).renderType node = some type from htype]
      simp only [hbase]

/-- The printing of `Agent` with this rendering. -/
def printing (r : Renderer) (stack : ℕ) (errorMsg : ℤ → String) : Printing :=
  { printableValue := fun _ node vb => (r.agentPrintable stack (some node) vb).getD ""
    vbPrintableValue := r.getPrintableValue
    errorMsg }

/-- So the callbacks print, for a varbind that fits its node, its own text or a rendering of the value it holds. -/
theorem printedValue_held {stack : ℕ} {errorMsg : ℤ → String} {mib : MibState} {found : SmiNode}
    {f : List Char} (hfits : ∀ type, r.renderType (some found) = some type → Fits r type.basetype vb) :
    printedValue (r.printing stack errorMsg) mib (some (found, f)) vb =
        toHtmlEscaped (r.getPrintableValue vb) ∨
      ∃ type value flags, r.renderType (some found) = some type ∧
        heldAs type.basetype vb.value = some value ∧
        printedValue (r.printing stack errorMsg) mib (some (found, f)) vb =
          toHtmlEscaped (r.smiRenderValue value type flags) := by
  have hvalue : ∀ text, r.agentPrintable stack (some found) vb = some text →
      printedValue (r.printing stack errorMsg) mib (some (found, f)) vb = toHtmlEscaped text := by
    intro text htext
    simp [printedValue, printing, htext]
  rcases (alwaysShowsHeld_iff r (some found) vb).mpr hfits r.smiRenderValue stack with hown |
    ⟨type, value, flags, htype, hheld, hshown⟩
  · exact Or.inl (hvalue _ hown)
  · exact Or.inr ⟨type, value, flags, htype, hheld, hvalue _ hshown⟩

end Renderer

/-- A rendering in decimal, with the characters of a string. -/
def decimal : Renderer :=
  { smiGetParentType := fun _ => none
    smiRenderValue := fun value _ _ =>
      match value.value with
      | .bits n => String.ofList (Nat.toDigits 10 n)
      | _ => ""
    getPrintable := fun value =>
      match value with
      | .octets bytes => String.ofList (bytes.map Char.ofNat)
      | _ => "" }

def counterNode : SmiNode :=
  { name := "ifHCInOctets", oid := [1, 3, 6, 1, 2, 1, 31, 1, 1, 1, 6], nodekind := .column
    type := some ⟨some "Counter64", .unsigned64, []⟩, moduleName := "IF-MIB" }

/-- "abc" for a 64 bit counter is shown as "0". -/
theorem counter_shows_zero :
    ¬ ∀ (r : Renderer) (stack : ℕ) (node : Option SmiNode) (vb : Vb), r.ShowsHeld stack node vb := by
  intro h
  rcases h decimal 0 (some counterNode) ⟨counterNode.oid ++ [1], .octets [97, 98, 99]⟩ with hown |
    ⟨type, value, flags, htype, hheld, -⟩
  · revert hown
    decide
  · cases htype
    cases hheld

end SnmpB.Agent
