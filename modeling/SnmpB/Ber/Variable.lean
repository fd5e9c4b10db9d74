import SnmpB.Agent.Inform
import SnmpB.Ber.ObjectId

/-! # Variables on the wire

A variable is a sequence of its name and its value, and the variables of a PDU are a
sequence of such. The values are parsed a second time, without looking at the outcome.
-/
namespace SnmpB.Ber
open Framing Octets Agent

def maxSnmpPacket : ℕ := 4096
def asnMaxNameLen : ℕ := 128

/-! ## Building -/

/-- `asn_build_string`. -/
def asnBuildString (type : Byte) (string : List Byte) : Writer Byte :=
  andThen (asnBuildHeader type string.length) (put string)

/-- `asn_build_null`. -/
def asnBuildNull (type : Byte) : Writer Byte := asnBuildHeader type 0

/-- The cases of `snmp_build_var_op`. -/
def buildValue : RawValue → Writer Byte
  | .integer v => asnBuildInt asnInteger v
  | .gauge n => asnBuildUnsignedInt smiGauge n
  | .counter n => asnBuildUnsignedInt smiCounter n
  | .timeticks n => asnBuildUnsignedInt smiTimeTicks n
  | .uinteger n => asnBuildUnsignedInt smiUInteger n
  | .counter64 n => asnBuildUnsignedInt64 smiCounter64 (Counter64.ofUint64 n)
  | .octetStr bytes => asnBuildString asnOctetStr (bytes.map uchar)
  | .ipaddress bytes => asnBuildString smiIpAddress (bytes.map uchar)
  | .opaqueStr bytes => asnBuildString smiOpaque (bytes.map uchar)
  | .nsap bytes => asnBuildString smiNsap (bytes.map uchar)
  | .objectId v => asnBuildObjid asnObjectId v
  | .null => asnBuildNull asnNull
  | .noSuchObject => asnBuildNull snmpNoSuchObject
  | .noSuchInstance => asnBuildNull snmpNoSuchInstance
  | .endOfMibView => asnBuildNull snmpEndOfMibView

/-- `snmp_build_var_op`. -/
def snmpBuildVarOp (name : Oid) (value : RawValue) : Writer Byte := fun listlength => do
  let (buffer, _) ← andThen (asnBuildObjid asnObjectId name) (buildValue value) maxSnmpPacket
  andThen (asnBuildSequence asnSeqCon buffer.length) (put buffer) listlength

/-- "build varbinds into packet buffer" -/
def buildVars : List (Oid × RawValue) → Writer Byte
  | [] => put []
  | (name, value) :: vars => andThen (snmpBuildVarOp name value) (buildVars vars)

/-- `build_vb`. -/
def buildVb (vars : List (Oid × RawValue)) : Writer Byte := fun bufLen => do
  let (tmp, _) ← buildVars vars maxSnmpPacket
  if bufLen ≤ tmp.length then none
  else
    let (header, bufLen) ← asnBuildHeader asnSeqCon tmp.length (bufLen - tmp.length)
    some (header ++ tmp, bufLen)

/-! ## Parsing -/

/-- `asn_parse_string`, into a buffer of `strlength`. -/
def asnParseString (strlength : ℕ) (c : Cursor) : Option ((Byte × List Byte) × Cursor) := do
  let ((type, asnLength), c) ← asnParseContent [asnOctetStr, 0x24, smiIpAddress, smiOpaque, smiNsap] c
  if asnLength > strlength then none
  else
    let (string, rest) ← takeBytes asnLength c.data
    some ((type, string), ⟨rest, c.valid⟩)

/-- What `snmp_parse_var_op` finds: `varVal` points at the header of the value. -/
structure VarOp where
  name : Oid
  valType : Byte
  valLen : ℕ
  varVal : List Byte

/-- `snmp_parse_var_op`. -/
def snmpParseVarOp (c : Cursor) : Option (VarOp × Cursor) := do
  let (type, op) ← asnParseHeader c
  if type ≠ asnSeqCon then none
  else
    let ((_, name), op) ← asnParseObjid asnMaxNameLen op
    let (valType, val) ← asnParseHeader op
    let taken := c.data.length - val.data.length
    if val.valid + taken > c.valid then none
    else some (⟨name, valType, val.valid, op.data⟩, ⟨val.data.drop val.valid, c.valid - (val.valid + taken)⟩)

/-- The value of a variable: none inside where its memory is not written to, none at all for a type that is
not known. -/
def parseValue (op : VarOp) : Option (Option RawValue) :=
  let c : Cursor := ⟨op.varVal, maxSnmpPacket⟩
  let unsigned (value : ℕ → RawValue) := (asnParseUnsignedInt c).map fun x => value x.1.2
  let string (value : List ℕ → RawValue) := (asnParseString op.valLen c).map fun x => value (x.1.2.map BitVec.toNat)
  if op.valType = asnInteger then some ((asnParseInt c).map fun x => .integer x.1.2)
  else if op.valType = smiCounter then some (unsigned .counter)
  else if op.valType = smiGauge then some (unsigned .gauge)
  else if op.valType = smiTimeTicks then some (unsigned .timeticks)
  else if op.valType = smiUInteger then some (unsigned .uinteger)
  else if op.valType = smiCounter64 then some ((asnParseUnsignedInt64 c).map fun x => .counter64 x.1.2.toUint64)
  else if op.valType = asnOctetStr then some (string .octetStr)
  else if op.valType = smiIpAddress then some (string .ipaddress)
  else if op.valType = smiOpaque then some (string .opaqueStr)
  else if op.valType = smiNsap then some (string .nsap)
  else if op.valType = asnObjectId then some ((asnParseObjid asnMaxNameLen c).map fun x => .objectId x.1.2)
  else if op.valType = snmpNoSuchObject then some (some .noSuchObject)
  else if op.valType = snmpNoSuchInstance then some (some .noSuchInstance)
  else if op.valType = snmpEndOfMibView then some (some .endOfMibView)
  else if op.valType = asnNull then some (some .null)
  else none

/-- A turn of the loop in `snmp_parse_vb`. -/
def parseVariable (c : Cursor) : Option ((Oid × Option RawValue) × Cursor) := do
  let (op, c) ← snmpParseVarOp c
  let value ← parseValue op
  some ((op.name, value), c)

/-- `snmp_parse_vb`. -/
def snmpParseVb (c : Cursor) : Option (List (Oid × Option RawValue) × Cursor) := do
  let (type, c) ← asnParseHeader c
  if type ≠ asnSeqCon then none else many parseVariable c.valid c

/-! ## What is written -/

/-- The type and the content of a value. -/
def valueParts : RawValue → Byte × List Byte
  | .integer v => (asnInteger, intContent v)
  | .gauge n => (smiGauge, unsignedContent n)
  | .counter n => (smiCounter, unsignedContent n)
  | .timeticks n => (smiTimeTicks, unsignedContent n)
  | .uinteger n => (smiUInteger, unsignedContent n)
  | .counter64 n => (smiCounter64, counterContent (Counter64.ofUint64 n))
  | .octetStr bytes => (asnOctetStr, bytes.map uchar)
  | .ipaddress bytes => (smiIpAddress, bytes.map uchar)
  | .opaqueStr bytes => (smiOpaque, bytes.map uchar)
  | .nsap bytes => (smiNsap, bytes.map uchar)
  | .objectId v => (asnObjectId, oidContent v)
  | .null => (asnNull, [])
  | .noSuchObject => (snmpNoSuchObject, [])
  | .noSuchInstance => (snmpNoSuchInstance, [])
  | .endOfMibView => (snmpEndOfMibView, [])

def valueTlv (value : RawValue) : List Byte := tlv (valueParts value).1 (valueParts value).2

def varOpContent (name : Oid) (value : RawValue) : List Byte := tlv asnObjectId (oidContent name) ++ valueTlv value

def varOpTlv (var : Oid × RawValue) : List Byte := tlv asnSeqCon (varOpContent var.1 var.2)

def varsTlv (vars : List (Oid × RawValue)) : List Byte := tlv asnSeqCon (vars.map varOpTlv).flatten

/-- The values that the wire has a form for. -/
def ValueEncodable : RawValue → Prop
  | .integer v => IsLong v
  | .gauge n | .counter n | .timeticks n | .uinteger n => n < 2 ^ 32
  | .counter64 n => n < 2 ^ 64
  | .octetStr bytes | .ipaddress bytes | .opaqueStr bytes | .nsap bytes => ∀ b ∈ bytes, b < 256
  | .objectId v => OidEncodable v
  | .null | .noSuchObject | .noSuchInstance | .endOfMibView => True

def VarEncodable (var : Oid × RawValue) : Prop := OidEncodable var.1 ∧ ValueEncodable var.2

theorem string_writes (type : Byte) (string : List Byte) :
    Writes maxSnmpPacket (asnBuildString type string) (tlv type string) := by
  by_cases hlength : string.length < 2 ^ 32
  · refine writes_of_eq_put ?_
    rw [asnBuildString, asnBuildHeader_eq type hlength, put_andThen, List.cons_append]
    rfl
  · -- no such string fits
    intro room hroom
    unfold maxSnmpPacket at hroom
    rw [put_of_lt (by rw [length_tlv]; omega)]
    refine Option.eq_none_iff_forall_ne_some.mpr fun x hx => ?_
    obtain ⟨⟨header, left⟩, hheader, hx⟩ := Option.bind_eq_some_iff.mp hx
    obtain ⟨⟨written, left'⟩, hstring, -⟩ := Option.bind_eq_some_iff.mp hx
    have hfits := (put_eq_some_iff.mp hstring).1
    have hless := asnBuildHeader_less hheader
    omega

theorem value_writes {value : RawValue} (h : ValueEncodable value) :
    Writes maxSnmpPacket (buildValue value) (valueTlv value) := by
  have hnull : ∀ type, asnBuildNull type = put (tlv type []) := by
    intro type
    rw [asnBuildNull, asnBuildHeader_eq type (by decide), tlv, List.append_nil]
    rfl
  cases value with
  | integer v => exact writes_of_eq_put (asnBuildInt_eq asnInteger v)
  | gauge n => exact writes_of_eq_put (asnBuildUnsignedInt_eq smiGauge n)
  | counter n => exact writes_of_eq_put (asnBuildUnsignedInt_eq smiCounter n)
  | timeticks n => exact writes_of_eq_put (asnBuildUnsignedInt_eq smiTimeTicks n)
  | uinteger n => exact writes_of_eq_put (asnBuildUnsignedInt_eq smiUInteger n)
  | counter64 n => exact writes_of_eq_put (asnBuildUnsignedInt64_eq smiCounter64 _)
  | octetStr bytes => exact string_writes asnOctetStr _
  | ipaddress bytes => exact string_writes smiIpAddress _
  | opaqueStr bytes => exact string_writes smiOpaque _
  | nsap bytes => exact string_writes smiNsap _
  | objectId v =>
    exact writes_of_eq_put (asnBuildObjid_eq asnObjectId (OidEncodable.numbers_lt h))
  | null => exact writes_of_eq_put (hnull asnNull)
  | noSuchObject => exact writes_of_eq_put (hnull snmpNoSuchObject)
  | noSuchInstance => exact writes_of_eq_put (hnull snmpNoSuchInstance)
  | endOfMibView => exact writes_of_eq_put (hnull snmpEndOfMibView)

theorem varOp_writes {var : Oid × RawValue} (h : VarEncodable var) :
    Writes maxSnmpPacket (snmpBuildVarOp var.1 var.2) (varOpTlv var) := by
  have hcontent : Writes maxSnmpPacket (andThen (asnBuildObjid asnObjectId var.1) (buildValue var.2))
      (varOpContent var.1 var.2) :=
    (writes_of_eq_put (asnBuildObjid_eq asnObjectId h.1.numbers_lt)).andThen (value_writes h.2)
  intro room hroom
  unfold snmpBuildVarOp
  rw [hcontent _ le_rfl]
  rcases Nat.lt_or_ge maxSnmpPacket (varOpContent var.1 var.2).length with hlt | hle
  · rw [put_of_lt hlt, put_of_lt (by rw [varOpTlv, length_tlv]; omega)]
    rfl
  · rw [put_of_le hle]
    simp only [Option.bind_eq_bind, Option.bind_some]
    rw [asnBuildSequence_eq _ (by unfold maxSnmpPacket at hle; omega), put_andThen, List.cons_append]
    rfl

theorem vars_writes {vars : List (Oid × RawValue)} (h : ∀ var ∈ vars, VarEncodable var) :
    Writes maxSnmpPacket (buildVars vars) (vars.map varOpTlv).flatten := by
  induction vars with
  | nil => exact writes_of_eq_put rfl
  | cons var vars ih =>
    obtain ⟨hvar, hrest⟩ := List.forall_mem_cons.mp h
    exact (varOp_writes hvar).andThen (ih hrest)

/-- The room is asked for before the header is written, and the variables are copied behind it. -/
theorem vb_writes {vars : List (Oid × RawValue)} (h : ∀ var ∈ vars, VarEncodable var) :
    Writes maxSnmpPacket (buildVb vars) (varsTlv vars) := by
  intro room hroom
  have hpos := List.length_pos_of_ne_nil (lengthOctets_ne_nil (vars.map varOpTlv).flatten.length)
  unfold buildVb
  rw [vars_writes h _ le_rfl]
  rcases Nat.lt_or_ge maxSnmpPacket (vars.map varOpTlv).flatten.length with hlt | hle
  · rw [put_of_lt hlt, put_of_lt (by rw [varsTlv, length_tlv]; omega)]
    rfl
  rw [put_of_le hle]
  simp only [Option.bind_eq_bind, Option.bind_some]
  split
  · rw [put_of_lt (by rw [varsTlv, length_tlv]; omega)]
  rw [asnBuildHeader_eq _ (by unfold maxSnmpPacket at hle; omega)]
  rcases Nat.lt_or_ge room (varsTlv vars).length with hlt | hfits
  · rw [put_of_lt hlt]
    rw [varsTlv, length_tlv] at hlt
    rw [put_of_lt (by rw [List.length_cons]; omega)]
    rfl
  · rw [put_of_le hfits]
    rw [varsTlv, length_tlv] at hfits ⊢
    rw [put_of_le (by rw [List.length_cons]; omega), Option.bind_some, tlv, List.cons_append, List.length_cons,
      Nat.sub_sub]
    congr 2
    omega

/-! ## What is read -/

theorem asnParseString_reads {type : Byte}
    (htype : type ∈ [asnOctetStr, 0x24, smiIpAddress, smiOpaque, smiNsap]) {string : List Byte} {strlength : ℕ}
    (hstr : string.length ≤ strlength) (hlength : string.length ≤ maxLength) :
    Reads (asnParseString strlength) (tlv type string) (type, string) := by
  intro rest n hn
  unfold asnParseString
  rw [asnParseContent_tlv htype hlength rest hn]
  simp only [Option.bind_eq_bind, Option.bind_some, if_neg (not_lt.mpr hstr), takeBytes_append]

theorem map_toNat_uchar {bytes : List ℕ} (h : ∀ b ∈ bytes, b < 256) : (bytes.map uchar).map BitVec.toNat = bytes := by
  rw [List.map_map]
  refine (List.map_congr_left fun b hb => ?_).trans (List.map_id _)
  exact (BitVec.toNat_ofNat _ _).trans (Nat.mod_eq_of_lt (h b hb))

section Values
variable (type : Byte) (rest : List Byte)

theorem unsigned_back (htype : type ∈ [asnInteger, smiTimeTicks, smiCounter, smiGauge, smiUInteger]) {n : ℕ}
    (hn : n < 2 ^ 32) (hsize : (tlv type (unsignedContent n)).length ≤ maxSnmpPacket) (value : ℕ → RawValue) :
    (asnParseUnsignedInt ⟨tlv type (unsignedContent n) ++ rest, maxSnmpPacket⟩).map (fun x => value x.1.2) =
      some (value n) := by
  rw [asnParseUnsignedInt_reads htype n rest _ hsize, Nat.mod_eq_of_lt hn]
  rfl

theorem string_back (htype : type ∈ [asnOctetStr, 0x24, smiIpAddress, smiOpaque, smiNsap]) {bytes : List ℕ}
    (hbytes : ∀ b ∈ bytes, b < 256) (hsize : (tlv type (bytes.map uchar)).length ≤ maxSnmpPacket)
    (value : List ℕ → RawValue) :
    (asnParseString (bytes.map uchar).length ⟨tlv type (bytes.map uchar) ++ rest, maxSnmpPacket⟩).map
      (fun x => value (x.1.2.map BitVec.toNat)) = some (value bytes) := by
  have hlength : (bytes.map uchar).length ≤ maxLength := by
    rw [length_tlv] at hsize
    unfold maxSnmpPacket at hsize
    unfold maxLength
    omega
  rw [asnParseString_reads htype le_rfl hlength rest _ hsize, Option.map_some, map_toNat_uchar hbytes]

/-- The value is read back from where its header stands. -/
theorem parseValue_valueTlv {value : RawValue} (h : ValueEncodable value) (name : Oid)
    (hsize : (valueTlv value).length ≤ maxSnmpPacket) :
    parseValue ⟨name, (valueParts value).1, (valueParts value).2.length, valueTlv value ++ rest⟩ = some (some value) := by
  cases value with
  | integer v =>
    change some ((asnParseInt ⟨tlv asnInteger (intContent v) ++ rest, maxSnmpPacket⟩).map
      fun x => RawValue.integer x.1.2) = _
    rw [asnParseInt_reads (by decide : asnInteger ∈ _) h rest _ hsize]
    rfl
  | gauge n => exact congrArg some (unsigned_back smiGauge rest (by decide) h hsize .gauge)
  | counter n => exact congrArg some (unsigned_back smiCounter rest (by decide) h hsize .counter)
  | timeticks n => exact congrArg some (unsigned_back smiTimeTicks rest (by decide) h hsize .timeticks)
  | uinteger n => exact congrArg some (unsigned_back smiUInteger rest (by decide) h hsize .uinteger)
  | counter64 n =>
    obtain ⟨c, hread, hc⟩ := asnParseUnsignedInt64_reads (by decide : smiCounter64 ∈ _) (Counter64.ofUint64 n)
    change some ((asnParseUnsignedInt64 ⟨tlv smiCounter64 (counterContent (Counter64.ofUint64 n)) ++ rest,
      maxSnmpPacket⟩).map fun x => RawValue.counter64 x.1.2.toUint64) = _
    rw [hread rest _ hsize, Option.map_some, hc, Counter64.word_ofUint64, BitVec.toNat_ofNat, Nat.mod_eq_of_lt h]
  | octetStr bytes => exact congrArg some (string_back asnOctetStr rest (by decide) h hsize .octetStr)
  | ipaddress bytes => exact congrArg some (string_back smiIpAddress rest (by decide) h hsize .ipaddress)
  | opaqueStr bytes => exact congrArg some (string_back smiOpaque rest (by decide) h hsize .opaqueStr)
  | nsap bytes => exact congrArg some (string_back smiNsap rest (by decide) h hsize .nsap)
  | objectId v =>
    obtain ⟨hnumbers, hv⟩ := OidEncodable.numbers h
    change some ((asnParseObjid asnMaxNameLen ⟨tlv asnObjectId (oidContent v) ++ rest, maxSnmpPacket⟩).map
      fun x => RawValue.objectId x.1.2) = _
    rw [show asnMaxNameLen = maxOidLen from rfl, asnParseObjid_reads hnumbers rest _ hsize, hv]
    rfl
  | null => rfl
  | noSuchObject => rfl
  | noSuchInstance => rfl
  | endOfMibView => rfl

end Values

theorem valueParts_type (value : RawValue) : (valueParts value).1 &&& asnExtensionId ≠ asnExtensionId := by
  have hall : ∀ type ∈ [asnInteger, asnOctetStr, asnNull, asnObjectId, smiIpAddress, smiCounter, smiGauge, smiTimeTicks,
      smiOpaque, smiNsap, smiCounter64, smiUInteger, snmpNoSuchObject, snmpNoSuchInstance, snmpEndOfMibView],
      type &&& asnExtensionId ≠ asnExtensionId := by decide
  refine hall _ ?_
  cases value <;> simp [valueParts]

/-- A variable is read back, name and value. -/
theorem parseVariable_reads {var : Oid × RawValue} (h : VarEncodable var)
    (hsize : (varOpContent var.1 var.2).length ≤ maxSnmpPacket) :
    Reads parseVariable (varOpTlv var) (var.1, some var.2) := by
  obtain ⟨name, value⟩ := var
  obtain ⟨hname, hvalue⟩ := h
  dsimp only at hname hvalue hsize ⊢
  intro rest n hn
  have hvalueSize : (valueTlv value).length ≤ maxSnmpPacket := by
    rw [varOpContent, List.length_append] at hsize
    omega
  have hparts : (valueParts value).2.length ≤ maxLength := by
    rw [valueTlv, length_tlv] at hvalueSize
    unfold maxSnmpPacket at hvalueSize
    unfold maxLength
    omega
  have hop : snmpParseVarOp ⟨varOpTlv (name, value) ++ rest, n⟩ =
      some (⟨name, (valueParts value).1, (valueParts value).2.length, valueTlv value ++ rest⟩,
        ⟨rest, n - (varOpTlv (name, value)).length⟩) := by
    have hcontent : (varOpContent name value).length ≤ maxLength := hsize.trans (by decide)
    have hheader := asnParseHeader_tlv (by decide : asnSeqCon &&& asnExtensionId ≠ asnExtensionId) hcontent rest hn
    obtain ⟨hnumbers, hdecoded⟩ := hname.numbers
    have hobjid := asnParseObjid_reads hnumbers (valueTlv value ++ rest) (varOpContent name value).length
      (by rw [varOpContent, List.length_append]; omega)
    have hval : asnParseHeader ⟨valueTlv value ++ rest, (valueTlv value).length⟩ =
        some ((valueParts value).1, ⟨(valueParts value).2 ++ rest, (valueParts value).2.length⟩) :=
      asnParseHeader_tlv (valueParts_type value) hparts rest le_rfl
    have hleft : (varOpContent name value).length - (tlv asnObjectId (oidContent name)).length = (valueTlv value).length := by
      rw [varOpContent, List.length_append, Nat.add_sub_cancel_left]
    have htaken : (valueParts value).2.length + ((varOpTlv (name, value) ++ rest).length -
        ((valueParts value).2 ++ rest).length) = (varOpTlv (name, value)).length := by
      have houter : (varOpContent name value).length ≤ (varOpTlv (name, value)).length := by
        rw [show varOpTlv (name, value) = tlv asnSeqCon (varOpContent name value) from rfl, length_tlv]
        omega
      have hinner : (valueParts value).2.length ≤ (varOpContent name value).length := by
        rw [varOpContent, valueTlv, List.length_append, length_tlv (valueParts value).1]
        omega
      rw [List.length_append, List.length_append]
      omega
    rw [hdecoded, ← List.append_assoc, ← varOpContent, hleft] at hobjid
    unfold snmpParseVarOp
    rw [show varOpTlv (name, value) = tlv asnSeqCon (varOpContent name value) from rfl] at htaken hn ⊢
    rw [hheader]
    simp only [Option.bind_eq_bind, Option.bind_some, ne_eq, not_true_eq_false, if_false,
      show asnMaxNameLen = maxOidLen from rfl, hobjid, hval, htaken, if_neg (not_lt.mpr hn), List.drop_left]
  unfold parseVariable
  rw [hop]
  simp only [Option.bind_eq_bind, Option.bind_some]
  rw [parseValue_valueTlv rest hvalue name hvalueSize]
  rfl

theorem varOpTlv_ne_nil (var : Oid × RawValue) : varOpTlv var ≠ [] := List.cons_ne_nil _ _

/-- The variables are read back in their order. -/
theorem snmpParseVb_varsTlv {vars : List (Oid × RawValue)} (h : ∀ var ∈ vars, VarEncodable var)
    (hsize : ∀ var ∈ vars, (varOpContent var.1 var.2).length ≤ maxSnmpPacket)
    (htotal : (vars.map varOpTlv).flatten.length ≤ maxLength) (rest : List Byte) {n : ℕ}
    (hn : (varsTlv vars).length ≤ n) :
    snmpParseVb ⟨varsTlv vars ++ rest, n⟩ = some (vars.map fun var => (var.1, some var.2), ⟨rest, 0⟩) := by
  have hheader := asnParseHeader_tlv (by decide : asnSeqCon &&& asnExtensionId ≠ asnExtensionId) htotal rest hn
  have hmany := many_reads (r := parseVariable) (l := vars.map fun var => (varOpTlv var, (var.1, some var.2)))
    (by
      rw [List.forall_mem_map]
      exact fun var hvar => ⟨parseVariable_reads (h var hvar) (hsize var hvar), varOpTlv_ne_nil var⟩)
    (le_refl _) rest
  rw [List.map_map, List.map_map] at hmany
  unfold snmpParseVb varsTlv
  rw [hheader]
  exact hmany

end SnmpB.Ber
