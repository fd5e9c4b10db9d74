import SnmpB.Ber.Variable

/-! # SNMPv1 and SNMPv2c messages

A message is a sequence of version, community and data PDU. The data PDU ends with the
variables, the fields before them depend on whether it is an SNMPv1 trap.
-/
namespace SnmpB.Ber
open Framing Octets Agent

def trpReqMsg : Byte := 0xA4
def maxLenCommunity : ℕ := 254

/-- `snmp_pdu`: a trap of SNMPv1 uses the fields from `enterprise` on, any other PDU those before. -/
structure SnmpPdu where
  command : Byte
  reqid : ℤ
  errstat : ℤ
  errindex : ℤ
  enterprise : Oid
  agentAddr : List Byte
  trapType : ℤ
  specificType : ℤ
  time : ℕ
  deriving DecidableEq

/-- `snmp_pdu_create`. -/
def SnmpPdu.create (command : Byte) : SnmpPdu := ⟨command, 0, 0, 0, [], List.replicate 4 0, 0, 0, 0⟩

/-! ## Building -/

/-- "build data of pdu into tmp_buf" -/
def buildData (pdu : SnmpPdu) : Writer Byte :=
  if pdu.command ≠ trpReqMsg then
    andThen (asnBuildInt asnInteger pdu.reqid)
      (andThen (asnBuildInt asnInteger pdu.errstat) (asnBuildInt asnInteger pdu.errindex))
  else
    andThen (asnBuildObjid asnObjectId pdu.enterprise) (andThen (asnBuildString smiIpAddress pdu.agentAddr)
      (andThen (asnBuildInt asnInteger pdu.trapType) (andThen (asnBuildInt asnInteger pdu.specificType)
        (asnBuildUnsignedInt smiTimeTicks pdu.time))))

/-- `build_data_pdu`. -/
def buildDataPdu (pdu : SnmpPdu) (vbBuf : List Byte) : Writer Byte := fun bufLen => do
  let (tmp, length) ← buildData pdu maxSnmpPacket
  if length < vbBuf.length then none
  else andThen (asnBuildHeader pdu.command (tmp.length + vbBuf.length)) (put (tmp ++ vbBuf)) bufLen

/-- `snmp_auth_build`: "This assumes that community will not be longer than 0x7f chars". -/
def snmpAuthBuild (version : ℤ) (community : List Byte) (messagelen : ℕ) : Writer Byte :=
  andThen (asnBuildSequence asnSeqCon (messagelen + community.length + 5))
    (andThen (asnBuildInt asnInteger version) (asnBuildString asnOctetStr community))

/-- `snmp_build`. -/
def snmpBuild (pdu : SnmpPdu) (vars : List (Oid × RawValue)) (outLength : ℕ) (version : ℤ) (community : List Byte) :
    Option (List Byte) := do
  let (packet, _) ← buildVb vars outLength
  if packet.length ≥ outLength then none
  else
    let (buf, _) ← buildDataPdu pdu packet maxSnmpPacket
    if buf.length ≥ outLength then none
    else
      let (header, _) ← snmpAuthBuild version community buf.length outLength
      if outLength - header.length < buf.length then none else some (header ++ buf)

/-! ## Parsing -/

/-- A `long` assigned to an `int`. -/
def toInt32 (v : ℤ) : ℤ := (BitVec.ofInt 32 v).toInt

/-- `snmp_parse_data_pdu`. -/
def snmpParseDataPdu (c : Cursor) : Option (SnmpPdu × Cursor) := do
  let (command, c) ← asnParseHeader c
  if command ≠ trpReqMsg then
    let ((_, reqid), c) ← asnParseInt c
    let ((_, errstat), c) ← asnParseInt c
    let ((_, errindex), c) ← asnParseInt c
    some ({ SnmpPdu.create command with reqid, errstat, errindex }, c)
  else
    let ((_, enterprise), c) ← asnParseObjid asnMaxNameLen c
    let ((_, addr), c) ← asnParseString 4 c
    let ((_, trapType), c) ← asnParseInt c
    let ((_, specificType), c) ← asnParseInt c
    let ((_, time), c) ← asnParseUnsignedInt c
    some ({ SnmpPdu.create command with
      enterprise, agentAddr := addr ++ List.replicate (4 - addr.length) 0
      trapType := toInt32 trapType, specificType := toInt32 specificType, time }, c)

/-- `snmp_auth_parse`. -/
def snmpAuthParse (c : Cursor) : Option ((ℤ × List Byte) × Cursor) := do
  let (type, c) ← asnParseHeader c
  if type ≠ asnSeqCon then none
  else
    let ((_, version), c) ← asnParseInt c
    let ((_, community), c) ← asnParseString (maxLenCommunity + 1) c
    some ((version, community), c)

/-- A message as it is parsed. -/
structure Parsed where
  version : ℤ
  community : List Byte
  pdu : SnmpPdu
  vars : List (Oid × Option RawValue)
  deriving DecidableEq

/-- `snmp_parse`; none is an error of the ASN.1 or a bad version. -/
def snmpParse (data : List Byte) (dataLength : ℕ) : Option Parsed := do
  let ((version, community), c) ← snmpAuthParse ⟨data, dataLength⟩
  if version ≠ 0 ∧ version ≠ 1 then none
  else
    let (pdu, c) ← snmpParseDataPdu c
    let (vars, _) ← snmpParseVb c
    some ⟨version, community, pdu, vars⟩

/-! ## What is written -/

/-- The fields before the variables. -/
def dataFields (pdu : SnmpPdu) : List Byte :=
  if pdu.command ≠ trpReqMsg then
    tlv asnInteger (intContent pdu.reqid) ++
      (tlv asnInteger (intContent pdu.errstat) ++ tlv asnInteger (intContent pdu.errindex))
  else
    tlv asnObjectId (oidContent pdu.enterprise) ++ (tlv smiIpAddress pdu.agentAddr ++
      (tlv asnInteger (intContent pdu.trapType) ++ (tlv asnInteger (intContent pdu.specificType) ++
        tlv smiTimeTicks (unsignedContent pdu.time))))

def dataTlv (pdu : SnmpPdu) (vars : List (Oid × RawValue)) : List Byte :=
  tlv pdu.command (dataFields pdu ++ varsTlv vars)

/-- Version, community and data. -/
def messageContent (version : ℤ) (community : List Byte) (pdu : SnmpPdu) (vars : List (Oid × RawValue)) : List Byte :=
  tlv asnInteger (intContent version) ++ (tlv asnOctetStr community ++ dataTlv pdu vars)

/-- An `int`. -/
def IsInt (v : ℤ) : Prop := -2 ^ 31 ≤ v ∧ v < 2 ^ 31

/-- The PDUs that the wire has a form for. -/
def PduEncodable (pdu : SnmpPdu) : Prop :=
  pdu.command &&& asnExtensionId ≠ asnExtensionId ∧
    if pdu.command ≠ trpReqMsg then
      IsLong pdu.reqid ∧ IsLong pdu.errstat ∧ IsLong pdu.errindex ∧
        pdu = { SnmpPdu.create pdu.command with reqid := pdu.reqid, errstat := pdu.errstat, errindex := pdu.errindex }
    else
      OidEncodable pdu.enterprise ∧ pdu.agentAddr.length = 4 ∧ IsInt pdu.trapType ∧ IsInt pdu.specificType ∧
        pdu.time < 2 ^ 32 ∧
        pdu = { SnmpPdu.create pdu.command with
          enterprise := pdu.enterprise, agentAddr := pdu.agentAddr, trapType := pdu.trapType
          specificType := pdu.specificType, time := pdu.time }

theorem int_writes (type : Byte) (v : ℤ) : Writes maxSnmpPacket (asnBuildInt type v) (tlv type (intContent v)) :=
  writes_of_eq_put (asnBuildInt_eq type v)

theorem data_writes {pdu : SnmpPdu} (h : PduEncodable pdu) :
    Writes maxSnmpPacket (buildData pdu) (dataFields pdu) := by
  obtain ⟨-, h⟩ := h
  unfold buildData dataFields
  split
  · exact (int_writes _ _).andThen ((int_writes _ _).andThen (int_writes _ _))
  · rename_i htrap
    rw [if_neg htrap] at h
    have hobjid := writes_of_eq_put (m := maxSnmpPacket) (asnBuildObjid_eq asnObjectId h.1.numbers_lt)
    have htime := writes_of_eq_put (m := maxSnmpPacket) (asnBuildUnsignedInt_eq smiTimeTicks pdu.time)
    exact hobjid.andThen ((string_writes _ _).andThen ((int_writes _ _).andThen ((int_writes _ _).andThen htime)))

/-- The length that `snmp_auth_build` puts into the header of the message. -/
def messageLength (community : List Byte) (pdu : SnmpPdu) (vars : List (Oid × RawValue)) : ℕ :=
  (dataTlv pdu vars).length + community.length + 5

/-- What `snmp_build` makes. -/
def message (version : ℤ) (community : List Byte) (pdu : SnmpPdu) (vars : List (Oid × RawValue)) : List Byte :=
  asnSeqCon :: (lengthOctets (messageLength community pdu vars) ++ messageContent version community pdu vars)

theorem auth_writes (version : ℤ) (community : List Byte) {messagelen : ℕ} (hmessage : messagelen ≤ maxSnmpPacket) :
    Writes maxSnmpPacket (snmpAuthBuild version community messagelen)
      (asnSeqCon :: lengthOctets (messagelen + community.length + 5) ++
        (tlv asnInteger (intContent version) ++ tlv asnOctetStr community)) := by
  have hbody := (int_writes asnInteger version).andThen (string_writes asnOctetStr community)
  by_cases hlength : messagelen + community.length + 5 < 2 ^ 32
  · exact (writes_of_eq_put (asnBuildSequence_eq asnSeqCon hlength)).andThen hbody
  · -- no such community fits
    intro room hroom
    unfold maxSnmpPacket at hmessage hroom
    rw [put_of_lt (by rw [List.length_append, List.length_append, length_tlv asnOctetStr]; omega)]
    refine Option.eq_none_iff_forall_ne_some.mpr fun x hx => ?_
    obtain ⟨⟨header, left⟩, hheader, hx⟩ := Option.bind_eq_some_iff.mp hx
    obtain ⟨body, hbodyWritten, -⟩ := Option.bind_eq_some_iff.mp hx
    unfold asnBuildSequence at hheader
    split at hheader
    · cases hheader
    have hless := asnBuildHeader_less hheader
    rw [hbody left (by unfold maxSnmpPacket; omega)] at hbodyWritten
    have hfits := (put_eq_some_iff.mp hbodyWritten).1
    rw [List.length_append, length_tlv asnOctetStr] at hfits
    omega

theorem dataPdu_writes {pdu : SnmpPdu} (h : PduEncodable pdu) {vars : List (Oid × RawValue)} :
    Writes maxSnmpPacket (buildDataPdu pdu (varsTlv vars)) (dataTlv pdu vars) := by
  intro room hroom
  have hlength : (dataTlv pdu vars).length = 1 + (lengthOctets (dataFields pdu ++ varsTlv vars).length).length +
      (dataFields pdu ++ varsTlv vars).length := length_tlv _ _
  rw [List.length_append] at hlength
  unfold buildDataPdu
  rw [data_writes h _ le_rfl]
  rcases Nat.lt_or_ge maxSnmpPacket (dataFields pdu).length with hlt | hle
  · rw [put_of_lt hlt, put_of_lt (by omega)]
    rfl
  rw [put_of_le hle]
  simp only [Option.bind_eq_bind, Option.bind_some]
  split
  · rw [put_of_lt (by omega)]
  rw [← List.length_append, asnBuildHeader_eq _ (by rw [List.length_append]; unfold maxSnmpPacket at *; omega),
    put_andThen, List.cons_append]
  rfl

/-- A message is built exactly if it fits. -/
theorem snmpBuild_eq {pdu : SnmpPdu} (hpdu : PduEncodable pdu) {vars : List (Oid × RawValue)}
    (hvars : ∀ var ∈ vars, VarEncodable var) {outLength : ℕ} (hout : outLength ≤ maxSnmpPacket) (version : ℤ)
    (community : List Byte) :
    snmpBuild pdu vars outLength version community =
      if (message version community pdu vars).length ≤ outLength then some (message version community pdu vars)
      else none := by
  have hdata : (varsTlv vars).length < (dataTlv pdu vars).length := by
    rw [dataTlv, length_tlv, List.length_append]
    omega
  have hmessage : (message version community pdu vars).length =
      1 + (lengthOctets (messageLength community pdu vars)).length + (tlv asnInteger (intContent version)).length +
        (tlv asnOctetStr community).length + (dataTlv pdu vars).length := by
    rw [message, messageContent, List.length_cons, List.length_append, List.length_append, List.length_append]
    omega
  unfold snmpBuild
  rw [vb_writes hvars _ hout]
  rcases Nat.lt_or_ge outLength (varsTlv vars).length with hlt | hle
  · rw [put_of_lt hlt, if_neg (by omega)]
    rfl
  rw [put_of_le hle]
  simp only [Option.bind_eq_bind, Option.bind_some]
  split
  · rw [if_neg (by omega)]
  rw [dataPdu_writes hpdu _ le_rfl]
  rcases Nat.lt_or_ge maxSnmpPacket (dataTlv pdu vars).length with hlt | hfits
  · rw [put_of_lt hlt, if_neg (by omega)]
    rfl
  rw [put_of_le hfits]
  simp only [Option.bind_some]
  split
  · rw [if_neg (by omega)]
  rw [auth_writes version community hfits _ hout]
  have hheader : (asnSeqCon :: lengthOctets ((dataTlv pdu vars).length + community.length + 5) ++
      (tlv asnInteger (intContent version) ++ tlv asnOctetStr community)).length + (dataTlv pdu vars).length =
      (message version community pdu vars).length := by
    rw [hmessage, List.length_append, List.length_append, List.length_cons, messageLength]
    omega
  rcases Nat.lt_or_ge outLength (asnSeqCon :: lengthOctets ((dataTlv pdu vars).length + community.length + 5) ++
      (tlv asnInteger (intContent version) ++ tlv asnOctetStr community)).length with hlt | hput
  · rw [put_of_lt hlt, if_neg (by omega)]
    rfl
  rw [put_of_le hput]
  simp only [Option.bind_some]
  split
  · rw [if_neg (by omega)]
  · rw [if_pos (by omega), message, messageContent, messageLength]
    simp only [List.cons_append, List.append_assoc]

/-! ## What is read -/

theorem intContent_version {version : ℤ} (h : version = 0 ∨ version = 1) : (tlv asnInteger (intContent version)).length = 3 := by
  rcases h with rfl | rfl <;> decide

theorem isLong_version {version : ℤ} (h : version = 0 ∨ version = 1) : IsLong version := by
  unfold IsLong
  omega

theorem length_lengthOctets_short {length : ℕ} (h : length < 128) : (lengthOctets length).length = 1 := by
  rw [lengthOctets, if_pos h, length_octetsOf]

theorem length_lengthOctets_long {length : ℕ} (h : 128 ≤ length) (hlt : length < 65536) :
    2 ≤ (lengthOctets length).length ∧ (lengthOctets length).length ≤ 3 ∧
      (length < 256 → (lengthOctets length).length = 2) := by
  have hlog : Nat.log 256 length < 2 := Nat.log_lt_of_lt_pow (by omega) (by omega)
  rw [lengthOctets, if_neg (by omega), List.length_cons, length_octetsOf]
  refine ⟨by omega, by omega, fun hbyte => ?_⟩
  rw [Nat.log_eq_zero_iff.mpr (Or.inl hbyte)]

theorem IsInt.toInt32 {v : ℤ} (h : IsInt v) : toInt32 v = v := by
  obtain ⟨hlow, hhigh⟩ := h
  rw [Ber.toInt32, BitVec.toInt_ofInt]
  exact Int.bmod_eq_of_le (by omega) (by omega)

theorem IsInt.isLong {v : ℤ} (h : IsInt v) : IsLong v := by
  obtain ⟨hlow, hhigh⟩ := h
  unfold IsLong
  omega

/-- The fields are read in the order they were written in. -/
theorem snmpParseDataPdu_dataTlv {pdu : SnmpPdu} (h : PduEncodable pdu) {vars : List (Oid × RawValue)}
    (hsize : (dataFields pdu ++ varsTlv vars).length ≤ maxLength) (rest : List Byte) {n : ℕ}
    (hn : (dataTlv pdu vars).length ≤ n) :
    snmpParseDataPdu ⟨dataTlv pdu vars ++ rest, n⟩ = some (pdu, ⟨varsTlv vars ++ rest, (varsTlv vars).length⟩) := by
  obtain ⟨htype, h⟩ := h
  have hheader := asnParseHeader_tlv htype hsize rest hn
  have hint : ∀ {v : ℤ}, IsLong v → Reads asnParseInt (tlv asnInteger (intContent v)) (asnInteger, v) :=
    fun hv => asnParseInt_reads (by decide : asnInteger ∈ _) hv
  unfold snmpParseDataPdu
  rw [dataTlv, hheader]
  simp only [Option.bind_eq_bind, Option.bind_some]
  by_cases hcommand : pdu.command ≠ trpReqMsg
  · have hfields : dataFields pdu = tlv asnInteger (intContent pdu.reqid) ++
        (tlv asnInteger (intContent pdu.errstat) ++ tlv asnInteger (intContent pdu.errindex)) := if_pos hcommand
    rw [if_pos hcommand] at h ⊢
    obtain ⟨hreqid, herrstat, herrindex, hpdu⟩ := h
    rw [hfields]
    simp only [List.append_assoc, List.length_append]
    rw [hint hreqid _ _ (Nat.le_add_right _ _), Option.bind_some, Nat.add_sub_cancel_left]
    rw [hint herrstat _ _ (Nat.le_add_right _ _), Option.bind_some, Nat.add_sub_cancel_left]
    rw [hint herrindex _ _ (Nat.le_add_right _ _), Option.bind_some, Nat.add_sub_cancel_left, ← hpdu]
  · have hfields : dataFields pdu = tlv asnObjectId (oidContent pdu.enterprise) ++ (tlv smiIpAddress pdu.agentAddr ++
        (tlv asnInteger (intContent pdu.trapType) ++ (tlv asnInteger (intContent pdu.specificType) ++
          tlv smiTimeTicks (unsignedContent pdu.time)))) := if_neg hcommand
    rw [if_neg hcommand] at h ⊢
    obtain ⟨henterprise, haddr, htrapType, hspecific, htime, hpdu⟩ := h
    have hobjid := asnParseObjid_reads henterprise.numbers.1
    have hstring := asnParseString_reads (by decide : smiIpAddress ∈ _) haddr.le (by rw [haddr]; decide)
    have hunsigned := asnParseUnsignedInt_reads (by decide : smiTimeTicks ∈ _) pdu.time
    rw [hfields]
    simp only [List.append_assoc, List.length_append, show asnMaxNameLen = maxOidLen from rfl]
    rw [hobjid _ _ (Nat.le_add_right _ _), Option.bind_some, Nat.add_sub_cancel_left]
    rw [hstring _ _ (Nat.le_add_right _ _), Option.bind_some, Nat.add_sub_cancel_left]
    rw [hint htrapType.isLong _ _ (Nat.le_add_right _ _), Option.bind_some, Nat.add_sub_cancel_left]
    rw [hint hspecific.isLong _ _ (Nat.le_add_right _ _), Option.bind_some, Nat.add_sub_cancel_left]
    rw [hunsigned _ _ (Nat.le_add_right _ _), Option.bind_some, Nat.add_sub_cancel_left]
    rw [henterprise.numbers.2, haddr, Nat.sub_self, List.replicate_zero, List.append_nil, htrapType.toInt32,
      hspecific.toInt32, Nat.mod_eq_of_lt htime, ← hpdu]

theorem snmpParseDataPdu_short {pdu : SnmpPdu} {vars : List (Oid × RawValue)}
    (hsize : (dataFields pdu ++ varsTlv vars).length ≤ maxLength) (rest : List Byte) {n : ℕ}
    (hn : n < (dataTlv pdu vars).length) : snmpParseDataPdu ⟨dataTlv pdu vars ++ rest, n⟩ = none := by
  unfold snmpParseDataPdu
  rw [dataTlv, asnParseHeader_short hsize rest hn]
  rfl

/-! ## Whole messages -/

/-- The lengths that the parser needs, out of one for the whole. -/
theorem sizes_of_message {version : ℤ} {community : List Byte} {pdu : SnmpPdu} {vars : List (Oid × RawValue)}
    (h : (messageContent version community pdu vars).length ≤ maxSnmpPacket) :
    community.length ≤ maxSnmpPacket ∧ (dataTlv pdu vars).length ≤ maxSnmpPacket ∧
      (dataFields pdu ++ varsTlv vars).length ≤ maxSnmpPacket ∧ (vars.map varOpTlv).flatten.length ≤ maxSnmpPacket ∧
      ∀ var ∈ vars, (varOpContent var.1 var.2).length ≤ maxSnmpPacket := by
  rw [messageContent, List.length_append, List.length_append, length_tlv asnOctetStr] at h
  have hdata : (dataTlv pdu vars).length = 1 + (lengthOctets (dataFields pdu ++ varsTlv vars).length).length +
      (dataFields pdu ++ varsTlv vars).length := length_tlv _ _
  have hvars : (varsTlv vars).length = 1 + (lengthOctets (vars.map varOpTlv).flatten.length).length +
      (vars.map varOpTlv).flatten.length := length_tlv _ _
  have happend : (dataFields pdu ++ varsTlv vars).length = (dataFields pdu).length + (varsTlv vars).length :=
    List.length_append
  refine ⟨by omega, by omega, by omega, by omega, fun var hvar => ?_⟩
  have hone : (varOpTlv var).length ≤ (vars.map varOpTlv).flatten.length :=
    (List.sublist_flatten_of_mem (List.mem_map_of_mem hvar)).length_le
  rw [varOpTlv, length_tlv] at hone
  omega

/-- A community of more than 127 octets makes the length of the message one too small. -/
theorem snmpParse_long {version : ℤ} (hversion : version = 0 ∨ version = 1) {community : List Byte}
    (hcommunity : 128 ≤ community.length) {pdu : SnmpPdu} {vars : List (Oid × RawValue)}
    (hsize : (messageContent version community pdu vars).length ≤ maxSnmpPacket) (rest : List Byte) {n : ℕ}
    (hn : (message version community pdu vars).length ≤ n) :
    snmpParse (message version community pdu vars ++ rest) n = none := by
  rw [message, List.length_cons, List.length_append] at hn
  unfold message
  obtain ⟨hcommunitySize, hdataSize, hfields, -, -⟩ := sizes_of_message hsize
  obtain ⟨htwo, hthree, hbyte⟩ := length_lengthOctets_long hcommunity (by unfold maxSnmpPacket at hcommunitySize; omega)
  have hdata : 2 ≤ (dataTlv pdu vars).length := by
    rw [dataTlv, length_tlv]
    have := List.length_pos_of_ne_nil (lengthOctets_ne_nil (dataFields pdu ++ varsTlv vars).length)
    omega
  have hcontent : (messageContent version community pdu vars).length =
      (dataTlv pdu vars).length + community.length + 4 + (lengthOctets community.length).length := by
    rw [messageContent, List.length_append, List.length_append, intContent_version hversion, length_tlv]
    omega
  have hL : messageLength community pdu vars = (dataTlv pdu vars).length + community.length + 5 := rfl
  generalize messageLength community pdu vars = L at hn hL ⊢
  -- the header promises only the beginning of what follows it
  have htake : ((messageContent version community pdu vars).take L).length = L := List.length_take_of_le (by omega)
  have hbytes : asnSeqCon :: (lengthOctets L ++ messageContent version community pdu vars) ++ rest =
      tlv asnSeqCon ((messageContent version community pdu vars).take L) ++
        ((messageContent version community pdu vars).drop L ++ rest) := by
    rw [tlv, htake, List.cons_append, List.cons_append, List.append_assoc, List.append_assoc,
      ← List.append_assoc (List.take L _), List.take_append_drop]
  have hheader := asnParseHeader_tlv (by decide : asnSeqCon &&& asnExtensionId ≠ asnExtensionId)
    (by rw [htake]; unfold maxSnmpPacket at hsize; unfold maxLength; omega)
    ((messageContent version community pdu vars).drop L ++ rest)
    (by rw [length_tlv, htake]; omega : (tlv asnSeqCon ((messageContent version community pdu vars).take L)).length ≤ n)
  rw [← List.append_assoc (List.take L _), List.take_append_drop, htake] at hheader
  have hint := asnParseInt_reads (by decide : asnInteger ∈ _) (isLong_version hversion)
  rw [hbytes]
  unfold snmpParse snmpAuthParse
  rw [hheader]
  simp only [Option.bind_eq_bind, Option.bind_some, ne_eq, not_true_eq_false, if_false]
  rw [messageContent, List.append_assoc, List.append_assoc,
    hint _ _ (by rw [intContent_version hversion]; omega), Option.bind_some, intContent_version hversion]
  by_cases hfits : community.length ≤ maxLenCommunity + 1
  · have hstring := asnParseString_reads (by decide : asnOctetStr ∈ _) hfits
      (by unfold maxSnmpPacket at hcommunitySize; unfold maxLength; omega)
    have hleft : L - 3 - (tlv asnOctetStr community).length < (dataTlv pdu vars).length := by
      rw [length_tlv, hbyte (by unfold maxLenCommunity at hfits; omega)]
      omega
    have hshort := snmpParseDataPdu_short (hfields.trans (by decide)) rest hleft
    rw [hstring _ _ (by rw [length_tlv]; omega), Option.bind_some, Option.bind_some]
    simp only [hshort, Option.bind_none, ite_self]
  · have hparse := asnParseContent_tlv (by decide : asnOctetStr ∈ [asnOctetStr, 0x24, smiIpAddress, smiOpaque, smiNsap])
      (by unfold maxSnmpPacket at hcommunitySize; unfold maxLength; omega) (dataTlv pdu vars ++ rest)
      (by rw [length_tlv]; omega : (tlv asnOctetStr community).length ≤ L - 3)
    unfold asnParseString
    rw [hparse]
    simp only [Option.bind_eq_bind, Option.bind_some, if_pos (not_le.mp hfits), Option.bind_none]

theorem snmpParse_message {pdu : SnmpPdu} (hpdu : PduEncodable pdu) {vars : List (Oid × RawValue)}
    (hvars : ∀ var ∈ vars, VarEncodable var) {version : ℤ} (hversion : version = 0 ∨ version = 1) {community : List Byte}
    (hlength : (message version community pdu vars).length ≤ maxSnmpPacket) (rest : List Byte) :
    snmpParse (message version community pdu vars ++ rest) (message version community pdu vars).length =
      if community.length ≤ 127 then some ⟨version, community, pdu, vars.map fun var => (var.1, some var.2)⟩
      else none := by
  have hsize : (messageContent version community pdu vars).length ≤ maxSnmpPacket := by
    rw [message, List.length_cons, List.length_append] at hlength
    omega
  split
  · rename_i hshort
    obtain ⟨-, -, hfields, hflat, heach⟩ := sizes_of_message hsize
    have hcontent : (dataTlv pdu vars).length + community.length + 5 = (messageContent version community pdu vars).length := by
      rw [messageContent, List.length_append, List.length_append, intContent_version hversion, length_tlv,
        length_lengthOctets_short (by omega)]
      omega
    have hmessage : message version community pdu vars = tlv asnSeqCon (messageContent version community pdu vars) := by
      rw [message, messageLength, hcontent, tlv]
    have hheader := asnParseHeader_tlv (by decide : asnSeqCon &&& asnExtensionId ≠ asnExtensionId)
      (hsize.trans (by decide)) rest (le_refl (tlv asnSeqCon (messageContent version community pdu vars)).length)
    have hint := asnParseInt_reads (by decide : asnInteger ∈ _) (isLong_version hversion)
    have hstring := asnParseString_reads (by decide : asnOctetStr ∈ _)
      (by unfold maxLenCommunity; omega : community.length ≤ maxLenCommunity + 1) (by unfold maxLength; omega)
    have hdata := snmpParseDataPdu_dataTlv hpdu (hfields.trans (by decide)) rest le_rfl
    have hvb := snmpParseVb_varsTlv hvars heach (hflat.trans (by decide)) rest le_rfl
    rw [hmessage]
    unfold snmpParse snmpAuthParse
    rw [hheader]
    simp only [Option.bind_eq_bind, Option.bind_some, ne_eq, not_true_eq_false, if_false]
    rw [messageContent]
    simp only [List.append_assoc, List.length_append]
    rw [hint _ _ (Nat.le_add_right _ _), Option.bind_some, Nat.add_sub_cancel_left]
    rw [hstring _ _ (Nat.le_add_right _ _), Option.bind_some, Nat.add_sub_cancel_left]
    rw [Option.bind_some, if_neg (by dsimp only; omega), hdata, Option.bind_some, hvb, Option.bind_some]
  · exact snmpParse_long hversion (by omega) hsize rest le_rfl

theorem built_message {pdu : SnmpPdu} (hpdu : PduEncodable pdu) {vars : List (Oid × RawValue)}
    (hvars : ∀ var ∈ vars, VarEncodable var) {outLength : ℕ} (hout : outLength ≤ maxSnmpPacket) {version : ℤ}
    {community bytes : List Byte} (h : snmpBuild pdu vars outLength version community = some bytes) :
    bytes = message version community pdu vars ∧ (message version community pdu vars).length ≤ maxSnmpPacket := by
  rw [snmpBuild_eq hpdu hvars hout] at h
  split at h
  · rename_i hlength
    cases h
    exact ⟨rfl, hlength.trans hout⟩
  · cases h

/-- `snmp_build` makes every message that fits, and what it makes is read back by `snmp_parse` where the community
is short enough, and refused where it is not. -/
theorem snmp_round_trip {pdu : SnmpPdu} (hpdu : PduEncodable pdu) {vars : List (Oid × RawValue)}
    (hvars : ∀ var ∈ vars, VarEncodable var) {outLength : ℕ} (hout : outLength ≤ maxSnmpPacket) {version : ℤ}
    (hversion : version = 0 ∨ version = 1) (community rest : List Byte) :
    ((snmpBuild pdu vars outLength version community).isSome ↔
      (message version community pdu vars).length ≤ outLength) ∧
    ∀ bytes, snmpBuild pdu vars outLength version community = some bytes →
      snmpParse (bytes ++ rest) bytes.length =
        if community.length ≤ 127 then some ⟨version, community, pdu, vars.map fun var => (var.1, some var.2)⟩
        else none := by
  constructor
  · rw [snmpBuild_eq hpdu hvars hout]
    split
    · rename_i hlength
      exact iff_of_true rfl hlength
    · rename_i hlength
      exact iff_of_false (by simp) hlength
  · intro bytes h
    obtain ⟨rfl, hlength⟩ := built_message hpdu hvars hout h
    exact snmpParse_message hpdu hvars hversion hlength rest

/-- A get request for one variable. -/
def getUpTime : SnmpPdu := { SnmpPdu.create 0xA0 with reqid := 7 }

def getUpTimeVars : List (Oid × RawValue) := [([1, 3, 6, 1, 2, 1, 1, 3, 0], .null)]

/-- It as an SNMPv1 message of the community "public". -/
def getUpTimeBytes : List Byte :=
  [0x30, 0x26, 0x02, 0x01, 0x00, 0x04, 0x06, 0x70, 0x75, 0x62, 0x6C, 0x69, 0x63, 0xA0, 0x19, 0x02, 0x01, 0x07, 0x02,
    0x01, 0x00, 0x02, 0x01, 0x00, 0x30, 0x0E, 0x30, 0x0C, 0x06, 0x08, 0x2B, 0x06, 0x01, 0x02, 0x01, 0x01, 0x03, 0x00,
    0x05, 0x00]

theorem getUpTime_build :
    snmpBuild getUpTime getUpTimeVars 4096 0 [0x70, 0x75, 0x62, 0x6C, 0x69, 0x63] = some getUpTimeBytes := by
  decide +kernel

theorem snmp_round_trip_sample :
    snmpParse (getUpTimeBytes ++ [0x01]) 40 =
      some ⟨0, [0x70, 0x75, 0x62, 0x6C, 0x69, 0x63], getUpTime, [([1, 3, 6, 1, 2, 1, 1, 3, 0], some .null)]⟩ := by
  have hpdu : PduEncodable getUpTime := ⟨by decide, ⟨by decide, by decide⟩, ⟨by decide, by decide⟩,
    ⟨by decide, by decide⟩, rfl⟩
  have hvars : ∀ var ∈ getUpTimeVars, VarEncodable var := by
    intro var hvar
    rw [List.mem_singleton.mp hvar]
    exact ⟨by decide, trivial⟩
  have hround := snmp_round_trip hpdu hvars (le_refl maxSnmpPacket) (Or.inl rfl) [0x70, 0x75, 0x62, 0x6C, 0x69, 0x63] [0x01]
  exact hround.2 getUpTimeBytes getUpTime_build

end SnmpB.Ber
