import SnmpB.Ber.Message

/-! # What is accepted

The loop over the variables takes something with every turn. What is accepted has a form on
the wire, but for the object identifier "0", which is written as "0.0".
-/
namespace SnmpB.Ber
open Framing Octets Agent

/-! ## Every turn takes something -/

theorem asnParseLength_shortens {data rest : List Byte} {length : ℕ} (h : asnParseLength data = some (length, rest)) :
    rest.length < data.length := by
  cases data with
  | nil => cases h
  | cons lengthbyte data =>
    rw [asnParseLength] at h
    rw [List.length_cons]
    split at h
    · dsimp only at h
      split at h
      · cases h
      · split at h
        · cases h
        · obtain ⟨⟨bytes, data'⟩, htake, hrest⟩ := Option.bind_eq_some_iff.mp h
          rw [(takeBytes_length htake).2, List.length_append]
          dsimp only at hrest
          split at hrest
          · cases hrest
          · cases hrest
            omega
    · cases h
      omega

theorem asnParseHeader_shortens {c c' : Cursor} {type : Byte} (h : asnParseHeader c = some (type, c')) :
    c'.data.length < c.data.length := by
  unfold asnParseHeader at h
  split at h
  · cases h
  · rename_i type' data hdata
    split at h
    · cases h
    · obtain ⟨⟨asnLength, bufp⟩, hlength, h⟩ := Option.bind_eq_some_iff.mp h
      dsimp only at h
      split at h
      · cases h
      · cases h
        rw [hdata, List.length_cons]
        exact (asnParseLength_shortens hlength).trans (Nat.lt_succ_self _)

theorem asnParseContent_shortens {types : List Byte} {c c' : Cursor} {x : Byte × ℕ}
    (h : asnParseContent types c = some (x, c')) : c'.data.length < c.data.length := by
  unfold asnParseContent at h
  split at h
  · cases h
  · rename_i type' data hdata
    split at h
    · cases h
    · obtain ⟨⟨asnLength, bufp⟩, hlength, h⟩ := Option.bind_eq_some_iff.mp h
      dsimp only at h
      split at h
      · cases h
      · cases h
        rw [hdata, List.length_cons]
        exact (asnParseLength_shortens hlength).trans (Nat.lt_succ_self _)

theorem asnParseSubid_shortens {bufp rest : List Byte} {acc subid taken : ℕ}
    (h : asnParseSubid acc bufp = some (subid, taken, rest)) : rest.length ≤ bufp.length := by
  induction bufp generalizing acc taken with
  | nil => cases h
  | cons b bufp ih =>
    rw [asnParseSubid] at h
    dsimp only at h
    split at h
    · obtain ⟨⟨subid', taken', rest'⟩, hrest, heq⟩ := Option.map_eq_some_iff.mp h
      cases heq
      exact (ih hrest).trans (Nat.le_succ _)
    · cases h
      exact Nat.le_succ _

theorem asnParseSubids_shortens {objidlength length : ℕ} {bufp rest : List Byte} {subids : List ℕ}
    (h : asnParseSubids objidlength length bufp = some (subids, rest)) : rest.length ≤ bufp.length := by
  induction objidlength generalizing length bufp subids with
  | zero =>
    cases h
    exact le_rfl
  | succ objidlength ih =>
    cases length with
    | zero =>
      cases h
      exact le_rfl
    | succ length =>
      rw [asnParseSubids] at h
      obtain ⟨⟨n, taken, bufp'⟩, hsubid, h⟩ := Option.bind_eq_some_iff.mp h
      dsimp only at h
      split at h
      · cases h
      · obtain ⟨⟨others, rest'⟩, hothers, h⟩ := Option.bind_eq_some_iff.mp h
        cases h
        exact (ih hothers).trans (asnParseSubid_shortens hsubid)

theorem asnParseObjid_shortens {objidlength : ℕ} {c c' : Cursor} {x : Byte × Oid}
    (h : asnParseObjid objidlength c = some (x, c')) : c'.data.length < c.data.length := by
  obtain ⟨⟨⟨type', asnLength⟩, c₁⟩, hcontent, h⟩ := Option.bind_eq_some_iff.mp h
  obtain ⟨⟨subids, bufp⟩, hsubids, h⟩ := Option.bind_eq_some_iff.mp h
  cases h
  exact (asnParseSubids_shortens hsubids).trans_lt (asnParseContent_shortens hcontent)

/-- What `snmp_parse_var_op` takes: the header of the sequence at least. -/
theorem snmpParseVarOp_spec {c c' : Cursor} {op : VarOp} (h : snmpParseVarOp c = some (op, c')) :
    c'.valid < c.valid ∧ ∃ type c₁ c₂, asnParseObjid asnMaxNameLen c₁ = some ((type, op.name), c₂) := by
  obtain ⟨⟨type, c₁⟩, hsequence, h⟩ := Option.bind_eq_some_iff.mp h
  dsimp only at h
  split at h
  · cases h
  · obtain ⟨⟨⟨type', name⟩, c₂⟩, hname, h⟩ := Option.bind_eq_some_iff.mp h
    obtain ⟨⟨valType, val⟩, hval, h⟩ := Option.bind_eq_some_iff.mp h
    dsimp only at h
    split at h
    · cases h
    · cases h
      have hlength := (asnParseHeader_shortens hval).trans ((asnParseObjid_shortens hname).trans
        (asnParseHeader_shortens hsequence))
      dsimp only at hlength ⊢
      exact ⟨by omega, type', c₁, c₂, hname⟩

theorem parseVariable_consumes : Consumes parseVariable := by
  intro c a c' h
  obtain ⟨⟨op, c₁⟩, hop, h⟩ := Option.bind_eq_some_iff.mp h
  obtain ⟨value, -, h⟩ := Option.bind_eq_some_iff.mp h
  cases h
  exact (snmpParseVarOp_spec hop).1

/-- The loop of `snmp_parse_vb` ends by itself: more turns make no difference. -/
theorem snmpParseVb_loop {c : Cursor} {fuel : ℕ} (h : c.valid ≤ fuel) :
    many parseVariable fuel c = many parseVariable c.valid c := many_fuel parseVariable_consumes h

/-! ## What the values can be -/

/-- The OID as it is written: with less than two numbers it is "0.0". -/
def writtenOid (objid : Oid) : Oid := if objid.length < 2 then [0, 0] else objid

theorem writtenOid_of_long {objid : Oid} (h : 2 ≤ objid.length) : writtenOid objid = objid := if_neg (by omega)

theorem OidEncodable.long {objid : Oid} (h : OidEncodable objid) : 2 ≤ objid.length := by
  match objid, h with
  | first :: second :: rest, _ => simp

theorem oidNumbers_writtenOid (objid : Oid) : oidNumbers (writtenOid objid) = oidNumbers objid := by
  unfold writtenOid
  split
  · rename_i hshort
    match objid, hshort with
    | [], _ => rfl
    | [_], _ => rfl
  · rfl

theorem asnParseObjid_written {c c' : Cursor} {type : Byte} {objid : Oid}
    (h : asnParseObjid maxOidLen c = some ((type, objid), c')) : OidEncodable (writtenOid objid) := by
  obtain ⟨⟨⟨type', asnLength⟩, c₁⟩, -, h⟩ := Option.bind_eq_some_iff.mp h
  obtain ⟨⟨subids, bufp⟩, hsubids, h⟩ := Option.bind_eq_some_iff.mp h
  cases h
  obtain ⟨hlength, hbound⟩ := asnParseSubids_bounds hsubids
  cases subids with
  | nil => decide
  | cons first rest =>
    obtain ⟨hfirst, hrest⟩ := List.forall_mem_cons.mp hbound
    obtain ⟨x, y, hxy⟩ := List.length_eq_two.mp (length_firstSubids first)
    obtain ⟨hsum, hroot⟩ := firstSubids_eq_iff.mp hxy
    rw [List.length_cons] at hlength
    rw [oidOf, hxy, writtenOid_of_long (by simp), List.cons_append, List.cons_append, List.nil_append]
    exact ⟨by omega, hroot, hsum ▸ hfirst, hrest⟩

theorem asnParseInt_bounds {c c' : Cursor} {type : Byte} {v : ℤ} (h : asnParseInt c = some ((type, v), c')) :
    IsLong v := by
  obtain ⟨⟨⟨type', asnLength⟩, c₁⟩, -, h⟩ := Option.bind_eq_some_iff.mp h
  dsimp only at h
  split at h
  · cases h
  · obtain ⟨first, -, h⟩ := Option.bind_eq_some_iff.mp h
    obtain ⟨⟨bytes, rest⟩, -, h⟩ := Option.bind_eq_some_iff.mp h
    cases h
    exact ⟨BitVec.le_toInt _, BitVec.toInt_lt⟩

theorem asnParseUnsignedInt_bounds {c c' : Cursor} {type : Byte} {n : ℕ}
    (h : asnParseUnsignedInt c = some ((type, n), c')) : n < 2 ^ 32 := by
  obtain ⟨⟨⟨type', asnLength⟩, c₁⟩, -, h⟩ := Option.bind_eq_some_iff.mp h
  obtain ⟨first, -, h⟩ := Option.bind_eq_some_iff.mp h
  dsimp only at h
  split at h
  · cases h
  · rename_i hshort
    obtain ⟨⟨bytes, rest⟩, htake, h⟩ := Option.bind_eq_some_iff.mp h
    cases h
    have hlength : bytes.length ≤ 4 := by
      rw [(takeBytes_length htake).1]
      split
      · dsimp only
        omega
      · rename_i hfirst
        dsimp only
        by_contra hlong
        exact hshort (Or.inr ⟨by omega, hfirst⟩)
    calc _ = value 0 bytes := foldl_shift_eq_value bytes 0
      _ < (0 + 1) * 256 ^ bytes.length := value_lt bytes 0
      _ ≤ 256 ^ 4 := by
        rw [Nat.zero_add, Nat.one_mul]
        exact Nat.pow_le_pow_right (by decide) hlength
      _ = 2 ^ 32 := by decide

theorem asnParseString_bounds {strlength : ℕ} {c c' : Cursor} {type : Byte} {string : List Byte}
    (h : asnParseString strlength c = some ((type, string), c')) : string.length ≤ strlength := by
  obtain ⟨⟨⟨type', asnLength⟩, c₁⟩, -, h⟩ := Option.bind_eq_some_iff.mp h
  dsimp only at h
  split at h
  · cases h
  · rename_i hfits
    obtain ⟨⟨bytes, rest⟩, htake, h⟩ := Option.bind_eq_some_iff.mp h
    cases h
    rw [(takeBytes_length htake).1]
    exact not_lt.mp hfits

theorem asnParseHeader_type {c c' : Cursor} {type : Byte} (h : asnParseHeader c = some (type, c')) :
    type &&& asnExtensionId ≠ asnExtensionId := by
  unfold asnParseHeader at h
  split at h
  · cases h
  · split at h
    · cases h
    · rename_i hextension
      obtain ⟨⟨asnLength, bufp⟩, -, h⟩ := Option.bind_eq_some_iff.mp h
      dsimp only at h
      split at h
      · cases h
      · cases h
        exact hextension

/-- A value as it is written. -/
def writtenValue : RawValue → RawValue
  | .objectId v => .objectId (writtenOid v)
  | value => value

theorem parseValue_written {op : VarOp} {value : RawValue} (h : parseValue op = some (some value)) :
    ValueEncodable (writtenValue value) := by
  have hunsigned : ∀ {make : ℕ → RawValue} {c : Cursor},
      some ((asnParseUnsignedInt c).map fun x => make x.1.2) = some (some value) → ∃ n < 2 ^ 32, make n = value := by
    intro make c hmake
    obtain ⟨⟨⟨type, n⟩, c'⟩, hparse, heq⟩ := Option.map_eq_some_iff.mp (Option.some.inj hmake)
    exact ⟨n, asnParseUnsignedInt_bounds hparse, heq⟩
  have hstring : ∀ {make : List ℕ → RawValue} {c : Cursor}, some ((asnParseString op.valLen c).map fun x =>
      make (x.1.2.map BitVec.toNat)) = some (some value) → ∃ bytes, (∀ b ∈ bytes, b < 256) ∧ make bytes = value := by
    intro make c hmake
    obtain ⟨⟨⟨type, bytes⟩, c'⟩, -, heq⟩ := Option.map_eq_some_iff.mp (Option.some.inj hmake)
    refine ⟨bytes.map BitVec.toNat, fun b hb => ?_, heq⟩
    obtain ⟨byte, -, rfl⟩ := List.mem_map.mp hb
    exact byte.isLt
  have hconst : ∀ {v : RawValue}, some (some v) = some (some value) → v = value :=
    fun hv => Option.some.inj (Option.some.inj hv)
  unfold parseValue at h
  dsimp only at h
  by_cases htype : op.valType = asnInteger
  · rw [if_pos htype] at h
    obtain ⟨⟨⟨type, v⟩, c'⟩, hparse, rfl⟩ := Option.map_eq_some_iff.mp (Option.some.inj h)
    exact asnParseInt_bounds hparse
  rw [if_neg htype] at h
  by_cases htype : op.valType = smiCounter
  · rw [if_pos htype] at h
    obtain ⟨n, hn, rfl⟩ := hunsigned h
    exact hn
  rw [if_neg htype] at h
  by_cases htype : op.valType = smiGauge
  · rw [if_pos htype] at h
    obtain ⟨n, hn, rfl⟩ := hunsigned h
    exact hn
  rw [if_neg htype] at h
  by_cases htype : op.valType = smiTimeTicks
  · rw [if_pos htype] at h
    obtain ⟨n, hn, rfl⟩ := hunsigned h
    exact hn
  rw [if_neg htype] at h
  by_cases htype : op.valType = smiUInteger
  · rw [if_pos htype] at h
    obtain ⟨n, hn, rfl⟩ := hunsigned h
    exact hn
  rw [if_neg htype] at h
  by_cases htype : op.valType = smiCounter64
  · rw [if_pos htype] at h
    obtain ⟨⟨⟨type, counter⟩, c'⟩, -, rfl⟩ := Option.map_eq_some_iff.mp (Option.some.inj h)
    exact BitVec.isLt _
  rw [if_neg htype] at h
  by_cases htype : op.valType = asnOctetStr
  · rw [if_pos htype] at h
    obtain ⟨bytes, hbytes, rfl⟩ := hstring h
    exact hbytes
  rw [if_neg htype] at h
  by_cases htype : op.valType = smiIpAddress
  · rw [if_pos htype] at h
    obtain ⟨bytes, hbytes, rfl⟩ := hstring h
    exact hbytes
  rw [if_neg htype] at h
  by_cases htype : op.valType = smiOpaque
  · rw [if_pos htype] at h
    obtain ⟨bytes, hbytes, rfl⟩ := hstring h
    exact hbytes
  rw [if_neg htype] at h
  by_cases htype : op.valType = smiNsap
  · rw [if_pos htype] at h
    obtain ⟨bytes, hbytes, rfl⟩ := hstring h
    exact hbytes
  rw [if_neg htype] at h
  by_cases htype : op.valType = asnObjectId
  · rw [if_pos htype] at h
    obtain ⟨⟨⟨type, v⟩, c'⟩, hparse, rfl⟩ := Option.map_eq_some_iff.mp (Option.some.inj h)
    exact asnParseObjid_written hparse
  rw [if_neg htype] at h
  by_cases htype : op.valType = snmpNoSuchObject
  · rw [if_pos htype] at h
    rw [← hconst h]
    trivial
  rw [if_neg htype] at h
  by_cases htype : op.valType = snmpNoSuchInstance
  · rw [if_pos htype] at h
    rw [← hconst h]
    trivial
  rw [if_neg htype] at h
  by_cases htype : op.valType = snmpEndOfMibView
  · rw [if_pos htype] at h
    rw [← hconst h]
    trivial
  rw [if_neg htype] at h
  by_cases htype : op.valType = asnNull
  · rw [if_pos htype] at h
    rw [← hconst h]
    trivial
  rw [if_neg htype] at h
  cases h

/-! ## What the messages can be -/

def writtenPdu (pdu : SnmpPdu) : SnmpPdu :=
  { pdu with enterprise := if pdu.command = trpReqMsg then writtenOid pdu.enterprise else pdu.enterprise }

def writtenVar (var : Oid × RawValue) : Oid × RawValue := (writtenOid var.1, writtenValue var.2)

theorem isInt_toInt32 (v : ℤ) : IsInt (toInt32 v) := ⟨BitVec.le_toInt _, BitVec.toInt_lt⟩

theorem snmpParseDataPdu_written {c c' : Cursor} {pdu : SnmpPdu} (h : snmpParseDataPdu c = some (pdu, c')) :
    PduEncodable (writtenPdu pdu) := by
  obtain ⟨⟨command, c₁⟩, hheader, h⟩ := Option.bind_eq_some_iff.mp h
  have htype := asnParseHeader_type hheader
  dsimp only at h
  split at h
  · rename_i hcommand
    obtain ⟨⟨⟨t₁, reqid⟩, c₂⟩, hreqid, h⟩ := Option.bind_eq_some_iff.mp h
    obtain ⟨⟨⟨t₂, errstat⟩, c₃⟩, herrstat, h⟩ := Option.bind_eq_some_iff.mp h
    obtain ⟨⟨⟨t₃, errindex⟩, c₄⟩, herrindex, h⟩ := Option.bind_eq_some_iff.mp h
    cases h
    refine ⟨htype, ?_⟩
    rw [if_pos (by exact hcommand), writtenPdu, if_neg (by exact hcommand)]
    exact ⟨asnParseInt_bounds hreqid, asnParseInt_bounds herrstat, asnParseInt_bounds herrindex, rfl⟩
  · rename_i hcommand
    obtain ⟨⟨⟨t₁, enterprise⟩, c₂⟩, henterprise, h⟩ := Option.bind_eq_some_iff.mp h
    obtain ⟨⟨⟨t₂, addr⟩, c₃⟩, haddr, h⟩ := Option.bind_eq_some_iff.mp h
    obtain ⟨⟨⟨t₃, trapType⟩, c₄⟩, -, h⟩ := Option.bind_eq_some_iff.mp h
    obtain ⟨⟨⟨t₄, specificType⟩, c₅⟩, -, h⟩ := Option.bind_eq_some_iff.mp h
    obtain ⟨⟨⟨t₅, time⟩, c₆⟩, htime, h⟩ := Option.bind_eq_some_iff.mp h
    cases h
    have hfour : (addr ++ List.replicate (4 - addr.length) 0).length = 4 := by
      have hfits := asnParseString_bounds haddr
      rw [List.length_append, List.length_replicate]
      omega
    refine ⟨htype, ?_⟩
    rw [if_neg (by exact hcommand), writtenPdu, if_pos (by exact not_not.mp hcommand)]
    exact ⟨asnParseObjid_written henterprise, hfour, isInt_toInt32 _, isInt_toInt32 _,
      asnParseUnsignedInt_bounds htime, rfl⟩

/-- A variable that is accepted. -/
theorem parseVariable_written {c c' : Cursor} {var : Oid × Option RawValue} (h : parseVariable c = some (var, c')) :
    OidEncodable (writtenOid var.1) ∧ ∀ value, var.2 = some value → ValueEncodable (writtenValue value) := by
  obtain ⟨⟨op, c₁⟩, hop, h⟩ := Option.bind_eq_some_iff.mp h
  obtain ⟨value, hvalue, h⟩ := Option.bind_eq_some_iff.mp h
  cases h
  obtain ⟨-, type, c₂, c₃, hname⟩ := snmpParseVarOp_spec hop
  refine ⟨asnParseObjid_written hname, fun v hv => ?_⟩
  dsimp only at hv
  exact parseValue_written (hv ▸ hvalue)

/-- A message that is accepted has the version of SNMPv1 or SNMPv2c, a community that fits into its buffer, and
fields and variables that can be written. -/
structure Parsed.Accepted (m : Parsed) : Prop where
  version : m.version = 0 ∨ m.version = 1
  community : m.community.length ≤ maxLenCommunity + 1
  pdu : PduEncodable (writtenPdu m.pdu)
  names : ∀ var ∈ m.vars, OidEncodable (writtenOid var.1)
  values : ∀ var ∈ m.vars, ∀ value, var.2 = some value → ValueEncodable (writtenValue value)

theorem snmpParse_accepted {data : List Byte} {dataLength : ℕ} {m : Parsed} (h : snmpParse data dataLength = some m) :
    m.Accepted := by
  obtain ⟨⟨⟨version, community⟩, c₁⟩, hauth, h⟩ := Option.bind_eq_some_iff.mp h
  obtain ⟨⟨type, c₂⟩, -, hauth⟩ := Option.bind_eq_some_iff.mp hauth
  dsimp only at hauth
  split at hauth
  · cases hauth
  obtain ⟨⟨⟨t₁, version'⟩, c₃⟩, -, hauth⟩ := Option.bind_eq_some_iff.mp hauth
  obtain ⟨⟨⟨t₂, community'⟩, c₄⟩, hcommunity, hauth⟩ := Option.bind_eq_some_iff.mp hauth
  cases hauth
  dsimp only at h
  split at h
  · cases h
  rename_i hversion
  obtain ⟨⟨pdu, c₅⟩, hpdu, h⟩ := Option.bind_eq_some_iff.mp h
  obtain ⟨⟨vars, c₆⟩, hvars, h⟩ := Option.bind_eq_some_iff.mp h
  cases h
  obtain ⟨⟨type', c₇⟩, -, hvars⟩ := Option.bind_eq_some_iff.mp hvars
  dsimp only at hvars
  split at hvars
  · cases hvars
  have hall := many_forall (fun _ _ _ hvariable => parseVariable_written hvariable) hvars
  exact ⟨by dsimp only; omega, asnParseString_bounds hcommunity, snmpParseDataPdu_written hpdu,
    fun var hvar => (hall var hvar).1, fun var hvar => (hall var hvar).2⟩

/-! ## Accepted and built again -/

theorem asnBuildObjid_written (type : Byte) (objid : Oid) :
    asnBuildObjid type (writtenOid objid) = asnBuildObjid type objid := by
  unfold asnBuildObjid
  rw [oidNumbers_writtenOid]

theorem buildValue_written (value : RawValue) : buildValue (writtenValue value) = buildValue value := by
  cases value with
  | objectId v => exact asnBuildObjid_written asnObjectId v
  | _ => rfl

theorem buildVars_written (vars : List (Oid × RawValue)) : buildVars (vars.map writtenVar) = buildVars vars := by
  induction vars with
  | nil => rfl
  | cons var vars ih =>
    have hone : snmpBuildVarOp (writtenVar var).1 (writtenVar var).2 = snmpBuildVarOp var.1 var.2 := by
      unfold snmpBuildVarOp writtenVar
      dsimp only
      rw [asnBuildObjid_written, buildValue_written]
    rw [List.map_cons, buildVars, buildVars, hone, ih]

theorem buildDataPdu_written (pdu : SnmpPdu) : buildDataPdu (writtenPdu pdu) = buildDataPdu pdu := by
  have hdata : buildData (writtenPdu pdu) = buildData pdu := by
    unfold buildData writtenPdu
    by_cases hcommand : pdu.command ≠ trpReqMsg
    · rw [if_pos hcommand, if_pos hcommand]
    · rw [if_neg hcommand, if_neg hcommand, if_pos (not_not.mp hcommand), asnBuildObjid_written]
  funext vbBuf bufLen
  unfold buildDataPdu
  rw [hdata]
  rfl

theorem buildVb_written (vars : List (Oid × RawValue)) : buildVb (vars.map writtenVar) = buildVb vars := by
  funext bufLen
  unfold buildVb
  rw [buildVars_written]

/-- A message that was accepted and is built again comes back, with "0.0" for every "0". -/
theorem accepted_round_trip {data : List Byte} {dataLength : ℕ} {m : Parsed} (h : snmpParse data dataLength = some m)
    {vars : List (Oid × RawValue)} (hvars : m.vars = vars.map fun var => (var.1, some var.2)) {outLength : ℕ}
    (hout : outLength ≤ maxSnmpPacket) {bytes : List Byte}
    (hbuild : snmpBuild m.pdu vars outLength m.version m.community = some bytes) (rest : List Byte) :
    snmpParse (bytes ++ rest) bytes.length =
      if m.community.length ≤ 127 then
        some { m with pdu := writtenPdu m.pdu, vars := vars.map fun var => (writtenOid var.1, some (writtenValue var.2)) }
      else none := by
  have haccepted := snmpParse_accepted h
  have hencodable : ∀ var ∈ vars.map writtenVar, VarEncodable var := by
    intro written hwritten
    obtain ⟨var, hvar, rfl⟩ := List.mem_map.mp hwritten
    have hmem : (var.1, some var.2) ∈ m.vars := hvars ▸ List.mem_map_of_mem hvar
    exact ⟨haccepted.names _ hmem, haccepted.values _ hmem _ rfl⟩
  unfold snmpBuild at hbuild
  rw [← buildVb_written, ← buildDataPdu_written] at hbuild
  obtain ⟨rfl, hlength⟩ := built_message haccepted.pdu hencodable hout hbuild
  rw [snmpParse_message haccepted.pdu hencodable haccepted.version hlength rest, List.map_map]
  rfl

theorem accepted_round_trip_sample :
    snmpParse (getUpTimeBytes ++ []) 40 =
      some ⟨0, [0x70, 0x75, 0x62, 0x6C, 0x69, 0x63], getUpTime, [([1, 3, 6, 1, 2, 1, 1, 3, 0], some .null)]⟩ := by
  have hparse : snmpParse getUpTimeBytes 40 =
      some ⟨0, [0x70, 0x75, 0x62, 0x6C, 0x69, 0x63], getUpTime, getUpTimeVars.map fun var => (var.1, some var.2)⟩ := by
    decide +kernel
  exact accepted_round_trip hparse rfl le_rfl getUpTime_build []

end SnmpB.Ber
