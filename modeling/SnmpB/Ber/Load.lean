import SnmpB.Ber.Accepted

/-! # From PDUs to messages and back

`SnmpMessage::load` makes a message of SNMPv1 or SNMPv2c, `SnmpMessage::unload` a PDU of it.
The id of an SNMPv1 trap goes over the wire as a generic number, a specific number and an
enterprise; the time and the id of a notification as its first two variables.
-/
namespace SnmpB.Ber
open Framing Octets Agent

def snmpPduGet : Byte := 0xA0
def snmpPduGetNext : Byte := 0xA1
def snmpPduGetBulk : Byte := 0xA5
def snmpPduInform : Byte := 0xA6
def snmpPduTrap : Byte := 0xA7

def snmpTraps : Oid := [1, 3, 6, 1, 6, 3, 1, 1, 5]

def coldStart : Oid := snmpTraps ++ [1]
def warmStart : Oid := snmpTraps ++ [2]
def linkDown : Oid := snmpTraps ++ [3]
def linkUp : Oid := snmpTraps ++ [4]
def authenticationFailure : Oid := snmpTraps ++ [5]
def egpNeighborLoss : Oid := snmpTraps ++ [6]

/-- `Pdu`, with the members that messages of SNMPv1 and SNMPv2c carry; an address is its octets. -/
structure MessagePdu where
  type : Byte
  requestId : ℕ
  errorStatus : ℤ
  errorIndex : ℤ
  notifyTimestamp : ℕ
  notifyId : Oid
  notifyEnterprise : Oid
  v1TrapAddress : Option (List ℕ)
  vblist : List Vb
  validity : Bool
  deriving DecidableEq

namespace MessagePdu

/-- `Pdu::clear`. -/
def cleared : MessagePdu := ⟨0, 0, 0, 0, 0, [], [], none, [], true⟩

/-- `operator+=`: "dont add invalid Vbs". -/
def add (p : MessagePdu) (vb : Vb) : MessagePdu :=
  if vb.valid then { p with vblist := p.vblist ++ [vb], validity := true } else p

def isNotification (p : MessagePdu) : Prop := p.type = snmpPduTrap ∨ p.type = snmpPduInform

instance (p : MessagePdu) : Decidable p.isNotification := inferInstanceAs (Decidable (_ ∨ _))

end MessagePdu

/-! ## Loading -/

/-- "compute generic trap value": it, the specific value and the enterprise. -/
def trapFields (trapid notifyEnterprise : Oid) : ℤ × ℤ × Oid :=
  if trapid = coldStart then (0, 0, notifyEnterprise)
  else if trapid = warmStart then (1, 0, notifyEnterprise)
  else if trapid = linkDown then (2, 0, notifyEnterprise)
  else if trapid = linkUp then (3, 0, notifyEnterprise)
  else if trapid = authenticationFailure then (4, 0, notifyEnterprise)
  else if trapid = egpNeighborLoss then (5, 0, notifyEnterprise)
  else
    -- "last oid subid is the specific value, if 2nd to last subid is "0", remove it"
    let specific := toInt32 (trapid.getLastD 0)
    let trapid := trapid.dropLast
    (6, specific, if trapid.getLast? = some 0 then trapid.dropLast else trapid)

/-- `inet_addr` of the printable address; one of IPv6 is not understood. -/
def inetAddr (address : List ℕ) : List Byte :=
  if address.length = 4 then address.map uchar else List.replicate 4 0xFF

inductive LoadError
  | invalidPdu | invalidNotifyId | tooBig
  deriving DecidableEq

/-- "load it up" -/
def rawFields (p : MessagePdu) : SnmpPdu :=
  { SnmpPdu.create p.type with
    reqid := (BitVec.ofNat 64 p.requestId).toInt, errstat := p.errorStatus, errindex := p.errorIndex }

/-- "if its a V1 trap then load up other values"; `host` is the address of this machine where its name is known. -/
def rawTrap (host : Option (List ℕ)) (p : MessagePdu) (raw : SnmpPdu) : SnmpPdu :=
  let (trapType, specificType, enterprise) := trapFields p.notifyId p.notifyEnterprise
  let address := p.v1TrapAddress.or host
  { raw with
    agentAddr := (address.map inetAddr).getD (List.replicate 4 0), trapType, specificType, enterprise
    time := p.notifyTimestamp }

def rawPdu (host : Option (List ℕ)) (p : MessagePdu) : Except LoadError SnmpPdu :=
  let raw := rawFields p
  if raw.command = trpReqMsg then
    if p.notifyId.length < 2 then .error .invalidNotifyId else .ok (rawTrap host p raw)
  else .ok raw

/-- "vb #1 is the timestamp, vb #2 is the id, represented as an Oid" -/
def MessagePdu.adjusted (p : MessagePdu) : MessagePdu :=
  if p.isNotification then
    let temppdu := { p with vblist := [] }
    let temppdu := temppdu.add ⟨snmpMsgOidSysUpTime, .timeticks p.notifyTimestamp⟩
    let temppdu := temppdu.add ⟨snmpMsgOidTrapId, .oid p.notifyId⟩
    p.vblist.foldl MessagePdu.add temppdu
  else p

/-- "clear the value portion, only do it in the case its a get,next or bulk" -/
def loadVb (command : Byte) (vb : Vb) : Vb :=
  if command = snmpPduGet ∨ command = snmpPduGetNext ∨ command = snmpPduGetBulk then { vb with value := .null } else vb

/-- `SnmpMessage::load`. -/
def load (host : Option (List ℕ)) (p : MessagePdu) (community : List Byte) (version : ℤ) :
    Except LoadError (List Byte) :=
  if p.validity = false then .error .invalidPdu
  else do
    let raw ← rawPdu host p
    let vars := p.adjusted.vblist.map fun vb => (loadVb raw.command vb).encoded
    match snmpBuild raw vars maxSnmpPacket version community with
    | none => .error .tooBig
    | some bytes => .ok bytes

/-! ## Unloading -/

/-- A sub-identifier that went through an `int`. -/
def throughInt (n : ℕ) : ℕ := asUnsigned (toInt32 n)

/-- The id of an SNMPv1 trap; none for an illegal trap type. -/
def trapIdOf (trapType specificType : ℤ) (enterprise : Oid) : Option Oid :=
  if trapType = 0 then some coldStart
  else if trapType = 1 then some warmStart
  else if trapType = 2 then some linkDown
  else if trapType = 3 then some linkUp
  else if trapType = 4 then some authenticationFailure
  else if trapType = 5 then some egpNeighborLoss
  else if trapType = 6 then some (enterprise ++ [0] ++ [asUnsigned specificType]) -- "base id + specific #"
  else none

/-- "deal with traps a little different" -/
def unloadTrap (raw : SnmpPdu) (p : MessagePdu) : MessagePdu :=
  let enterprise := raw.enterprise.map throughInt
  { p with
    notifyTimestamp := raw.time
    v1TrapAddress := if raw.agentAddr = List.replicate 4 0 then p.v1TrapAddress
      else some (raw.agentAddr.map BitVec.toNat)
    notifyEnterprise := if raw.enterprise.length > 0 then enterprise else p.notifyEnterprise
    notifyId := (trapIdOf raw.trapType raw.specificType enterprise).getD p.notifyId }

namespace MessagePdu

/-- One pass of the loop over the variables. -/
def unloadVariable (vbNr : ℕ) (var : Oid × RawValue) (p : MessagePdu) : MessagePdu :=
  match var.2 with
  | .objectId id =>
    if vbNr = 2 ∧ p.isNotification ∧ var.1 = snmpMsgOidTrapId then { p with notifyId := id }
    else p.add ⟨var.1, var.2.toValue⟩
  | .timeticks ticks =>
    if vbNr = 1 ∧ p.isNotification ∧ var.1 = snmpMsgOidSysUpTime then { p with notifyTimestamp := ticks }
    else p.add ⟨var.1, var.2.toValue⟩
  | _ => p.add ⟨var.1, var.2.toValue⟩

def unloadFrom : ℕ → List (Oid × RawValue) → MessagePdu → MessagePdu
  | _, [], p => p
  | vbNr, var :: vars, p => unloadFrom (vbNr + 1) vars (unloadVariable vbNr var p)

end MessagePdu

def unloadFields (raw : SnmpPdu) : MessagePdu :=
  let p := { MessagePdu.cleared with
    type := raw.command, requestId := asUnsigned raw.reqid, errorStatus := toInt32 raw.errstat
    errorIndex := toInt32 raw.errindex }
  if raw.command = trpReqMsg then unloadTrap raw p else p

/-- The PDU of a parsed message; none where a value was not read. -/
def unloadPdu (m : Parsed) : Option MessagePdu := do
  let vars ← m.vars.mapM fun var => var.2.map fun value => (var.1, value)
  some (MessagePdu.unloadFrom 1 vars (unloadFields m.pdu))

/-- What `SnmpMessage::unload` returns. -/
structure Unloaded where
  version : ℤ
  community : List Byte
  pdu : MessagePdu
  deriving DecidableEq

/-- `SnmpMessage::unload`, of a message with something else behind it in the buffer. -/
def unload (data behind : List Byte) : Option Unloaded := do
  let m ← snmpParse (data ++ behind) data.length
  let pdu ← unloadPdu m
  some ⟨m.version, m.community, pdu⟩

/-! ## What the wire carries of a raw PDU -/

/-- The fields that a PDU of its type has. -/
def SnmpPdu.used (pdu : SnmpPdu) : SnmpPdu :=
  if pdu.command ≠ trpReqMsg then
    { SnmpPdu.create pdu.command with reqid := pdu.reqid, errstat := pdu.errstat, errindex := pdu.errindex }
  else
    { SnmpPdu.create pdu.command with
      enterprise := pdu.enterprise, agentAddr := pdu.agentAddr, trapType := pdu.trapType
      specificType := pdu.specificType, time := pdu.time }

theorem SnmpPdu.used_command (pdu : SnmpPdu) : pdu.used.command = pdu.command := by
  unfold SnmpPdu.used
  split
  · rfl
  · rfl

theorem writtenPdu_used {pdu : SnmpPdu} (h : pdu.command = trpReqMsg) :
    writtenPdu pdu.used = { SnmpPdu.create pdu.command with
      enterprise := writtenOid pdu.enterprise, agentAddr := pdu.agentAddr, trapType := pdu.trapType
      specificType := pdu.specificType, time := pdu.time } := by
  unfold writtenPdu
  rw [SnmpPdu.used_command, if_pos h, SnmpPdu.used, if_neg (not_not.mpr h)]
  rfl

theorem buildDataPdu_used (pdu : SnmpPdu) : buildDataPdu pdu.used = buildDataPdu pdu := by
  have hdata : buildData pdu.used = buildData pdu := by
    unfold buildData
    rw [SnmpPdu.used_command]
    by_cases hcommand : pdu.command ≠ trpReqMsg
    · rw [if_pos hcommand, if_pos hcommand, SnmpPdu.used, if_pos hcommand]
    · rw [if_neg hcommand, if_neg hcommand, SnmpPdu.used, if_neg hcommand]
  funext vbBuf bufLen
  unfold buildDataPdu
  rw [hdata, SnmpPdu.used_command]

theorem mapM_read (vars : List (Oid × RawValue)) :
    (vars.map fun var => (var.1, some var.2)).mapM (fun var : Oid × Option RawValue =>
      var.2.map fun value => (var.1, value)) = some vars := by
  induction vars with
  | nil => rfl
  | cons var vars ih =>
    rw [List.map_cons, List.mapM_cons, ih]
    rfl

/-! ## The variables of a message -/

namespace MessagePdu

theorem add_of_valid {p : MessagePdu} (h : p.validity = true) (vb : Vb) :
    p.add vb = { p with vblist := p.vblist ++ [vb].filter Vb.valid } := by
  unfold add
  cases hvalid : vb.valid with
  | true =>
    rw [if_pos rfl, List.filter_cons_of_pos hvalid, ← h]
    rfl
  | false =>
    rw [if_neg (by decide), List.filter_cons_of_neg (by simp [hvalid])]
    simp

theorem foldl_add {p : MessagePdu} (h : p.validity = true) (vbs : List Vb) :
    vbs.foldl add p = { p with vblist := p.vblist ++ vbs.filter Vb.valid } := by
  induction vbs generalizing p with
  | nil => simp
  | cons vb vbs ih =>
    rw [List.foldl_cons, add_of_valid h, ih (p := { p with vblist := p.vblist ++ [vb].filter Vb.valid }) h]
    dsimp only
    rw [List.append_assoc, ← List.filter_append, List.singleton_append]

theorem add_type (p : MessagePdu) (vb : Vb) : (p.add vb).type = p.type := by
  unfold add
  split
  · rfl
  · rfl

/-- A variable that is no part of a notification's header is appended. -/
theorem unloadVariable_add {vbNr : ℕ} {p : MessagePdu} (h : 2 < vbNr ∨ ¬ p.isNotification) (var : Oid × RawValue) :
    unloadVariable vbNr var p = p.add ⟨var.1, var.2.toValue⟩ := by
  unfold unloadVariable
  split
  · rw [if_neg fun hsecond => h.elim (by omega) fun hnot => hnot hsecond.2.1]
  · rw [if_neg fun hfirst => h.elim (by omega) fun hnot => hnot hfirst.2.1]
  · rfl

theorem unloadFrom_add {vbNr : ℕ} {p : MessagePdu} (h : 2 < vbNr ∨ ¬ p.isNotification) (hvalid : p.validity = true)
    (vars : List (Oid × RawValue)) :
    unloadFrom vbNr vars p =
      { p with vblist := p.vblist ++ (vars.map fun var => (⟨var.1, var.2.toValue⟩ : Vb)).filter Vb.valid } := by
  rw [← foldl_add hvalid]
  clear hvalid
  induction vars generalizing vbNr p with
  | nil => rfl
  | cons var vars ih =>
    have hnext : 2 < vbNr + 1 ∨ ¬ (p.add ⟨var.1, var.2.toValue⟩).isNotification := by
      refine h.imp (by omega) fun hnot => ?_
      unfold isNotification at hnot ⊢
      rwa [add_type]
    rw [unloadFrom, unloadVariable_add h, ih hnext]
    rfl

end MessagePdu

/-- A valid value comes back from the raw one. -/
theorem toValue_toRaw {value : Value} (h : value.valid = true) : value.toRaw.toValue = value := by
  cases value with
  | ipaddr bytes =>
    have hlength : bytes.length = 4 ∨ bytes.length = 16 := by simpa [Value.valid] using h
    simp [Value.toRaw, RawValue.toValue, hlength.symm]
  | _ => rfl

theorem unloaded_vbs {vbs : List Vb} (h : ∀ vb ∈ vbs, vb.valid = true) :
    ((vbs.map Vb.encoded).map fun var => (⟨var.1, var.2.toValue⟩ : Vb)).filter Vb.valid = vbs := by
  have hback : ∀ vb ∈ vbs, (⟨vb.encoded.1, vb.encoded.2.toValue⟩ : Vb) = vb := by
    intro vb hvb
    have hvalue : vb.value.valid = true := by
      have hboth := h vb hvb
      unfold Vb.valid at hboth
      exact (Bool.and_eq_true_iff.mp hboth).2
    unfold Vb.encoded
    rw [toValue_toRaw hvalue]
  have hmap : (vbs.map Vb.encoded).map (fun var => (⟨var.1, var.2.toValue⟩ : Vb)) = vbs := by
    rw [List.map_map]
    exact (List.map_congr_left hback).trans (List.map_id vbs)
  rw [hmap]
  exact List.filter_eq_self.mpr h

/-! ## Round trips -/

theorem asUnsigned_toInt {n : ℕ} (h : n < 2 ^ 64) : asUnsigned (BitVec.ofNat 64 n).toInt = n := by
  have hmod : (BitVec.ofNat 64 n).toInt % 2 ^ 64 = (n : ℤ) % 2 ^ 64 := by
    rw [BitVec.toInt_ofNat']
    exact Int.bmod_emod
  unfold asUnsigned
  rw [hmod]
  omega

/-- A PDU whose parts have a form on the wire; only valid varbinds can be added to one. -/
structure MessagePdu.Loadable (p : MessagePdu) : Prop where
  validity : p.validity = true
  type : p.type &&& asnExtensionId ≠ asnExtensionId
  requestId : p.requestId < 2 ^ 64
  errorStatus : IsInt p.errorStatus
  errorIndex : IsInt p.errorIndex
  timestamp : p.notifyTimestamp < 2 ^ 32
  valid : ∀ vb ∈ p.vblist, vb.valid = true
  vbs : ∀ vb ∈ p.vblist, VarEncodable vb.encoded
  notifyId : p.isNotification → OidEncodable p.notifyId

/-- What arrives of a PDU other than an SNMPv1 trap. -/
def MessagePdu.received (p : MessagePdu) : MessagePdu :=
  { MessagePdu.cleared with
    type := p.type, requestId := p.requestId, errorStatus := p.errorStatus, errorIndex := p.errorIndex
    notifyTimestamp := if p.isNotification then p.notifyTimestamp else 0
    notifyId := if p.isNotification then p.notifyId else []
    vblist := p.vblist.map (loadVb p.type) }

theorem loadVb_valid {command : Byte} {vb : Vb} (h : vb.valid = true) : (loadVb command vb).valid = true := by
  unfold loadVb
  split
  · unfold Vb.valid at h ⊢
    rw [(Bool.and_eq_true_iff.mp h).1]
    rfl
  · exact h

theorem loadVb_encodable {command : Byte} {vb : Vb} (h : VarEncodable vb.encoded) :
    VarEncodable (loadVb command vb).encoded := by
  unfold loadVb
  split
  · exact ⟨h.1, trivial⟩
  · exact h

theorem notification_not_cleared {p : MessagePdu} (h : p.isNotification) (vb : Vb) : loadVb p.type vb = vb := by
  unfold loadVb
  rcases h with h | h
  · rw [h, if_neg (by decide)]
  · rw [h, if_neg (by decide)]

theorem isNotification_not_trap {p : MessagePdu} (h : p.isNotification) : p.type ≠ trpReqMsg := by
  rcases h with h | h
  · rw [h]
    decide
  · rw [h]
    decide

theorem vb_valid_of_oid {oid id : Oid} (hoid : oid ≠ []) (hid : id ≠ []) : Vb.valid ⟨oid, .oid id⟩ = true := by
  simpa [Vb.valid, Value.valid] using ⟨hoid, hid⟩

/-- The varbinds of a notification, with those of its time and its id in front. -/
theorem adjusted_vblist {p : MessagePdu} (h : p.Loadable) (hnotification : p.isNotification) :
    p.adjusted.vblist = ⟨snmpMsgOidSysUpTime, .timeticks p.notifyTimestamp⟩ ::
      ⟨snmpMsgOidTrapId, .oid p.notifyId⟩ :: p.vblist := by
  have hid : p.notifyId ≠ [] := by
    intro hnil
    have hlong := (h.notifyId hnotification).long
    rw [hnil, List.length_nil] at hlong
    omega
  have htime : Vb.valid ⟨snmpMsgOidSysUpTime, .timeticks p.notifyTimestamp⟩ = true := rfl
  have htrap := vb_valid_of_oid (by decide : snmpMsgOidTrapId ≠ []) hid
  unfold MessagePdu.adjusted
  let q : MessagePdu := { p with vblist :=
    [⟨snmpMsgOidSysUpTime, .timeticks p.notifyTimestamp⟩, ⟨snmpMsgOidTrapId, .oid p.notifyId⟩] }
  have hheader : (MessagePdu.add (MessagePdu.add { p with vblist := [] }
      ⟨snmpMsgOidSysUpTime, .timeticks p.notifyTimestamp⟩) ⟨snmpMsgOidTrapId, .oid p.notifyId⟩) = q := by
    unfold MessagePdu.add
    rw [if_pos htime, if_pos htrap, ← h.validity]
    rfl
  have hrest := MessagePdu.foldl_add (p := q) h.validity p.vblist
  rw [List.filter_eq_self.mpr h.valid] at hrest
  rw [if_pos hnotification]
  exact congrArg MessagePdu.vblist ((congrArg (p.vblist.foldl MessagePdu.add) hheader).trans hrest)

theorem sysUpTime_encodable {n : ℕ} (h : n < 2 ^ 32) :
    VarEncodable (Vb.encoded ⟨snmpMsgOidSysUpTime, .timeticks n⟩) :=
  ⟨(by decide : OidEncodable snmpMsgOidSysUpTime), h⟩

theorem trapId_encodable {id : Oid} (h : OidEncodable id) : VarEncodable (Vb.encoded ⟨snmpMsgOidTrapId, .oid id⟩) :=
  ⟨(by decide : OidEncodable snmpMsgOidTrapId), h⟩

/-- The variables that are sent. -/
def MessagePdu.sent (p : MessagePdu) : List (Oid × RawValue) := p.adjusted.vblist.map fun vb => (loadVb p.type vb).encoded

theorem adjusted_encodable {p : MessagePdu} (h : p.Loadable) : ∀ var ∈ p.sent, VarEncodable var := by
  have hvbs : ∀ vb ∈ p.adjusted.vblist, VarEncodable vb.encoded := by
    by_cases hnotification : p.isNotification
    · rw [adjusted_vblist h hnotification]
      exact List.forall_mem_cons.mpr ⟨sysUpTime_encodable h.timestamp,
        List.forall_mem_cons.mpr ⟨trapId_encodable (h.notifyId hnotification), h.vbs⟩⟩
    · unfold MessagePdu.adjusted
      rw [if_neg hnotification]
      exact h.vbs
  intro var hvar
  obtain ⟨vb, hvb, rfl⟩ := List.mem_map.mp hvar
  exact loadVb_encodable (hvbs vb hvb)

/-- The variables are unloaded into the members they were made of. -/
theorem unloadFrom_adjusted {p base : MessagePdu} (h : p.Loadable) (htype : base.type = p.type)
    (hempty : base.vblist = []) (hvalid : base.validity = true) :
    MessagePdu.unloadFrom 1 p.sent base =
      { base with
        notifyTimestamp := if p.isNotification then p.notifyTimestamp else base.notifyTimestamp
        notifyId := if p.isNotification then p.notifyId else base.notifyId
        vblist := p.vblist.map (loadVb p.type) } := by
  have hback := unloaded_vbs fun vb (hvb : vb ∈ p.vblist.map (loadVb p.type)) => by
    obtain ⟨vb', hvb', rfl⟩ := List.mem_map.mp hvb
    exact loadVb_valid (h.valid vb' hvb')
  rw [show (p.vblist.map (loadVb p.type)).map Vb.encoded = p.vblist.map fun vb => (loadVb p.type vb).encoded from
    List.map_map] at hback
  unfold MessagePdu.sent
  by_cases hnotification : p.isNotification
  · have hbase : base.isNotification := by
      unfold MessagePdu.isNotification at hnotification ⊢
      rwa [htype]
    rw [adjusted_vblist h hnotification, if_pos hnotification, if_pos hnotification, List.map_cons, List.map_cons,
      notification_not_cleared hnotification, notification_not_cleared hnotification, MessagePdu.unloadFrom,
      MessagePdu.unloadFrom]
    have htime : MessagePdu.unloadVariable 1 (Vb.encoded ⟨snmpMsgOidSysUpTime, .timeticks p.notifyTimestamp⟩) base =
        { base with notifyTimestamp := p.notifyTimestamp } := if_pos ⟨rfl, hbase, rfl⟩
    have hid : MessagePdu.unloadVariable (1 + 1) (Vb.encoded ⟨snmpMsgOidTrapId, .oid p.notifyId⟩)
        { base with notifyTimestamp := p.notifyTimestamp } =
        { base with notifyTimestamp := p.notifyTimestamp, notifyId := p.notifyId } := if_pos ⟨rfl, hbase, rfl⟩
    have hrest := MessagePdu.unloadFrom_add
      (p := { base with notifyTimestamp := p.notifyTimestamp, notifyId := p.notifyId })
      (Or.inl (by decide : 2 < 1 + 1 + 1)) hvalid (p.vblist.map fun vb => (loadVb p.type vb).encoded)
    rw [htime, hid, hrest]
    dsimp only
    rw [hempty, List.nil_append, hback]
  · have hbase : ¬ base.isNotification := by
      unfold MessagePdu.isNotification at hnotification ⊢
      rwa [htype]
    unfold MessagePdu.adjusted
    rw [if_neg hnotification, if_neg hnotification, if_neg hnotification, MessagePdu.unloadFrom_add (Or.inr hbase) hvalid,
      hempty, List.nil_append, hback]

theorem rawPdu_command {host : Option (List ℕ)} {p : MessagePdu} {raw : SnmpPdu} (h : rawPdu host p = .ok raw) :
    raw.command = p.type := by
  unfold rawPdu at h
  dsimp only at h
  split at h
  · split at h
    · cases h
    · cases h
      rfl
  · cases h
    rfl

theorem unloadFields_frame (raw : SnmpPdu) : (unloadFields raw).type = raw.command ∧
    (unloadFields raw).vblist = [] ∧ (unloadFields raw).validity = true := by
  unfold unloadFields
  dsimp only
  split
  · exact ⟨rfl, rfl, rfl⟩
  · exact ⟨rfl, rfl, rfl⟩

/-- A message that was loaded is unloaded into what the fields of its raw PDU say, and its varbinds. -/
theorem unload_loaded {p : MessagePdu} (h : p.Loadable) {host : Option (List ℕ)} {raw : SnmpPdu}
    (hraw : rawPdu host p = .ok raw) (hencodable : PduEncodable (writtenPdu raw.used)) {version : ℤ}
    (hversion : version = 0 ∨ version = 1) {community bytes : List Byte}
    (hload : load host p community version = .ok bytes) (behind : List Byte) :
    unload bytes behind =
      if community.length ≤ 127 then
        let fields := unloadFields (writtenPdu raw.used)
        some ⟨version, community, { fields with
          notifyTimestamp := if p.isNotification then p.notifyTimestamp else fields.notifyTimestamp
          notifyId := if p.isNotification then p.notifyId else fields.notifyId
          vblist := p.vblist.map (loadVb p.type) }⟩
      else none := by
  have hvars := adjusted_encodable h
  have hcommand := rawPdu_command hraw
  unfold load at hload
  rw [if_neg (by simp [h.validity]), hraw] at hload
  simp only [bind, Except.bind, hcommand] at hload
  split at hload
  · cases hload
  rename_i built hbuild
  cases hload
  unfold snmpBuild at hbuild
  rw [← buildDataPdu_used, ← buildDataPdu_written] at hbuild
  obtain ⟨rfl, hlength⟩ := built_message hencodable hvars le_rfl hbuild
  unfold unload
  rw [snmpParse_message hencodable hvars hversion hlength behind]
  split
  · unfold unloadPdu
    simp only [Option.bind_eq_bind, Option.bind_some]
    rw [mapM_read, Option.bind_some, Option.bind_some]
    obtain ⟨htype, hempty, hvalid⟩ := unloadFields_frame (writtenPdu raw.used)
    have hused : (unloadFields (writtenPdu raw.used)).type = p.type := by
      rw [htype, writtenPdu, SnmpPdu.used_command, hcommand]
    rw [unloadFrom_adjusted h hused hempty hvalid]
  · rfl

section OtherTypes
variable {p : MessagePdu} (htype : p.type ≠ trpReqMsg)
include htype

theorem rawPdu_of_other (host : Option (List ℕ)) : rawPdu host p = .ok (rawFields p) := if_neg htype

theorem rawFields_written : writtenPdu (rawFields p).used = rawFields p := by
  have hcommand : (rawFields p).command ≠ trpReqMsg := htype
  have hused : (rawFields p).used = rawFields p := by
    rw [SnmpPdu.used, if_pos hcommand]
    rfl
  rw [hused, writtenPdu, if_neg hcommand]

theorem rawFields_encodable (h : p.Loadable) : PduEncodable (rawFields p) := by
  refine ⟨h.type, ?_⟩
  rw [if_pos (by exact htype)]
  exact ⟨⟨BitVec.le_toInt _, BitVec.toInt_lt⟩, h.errorStatus.isLong, h.errorIndex.isLong, rfl⟩

theorem unloadFields_rawFields (h : p.Loadable) : unloadFields (rawFields p) = { MessagePdu.cleared with
    type := p.type, requestId := p.requestId, errorStatus := p.errorStatus, errorIndex := p.errorIndex } := by
  have hcommand : (rawFields p).command ≠ trpReqMsg := htype
  unfold unloadFields
  rw [if_neg hcommand]
  unfold rawFields
  dsimp only
  rw [asUnsigned_toInt h.requestId, h.errorStatus.toInt32, h.errorIndex.toInt32]
  rfl

theorem load_of_other (h : p.Loadable) (host : Option (List ℕ)) (version : ℤ) (community : List Byte) :
    load host p community version =
      if (message version community (rawFields p) p.sent).length ≤ maxSnmpPacket then
        .ok (message version community (rawFields p) p.sent)
      else .error .tooBig := by
  unfold load
  rw [if_neg (by simp [h.validity]), rawPdu_of_other htype]
  simp only [bind, Except.bind]
  have hbuild := snmpBuild_eq (rawFields_encodable htype h) (adjusted_encodable h) le_rfl version community
  rw [show (p.adjusted.vblist.map fun vb => (loadVb (rawFields p).command vb).encoded) = p.sent from rfl, hbuild]
  by_cases hfits : (message version community (rawFields p) p.sent).length ≤ maxSnmpPacket
  · rw [if_pos hfits, if_pos hfits]
  · rw [if_neg hfits, if_neg hfits]

theorem unload_of_other (h : p.Loadable) {host : Option (List ℕ)} {version : ℤ} (hversion : version = 0 ∨ version = 1)
    {community bytes : List Byte} (hload : load host p community version = .ok bytes) (behind : List Byte) :
    unload bytes behind = if community.length ≤ 127 then some ⟨version, community, p.received⟩ else none := by
  have hencodable : PduEncodable (writtenPdu (rawFields p).used) := by
    rw [rawFields_written htype]
    exact rawFields_encodable htype h
  rw [unload_loaded h (rawPdu_of_other htype host) hencodable hversion hload behind, rawFields_written htype,
    unloadFields_rawFields htype h]
  rfl

end OtherTypes

/-- A PDU that is no SNMPv1 trap is loaded if its message fits, and is unloaded again but for what its type does not
carry. -/
theorem load_unload {p : MessagePdu} (h : p.Loadable) (htype : p.type ≠ trpReqMsg) (host : Option (List ℕ))
    {version : ℤ} (hversion : version = 0 ∨ version = 1) (community behind : List Byte) :
    (load host p community version = .error .tooBig ↔
      maxSnmpPacket < (message version community (rawFields p) p.sent).length) ∧
    ∀ bytes, load host p community version = .ok bytes →
      unload bytes behind = if community.length ≤ 127 then some ⟨version, community, p.received⟩ else none := by
  refine ⟨?_, fun bytes hload => unload_of_other htype h hversion hload behind⟩
  rw [load_of_other htype h]
  split
  · rename_i hfits
    exact iff_of_false (fun herror => by cases herror) (not_lt.mpr hfits)
  · rename_i hlong
    exact iff_of_true rfl (not_le.mp hlong)

/-- An Inform of a cold start. -/
def coldStartInform : MessagePdu :=
  ⟨snmpPduInform, 7, 0, 0, 100, coldStart, [], none, [⟨[1, 3, 6, 1, 2, 1, 1, 5, 0], .octets [0x68, 0x69]⟩],
    true⟩

theorem coldStartInform_loadable : coldStartInform.Loadable where
  validity := rfl
  type := by decide
  requestId := by decide
  errorStatus := ⟨by decide, by decide⟩
  errorIndex := ⟨by decide, by decide⟩
  timestamp := by decide
  valid := by decide
  vbs := by
    intro vb hvb
    rw [List.mem_singleton.mp hvb]
    exact ⟨(by decide : OidEncodable [1, 3, 6, 1, 2, 1, 1, 5, 0]), (by decide : ∀ b ∈ [0x68, 0x69], b < 256)⟩
  notifyId := fun _ => by decide

theorem load_unload_sample : ∃ bytes, load none coldStartInform [0x70, 0x75, 0x62] 1 = .ok bytes ∧
    unload bytes [] = some ⟨1, [0x70, 0x75, 0x62], coldStartInform⟩ := by
  have hok : (load none coldStartInform [0x70, 0x75, 0x62] 1).isOk = true := by decide +kernel
  cases hload : load none coldStartInform [0x70, 0x75, 0x62] 1 with
  | error e =>
    rw [hload] at hok
    cases hok
  | ok bytes =>
    have hunload := load_unload coldStartInform_loadable (by decide) none (Or.inr rfl) [0x70, 0x75, 0x62] []
    exact ⟨bytes, rfl, hunload.2 bytes hload⟩

/-! ## SNMPv1 traps -/

def genericTraps : List Oid := [coldStart, warmStart, linkDown, linkUp, authenticationFailure, egpNeighborLoss]

/-- A generic trap comes back by its number. -/
theorem trapFields_generic {id : Oid} (h : id ∈ genericTraps) (enterprise : Oid) :
    ∃ trapType, IsInt trapType ∧ trapFields id enterprise = (trapType, 0, enterprise) ∧
      ∀ written, trapIdOf trapType 0 written = some id := by
  unfold genericTraps at h
  simp only [List.mem_cons, List.not_mem_nil, or_false] at h
  rcases h with rfl | rfl | rfl | rfl | rfl | rfl
  · exact ⟨0, ⟨by decide, by decide⟩, rfl, fun _ => rfl⟩
  · exact ⟨1, ⟨by decide, by decide⟩, rfl, fun _ => rfl⟩
  · exact ⟨2, ⟨by decide, by decide⟩, rfl, fun _ => rfl⟩
  · exact ⟨3, ⟨by decide, by decide⟩, rfl, fun _ => rfl⟩
  · exact ⟨4, ⟨by decide, by decide⟩, rfl, fun _ => rfl⟩
  · exact ⟨5, ⟨by decide, by decide⟩, rfl, fun _ => rfl⟩

theorem trapFields_specific {id : Oid} (h : id ∉ genericTraps) (enterprise : Oid) :
    trapFields id enterprise = (6, toInt32 (id.getLastD 0),
      if id.dropLast.getLast? = some 0 then id.dropLast.dropLast else id.dropLast) := by
  unfold genericTraps at h
  simp only [List.mem_cons, List.not_mem_nil, or_false, not_or] at h
  obtain ⟨hcold, hwarm, hdown, hup, hfailure, hloss⟩ := h
  unfold trapFields
  rw [if_neg hcold, if_neg hwarm, if_neg hdown, if_neg hup, if_neg hfailure, if_neg hloss]

theorem isInt_trapFields (id enterprise : Oid) :
    IsInt (trapFields id enterprise).1 ∧ IsInt (trapFields id enterprise).2.1 := by
  by_cases hgeneric : id ∈ genericTraps
  · obtain ⟨trapType, htrapType, hfields, -⟩ := trapFields_generic hgeneric enterprise
    rw [hfields]
    exact ⟨htrapType, (by decide : -2 ^ 31 ≤ (0 : ℤ)), (by decide : (0 : ℤ) < 2 ^ 31)⟩
  · rw [trapFields_specific hgeneric]
    exact ⟨⟨(by decide : -2 ^ 31 ≤ (6 : ℤ)), (by decide : (6 : ℤ) < 2 ^ 31)⟩, isInt_toInt32 _⟩

/-- Of the sub-identifiers, those of less than 32 bits go through an `int`. -/
theorem throughInt_eq_iff {n : ℕ} (h : n ≤ maxSubid) : throughInt n = n ↔ n < 2 ^ 31 := by
  unfold maxSubid at h
  constructor
  · intro heq
    obtain ⟨hlow, hhigh⟩ := isInt_toInt32 n
    unfold throughInt asUnsigned at heq
    omega
  · intro hsmall
    have hint : IsInt (n : ℤ) := ⟨by omega, by omega⟩
    unfold throughInt asUnsigned
    rw [hint.toInt32]
    omega

theorem map_throughInt_eq_iff {objid : Oid} (h : ∀ n ∈ objid, n ≤ maxSubid) :
    objid.map throughInt = objid ↔ ∀ n ∈ objid, n < 2 ^ 31 := by
  induction objid with
  | nil => simp
  | cons n objid ih =>
    obtain ⟨hn, hrest⟩ := List.forall_mem_cons.mp h
    rw [List.map_cons, List.cons.injEq, throughInt_eq_iff hn, ih hrest, List.forall_mem_cons]

/-- The ids that an SNMPv1 trap carries: the generic ones, and those with a zero before the last sub-identifier. -/
def TrapIdSurvives (id : Oid) : Prop :=
  id ∈ genericTraps ∨ 4 ≤ id.length ∧ id.dropLast.getLast? = some 0 ∧ ∀ n ∈ id, n < 2 ^ 31

/-- The id as it is made out of the fields again. -/
def trapIdBack (id enterprise : Oid) : Oid :=
  let (trapType, specificType, enterprise) := trapFields id enterprise
  (trapIdOf trapType specificType ((writtenOid enterprise).map throughInt)).getD []

theorem trapIdBack_eq_iff {id : Oid} (hlength : 2 ≤ id.length) (h : ∀ n ∈ id, n ≤ maxSubid) (enterprise : Oid) :
    trapIdBack id enterprise = id ↔ TrapIdSurvives id := by
  by_cases hgeneric : id ∈ genericTraps
  · obtain ⟨trapType, -, hfields, hback⟩ := trapFields_generic hgeneric enterprise
    refine iff_of_true ?_ (Or.inl hgeneric)
    unfold trapIdBack
    rw [hfields]
    dsimp only
    rw [hback, Option.getD_some]
  obtain ⟨pre, last, subid, rfl⟩ : ∃ pre last subid, id = pre ++ [last, subid] := by
    have htwo : (id.drop (id.length - 2)).length = 2 := by
      rw [List.length_drop]
      omega
    obtain ⟨last, subid, heq⟩ := List.length_eq_two.mp htwo
    exact ⟨id.take (id.length - 2), last, subid, by rw [← heq, List.take_append_drop]⟩
  have hinit : (pre ++ [last, subid]).dropLast = pre ++ [last] := by
    have hassoc : pre ++ [last, subid] = pre ++ [last] ++ [subid] := by simp
    rw [hassoc, List.dropLast_concat]
  have hdrop : (pre ++ [last, subid]).dropLast.getLast? = some last := by rw [hinit, List.getLast?_concat]
  have hspecific : TrapIdSurvives (pre ++ [last, subid]) ↔
      2 ≤ pre.length ∧ last = 0 ∧ ∀ n ∈ pre ++ [last, subid], n < 2 ^ 31 := by
    unfold TrapIdSurvives
    rw [hdrop, List.length_append, Option.some.injEq, or_iff_right hgeneric]
    simp
  have hback : trapIdBack (pre ++ [last, subid]) enterprise =
      (writtenOid (if last = 0 then pre else pre ++ [last])).map throughInt ++
        [0, throughInt subid] := by
    unfold trapIdBack
    rw [trapFields_specific hgeneric, hdrop, hinit, List.dropLast_concat]
    simp [trapIdOf, throughInt]
  rw [hback, hspecific]
  by_cases hzero : last = 0
  · subst hzero
    rw [if_pos rfl]
    by_cases hlong : 2 ≤ pre.length
    · have hpre : ∀ n ∈ pre, n ≤ maxSubid := fun n hn => h n (List.mem_append_left _ hn)
      have hsubid : subid ≤ maxSubid := h subid (by simp)
      have hsplit : pre.map throughInt ++ [0, throughInt subid] = pre ++ [0, subid] ↔
          pre.map throughInt = pre ∧ throughInt subid = subid := by
        constructor
        · intro heq
          obtain ⟨hleft, hright⟩ := List.append_inj heq (List.length_map _)
          exact ⟨hleft, by simpa using hright⟩
        · rintro ⟨hleft, hright⟩
          rw [hleft, hright]
      rw [writtenOid_of_long hlong, hsplit, map_throughInt_eq_iff hpre, throughInt_eq_iff hsubid, List.forall_mem_append]
      simp [hlong]
    · refine iff_of_false (fun heq => ?_) fun hall => hlong hall.1
      have hlengths := congrArg List.length heq
      rw [writtenOid, if_pos (by omega)] at hlengths
      simp only [List.map_cons, List.map_nil, List.length_append, List.length_cons, List.length_nil] at hlengths
      omega
  · -- nothing was removed, so the id comes back longer
    refine iff_of_false (fun heq => ?_) fun hall => hzero hall.2.1
    have hlengths := congrArg List.length heq
    rw [if_neg hzero, List.length_append, List.length_map, List.length_append] at hlengths
    unfold writtenOid at hlengths
    split at hlengths
    · rename_i hshort
      simp only [List.length_append, List.length_cons, List.length_nil] at hlengths hshort
      omega
    · simp only [List.length_append, List.length_cons, List.length_nil] at hlengths
      omega

theorem length_inetAddr (address : List ℕ) : (inetAddr address).length = 4 := by
  unfold inetAddr
  split
  · rename_i hfour
    rw [List.length_map, hfour]
  · rfl

/-- The address on the wire. -/
def MessagePdu.wireAddress (host : Option (List ℕ)) (p : MessagePdu) : List Byte :=
  ((p.v1TrapAddress.or host).map inetAddr).getD (List.replicate 4 0)

theorem MessagePdu.length_wireAddress (host : Option (List ℕ)) (p : MessagePdu) : (p.wireAddress host).length = 4 := by
  unfold MessagePdu.wireAddress
  cases p.v1TrapAddress.or host with
  | none => rfl
  | some address => exact length_inetAddr address

/-- An address comes back if it is one of IPv4 and not "0.0.0.0". -/
theorem address_back_iff {address : List ℕ} (h : ∀ b ∈ address, b < 256) :
    (if inetAddr address = List.replicate 4 0 then none else some ((inetAddr address).map BitVec.toNat)) =
        some address ↔ address.length = 4 ∧ address ≠ [0, 0, 0, 0] := by
  by_cases hfour : address.length = 4
  · have hback := map_toNat_uchar h
    rw [inetAddr, if_pos hfour, hback]
    by_cases hzero : address = [0, 0, 0, 0]
    · subst hzero
      exact iff_of_false (by decide) fun hne => hne.2 rfl
    · have hne : address.map uchar ≠ List.replicate 4 0 := by
        intro heq
        rw [heq] at hback
        exact hzero (hback.symm.trans (by decide))
      rw [if_neg hne]
      exact iff_of_true rfl ⟨hfour, hzero⟩
  · refine iff_of_false (fun heq => hfour ?_) fun hboth => hfour hboth.1
    rw [inetAddr, if_neg hfour, if_neg (by decide)] at heq
    rw [← Option.some.inj heq]
    rfl

/-- What is loaded as an SNMPv1 trap is unloaded with its time and its varbinds; its id and its address come back
exactly where the wire has a form for them. -/
theorem load_unload_trap {p : MessagePdu} (h : p.Loadable) (htype : p.type = trpReqMsg)
    (hid : ∀ n ∈ p.notifyId, n ≤ maxSubid)
    (henterprise : OidEncodable (writtenOid (trapFields p.notifyId p.notifyEnterprise).2.2))
    {host : Option (List ℕ)} {version : ℤ} (hversion : version = 0 ∨ version = 1) {community bytes : List Byte}
    (hcommunity : community.length ≤ 127) (hload : load host p community version = .ok bytes) (behind : List Byte) :
    ∃ q : MessagePdu, unload bytes behind = some ⟨version, community, q⟩ ∧ q.type = p.type ∧
      q.notifyTimestamp = p.notifyTimestamp ∧ q.vblist = p.vblist ∧
      (q.notifyId = p.notifyId ↔ TrapIdSurvives p.notifyId) ∧
      ∀ address, p.v1TrapAddress.or host = some address → (∀ b ∈ address, b < 256) →
        (q.v1TrapAddress = some address ↔ address.length = 4 ∧ address ≠ [0, 0, 0, 0]) := by
  have hcommand : (rawFields p).command = trpReqMsg := htype
  have hnotification : ¬ p.isNotification := fun hboth => isNotification_not_trap hboth htype
  have hlength : 2 ≤ p.notifyId.length := by
    by_contra hshort
    have herror : rawPdu host p = .error .invalidNotifyId := by
      unfold rawPdu
      rw [if_pos hcommand, if_pos (by omega)]
    unfold load at hload
    rw [if_neg (by simp [h.validity]), herror] at hload
    cases hload
  have hraw : rawPdu host p = .ok (rawTrap host p (rawFields p)) := by
    unfold rawPdu
    rw [if_pos hcommand, if_neg (by omega)]
  have htrap : (rawTrap host p (rawFields p)).command = trpReqMsg := htype
  obtain ⟨htrapType, hspecificType⟩ := isInt_trapFields p.notifyId p.notifyEnterprise
  have hwritten : writtenPdu (rawTrap host p (rawFields p)).used = { SnmpPdu.create p.type with
      enterprise := writtenOid (trapFields p.notifyId p.notifyEnterprise).2.2, agentAddr := p.wireAddress host
      trapType := (trapFields p.notifyId p.notifyEnterprise).1
      specificType := (trapFields p.notifyId p.notifyEnterprise).2.1, time := p.notifyTimestamp } :=
    writtenPdu_used htrap
  have hencodable : PduEncodable (writtenPdu (rawTrap host p (rawFields p)).used) := by
    rw [hwritten]
    refine ⟨h.type, ?_⟩
    rw [if_neg (by exact not_not.mpr htype)]
    exact ⟨henterprise, p.length_wireAddress host, htrapType, hspecificType, h.timestamp, rfl⟩
  refine ⟨_, (unload_loaded h hraw hencodable hversion hload behind).trans (if_pos hcommunity), ?_⟩
  have hfields : unloadFields (writtenPdu (rawTrap host p (rawFields p)).used) =
      unloadTrap { SnmpPdu.create p.type with
        enterprise := writtenOid (trapFields p.notifyId p.notifyEnterprise).2.2, agentAddr := p.wireAddress host
        trapType := (trapFields p.notifyId p.notifyEnterprise).1
        specificType := (trapFields p.notifyId p.notifyEnterprise).2.1, time := p.notifyTimestamp }
        { MessagePdu.cleared with type := p.type } := by
    rw [hwritten]
    exact if_pos htype
  rw [hfields, if_neg hnotification, if_neg hnotification]
  have hclear : ∀ vb, loadVb p.type vb = vb := by
    intro vb
    unfold loadVb
    rw [htype, if_neg (by decide)]
  refine ⟨rfl, rfl, (List.map_congr_left fun vb _ => hclear vb).trans (List.map_id _), ?_, ?_⟩
  · exact trapIdBack_eq_iff hlength hid p.notifyEnterprise
  · intro address haddress hoctets
    have hwire : p.wireAddress host = inetAddr address := by
      unfold MessagePdu.wireAddress
      rw [haddress]
      rfl
    unfold unloadTrap
    dsimp only
    rw [hwire]
    exact address_back_iff hoctets

/-- A trap of an enterprise whose id has no zero before its last sub-identifier. -/
def enterpriseTrap : MessagePdu :=
  ⟨trpReqMsg, 0, 0, 0, 100, [1, 3, 6, 1, 4, 1, 9, 5], [], some [192, 168, 0, 1], [], true⟩

theorem enterpriseTrap_loadable : enterpriseTrap.Loadable where
  validity := rfl
  type := by decide
  requestId := by decide
  errorStatus := ⟨by decide, by decide⟩
  errorIndex := ⟨by decide, by decide⟩
  timestamp := by decide
  valid := by decide
  vbs := fun vb hvb => by cases hvb
  notifyId := fun h => absurd rfl (isNotification_not_trap h)

theorem load_unload_trap_sample : ∃ bytes q, load none enterpriseTrap [0x70, 0x75, 0x62] 0 = .ok bytes ∧
    unload bytes [] = some ⟨0, [0x70, 0x75, 0x62], q⟩ ∧ q.notifyId ≠ enterpriseTrap.notifyId ∧
    q.v1TrapAddress = some [192, 168, 0, 1] := by
  have hok : (load none enterpriseTrap [0x70, 0x75, 0x62] 0).isOk = true := by decide +kernel
  cases hload : load none enterpriseTrap [0x70, 0x75, 0x62] 0 with
  | error e =>
    rw [hload] at hok
    cases hok
  | ok bytes =>
    obtain ⟨q, hunload, -, -, -, hid, haddress⟩ := load_unload_trap enterpriseTrap_loadable rfl (by decide) (by decide)
      (Or.inl rfl) (by decide) hload []
    refine ⟨bytes, q, rfl, hunload, fun hsame => ?_, (haddress _ rfl (by decide)).mpr (by decide)⟩
    rcases hid.mp hsame with hgeneric | ⟨-, hzero, -⟩
    · revert hgeneric
      decide
    · revert hzero
      decide

end SnmpB.Ber
