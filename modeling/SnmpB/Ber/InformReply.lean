import SnmpB.Ber.Load

/-! # An Inform and its answer on the wire

The application answers an Inform with a PDU of the same request id. Its message is as long
as that of the Inform, so that it can always be sent.
-/
namespace SnmpB.Ber
open Agent

def snmpPduResponse : Byte := 0xA2

/-- The members that `Agent::AsyncCallbackTrap` looks at. -/
def MessagePdu.notify (p : MessagePdu) : NotifyPdu :=
  { vblist := p.vblist, errorStatus := p.errorStatus.natAbs, errorIndex := p.errorIndex
    type := if p.type = snmpPduInform then .inform else .trap
    notifyTimestamp := p.notifyTimestamp, notifyId := p.notifyId }

/-- "If its an inform, we have to reply": a copy with other varbinds, which `Snmp::response` makes a response. -/
def informReply (p : MessagePdu) : Option MessagePdu :=
  (asyncCallbackTrap classNotification p.notify).map fun answer =>
    { p with type := snmpPduResponse, vblist := answer.vblist }

/-- The varbinds of an Inform's message. -/
def MessagePdu.header (p : MessagePdu) : List Vb :=
  [⟨snmpMsgOidSysUpTime, .timeticks p.notifyTimestamp⟩, ⟨snmpMsgOidTrapId, .oid p.notifyId⟩]

def MessagePdu.reply (p : MessagePdu) : MessagePdu := { p with type := snmpPduResponse, vblist := p.header ++ p.vblist }

/-- An Inform as it arrives, without the members that only SNMPv1 traps have. -/
def MessagePdu.informed (p : MessagePdu) : MessagePdu :=
  { p with notifyEnterprise := [], v1TrapAddress := none, validity := true }

theorem loadVb_response (vb : Vb) : loadVb snmpPduResponse vb = vb := if_neg (by decide)

section Inform
variable {p : MessagePdu} (htype : p.type = snmpPduInform)
include htype

theorem inform_received : p.received = p.informed := by
  have hnotification : p.isNotification := Or.inr htype
  have hvbs : p.vblist.map (loadVb p.type) = p.vblist :=
    (List.map_congr_left fun vb _ => notification_not_cleared hnotification vb).trans (List.map_id _)
  unfold MessagePdu.received
  rw [if_pos hnotification, if_pos hnotification, hvbs]
  rfl

variable (h : p.Loadable)
include h

theorem notifyId_ne_nil : p.notifyId ≠ [] := by
  intro hnil
  have hlong := (h.notifyId (Or.inr htype)).long
  rw [hnil, List.length_nil] at hlong
  omega

theorem informReply_eq (hstatus : p.errorStatus = 0) : informReply p = some p.reply := by
  have hnot : ¬ (classNotification ≠ classNotification ∨ p.notify.errorStatus ≠ 0) := by
    simp [MessagePdu.notify, hstatus]
  have hinform : p.notify.type = .inform := if_pos htype
  have hanswer : asyncCallbackTrap classNotification p.notify = some (informResponse p.notify) := by
    unfold asyncCallbackTrap
    rw [if_neg hnot, if_pos hinform]
  unfold informReply
  rw [hanswer, Option.map_some, informResponse_vblist (notifyId_ne_nil htype h) h.valid]
  rfl

/-- The answer can be loaded as well. -/
theorem reply_loadable : p.reply.Loadable where
  validity := h.validity
  type := (by decide : snmpPduResponse &&& asnExtensionId ≠ asnExtensionId)
  requestId := h.requestId
  errorStatus := h.errorStatus
  errorIndex := h.errorIndex
  timestamp := h.timestamp
  valid := by
    have htrap := vb_valid_of_oid (by decide : snmpMsgOidTrapId ≠ []) (notifyId_ne_nil htype h)
    exact List.forall_mem_cons.mpr ⟨rfl, List.forall_mem_cons.mpr ⟨htrap, h.valid⟩⟩
  vbs := List.forall_mem_cons.mpr ⟨sysUpTime_encodable h.timestamp,
    List.forall_mem_cons.mpr ⟨trapId_encodable (h.notifyId (Or.inr htype)), h.vbs⟩⟩
  notifyId := fun hnotification => hnotification.elim (fun hbad => by cases hbad) fun hbad => by cases hbad

theorem inform_sent : p.sent = (p.header ++ p.vblist).map Vb.encoded := by
  have hnotification : p.isNotification := Or.inr htype
  unfold MessagePdu.sent
  rw [adjusted_vblist h hnotification]
  refine List.map_congr_left fun vb _ => ?_
  rw [notification_not_cleared hnotification]

end Inform

/-- A response is sent as it is. -/
theorem reply_sent (p : MessagePdu) : p.reply.sent = (p.header ++ p.vblist).map Vb.encoded := by
  have hother : ¬ p.reply.isNotification := fun hboth => hboth.elim (fun hbad => by cases hbad) fun hbad => by cases hbad
  unfold MessagePdu.sent
  rw [MessagePdu.adjusted, if_neg hother]
  exact List.map_congr_left fun vb _ => congrArg Vb.encoded (loadVb_response vb)

theorem informed_loadable {p : MessagePdu} (h : p.Loadable) : p.informed.Loadable :=
  ⟨rfl, h.type, h.requestId, h.errorStatus, h.errorIndex, h.timestamp, h.valid, h.vbs, h.notifyId⟩

/-- The type does not change the length of a message. -/
theorem length_message {pdu pdu' : SnmpPdu} (h : pdu.command ≠ trpReqMsg) (h' : pdu'.command ≠ trpReqMsg)
    (hreqid : pdu.reqid = pdu'.reqid) (herrstat : pdu.errstat = pdu'.errstat) (herrindex : pdu.errindex = pdu'.errindex)
    (version : ℤ) (community : List Byte) (vars : List (Oid × RawValue)) :
    (message version community pdu vars).length = (message version community pdu' vars).length := by
  have hfields : dataFields pdu = dataFields pdu' := by
    unfold dataFields
    rw [if_pos h, if_pos h', hreqid, herrstat, herrindex]
  have hdata : (dataTlv pdu vars).length = (dataTlv pdu' vars).length := by
    rw [dataTlv, dataTlv, length_tlv, length_tlv, hfields]
  unfold message messageContent messageLength
  simp only [List.length_cons, List.length_append, hdata]

/-- Whoever sends an Inform gets the variables of its message back under its request id: the answer is made, it can
be sent, and it is read. -/
theorem inform_exchange {p : MessagePdu} (h : p.Loadable) (htype : p.type = snmpPduInform) (hstatus : p.errorStatus = 0)
    {host : Option (List ℕ)} {version : ℤ} (hversion : version = 0 ∨ version = 1) {community bytes : List Byte}
    (hcommunity : community.length ≤ 127) (hload : load host p community version = .ok bytes)
    (behind behind' : List Byte) (host' : Option (List ℕ)) :
    ∃ q r answer a, unload bytes behind = some ⟨version, community, q⟩ ∧ informReply q = some r ∧
      load host' r community version = .ok answer ∧ unload answer behind' = some ⟨version, community, a⟩ ∧
      answer.length = bytes.length ∧ a.type = snmpPduResponse ∧ a.requestId = p.requestId ∧ a.errorStatus = 0 ∧
      a.vblist = p.header ++ p.vblist := by
  have hother : p.type ≠ trpReqMsg := isNotification_not_trap (Or.inr htype)
  have hreceived := unload_of_other hother h hversion hload behind
  rw [if_pos hcommunity, inform_received htype] at hreceived
  have hinformed := informed_loadable h
  have hinform : p.informed.type = snmpPduInform := htype
  have hreply := reply_loadable hinform hinformed
  have hreplyOther : p.informed.reply.type ≠ trpReqMsg := (by decide : snmpPduResponse ≠ trpReqMsg)
  have hsent : p.informed.reply.sent = p.sent := (reply_sent p.informed).trans (inform_sent htype h).symm
  rw [load_of_other hother h] at hload
  split at hload
  case isFalse => cases hload
  rename_i hfits
  have hsame : (message version community (rawFields p.informed.reply) p.informed.reply.sent).length =
      (message version community (rawFields p) p.sent).length := by
    have hreqid : (rawFields p.informed.reply).reqid = (rawFields p).reqid :=
      congrArg (fun n => (BitVec.ofNat 64 n).toInt) (rfl : p.informed.reply.requestId = p.requestId)
    rw [hsent]
    exact length_message hreplyOther hother hreqid rfl rfl version community p.sent
  have hanswer := load_of_other hreplyOther hreply host' version community
  rw [if_pos (hsame.trans_le hfits)] at hanswer
  have hback := unload_of_other hreplyOther hreply hversion hanswer behind'
  rw [if_pos hcommunity] at hback
  refine ⟨p.informed, p.informed.reply, _, p.informed.reply.received, hreceived,
    informReply_eq hinform hinformed hstatus, hanswer, hback, ?_, rfl, rfl, hstatus, ?_⟩
  · cases hload
    exact hsame
  · exact (List.map_congr_left fun vb _ => loadVb_response vb).trans (List.map_id _)

theorem inform_exchange_sample : ∃ bytes q r answer a, load none coldStartInform [0x70, 0x75, 0x62] 1 = .ok bytes ∧
    unload bytes [] = some ⟨1, [0x70, 0x75, 0x62], q⟩ ∧ informReply q = some r ∧
    load none r [0x70, 0x75, 0x62] 1 = .ok answer ∧ unload answer [] = some ⟨1, [0x70, 0x75, 0x62], a⟩ ∧
    a.requestId = 7 ∧ a.vblist.length = 3 := by
  have hok : (load none coldStartInform [0x70, 0x75, 0x62] 1).isOk = true := by decide +kernel
  cases hload : load none coldStartInform [0x70, 0x75, 0x62] 1 with
  | error e =>
    rw [hload] at hok
    cases hok
  | ok bytes =>
    obtain ⟨q, r, answer, a, hunload, hreply, hanswer, hback, -, -, hid, -, hvbs⟩ :=
      inform_exchange coldStartInform_loadable rfl rfl (Or.inr rfl) (by decide) hload [] [] none
    exact ⟨bytes, q, r, answer, a, rfl, hunload, hreply, hanswer, hback, hid, by rw [hvbs]; rfl⟩

end SnmpB.Ber
