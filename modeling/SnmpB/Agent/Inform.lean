import Mathlib.Data.List.Induction
import Mathlib.Logic.Function.Iterate
import SnmpB.Agent.Pdu

/-! # Answering an Inform

The library takes the first two varbinds of a notification out of the list, as its
timestamp and its id. The response puts them back in front of the others.
-/
namespace SnmpB.Agent

/-! ## The parsed message -/

/-- What `snmp_parse_vb` accepts as a value; the last two have no value class. -/
inductive RawValue
  | integer (v : ℤ)
  | counter (n : ℕ)
  | gauge (n : ℕ)
  | timeticks (n : ℕ)
  | counter64 (n : ℕ)
  | octetStr (bytes : List ℕ)
  | ipaddress (bytes : List ℕ)
  | opaqueStr (bytes : List ℕ)
  | objectId (v : Oid)
  | null
  | noSuchObject
  | noSuchInstance
  | endOfMibView
  | uinteger (n : ℕ)
  | nsap (bytes : List ℕ)
  deriving DecidableEq, Repr

/-- A `variable_list` entry; no parsed OID is empty. -/
structure RawVariable where
  name : Oid
  val : RawValue
  named : name ≠ []
  valued : val ≠ .objectId []
  deriving DecidableEq

inductive PduType
  | get | getNext | response | set | v1trap | getBulk | inform | trap | report
  deriving DecidableEq, Repr

/-- A PDU with the members of a notification. -/
structure NotifyPdu extends Pdu where
  type : PduType
  notifyTimestamp : ℕ
  notifyId : Oid
  deriving DecidableEq

def snmpMsgOidSysUpTime : Oid := [1, 3, 6, 1, 2, 1, 1, 3, 0]
def snmpMsgOidTrapId : Oid := [1, 3, 6, 1, 6, 3, 1, 1, 4, 1, 0]

/-- An address has four or sixteen octets, and an OID some identifier. -/
def Value.valid : Value → Bool
  | .ipaddr bytes => bytes.length == 4 || bytes.length == 16
  | .oid v => !v.isEmpty
  | _ => true

def Vb.valid (vb : Vb) : Bool := !vb.oid.isEmpty && vb.value.valid

namespace NotifyPdu

/-- `operator+=`: "dont add invalid Vbs". -/
def add (p : NotifyPdu) (vb : Vb) : NotifyPdu :=
  if vb.valid then { p with vblist := p.vblist ++ [vb] } else p

/-- "Trim off the last vb", `count` times; nothing where there are not so many. -/
def trim (p : NotifyPdu) (count : ℕ) : NotifyPdu :=
  if p.vblist.length < count then p else { p with vblist := List.dropLast^[count] p.vblist }

end NotifyPdu

/-- The value object made of a parsed value; the address of any other length is made of an empty
text, and an unknown syntax gives a null. -/
def RawValue.toValue : RawValue → Value
  | .integer v => .int32 v
  | .counter n => .cntr32 n
  | .gauge n => .gauge32 n
  | .timeticks n => .timeticks n
  | .counter64 n => .cntr64 n
  | .octetStr bytes => .octets bytes
  | .ipaddress bytes => .ipaddr (if bytes.length = 16 ∨ bytes.length = 4 then bytes else [])
  | .opaqueStr bytes => .opaqueStr bytes
  | .objectId v => .oid v
  | .null => .null
  | .noSuchObject => .noSuchObject
  | .noSuchInstance => .noSuchInstance
  | .endOfMibView => .endOfMibView
  | .uinteger _ | .nsap _ => .null

def PduType.isNotification (type : PduType) : Bool := type == .trap || type == .inform

/-- One pass of the loop in `SnmpMessage::unload`. -/
def unloadVariable (vbNr : ℕ) (v : RawVariable) (p : NotifyPdu) : NotifyPdu :=
  match v.val with
  | .objectId id =>
    if vbNr = 2 ∧ p.type.isNotification ∧ v.name = snmpMsgOidTrapId then { p with notifyId := id }
    else p.add ⟨v.name, v.val.toValue⟩
  | .timeticks ticks =>
    if vbNr = 1 ∧ p.type.isNotification ∧ v.name = snmpMsgOidSysUpTime then
      { p with notifyTimestamp := ticks }
    else p.add ⟨v.name, v.val.toValue⟩
  | _ => p.add ⟨v.name, v.val.toValue⟩

def unloadFrom : ℕ → List RawVariable → NotifyPdu → NotifyPdu
  | _, [], p => p
  | vbNr, v :: rest, p => unloadFrom (vbNr + 1) rest (unloadVariable vbNr v p)

/-- The PDU of a parsed message. -/
def unload (type : PduType) (errorStatus : ℕ) (errorIndex : ℤ) (vars : List RawVariable) : NotifyPdu :=
  unloadFrom 1 vars
    { vblist := [], errorStatus, errorIndex, type, notifyTimestamp := 0, notifyId := [] }

/-- `Snmp::response` sets the type. -/
def response (p : NotifyPdu) : NotifyPdu := { p with type := .response }

/-- "Copy the PDU object to feed back in the response". -/
def informResponse (pdu : NotifyPdu) : NotifyPdu :=
  let ipdu := pdu
  let t : Vb := ⟨snmpMsgOidSysUpTime, .timeticks pdu.notifyTimestamp⟩
  let d : Vb := ⟨snmpMsgOidTrapId, .oid pdu.notifyId⟩
  let ipdu := ipdu.trim pdu.vblist.length
  let ipdu := (ipdu.add t).add d
  response (pdu.vblist.foldl NotifyPdu.add ipdu)

def classNotification : ℤ := -7

/-- `Agent::AsyncCallbackTrap`: the response, if one is sent. -/
def asyncCallbackTrap (reason : ℤ) (pdu : NotifyPdu) : Option NotifyPdu :=
  if reason ≠ classNotification ∨ pdu.errorStatus ≠ 0 then none
  else if pdu.type = .inform then some (informResponse pdu)
  else none

/-! ## What goes back on the wire -/

/-- The syntax and the value under which a varbind is encoded. -/
def Value.toRaw : Value → RawValue
  | .int32 v => .integer v
  | .cntr32 n => .counter n
  | .gauge32 n => .gauge n
  | .timeticks n => .timeticks n
  | .cntr64 n => .counter64 n
  | .octets bytes => .octetStr bytes
  | .opaqueStr bytes => .opaqueStr bytes
  | .oid v => .objectId v
  | .ipaddr bytes => .ipaddress bytes
  | .null => .null
  | .noSuchObject => .noSuchObject
  | .noSuchInstance => .noSuchInstance
  | .endOfMibView => .endOfMibView

def Vb.encoded (vb : Vb) : Oid × RawValue := (vb.oid, vb.value.toRaw)

def RawVariable.content (v : RawVariable) : Oid × RawValue := (v.name, v.val)

/-- The library has a value class for it, which accepts it. -/
def RawValue.Representable : RawValue → Prop
  | .ipaddress bytes => bytes.length = 4 ∨ bytes.length = 16
  | .uinteger _ | .nsap _ => False
  | _ => True

instance (v : RawValue) : Decidable v.Representable := by
  unfold RawValue.Representable
  split <;> infer_instance

def sysUpTime (ticks : ℕ) : RawVariable := ⟨snmpMsgOidSysUpTime, .timeticks ticks, by decide, by simp⟩

def snmpTrapOid (id : Oid) (hid : id ≠ []) : RawVariable :=
  ⟨snmpMsgOidTrapId, .objectId id, by decide, by simpa using hid⟩

/-! ## The lists on the way -/

theorem NotifyPdu.add_vblist (p : NotifyPdu) (vb : Vb) :
    (p.add vb).vblist = p.vblist ++ [vb].filter Vb.valid := by
  unfold NotifyPdu.add
  cases hvalid : vb.valid with
  | true => simp [hvalid]
  | false => simp [hvalid]

theorem NotifyPdu.add_frame (p : NotifyPdu) (vb : Vb) : ∃ vblist, p.add vb = { p with vblist } := by
  unfold NotifyPdu.add
  split
  · exact ⟨_, rfl⟩
  · exact ⟨p.vblist, rfl⟩

theorem NotifyPdu.foldl_add_vblist (vbs : List Vb) (p : NotifyPdu) :
    (vbs.foldl NotifyPdu.add p).vblist = p.vblist ++ vbs.filter Vb.valid := by
  induction vbs generalizing p with
  | nil => simp
  | cons vb vbs ih =>
    rw [List.foldl_cons, ih, NotifyPdu.add_vblist, List.append_assoc, ← List.filter_append,
      List.singleton_append]

theorem iterate_dropLast_length (vbs : List Vb) : List.dropLast^[vbs.length] vbs = [] := by
  induction vbs using List.reverseRecOn with
  | nil => rfl
  | append_singleton vbs vb ih =>
    rw [List.length_append, List.length_singleton, Function.iterate_succ_apply, List.dropLast_concat, ih]

/-- "Remove all varbinds first". -/
theorem NotifyPdu.trim_all (p : NotifyPdu) : p.trim p.vblist.length = { p with vblist := [] } := by
  unfold NotifyPdu.trim
  rw [if_neg (Nat.lt_irrefl _), iterate_dropLast_length]

def RawVariable.vb (v : RawVariable) : Vb := ⟨v.name, v.val.toValue⟩

/-- Behind the second varbind nothing is taken out any more. -/
theorem unloadVariable_later {vbNr : ℕ} (h : 2 < vbNr) (v : RawVariable) (p : NotifyPdu) :
    unloadVariable vbNr v p = p.add v.vb := by
  unfold unloadVariable RawVariable.vb
  split
  · rw [if_neg (fun hsecond => by omega)]
  · rw [if_neg (fun hfirst => by omega)]
  · rfl

theorem unloadFrom_later {vbNr : ℕ} (h : 2 < vbNr) (vars : List RawVariable) (p : NotifyPdu) :
    unloadFrom vbNr vars p = (vars.map RawVariable.vb).foldl NotifyPdu.add p := by
  induction vars generalizing vbNr p with
  | nil => rfl
  | cons v rest ih =>
    rw [unloadFrom, unloadVariable_later h, ih (by omega)]
    rfl

theorem foldl_add_frame (vbs : List Vb) (p : NotifyPdu) :
    ∃ vblist, vbs.foldl NotifyPdu.add p = { p with vblist } := by
  induction vbs generalizing p with
  | nil => exact ⟨p.vblist, rfl⟩
  | cons vb vbs ih =>
    obtain ⟨vblist, hadd⟩ := p.add_frame vb
    obtain ⟨vblist', hrest⟩ := ih (p.add vb)
    exact ⟨vblist', by rw [List.foldl_cons, hrest, hadd]⟩

/-- An unloaded Inform: its first two varbinds are its timestamp and its id. -/
theorem unload_inform (ticks : ℕ) {id : Oid} (hid : id ≠ []) (errorStatus : ℕ) (errorIndex : ℤ)
    (rest : List RawVariable) :
    unload .inform errorStatus errorIndex (sysUpTime ticks :: snmpTrapOid id hid :: rest) =
      { vblist := (rest.map RawVariable.vb).filter Vb.valid, errorStatus, errorIndex, type := .inform
        notifyTimestamp := ticks, notifyId := id } := by
  have htail := unloadFrom_later (by decide : 2 < 3) rest
    { vblist := [], errorStatus, errorIndex, type := .inform, notifyTimestamp := ticks, notifyId := id }
  obtain ⟨vblist, hframe⟩ := foldl_add_frame (rest.map RawVariable.vb)
    { vblist := [], errorStatus, errorIndex, type := .inform, notifyTimestamp := ticks, notifyId := id }
  have hlist := congrArg (fun p : NotifyPdu => p.vblist) hframe
  simp only [NotifyPdu.foldl_add_vblist, List.nil_append] at hlist
  rw [hlist]
  exact htail.trans hframe

theorem informResponse_vblist {p : NotifyPdu} (hid : p.notifyId ≠ []) (hvalid : ∀ vb ∈ p.vblist, vb.valid) :
    (informResponse p).vblist =
      ⟨snmpMsgOidSysUpTime, .timeticks p.notifyTimestamp⟩ :: ⟨snmpMsgOidTrapId, .oid p.notifyId⟩ :: p.vblist := by
  have ht : Vb.valid ⟨snmpMsgOidSysUpTime, .timeticks p.notifyTimestamp⟩ = true := rfl
  have hd : Vb.valid ⟨snmpMsgOidTrapId, .oid p.notifyId⟩ = true := by
    simpa [Vb.valid, Value.valid, snmpMsgOidTrapId] using hid
  unfold informResponse response
  simp only [NotifyPdu.trim_all, NotifyPdu.foldl_add_vblist, NotifyPdu.add_vblist, List.nil_append,
    List.filter_cons_of_pos ht, List.filter_cons_of_pos hd, List.filter_nil,
    List.filter_eq_self.mpr hvalid, List.cons_append]

/-- A value survives the library exactly when it is representable. -/
theorem survives_iff (v : RawVariable) :
    (v.vb.valid = true ∧ v.vb.encoded = v.content) ↔ v.val.Representable := by
  have hname : v.name.isEmpty = false := by simpa using v.named
  have hvalue := v.valued
  unfold Vb.valid Vb.encoded RawVariable.content RawVariable.vb
  simp only [hname, Bool.not_false, Bool.true_and, Prod.mk.injEq, true_and]
  cases hval : v.val with
  | ipaddress bytes =>
    by_cases hlength : bytes.length = 16 ∨ bytes.length = 4
    · simp [RawValue.toValue, Value.toRaw, Value.valid, RawValue.Representable, hlength]
    · simp only [RawValue.toValue, if_neg hlength, Value.valid, List.length_nil, RawValue.Representable]
      exact iff_of_false (fun h => absurd h.1 (by decide)) (fun h => hlength h.symm)
  | objectId id =>
    rw [hval] at hvalue
    simpa [RawValue.toValue, Value.toRaw, Value.valid, RawValue.Representable] using hvalue
  | uinteger n => simp [RawValue.toValue, Value.toRaw, RawValue.Representable]
  | nsap bytes => simp [RawValue.toValue, Value.toRaw, RawValue.Representable]
  | _ => simp [RawValue.toValue, Value.toRaw, Value.valid, RawValue.Representable]

theorem filter_encoded_iff (rest : List RawVariable) :
    (((rest.map RawVariable.vb).filter Vb.valid).map Vb.encoded = rest.map RawVariable.content) ↔
      ∀ v ∈ rest, v.val.Representable := by
  induction rest with
  | nil => simp
  | cons v rest ih =>
    rw [List.forall_mem_cons, ← ih, ← survives_iff, List.map_cons, List.map_cons]
    cases hvalid : v.vb.valid with
    | true =>
      rw [List.filter_cons_of_pos hvalid, List.map_cons, List.cons.injEq]
      simp
    | false =>
      -- a varbind that is not added leaves the list one short
      rw [List.filter_cons_of_neg (by simp [hvalid])]
      refine iff_of_false (fun hsame => ?_) (fun h => Bool.false_ne_true h.1.1)
      have hlength := congrArg List.length hsame
      have hshort := List.length_filter_le Vb.valid (rest.map RawVariable.vb)
      simp only [List.length_map, List.length_cons] at hlength hshort
      omega

/-- Main result: an Inform is answered where it has no error status, and an answer carries the
varbinds of the message exactly when the library can represent all of them. -/
theorem inform_answered_iff (reason : ℤ) (ticks : ℕ) {id : Oid} (hid : id ≠ []) (errorStatus : ℕ)
    (errorIndex : ℤ) (rest : List RawVariable) :
    ((asyncCallbackTrap reason
        (unload .inform errorStatus errorIndex (sysUpTime ticks :: snmpTrapOid id hid :: rest))).isSome ↔
      reason = classNotification ∧ errorStatus = 0) ∧
    ∀ answer, asyncCallbackTrap reason
        (unload .inform errorStatus errorIndex (sysUpTime ticks :: snmpTrapOid id hid :: rest)) = some answer →
      (answer.vblist.map Vb.encoded =
          (sysUpTime ticks :: snmpTrapOid id hid :: rest).map RawVariable.content ↔
        ∀ v ∈ rest, v.val.Representable) := by
  rw [unload_inform]
  unfold asyncCallbackTrap
  by_cases hbail : reason ≠ classNotification ∨ errorStatus ≠ 0
  · rw [if_pos hbail]
    refine ⟨iff_of_false (by simp) ?_, fun answer h => by cases h⟩
    rintro ⟨hreason, hstatus⟩
    exact hbail.elim (fun h => h hreason) (fun h => h hstatus)
  · rw [if_neg hbail]
    rw [not_or, not_not, not_not] at hbail
    refine ⟨iff_of_true rfl hbail, fun answer h => ?_⟩
    cases h
    rw [informResponse_vblist hid (fun vb hvb => (List.mem_filter.mp hvb).2), ← filter_encoded_iff]
    simp only [List.map_cons, List.cons.injEq]
    exact ⟨fun h => h.2.2, fun h => ⟨rfl, rfl, h⟩⟩

/-- `coldStart` with the special OIDs repeated behind it. -/
def repeated : List RawVariable :=
  [sysUpTime 7, snmpTrapOid [1, 3, 6, 1, 6, 3, 1, 1, 5, 1] (by decide), sysUpTime 8]

theorem inform_answered_iff_repeated :
    ∃ answer, asyncCallbackTrap classNotification (unload .inform 0 0
        (sysUpTime 5 :: snmpTrapOid [1, 3, 6, 1, 6, 3, 1, 1, 5, 1] (by decide) :: repeated)) = some answer ∧
      (answer.vblist.map Vb.encoded =
          (sysUpTime 5 :: snmpTrapOid [1, 3, 6, 1, 6, 3, 1, 1, 5, 1] (by decide) :: repeated).map
            RawVariable.content ↔
        ∀ v ∈ repeated, v.val.Representable) := by
  obtain ⟨hanswers, hcontent⟩ := inform_answered_iff classNotification 5
    (by decide : [1, 3, 6, 1, 6, 3, 1, 1, 5, 1] ≠ []) 0 0 repeated
  obtain ⟨answer, hanswer⟩ := Option.isSome_iff_exists.mp (hanswers.mpr ⟨rfl, rfl⟩)
  exact ⟨answer, hanswer, hcontent answer hanswer⟩

/-- A UInteger32 comes back as a null. -/
theorem uinteger_lost :
    ¬ ∀ (ticks : ℕ) (id : Oid) (hid : id ≠ []) (rest : List RawVariable) (answer : NotifyPdu),
      asyncCallbackTrap classNotification
        (unload .inform 0 0 (sysUpTime ticks :: snmpTrapOid id hid :: rest)) = some answer →
      answer.vblist.map Vb.encoded =
        (sysUpTime ticks :: snmpTrapOid id hid :: rest).map RawVariable.content := by
  intro h
  have hsame := h 5 [1, 3, 6, 1, 6, 3, 1, 1, 5, 1] (by decide)
    [⟨[1, 3, 6, 1, 4, 1, 9, 1], .uinteger 5, by decide, by decide⟩] _ rfl
  revert hsame
  decide

end SnmpB.Agent
