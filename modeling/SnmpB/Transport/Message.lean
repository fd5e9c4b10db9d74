import Mathlib.Data.List.MinMax
import SnmpB.Agent.Inform
import SnmpB.Discovery.Sweep
import SnmpB.Transport.Msec

/-! # Outstanding messages

A message waits in the queue of its session until a response comes, its retries are
used up, or it is cancelled. What happens is written into a log, whose length serves as
the time the clock is asked at and as the address of a new message.
-/
namespace SnmpB.Transport
open Agent Discovery

/-- The `sNMP_PDU_` constants that `snmp_engine` tells apart. -/
inductive PduAction
  | get | getAsync | set | setAsync | getNext | getNextAsync | getBulk | getBulkAsync
  | response | inform | informAsync | report | other
  deriving DecidableEq, Repr

/-- `map_action`. -/
def PduAction.mapAction : PduAction → PduType
  | .get | .getAsync => .get
  | .set | .setAsync => .set
  | .getNext | .getNextAsync => .getNext
  | .getBulk | .getBulkAsync => .getBulk
  | .response => .response
  | .inform | .informAsync => .inform
  | .report => .report
  | .other => .get

def PduAction.async : PduAction → Bool
  | .getAsync | .setAsync | .getNextAsync | .getBulkAsync | .informAsync => true
  | _ => false

def PduAction.blocking : PduAction → Bool
  | .get | .set | .getNext | .getBulk | .inform => true
  | _ => false

/-- The PDU a caller hands in. -/
structure AskedPdu extends Pdu where
  action : PduAction
  valid : Bool
  notifyTimestamp : ℕ
  notifyId : Oid
  deriving DecidableEq

/-- A PDU in the queue, or parsed from a datagram. -/
structure QueuePdu extends NotifyPdu where
  requestId : ℕ
  deriving DecidableEq

def matchType : PduType → PduType → Bool
  | .get, t | .getNext, t | .set, t | .getBulk, t | .inform, t => t == .response || t == .report
  | .report, _ | .response, _ | .v1trap, _ | .trap, _ => false

inductive TargetKind
  | base | ctarget | utarget | unknown
  deriving DecidableEq, Repr

inductive AddressKind
  | ip | udp | other
  deriving DecidableEq, Repr

structure TargetAddress where
  kind : AddressKind
  valid : Bool
  ipVersion : IpVersion
  port : ℕ
  deriving DecidableEq

structure SnmpTarget where
  kind : TargetKind
  valid : Bool
  version : SnmpVersion
  address : TargetAddress
  readCommunity : List ℕ
  writeCommunity : List ℕ
  securityName : List ℕ
  securityModel : ℕ
  /-- in hundredths of seconds -/
  timeout : ℕ
  retry : ℤ
  deriving DecidableEq

/-- The arguments of a request that a retry needs again. -/
structure Request where
  pdu : AskedPdu
  nonReps : ℕ
  maxReps : ℕ
  target : SnmpTarget
  deriving DecidableEq

/-- `V3CallBackData`. The callback data stands for the function as well. -/
structure V3CallBackData where
  request : Request
  cbd : ℕ
  reportsReceived : ℕ
  async : request.pdu.action.async = true
  deriving DecidableEq

/-- A callback function with its data. -/
inductive Callback
  | user (cbd : ℕ)
  | v3CallBack (data : V3CallBackData)
  deriving DecidableEq

def Callback.cbd : Callback → ℕ
  | .user cbd => cbd
  | .v3CallBack data => data.cbd

/-- `serial` is the address of the object. -/
structure CSNMPMessage where
  serial : ℕ
  uniqueId : ℕ
  sendTime : Instant
  socket : ℕ
  target : SnmpTarget
  pdu : QueuePdu
  rawPdu : List ℕ
  callBack : Option Callback
  reason : ℤ
  received : Bool
  locked : Bool
  deriving DecidableEq

inductive Output
  /-- a request with a callback is made -/
  | asked (cbd : ℕ) (request : Request)
  /-- the request comes back at once with an error -/
  | refused (cbd : ℕ) (status : ℤ)
  | queued (msg : CSNMPMessage)
  | sent (msg : Option CSNMPMessage) (raw : List ℕ) (ok : Bool)
  | received (pdu : QueuePdu)
  /-- the message is given up at a time -/
  | timedOut (serial : ℕ) (now : Instant)
  | called (cbd : ℕ) (reason : ℤ) (pdu : QueuePdu)
  | cancelled (cbd : ℕ)
  /-- a blocked request comes back -/
  | returned (uniqueId : ℕ) (status : ℤ)
  deriving DecidableEq

/-! ## The message -/

namespace CSNMPMessage

/-- "remove the first two vbs of the pdu if sysUpTime and notify_id" -/
def stripNotification (p : QueuePdu) : QueuePdu :=
  match p.vblist with
  | ⟨vb1, .timeticks timeticks⟩ :: ⟨vb2, .oid oid⟩ :: rest =>
    if vb1 = snmpMsgOidSysUpTime ∧ vb2 = snmpMsgOidTrapId then
      { p with notifyTimestamp := timeticks, notifyId := oid, vblist := rest }
    else p
  | _ => p

/-- `SetPdu`; none where the type does not match. -/
def setPdu (m : CSNMPMessage) (reason : ℤ) (pdu : QueuePdu) : Option CSNMPMessage :=
  if matchType m.pdu.type pdu.type = false then none
  else if m.received = true ∧ (reason ≠ 0 ∨ m.reason = 0) then some m
  else
    let stored := if m.pdu.type = .inform ∧ pdu.type = .response then stripNotification pdu else pdu
    some { m with received := true, pdu := stored, reason }

end CSNMPMessage

/-! ## The queue -/

/-- `m_msgCount` is a member of its own, and what `GetCount` answers. -/
structure Engine where
  queue : List CSNMPMessage
  msgCount : ℕ
  currentRid : ℕ
  log : List Output

namespace Engine

def logged (s : Engine) (o : Output) : Engine := { s with log := s.log ++ [o] }

def getEntry (s : Engine) (uniqueId : ℕ) : Option CSNMPMessage :=
  s.queue.find? fun m => m.uniqueId == uniqueId

def classInvalidReqid : ℤ := -14

/-- `DeleteEntry`; it spins for ever on a locked message. -/
def deleteEntry (s : Engine) (uniqueId : ℕ) : Option (ℤ × Engine) :=
  match s.getEntry uniqueId with
  | none => some (classInvalidReqid, s)
  | some m =>
    if m.locked then none
    else some (0, { s with queue := s.queue.eraseP fun m => m.uniqueId == uniqueId, msgCount := s.msgCount - 1 })

/-- `AddEntry` inserts at the head. -/
def addEntry (s : Engine) (m : CSNMPMessage) : Engine :=
  { s with queue := m :: s.queue, msgCount := s.msgCount + 1, log := s.log ++ [.queued m] }

/-- Writing to a message through its address. -/
def modify (s : Engine) (serial : ℕ) (f : CSNMPMessage → CSNMPMessage) : Engine :=
  { s with queue := s.queue.map fun m => if m.serial = serial then f m else m }

def setLocked (s : Engine) (serial : ℕ) (l : Bool) : Engine := s.modify serial fun m => { m with locked := l }

/-- One turn of the search: "This would be much simpler if the queue was an ordered list!" -/
def better (best : Option CSNMPMessage) (m : CSNMPMessage) : Option CSNMPMessage :=
  match best with
  | none => some m
  | some b => if b.sendTime.val.greater m.sendTime.val then some m else some b

def getNextTimeoutEntry (s : Engine) : Option CSNMPMessage := s.queue.foldl better none

/-- `Done(id)`. -/
def done (s : Engine) (uniqueId : ℕ) : Bool :=
  match s.getEntry uniqueId with
  | none => true
  | some m => m.received

/-- It is the first of those that are due first. -/
theorem getNextTimeoutEntry_eq_argmin (s : Engine) : s.getNextTimeoutEntry = s.queue.argmin (·.sendTime) := by
  unfold getNextTimeoutEntry List.argmin
  congr 1
  funext best m
  cases best with
  | none => rfl
  | some b =>
    simp only [better, List.argAux, Instant.greater_iff]

theorem getNextTimeoutEntry_eq_none {s : Engine} : s.getNextTimeoutEntry = none ↔ s.queue = [] := by
  rw [getNextTimeoutEntry_eq_argmin, List.argmin_eq_none]

theorem getNextTimeoutEntry_mem {s : Engine} {m : CSNMPMessage} (h : s.getNextTimeoutEntry = some m) :
    m ∈ s.queue := by
  rw [getNextTimeoutEntry_eq_argmin] at h
  exact List.argmin_mem h

theorem getNextTimeoutEntry_le {s : Engine} {m : CSNMPMessage} (h : s.getNextTimeoutEntry = some m) :
    ∀ m' ∈ s.queue, m.sendTime ≤ m'.sendTime := by
  intro m' hm'
  rw [getNextTimeoutEntry_eq_argmin] at h
  exact List.le_of_mem_argmin hm' h

theorem getEntry_mem {s : Engine} {uniqueId : ℕ} {m : CSNMPMessage} (h : s.getEntry uniqueId = some m) :
    m ∈ s.queue ∧ m.uniqueId = uniqueId :=
  ⟨List.mem_of_find?_eq_some h, by simpa using List.find?_some h⟩

theorem getEntry_eq_none {s : Engine} {uniqueId : ℕ} :
    s.getEntry uniqueId = none ↔ uniqueId ∉ s.queue.map (·.uniqueId) := by
  simp [getEntry, List.find?_eq_none]

end Engine

end SnmpB.Transport
