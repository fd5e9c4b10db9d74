import SnmpB.Library.Loop
import SnmpB.Transport.Message

/-! # The request engine

Requests go out with an id no other outstanding message has. A callback may make and
cancel requests of its own; SNMPv3 puts a callback of the library before that of the
caller, which repeats a request that was answered by a report.
-/
namespace SnmpB.Transport
open Agent Discovery

/-- The functions of `Snmp` that take a callback. -/
inductive AsyncCall
  | get | getNext | set | getBulk | inform
  deriving DecidableEq, Repr

def AsyncCall.action : AsyncCall → PduAction
  | .get => .getAsync
  | .getNext => .getNextAsync
  | .set => .setAsync
  | .getBulk => .getBulkAsync
  | .inform => .informAsync

/-- The same functions without a callback. -/
def AsyncCall.blockingAction : AsyncCall → PduAction
  | .get => .get
  | .getNext => .getNext
  | .set => .set
  | .getBulk => .getBulk
  | .inform => .inform

/-- What a callback does with the session before it returns, each time with all that has
happened in view. -/
inductive Program
  | ret
  | ask (call : AsyncCall) (r : Request) (cbd : ℕ) (k : List Output → Program)
  | response (r : Request) (fd : ℕ) (k : List Output → Program)
  | cancel (uniqueId : ℕ) (k : List Output → Program)

/-- The world around a session: the clock and the network at each point of the log, the sockets,
the encoding of a message, and the callbacks. -/
structure Env where
  clock : ℕ → Instant
  send : ℕ → Bool
  snmpSession : Option ℕ
  snmpSessionIpv6 : ℕ
  load : List Output → PduType → ℕ → Request → ℤ × List ℕ
  react : List Output → ℕ → ℤ → QueuePdu → Program

def classSuccess : ℤ := 0
def classUnsupported : ℤ := -4
def classTimedOut : ℤ := -5
def classAsyncResponse : ℤ := -6
def classSessionDestroyed : ℤ := -8
def classInvalidPdu : ℤ := -11
def classInvalidTarget : ℤ := -12
def classInvalidCallback : ℤ := -13
def classInvalidOperation : ℤ := -16
def classTlUnsupported : ℤ := -20
def classTlFailed : ℤ := -22

def pduMaxRid : ℕ := 32767
def pduMinRid : ℕ := 1000
def defaultSnmpPort : ℕ := 161
def defaultSnmpTrapPort : ℕ := 162
def securityModelV1 : ℕ := 1
def securityModelV2 : ℕ := 2

def oidUsmStatsNotInTimeWindows : Oid := [1, 3, 6, 1, 6, 3, 15, 1, 1, 2, 0]
def oidUsmStatsUnknownEngineIDs : Oid := [1, 3, 6, 1, 6, 3, 15, 1, 1, 4, 0]

/-- The security model of a `UTarget` that is not for SNMPv3. -/
def SnmpTarget.modelMismatch (t : SnmpTarget) : Bool :=
  (t.version == .version1 && t.securityModel != securityModelV1) ||
    (t.version == .version2c && t.securityModel != securityModelV2)

/-- The checks of `snmp_engine` in their order. -/
def Request.refusal (r : Request) (cb : Bool) : Option ℤ :=
  if r.pdu.valid = false then some classInvalidPdu
  else if cb = false ∧ r.pdu.action.async = true then some classInvalidCallback
  else if cb = true ∧ r.pdu.action.blocking = true then some classInvalidCallback
  else if r.target.valid = false then some classInvalidTarget
  else if r.target.kind = .base then some classInvalidTarget
  else if r.target.kind = .unknown then some classUnsupported
  else if r.target.kind = .ctarget ∧ (r.target.version = .version3 ∨ r.pdu.action = .report) then
    some classInvalidTarget
  else if r.target.kind = .utarget ∧ r.target.modelMismatch = true then some classInvalidTarget
  else if r.target.address.valid = false then some classInvalidTarget
  else if r.target.address.kind = .other then some classTlUnsupported
  else none

/-- "choose the target address port" -/
def SnmpTarget.withPort (t : SnmpTarget) (type : PduType) : SnmpTarget :=
  if t.address.kind = .ip ∨ t.address.port = 0 then
    let port := if type = .inform then defaultSnmpTrapPort else defaultSnmpPort
    { t with address := { t.address with kind := .udp, port } }
  else t

/-- Requests wait for an answer, responses and reports do not. -/
def PduType.tracked (type : PduType) : Bool := type != .response && type != .report

/-- "map GetBulk over v1 to GetNext" -/
def bulkOverV1 (type : PduType) (version : SnmpVersion) : PduType :=
  if type = .getBulk ∧ version = .version1 then .getNext else type

/-- The PDU as the checks have passed it on. -/
def Request.prepared (r : Request) : Request :=
  let type := r.pdu.action.mapAction
  let errorIndex := if PduType.tracked type then 0 else r.pdu.errorIndex
  let pdu :=
    if bulkOverV1 type r.target.version = .getBulk then
      { r.pdu with errorStatus := r.nonReps, errorIndex := r.maxReps }
    else { r.pdu with errorIndex }
  { r with pdu, target := r.target.withPort type }

def Request.type (r : Request) : PduType := bulkOverV1 r.pdu.action.mapAction r.target.version

variable (env : Env)

/-- "check socket to use" -/
def Env.socket (fd : Option ℕ) (target : SnmpTarget) : ℕ :=
  fd.getD (match target.address.ipVersion with
    | .ipv4 => env.snmpSession.getD env.snmpSessionIpv6
    | .ipv6 => env.snmpSessionIpv6)

/-! ## Request ids -/

def nextRid (currentRid : ℕ) : ℕ := if currentRid + 1 > pduMaxRid then pduMinRid else currentRid + 1

/-- The loop of `MyMakeReqId`. -/
def makeReqIdLoop : ℕ → Engine → Option (ℕ × Engine)
  | 0, _ => none
  | fuel + 1, s =>
    let rid := nextRid s.currentRid
    let s := { s with currentRid := rid }
    if (s.getEntry rid).isSome then makeReqIdLoop fuel s else some (rid, s)

/-- None where the loop never ends, every id being in use. -/
def myMakeReqId (s : Engine) : Option (ℕ × Engine) := makeReqIdLoop (pduMaxRid - pduMinRid + 1) s

/-! ## Sending -/

/-- `send_snmp_request`: whether it succeeds. -/
def sendSnmpRequest (msg : Option CSNMPMessage) (raw : List ℕ) (s : Engine) : Bool × Engine :=
  let ok := env.send s.log.length
  (ok, s.logged (.sent msg raw ok))

/-- The constructor of `CSNMPMessage`. -/
def newMessage (s : Engine) (rid : ℕ) (r : Request) (fd : Option ℕ) (raw : List ℕ)
    (callBack : Option Callback) : CSNMPMessage where
  serial := s.log.length
  uniqueId := rid
  sendTime := (env.clock s.log.length).later r.target.timeout
  socket := env.socket fd r.target
  target := r.target
  pdu :=
    { vblist := r.pdu.vblist, errorStatus := 0, errorIndex := 0, type := r.type
      notifyTimestamp := r.pdu.notifyTimestamp, notifyId := r.pdu.notifyId, requestId := rid }
  rawPdu := raw
  callBack
  reason := 0
  received := false
  locked := false

/-- The callback that goes into the queue. -/
def Request.callBack (r : Request) (cb : Option ℕ) (reportsReceived : ℕ) : Option Callback :=
  cb.map fun cbd =>
    if h : r.target.version = .version3 ∧ r.pdu.action.async = true then
      .v3CallBack ⟨r, cbd, reportsReceived, h.2⟩
    else .user cbd

/-- A message that goes into the queue and out; the queue drops it again when it cannot be sent. -/
def sendTracked (m : CSNMPMessage) (s : Engine) : Option (ℤ × Engine) :=
  let (ok, s) := sendSnmpRequest env (some m) m.rawPdu (s.addEntry m)
  if ok then some (classSuccess, s)
  else (s.deleteEntry m.uniqueId).map fun (_, s) => (classTlFailed, s)

/-- `snmp_engine`, up to where a call without a callback waits for the response. -/
def snmpEngine (r : Request) (cb : Option ℕ) (fd : Option ℕ) (reportsReceived : ℕ) (s : Engine) :
    Option (ℤ × Engine) :=
  match r.refusal cb.isSome with
  | some status => some (status, s)
  | none =>
    let p := r.prepared
    if PduType.tracked r.pdu.action.mapAction then do
      let (rid, s) ← myMakeReqId s
      let (status, raw) := env.load s.log r.type rid p
      if status ≠ classSuccess then some (status, s)
      else sendTracked env (newMessage env s rid p fd raw (p.callBack cb reportsReceived)) s
    else
      let (status, raw) := env.load s.log r.type 0 p
      if status ≠ classSuccess then some (status, s)
      else
        let (ok, s) := sendSnmpRequest env none raw s
        some (if ok then classSuccess else classTlFailed, s)

/-- `check_notify_timestamp`. -/
def checkNotifyTimestamp (s : Engine) (pdu : AskedPdu) : AskedPdu :=
  if pdu.notifyTimestamp ≤ 0 then
    { pdu with notifyTimestamp := ((env.clock s.log.length).val.ms / 10).toNat }
  else pdu

/-- `get`, `get_next`, `set`, `get_bulk` and `inform`. -/
def call (c : AsyncCall) (action : PduAction) (r : Request) (cb : Option ℕ) (s : Engine) : Option (ℤ × Engine) :=
  let pdu := { r.pdu with action }
  match c with
  | .getBulk => snmpEngine env { r with pdu } cb none 0 s
  | .get | .getNext | .set => snmpEngine env { r with pdu, nonReps := 0, maxReps := 0 } cb none 0 s
  | .inform =>
    if r.target.version = .version1 then some (classInvalidOperation, s)
    else
      snmpEngine env { r with pdu := checkNotifyTimestamp env s pdu, nonReps := 0, maxReps := 0 } cb none 0 s

/-- A call with a callback. -/
def Snmp.ask (c : AsyncCall) (r : Request) (cbd : ℕ) (s : Engine) : Option (ℤ × Engine) := do
  let (status, s) ← call env c c.action r (some cbd) (s.logged (.asked cbd r))
  some (status, if status ≠ classSuccess then s.logged (.refused cbd status) else s)

/-- `Snmp::response`. -/
def Snmp.response (r : Request) (fd : ℕ) (s : Engine) : Option (ℤ × Engine) :=
  snmpEngine env { r with pdu := { r.pdu with action := .response }, nonReps := 0, maxReps := 0 } none (some fd) 0 s

/-- `Snmp::cancel`. -/
def Snmp.cancel (uniqueId : ℕ) (s : Engine) : Option (ℤ × Engine) := do
  let (status, s') ← s.deleteEntry uniqueId
  some (status, ((s.getEntry uniqueId).bind (·.callBack)).elim s' fun cb => s'.logged (.cancelled cb.cbd))

/-! ## Callbacks -/

def Program.run : Program → Engine → Option Engine
  | .ret, s => some s
  | .ask call r cbd k, s => (Snmp.ask env call r cbd s).bind fun x => (k x.2.log).run x.2
  | .response r fd k, s => (Snmp.response env r fd s).bind fun x => (k x.2.log).run x.2
  | .cancel uniqueId k, s => (Snmp.cancel uniqueId s).bind fun x => (k x.2.log).run x.2

/-- The callback of the caller. -/
def userCallBack (cbd : ℕ) (reason : ℤ) (pdu : QueuePdu) (s : Engine) : Option Engine :=
  let s := s.logged (.called cbd reason pdu)
  (env.react s.log cbd reason pdu).run env s

/-- The reports "hidden from the user". -/
def V3CallBackData.hides (data : V3CallBackData) (pdu : QueuePdu) : Bool :=
  let oid := (pdu.getVb Vb.empty 0).oid
  pdu.type == .report &&
    ((oid == oidUsmStatsUnknownEngineIDs && data.reportsReceived == 0) ||
      (oid == oidUsmStatsNotInTimeWindows && decide (data.reportsReceived ≤ 1)))

def Snmp.v3CallBack (data : V3CallBackData) (reason : ℤ) (pdu : QueuePdu) (s : Engine) : Option Engine :=
  if data.hides pdu then do
    let (rc, s) ← snmpEngine env data.request (some data.cbd) none (data.reportsReceived + 1) s
    if rc ≠ classSuccess then userCallBack env data.cbd rc pdu s else some s
  else userCallBack env data.cbd reason pdu s

def Callback.run (cb : Callback) (reason : ℤ) (pdu : QueuePdu) (s : Engine) : Option Engine :=
  match cb with
  | .user cbd => userCallBack env cbd reason pdu s
  | .v3CallBack data => Snmp.v3CallBack env data reason pdu s

/-- `CSNMPMessage::Callback`: 1 where there is no callback, or no callback left. -/
def callback (m : CSNMPMessage) (reason : ℤ) (s : Engine) : Option (ℤ × Engine) :=
  match m.callBack with
  | none => some (1, s)
  | some cb =>
    (cb.run env reason m.pdu (s.modify m.serial fun m => { m with callBack := none })).map fun s => (0, s)

/-! ## The event loop -/

/-- What `receive_snmp_response` makes of a datagram; the request id is 0 if it makes nothing. -/
structure Datagram where
  recvStatus : ℤ
  pdu : QueuePdu

/-- "Do the callback", and "no need to keep this message around" after one. -/
def answer (requestId : ℕ) (msg : CSNMPMessage) (s : Engine) : Option Engine := do
  let s := s.modify msg.serial fun _ => { msg with locked := true }
  let (status, s) ← callback env { msg with locked := true } classAsyncResponse s
  let s := s.setLocked msg.serial false
  if status = 0 then (s.deleteEntry requestId).map Prod.snd else some s

/-- A readable socket in `HandleEvents`. -/
def handleEvents (d : Datagram) (s : Engine) : Option Engine :=
  if d.pdu.requestId = 0 then some s
  else
    let s := s.logged (.received d.pdu)
    match s.getEntry d.pdu.requestId with
    | none => some s
    | some msg =>
      -- waiting for the lock, which nobody else would give back
      if msg.locked then none
      else
        match msg.setPdu d.recvStatus d.pdu with
        | none => some s
        | some msg => answer env d.pdu.requestId msg s

/-- `ResendMessage`. -/
def resendMessage (m : CSNMPMessage) (now : Instant) (s : Engine) : Option (ℤ × Engine) :=
  let sendTime := (env.clock s.log.length).later m.target.timeout
  if m.received then some (classSuccess, s.modify m.serial fun m => { m with sendTime })
  else if m.target.retry ≤ 0 then do
    let (_, s) ← callback env m classTimedOut (s.logged (.timedOut m.serial now))
    some (classTimedOut, s)
  else
    let s := s.modify m.serial fun m =>
      { m with target := { m.target with retry := m.target.retry - 1 }, sendTime }
    let (ok, s) := sendSnmpRequest env (some m) m.rawPdu s
    some (if ok then classSuccess else classTlFailed, s)

/-- One turn of the loop in `DoRetries`. -/
def retryTurn (now : Instant) : Engine × ℤ → (Engine × ℤ) ⊕ Option (Engine × ℤ)
  | (s, status) =>
    match s.getNextTimeoutEntry with
    | none => .inr (some (s, status))
    | some msg =>
      if msg.sendTime.val.greater now.val then .inr (some (s, status))
      else if msg.locked then .inr (some (s, status))
      else
        match resendMessage env { msg with locked := true } now (s.setLocked msg.serial true) with
        | none => .inr none
        | some (status, s) =>
          let s := s.setLocked msg.serial false
          if status = classSuccess then .inl (s, status)
          else if status = classTimedOut then
            match s.deleteEntry msg.uniqueId with
            | none => .inr none
            | some (_, s) => .inl (s, status)
          else .inr (some (s, status))

/-- `DoRetries`, within a number of turns. -/
def doRetries (fuel : ℕ) (now : Instant) (s : Engine) : Option (Engine × ℤ) :=
  (Loop.run (retryTurn env now) fuel (s, classSuccess)).join

/-- The end of `SNMPProcessPendingEvents`. The list of queues leaves out one that counts nothing. -/
def processPendingEvents (fuel : ℕ) (s : Engine) : Option Engine :=
  let now := env.clock s.log.length
  if s.msgCount = 0 then some s else (doRetries env fuel now s).map Prod.fst

/-- `SNMPBlockForResponse` when its loop is left. -/
def blockForResponse (uniqueId : ℕ) (s : Engine) : Option (ℤ × Engine) :=
  match s.getEntry uniqueId with
  | none => some (classTimedOut, s.logged (.returned uniqueId classTimedOut))
  | some msg =>
    (s.deleteEntry uniqueId).map fun (_, s) => (msg.reason, s.logged (.returned uniqueId msg.reason))

/-- A callback while the mutex of the queue is held: it must not touch the queue. -/
def callbackHeld (m : CSNMPMessage) (reason : ℤ) (s : Engine) : Option Engine :=
  match m.callBack with
  | none => some s
  | some (.user cbd) => held s cbd
  | some (.v3CallBack data) => if data.hides m.pdu then none else held s data.cbd
where
  held (s : Engine) (cbd : ℕ) : Option Engine :=
    let s := s.logged (.called cbd reason m.pdu)
    match env.react s.log cbd reason m.pdu with
    | .ret => some s
    | _ => none

/-- The loop of `DeleteSocketEntry`, which leaves the count as it is. -/
def deleteSocketFrom (socket : ℕ) : List CSNMPMessage → Engine → Option Engine
  | [], s => some s
  | m :: rest, s =>
    if m.socket = socket then
      if m.locked then none
      else do
        let s ← callbackHeld env m classSessionDestroyed s
        deleteSocketFrom socket rest { s with queue := s.queue.eraseP fun x => x.serial == m.serial }
    else deleteSocketFrom socket rest s

/-- `DeleteSocketEntry`, of a session that is destroyed. -/
def deleteSocketEntry (socket : ℕ) (s : Engine) : Option Engine := deleteSocketFrom env socket s.queue s

/-- What happens to a session, in any order. -/
inductive Event
  | ask (call : AsyncCall) (r : Request) (cbd : ℕ)
  | response (r : Request) (fd : ℕ)
  | cancel (uniqueId : ℕ)
  | blocking (call : AsyncCall) (r : Request)
  | block (uniqueId : ℕ)
  | datagram (d : Datagram)
  | pending (fuel : ℕ)
  | destroy (socket : ℕ)

/-- One event; none where it cannot happen and where the program does not return. -/
def step (s : Engine) : Event → Option Engine
  | .ask c r cbd => (Snmp.ask env c r cbd s).map Prod.snd
  | .response r fd => (Snmp.response env r fd s).map Prod.snd
  | .cancel uniqueId => (Snmp.cancel uniqueId s).map Prod.snd
  | .blocking c r => (call env c c.blockingAction r none s).map Prod.snd
  | .block uniqueId => if s.done uniqueId then (blockForResponse uniqueId s).map Prod.snd else none
  | .datagram d => handleEvents env d s
  | .pending fuel => processPendingEvents env fuel s
  | .destroy socket => deleteSocketEntry env socket s

/-- `current_rid` starts at a random id. -/
def Engine.init (currentRid : ℕ) : Engine := ⟨[], 0, currentRid, []⟩

end SnmpB.Transport
