import SnmpB.Agent.Callback

/-! # Starting a query

`Setup` and the start functions. They all clear the Query window and reset the
shared counters, the buffer and the stop flag before they send their request.
-/
namespace SnmpB.Agent
open Mib

variable (env : Printing)

/-- `Setup`: nothing is touched when there is no session, no profile or no valid address.
Otherwise the root OID is replaced and the varbinds of the PDU are returned. -/
def setup (a : AgentState) (oid : String) (usevblist : Bool) : Option (AgentState × List Vb) :=
  match a.profile with
  | none => none
  | some ap =>
    if a.snmp && ap.addressValid then
      let oidobj := Oid.ofText oid
      -- a varbind without an OID is not added to the PDU
      let vblist := if usevblist then a.vblist else if oidobj = [] then [] else [⟨oidobj, .null⟩]
      some ({ a with theoid := oidobj }, vblist)
    else none

def AgentState.clear (a : AgentState) (header : String) : AgentState :=
  { a with
    query := [[.text header]], requests := 0, objects := 0, msg := [], stop := false }

def startedText : String := "<font color=black>-----SNMP query started-----</font>"
def setStartedText : String := "<font color=black>-----SNMP set started-----</font>"

def send (name : String) (request : Request) (status : ℤ) (a : AgentState) :
    AgentState × Option Request :=
  if pduStatus request.vblist status = 0 then (a, some request)
  else
    let msg := [Chunk.text (couldNotSendText env name (pduStatus request.vblist status))]
    ({ a with msg, query := a.query ++ [msg] }, none)

def walkFrom (oid : String) (status : ℤ) (a : AgentState) : AgentState × Option Request :=
  match setup a oid false with
  | none => (a, none)
  | some (a, vblist) =>
    let a := { a.clear startedText with walkInProgress := true, actionStop := true }
    send env "GETBULK" (a.bulkRequest vblist) status a

/-- `Get`, `GetNext` and `Set` differ in the texts and in the PDU they send. -/
def startSingle (header name : String) (kind : RequestKind) (oid : String) (usevblist : Bool)
    (status : ℤ) (a : AgentState) : AgentState × Option Request :=
  match setup a oid usevblist with
  | none => (a, none)
  | some (a, vblist) => send env name ⟨kind, vblist, 0, 0⟩ status (a.clear header)

def get (oid : String) (usevblist : Bool) (status : ℤ) (a : AgentState) : AgentState × Option Request :=
  startSingle env startedText "GET" .get oid usevblist status a

def getNext (oid : String) (usevblist : Bool) (status : ℤ) (a : AgentState) :
    AgentState × Option Request :=
  startSingle env startedText "GETNEXT" .getNext oid usevblist status a

def getBulk (oid : String) (usevblist : Bool) (status : ℤ) (a : AgentState) :
    AgentState × Option Request :=
  match setup a oid usevblist with
  | none => (a, none)
  | some (a, vblist) =>
    let a := a.clear startedText
    send env "GETBULK" (a.bulkRequest vblist) status a

def set (oid : String) (usevblist : Bool) (status : ℤ) (a : AgentState) : AgentState × Option Request :=
  startSingle env setStartedText "SET" .set oid usevblist status a

def AgentState.stopQuery (a : AgentState) : AgentState := { a with stop := true }

structure Started (a : AgentState) : Prop where
  displayed : a.displayed = []
  msg : a.msg = []
  requests : a.requests = 0
  objects : a.objects = 0
  stop : a.stop = false

theorem setup_some {a a' : AgentState} {oid : String} {usevblist : Bool} {vblist : List Vb}
    (h : setup a oid usevblist = some (a', vblist)) : a' = { a with theoid := Oid.ofText oid } := by
  unfold setup at h
  split at h
  · cases h
  · simp only at h
    split at h
    · cases h
      rfl
    · cases h

theorem send_some {name : String} {request sent : Request} {status : ℤ} {a a' : AgentState}
    (h : send env name request status a = (a', some sent)) : a' = a ∧ sent = request := by
  unfold send at h
  split at h
  · cases h
    exact ⟨rfl, rfl⟩
  · cases h

theorem walkFrom_some {oid : String} {status : ℤ} {a a' : AgentState} {request : Request}
    (h : walkFrom env oid status a = (a', some request)) :
    Started a' ∧ a'.theoid = Oid.ofText oid ∧ a'.mib = a.mib ∧ a'.profile = a.profile ∧
    request = a'.bulkRequest (if Oid.ofText oid = [] then [] else [⟨Oid.ofText oid, .null⟩]) := by
  unfold walkFrom setup at h
  cases hp : a.profile with
  | none => simp [hp] at h
  | some ap =>
    simp only [hp] at h
    by_cases hvalid : (a.snmp && ap.addressValid) = true
    · simp only [hvalid, ↓reduceIte, Bool.false_eq_true] at h
      obtain ⟨rfl, rfl⟩ := send_some env h
      exact ⟨by constructor <;> rfl, rfl, rfl, rfl, rfl⟩
    · simp [hvalid] at h

/-- A session with a v2c profile and no MIB modules, automatic loading being off. -/
def idle : AgentState :=
  { snmp := true, profile := some ⟨true, 0, 10⟩
    mib :=
      { files := fun _ => none, total := [], automaticLoading := 3, answer := fun _ => .no
        mibpreloads := [], wanted := [], handle := smiInit, loaded := [], unloaded := []
        policy := .mibloadDefault, prompts := 0 }
    requests := 0, objects := 0, msg := [], theoid := [], stop := false, vblist := [], query := []
    walkInProgress := false, actionStop := false }

/-- It defines an object of an enterprise to which it gives no name. -/
def productModule : SmiModule :=
  { name := "PRODUCT-MIB", path := "mibs/PRODUCT-MIB", language := 2
    nodes := [⟨"product", [1, 3, 6, 1, 4, 1, 99999, 1], .node, none, "PRODUCT-MIB"⟩] }

/-- The session with this module loaded; what the enterprise has beside the object has no node. -/
def AgentState.withProduct (a : AgentState) : AgentState :=
  { a with
    mib :=
      { a.mib with
        files := fun name => if name = "PRODUCT-MIB" then some productModule else none
        wanted := ["PRODUCT-MIB"], handle := ⟨[wellKnown, productModule], ["", "PRODUCT-MIB"]⟩
        loaded := [productModule] } }

def besideProduct : Oid := [1, 3, 6, 1, 4, 1, 99999, 2, 0]

def blank : Printing := ⟨fun _ _ _ => "", fun _ => "", fun _ => ""⟩

def walking : AgentState := (walkFrom blank "1.3.6" 0 idle).1

def walkRequest : Request := ⟨.getBulk, [⟨[1, 3, 6], .null⟩], 0, 10⟩

theorem idle_walkFrom : walkFrom blank "1.3.6" 0 idle = (walking, some walkRequest) := rfl

def answered (vblist : List Vb) : Response := ⟨-6, ⟨vblist, 0, 0⟩, 0, 0⟩

def timedOut : Response := ⟨classTimeout, ⟨[], 0, 0⟩, 0, 0⟩

end SnmpB.Agent
