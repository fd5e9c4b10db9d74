import Mathlib.Data.Int.Notation
import Mathlib.Data.Nat.Notation

/-! # Agent profiles and their check boxes

All profiles share one form. A profile that is filled in shows its protocols in
the check boxes of the form, and a box that changes reports to the profile
selected at that moment, which may uncheck no last box.
-/
namespace SnmpB.Profile

inductive Protocol
  | v1 | v2 | v3
  deriving DecidableEq, Repr

def Protocol.others : Protocol → List Protocol
  | .v1 => [.v2, .v3]
  | .v2 => [.v1, .v3]
  | .v3 => [.v1, .v2]

/-- A flag for each protocol: the states of the boxes, or `v1support` and its siblings. -/
structure Protocols where
  v1 : Bool
  v2 : Bool
  v3 : Bool
  deriving DecidableEq, Repr

namespace Protocols

def get (ps : Protocols) : Protocol → Bool
  | .v1 => ps.v1
  | .v2 => ps.v2
  | .v3 => ps.v3

def set (ps : Protocols) (i : Protocol) (flag : Bool) : Protocols :=
  match i with
  | .v1 => { ps with v1 := flag }
  | .v2 => { ps with v2 := flag }
  | .v3 => { ps with v3 := flag }

/-- The last box is about to be unchecked. -/
def refuses (box : Protocols) (i : Protocol) (checked : Bool) : Bool :=
  !checked && i.others.all fun j => !box.get j

end Protocols

structure AgentProfile where
  name : String
  support : Protocols
  address : String
  port : String
  retries : ℤ
  timeout : ℤ
  readcomm : String
  writecomm : String
  maxrepetitions : ℤ
  nonrepeaters : ℤ
  secname : String
  seclevel : ℤ
  contextname : String
  contextengineid : String
  deriving DecidableEq

/-- A profile as it is constructed, before its fields are set. -/
def AgentProfile.new (name : String) : AgentProfile :=
  ⟨name, ⟨false, false, false⟩, "", "", 0, 0, "", "", 0, 0, "", 0, "", ""⟩

/-- The profiles by number, the list of them, the selected one, the boxes of the form, the message
boxes shown and the configuration file. -/
structure AgentProfileManager where
  profiles : List AgentProfile
  agents : List ℕ
  currentprofile : Option ℕ
  box : Protocols
  messages : List String
  config : List AgentProfile

def protocolMessage : String := "At least one protocol must be selected\n"

namespace AgentProfileManager

def edit (m : AgentProfileManager) (who : ℕ) (f : AgentProfile → AgentProfile) : AgentProfileManager :=
  { m with profiles := m.profiles.modify who f }

/-- `v1support = checked` and its siblings. -/
def setSupport (m : AgentProfileManager) (who : ℕ) (i : Protocol) (checked : Bool) : AgentProfileManager :=
  m.edit who fun p => { p with support := p.support.set i checked }

/-- `setCheckState(Qt::Checked)`: a box that changes reports to the selected profile, which never
refuses. -/
def check (m : AgentProfileManager) (i : Protocol) : AgentProfileManager :=
  if m.box.get i then m
  else
    let m := { m with box := m.box.set i true }
    match m.currentprofile with
    | none => m
    | some k => m.setSupport k i true

/-- `ProtocolV1Support` and its siblings. -/
def protocolSupport (m : AgentProfileManager) (who : ℕ) (i : Protocol) (checked : Bool) :
    AgentProfileManager :=
  if m.box.refuses i checked then { m with messages := m.messages ++ [protocolMessage] }.check i
  else m.setSupport who i checked

/-- `setCheckState(Qt::Unchecked)`: the selected profile may check the box again. -/
def uncheck (m : AgentProfileManager) (i : Protocol) : AgentProfileManager :=
  if m.box.get i then
    let m := { m with box := m.box.set i false }
    match m.currentprofile with
    | none => m
    | some k => m.protocolSupport k i false
  else m

def supports (m : AgentProfileManager) (who : ℕ) (i : Protocol) : Bool :=
  (m.profiles[who]?.map fun p => p.support.get i).getD false

/-- "First set the ones that are supported": `if (v1support)` and its siblings. -/
def raise (m : AgentProfileManager) (who : ℕ) (i : Protocol) : AgentProfileManager :=
  if m.supports who i then
    let m := m.check i
    m.protocolSupport who i (m.supports who i)
  else m

/-- "Then the ones that are not": `if (!v1support)` and its siblings. -/
def lower (m : AgentProfileManager) (who : ℕ) (i : Protocol) : AgentProfileManager :=
  if m.supports who i then m
  else
    let m := m.uncheck i
    m.protocolSupport who i (m.supports who i)

def applySupportedProtocol (m : AgentProfileManager) (who : ℕ) : AgentProfileManager :=
  let m := ((m.raise who .v1).raise who .v2).raise who .v3
  ((m.lower who .v1).lower who .v2).lower who .v3

def setSupportedProtocol (m : AgentProfileManager) (who : ℕ) (support : Protocols) : AgentProfileManager :=
  (m.edit who fun p => { p with support }).applySupportedProtocol who

/-- `new AgentProfile`, with the number it gets. -/
def newProfile (m : AgentProfileManager) (name : String) : AgentProfileManager :=
  { m with profiles := m.profiles ++ [.new name] }

/-- Selecting the general item of a profile. The other widgets of the page are set to values of
this profile and report to it. -/
def selectedAgentProfile (m : AgentProfileManager) (who : ℕ) : AgentProfileManager :=
  { m with currentprofile := some who }.applySupportedProtocol who

def getAgentProfile (m : AgentProfileManager) (name : String) : Option ℕ :=
  m.agents.find? fun k => m.profiles[k]?.any fun p => p.name = name

def writeConfigFile (m : AgentProfileManager) : AgentProfileManager :=
  { m with config := m.agents.filterMap fun k => m.profiles[k]? }

/-- SNMPV1 only. -/
def defaultSupport : Protocols := ⟨true, false, false⟩

/-- `Add()`. -/
def add (m : AgentProfileManager) : AgentProfileManager :=
  let who := m.profiles.length
  let m := (m.newProfile "newagent").setSupportedProtocol who defaultSupport
  let m := m.edit who fun p =>
    { p with
      address := "127.0.0.1", port := "161", retries := 1, timeout := 3, readcomm := "public"
      writecomm := "private", maxrepetitions := 10, nonrepeaters := 0, secname := "", seclevel := 0
      contextname := "", contextengineid := "" }
  { m with agents := m.agents ++ [who] }.selectedAgentProfile who

/-- The copy of all other values from the clone. -/
def cloneInto (clone p : AgentProfile) : AgentProfile :=
  { p with
    retries := clone.retries, timeout := clone.timeout, readcomm := clone.readcomm
    writecomm := clone.writecomm, maxrepetitions := clone.maxrepetitions
    nonrepeaters := clone.nonrepeaters, secname := clone.secname, seclevel := clone.seclevel
    contextname := clone.contextname, contextengineid := clone.contextengineid }

/-- `Add(name, address, port, ...)`; nothing happens without a clone or with a name that exists. -/
def addClone (m : AgentProfileManager) (name address port : String) (support : Protocols)
    (clonefrom : String) : AgentProfileManager :=
  match m.getAgentProfile clonefrom with
  | none => m
  | some clone =>
    if (m.getAgentProfile name).isSome then m
    else
      let who := m.profiles.length
      let m := (m.newProfile name).setSupportedProtocol who support
      let m := m.edit who fun p => { p with address, port }
      let m := m.edit who (cloneInto (m.profiles[clone]?.getD (.new clonefrom)))
      { m with agents := m.agents ++ [who] }.writeConfigFile

end AgentProfileManager

end SnmpB.Profile
