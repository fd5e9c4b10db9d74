import SnmpB.Library.Runs
import Mathlib.Data.Int.Notation
import Mathlib.Logic.Function.Basic

/-! # The preferences

The widgets of the dialog write into the members of `Preferences`, which `Save`
stores. The MIB paths have no member: they are in the list of the dialog, and
`Save` takes them from there. The module loader calls `Save` as well, whether the
dialog is open or not.
-/
namespace SnmpB.Settings

inductive Transport
  | ipv4 | ipv6
  deriving DecidableEq, Repr

def Transport.other : Transport → Transport
  | .ipv4 => .ipv6
  | .ipv6 => .ipv4

/-- The members with a check box. -/
inductive Flag
  | enable (transport : Transport) | horizontalsplit | expandtrapbinding | showagentname
  deriving DecidableEq, Repr

/-- The radio buttons of the automatic loading. -/
inductive Loading
  | enable | enablePrompt | disable
  deriving DecidableEq, Repr

def Loading.number : Loading → ℤ
  | .enable => 1
  | .enablePrompt => 2
  | .disable => 3

inductive Category
  | transport | mibtree | modules | traps
  deriving DecidableEq, Repr

structure Members where
  flag : Flag → Bool
  trapport : Transport → ℤ
  automaticloading : ℤ

/-- What the user chooses in the dialog. -/
structure Choices where
  members : Members
  mibpaths : List String

/-- What `QSettings` holds. -/
structure Stored extends Choices where
  mibpreloads : List String

/-- The members, the widgets of the dialog, and the module loader's Wanted list. -/
structure Preferences where
  members : Members
  box : Flag → Bool
  spin : Transport → ℤ
  radio : Option Loading
  modulePaths : List String
  wanted : List String
  stored : Stored
  messages : List String

/-- `SetEnableIPv4` and `SetEnableIPv6` do not switch the last transport off. -/
def Members.refuses (m : Members) (flag : Flag) (checked : Bool) : Bool :=
  match flag with
  | .enable transport => !checked && !m.flag (.enable transport.other)
  | _ => false

def Members.setFlag (m : Members) (flag : Flag) (checked : Bool) : Members :=
  { m with flag := Function.update m.flag flag checked }

def Members.setTrapPort (m : Members) (transport : Transport) (v : ℤ) : Members :=
  { m with trapport := Function.update m.trapport transport v }

/-- The range of both spin boxes. -/
def bound (v : ℤ) : ℤ := max 1 (min v 65535)

namespace Preferences

def put (f : Preferences) (flag : Flag) (checked : Bool) : Preferences :=
  { f with members := f.members.setFlag flag checked }

/-- `setCheckState(Qt::Checked)` behind a refusal; the box says so, and its handler does not refuse that. -/
def checkAgain (f : Preferences) (flag : Flag) : Preferences :=
  if f.box flag then f else { f with box := Function.update f.box flag true }.put flag true

/-- `SetEnableIPv4`, `SetHorizontalSplit` and their siblings. -/
def setFlag (f : Preferences) (flag : Flag) (checked : Bool) : Preferences :=
  if f.members.refuses flag checked then
    { f with messages := f.messages ++ ["Must enable at least one transport protocol."] }.checkAgain flag
  else f.put flag checked

/-- `toggled` of a check box. -/
def toggled (f : Preferences) (flag : Flag) (checked : Bool) : Preferences :=
  { f with box := Function.update f.box flag checked }.setFlag flag checked

def setCheckState (f : Preferences) (flag : Flag) (checked : Bool) : Preferences :=
  if f.box flag = checked then f else f.toggled flag checked

/-- `valueChanged` of a spin box: `SetTrapPort` and `SetTrapPort6`. -/
def setTrapPort (f : Preferences) (transport : Transport) (v : ℤ) : Preferences :=
  { f with
    spin := Function.update f.spin transport v
    members := f.members.setTrapPort transport v }

def setValue (f : Preferences) (transport : Transport) (v : ℤ) : Preferences :=
  if f.spin transport = bound v then f else f.setTrapPort transport (bound v)

/-- `SelectAutomaticLoading`, which reads the buttons. -/
def selectAutomaticLoading (f : Preferences) : Preferences :=
  match f.radio with
  | none => f
  | some button => { f with members := { f.members with automaticloading := button.number } }

/-- `setChecked(true)` of a button that was not the checked one. -/
def setChecked (f : Preferences) (button : Loading) : Preferences :=
  if f.radio = some button then f else { f with radio := some button }.selectAutomaticLoading

def showLoading (f : Preferences) : Preferences :=
  if f.members.automaticloading = 1 then f.setChecked .enable
  else if f.members.automaticloading = 2 then f.setChecked .enablePrompt
  else if f.members.automaticloading = 3 then f.setChecked .disable
  else f

def showFlag (f : Preferences) (flag : Flag) : Preferences := f.setCheckState flag (f.members.flag flag)

def showPort (f : Preferences) (transport : Transport) : Preferences :=
  f.setValue transport (f.members.trapport transport)

/-- `MibPathRefresh`: "discard widget contents and refill it". -/
def mibPathRefresh (f : Preferences) : Preferences := { f with modulePaths := f.stored.mibpaths }

/-- `SelectedPreferences`: the page of a category is filled in. -/
def selectedPreferences (f : Preferences) : Category → Preferences
  | .transport => (f.showFlag (.enable .ipv4)).showFlag (.enable .ipv6)
  | .mibtree => (f.showFlag .horizontalsplit).showLoading
  | .modules => f.mibPathRefresh
  | .traps =>
    (((f.showPort .ipv4).showPort .ipv6).showFlag .expandtrapbinding).showFlag .showagentname

/-- `MibModule::Refresh` reads the Wanted list back. -/
def refreshModules (f : Preferences) : Preferences := { f with wanted := f.stored.mibpreloads }

/-- What the dialog shows, and `Save` stores of it. -/
def choices (f : Preferences) : Choices := ⟨f.members, f.modulePaths⟩

def save (f : Preferences) : Preferences :=
  { f with stored := { f.choices with mibpreloads := f.wanted } }.refreshModules

/-- The module loader adds to its Wanted list or takes from it, and saves. -/
def saveWanted (f : Preferences) (wanted : List String) : Preferences := { f with wanted }.save

end Preferences

/-! ## The list of the MIB paths -/

def addPath (paths : List String) : List String := paths ++ ["type new path here"]

def deletePaths (paths : List String) (rows : List ℕ) : List String :=
  (paths.zipIdx.filter fun row => row.2 ∉ rows).map Prod.fst

/-- A row is dragged to another place. -/
def movePath (paths : List String) (i j : ℕ) : List String :=
  paths[i]?.elim paths fun path => (paths.eraseIdx i).insertIdx j path

namespace Preferences

def mibPathAdd (f : Preferences) : Preferences := { f with modulePaths := addPath f.modulePaths }

/-- `MibPathDelete` of the selected rows. -/
def mibPathDelete (f : Preferences) (rows : List ℕ) : Preferences :=
  if rows.length ≥ f.modulePaths.length then
    { f with messages := f.messages ++ ["Must have at least one defined path. Delete failed."] }
  else { f with modulePaths := deletePaths f.modulePaths rows }

/-- `MibPathReset` stores the default paths, and the path is scanned again. -/
def mibPathReset (f : Preferences) (defaultpaths : List String) : Preferences :=
  { f with stored := { f.stored with mibpaths := defaultpaths } }.refreshModules

end Preferences

/-- What the user does in the dialog. -/
inductive Edit
  | check (flag : Flag) (checked : Bool)
  | port (transport : Transport) (v : ℤ)
  | loading (button : Loading)
  | select (category : Category)
  | pathAdd
  | pathEdit (i : ℕ) (text : String)
  | pathDelete (rows : List ℕ)
  | pathMove (i j : ℕ)
  | pathReset
  deriving DecidableEq

/-- An edit, or a save by the module loader while the dialog is open. -/
inductive Turn
  | edit (e : Edit)
  | modules (wanted : List String)
  deriving DecidableEq

namespace Preferences

variable (defaultpaths : List String)

/-- A widget reports another value than it shows. -/
def edit (f : Preferences) : Edit → Option Preferences
  | .check flag checked => if f.box flag ≠ checked then some (f.toggled flag checked) else none
  | .port transport v =>
    if v = bound v ∧ f.spin transport ≠ v then some (f.setTrapPort transport v) else none
  | .loading button => if f.radio ≠ some button then some (f.setChecked button) else none
  | .select category => some (f.selectedPreferences category)
  | .pathAdd => some f.mibPathAdd
  | .pathEdit i text =>
    if i < f.modulePaths.length then some { f with modulePaths := f.modulePaths.set i text } else none
  | .pathDelete rows =>
    if rows.Nodup ∧ ∀ i ∈ rows, i < f.modulePaths.length then some (f.mibPathDelete rows) else none
  | .pathMove i j => some { f with modulePaths := movePath f.modulePaths i j }
  | .pathReset => some (f.mibPathReset defaultpaths)

def step (f : Preferences) : Turn → Option Preferences
  | .edit e => f.edit defaultpaths e
  | .modules wanted => some (f.saveWanted wanted)

/-- `Execute`, but for the notice that a restart is needed. -/
def execute (turns : List Turn) (accepted : Bool) (f : Preferences) : Option Preferences :=
  (Runs.exec (step defaultpaths) f turns).map fun f => if accepted then f.save else f.mibPathRefresh

/-! ## Start -/

/-- `MibPreloadsReset`. -/
def mibPreloadsReset (f : Preferences) : Preferences :=
  { f with stored := { f.stored with mibpreloads :=
    ["IF-MIB", "RFC1213-MIB", "SNMP-FRAMEWORK-MIB", "SNMP-NOTIFICATION-MIB", "SNMPv2-MIB", "SNMPv2-TM",
      "SNMP-VIEW-BASED-ACM-MIB"] } }.refreshModules

/-- The widgets as `setupUi` leaves them; the module loader has read its Wanted list. -/
def setupUi (members : Members) (stored : Stored) : Preferences where
  members := members
  box _ := false
  spin _ := 1
  radio := none
  modulePaths := []
  wanted := stored.mibpreloads
  stored := stored
  messages := []

/-- `Init`. -/
def init (members : Members) (stored : Stored) : Preferences :=
  let f := ((setupUi members stored).showFlag .horizontalsplit).showFlag (.enable .ipv4)
  let f := ((f.showFlag (.enable .ipv6)).showFlag .expandtrapbinding).showFlag .showagentname
  let f := f.showLoading
  let f := if f.stored.mibpaths.isEmpty then f.mibPathReset defaultpaths else f
  let f := f.mibPathRefresh
  let f := if f.stored.mibpreloads.isEmpty then f.mibPreloadsReset else f
  f.selectedPreferences .transport

end Preferences

/-- Whether a session can be created for both transports, and for each one alone. -/
structure Sessions where
  both : Bool
  alone : Transport → Bool

/-- The constructor of `Agent`: a transport that fails is disabled, "for the current run only".
Without any session the program ends. -/
def agent (m : Members) (sessions : Sessions) : Option Members :=
  match m.flag (.enable .ipv4), m.flag (.enable .ipv6) with
  | true, true =>
    if sessions.both then some m
    else if sessions.alone .ipv4 then some (m.setFlag (.enable .ipv6) false)
    else if sessions.alone .ipv6 then some (m.setFlag (.enable .ipv4) false)
    else none
  | true, false => if sessions.alone .ipv4 then some m else none
  | false, true => if sessions.alone .ipv6 then some m else none
  | false, false => none

/-- The program from its start up to the first dialog. -/
def start (defaultpaths : List String) (stored : Stored) (sessions : Sessions) : Option Preferences :=
  (agent stored.members sessions).map fun members => Preferences.init defaultpaths members stored

end SnmpB.Settings
