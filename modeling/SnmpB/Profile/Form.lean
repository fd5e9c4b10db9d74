import SnmpB.Library.Lens
import SnmpB.Library.Runs
import SnmpB.Library.Widget
import SnmpB.Profile.Creation
import Mathlib.Logic.Function.Basic

/-! # The form of the agent profiles

One form shows the selected profile, and its handlers write into that profile.
The spin boxes and combo boxes also report when they are set to the values of a
profile, which they may not be able to show.
-/
namespace SnmpB.Profile

/-- The items of a profile in the tree, with a page each. -/
inductive Page
  | general | v1v2c | bulk | v3
  deriving DecidableEq, Repr

structure Item where
  profile : ℕ
  page : Page
  deriving DecidableEq, Repr

/-- The line edits but for the name. -/
inductive LineField
  | address | port | readComm | writeComm | contextName | contextEngineID
  deriving DecidableEq, Repr

inductive SpinField
  | retries | timeout | maxRepetitions | nonRepeaters
  deriving DecidableEq, Repr

def nameLens : Lens AgentProfile String where
  get := AgentProfile.name
  put v p := { p with name := v }
  get_put _ _ := rfl
  put_get _ := rfl
  put_put _ _ _ := rfl

def supportLens : Lens AgentProfile Protocols where
  get := AgentProfile.support
  put v p := { p with support := v }
  get_put _ _ := rfl
  put_get _ := rfl
  put_put _ _ _ := rfl

def secNameLens : Lens AgentProfile String where
  get := AgentProfile.secname
  put v p := { p with secname := v }
  get_put _ _ := rfl
  put_get _ := rfl
  put_put _ _ _ := rfl

def secLevelLens : Lens AgentProfile ℤ where
  get := AgentProfile.seclevel
  put v p := { p with seclevel := v }
  get_put _ _ := rfl
  put_get _ := rfl
  put_put _ _ _ := rfl

def LineField.lens (field : LineField) : Lens AgentProfile String where
  get p := match field with
    | .address => p.address
    | .port => p.port
    | .readComm => p.readcomm
    | .writeComm => p.writecomm
    | .contextName => p.contextname
    | .contextEngineID => p.contextengineid
  put v p := match field with
    | .address => { p with address := v }
    | .port => { p with port := v }
    | .readComm => { p with readcomm := v }
    | .writeComm => { p with writecomm := v }
    | .contextName => { p with contextname := v }
    | .contextEngineID => { p with contextengineid := v }
  get_put _ _ := by cases field <;> rfl
  put_get _ := by cases field <;> rfl
  put_put _ _ _ := by cases field <;> rfl

def SpinField.lens (field : SpinField) : Lens AgentProfile ℤ where
  get p := match field with
    | .retries => p.retries
    | .timeout => p.timeout
    | .maxRepetitions => p.maxrepetitions
    | .nonRepeaters => p.nonrepeaters
  put v p := match field with
    | .retries => { p with retries := v }
    | .timeout => { p with timeout := v }
    | .maxRepetitions => { p with maxrepetitions := v }
    | .nonRepeaters => { p with nonrepeaters := v }
  get_put _ _ := by cases field <;> rfl
  put_get _ := by cases field <;> rfl
  put_put _ _ _ := by cases field <;> rfl

/-- The ranges of the spin boxes start at zero. -/
def SpinField.maximum : SpinField → ℤ
  | .retries => 10
  | .timeout => 20
  | .maxRepetitions => 99
  | .nonRepeaters => 99

def SpinField.bound (field : SpinField) (v : ℤ) : ℤ := max 0 (min v field.maximum)

/-- The manager with the widgets of its form that report. -/
structure Form where
  manager : AgentProfileManager
  spin : SpinField → ℤ
  secNames : List String
  secName : Option ℕ
  secLevel : Option ℕ

namespace Form

/-- `if (currentprofile)`, and the write into its field. -/
def write {β : Type} (f : Form) (l : Lens AgentProfile β) (v : β) : Form :=
  match f.manager.currentprofile with
  | none => f
  | some k => { f with manager := f.manager.edit k (l.put v) }

/-- `SetAddress` and its siblings, with the text of the line edit. -/
def setLine (f : Form) (field : LineField) (text : String) : Form := f.write field.lens text

/-- `AgentProfileNameChange`: the text of an item in the tree has changed. -/
def agentProfileNameChange (f : Form) (who : ℕ) (text : String) : Form :=
  if who ∈ f.manager.agents then { f with manager := f.manager.edit who (nameLens.put text) } else f

/-- `SetProfileName`; the item is renamed too and says so. -/
def setProfileName (f : Form) (text : String) : Form :=
  match f.manager.currentprofile with
  | none => f
  | some k => (f.write nameLens text).agentProfileNameChange k text

/-- `valueChanged` of a spin box: `SetRetries` and its siblings. -/
def valueChanged (f : Form) (field : SpinField) (v : ℤ) : Form :=
  { f with spin := Function.update f.spin field v }.write field.lens v

def setValue (f : Form) (field : SpinField) (v : ℤ) : Form :=
  if f.spin field = field.bound v then f else f.valueChanged field (field.bound v)

def secNameAt (f : Form) (index : Option ℕ) : String := (index.bind (f.secNames[·]?)).getD ""

/-- `currentIndexChanged` of the user box: `SetSecName`. -/
def secNameChanged (f : Form) (index : Option ℕ) : Form :=
  { f with secName := index }.write secNameLens (f.secNameAt index)

def secNameSetCurrentIndex (f : Form) (index : Option ℕ) : Form :=
  let index := index.filter (· < f.secNames.length)
  if f.secName = index then f else f.secNameChanged index

/-- `currentIndexChanged` of the level box, which has three entries: `SetSecLevel`. -/
def secLevelChanged (f : Form) (index : Option ℕ) : Form :=
  { f with secLevel := index }.write secLevelLens (Widget.comboValue index)

def secLevelSetCurrentIndex (f : Form) (level : ℤ) : Form :=
  let index := Widget.comboIndex 3 level
  if f.secLevel = index then f else f.secLevelChanged index

def findText (names : List String) (text : String) : Option ℕ := names.findIdx? (· == text)

/-- What the form reads of a profile. -/
def shown {β : Type} (f : Form) (who : ℕ) (l : Lens AgentProfile β) : β :=
  l.get (f.manager.profiles[who]?.getD (.new ""))

def showSpin (f : Form) (who : ℕ) (field : SpinField) : Form := f.setValue field (f.shown who field.lens)

/-- `SelectAgentProfile`: the page of an item is filled in. -/
def selectAgentProfile (f : Form) (item : Item) : Form :=
  match item.page with
  | .general =>
    let f := { f with manager := f.manager.applySupportedProtocol item.profile }
    (f.showSpin item.profile .retries).showSpin item.profile .timeout
  | .v1v2c => f
  | .bulk => (f.showSpin item.profile .maxRepetitions).showSpin item.profile .nonRepeaters
  | .v3 =>
    let f := f.secNameSetCurrentIndex (findText f.secNames (f.shown item.profile secNameLens))
    f.secLevelSetCurrentIndex (f.shown item.profile secLevelLens)

/-- `SelectedAgentProfile`; the current item of the tree has changed. -/
def selectedAgentProfile (f : Form) (item : Item) : Form :=
  if item.profile ∈ f.manager.agents then
    { f with manager := { f.manager with currentprofile := some item.profile } }.selectAgentProfile item
  else f

/-- `Add()`: what the manager does, with the rest of the page of the new item. -/
def add (f : Form) : Form :=
  let who := f.manager.profiles.length
  ({ f with manager := f.manager.add }.showSpin who .retries).showSpin who .timeout

/-- `Add(name, address, port, ...)`. -/
def addClone (f : Form) (name address port : String) (support : Protocols) (clonefrom : String) : Form :=
  { f with manager := f.manager.addClone name address port support clonefrom }

/-- The items of a profile are deleted, and the tree chooses another one. -/
def currentItemChanged (f : Form) (next : Option Item) : Form :=
  match next with
  | none => f
  | some item => f.selectedAgentProfile item

/-- `agents.takeAt(i)` for the profile `k`. -/
def takeAt (f : Form) (k : ℕ) : Form :=
  { f with manager := { f.manager with agents := f.manager.agents.erase k } }

/-- `Delete`, with the item the tree turns to. -/
def delete (f : Form) (next : Option Item) : Form :=
  match f.manager.currentprofile with
  | none => f
  | some k =>
    if k ∈ f.manager.agents then
      let f := (f.takeAt k).currentItemChanged next
      -- "Readjust the currentprofile pointer with the new current widget item"
      { f with manager := { f.manager with
        currentprofile := (next.map Item.profile).filter (· ∈ f.manager.agents) } }
    else f

/-- What the user does in the dialog. -/
inductive Edit
  | line (field : LineField) (text : String)
  | profileName (text : String)
  | spin (field : SpinField) (v : ℤ)
  | secName (index : ℕ)
  | secLevel (index : ℕ)
  | protocol (i : Protocol)
  | itemName (who : ℕ) (text : String)
  | select (item : Item)
  | add
  | delete (next : Option Item)

/-- A spin box or a combo box reports a value it can show, and only when it is another one. -/
def step (f : Form) : Edit → Option Form
  | .line field text => some (f.setLine field text)
  | .profileName text => some (f.setProfileName text)
  | .spin field v => if v = field.bound v ∧ f.spin field ≠ v then some (f.valueChanged field v) else none
  | .secName index =>
    if index < f.secNames.length ∧ f.secName ≠ some index then some (f.secNameChanged (some index)) else none
  | .secLevel index =>
    if index < 3 ∧ f.secLevel ≠ some index then some (f.secLevelChanged (some index)) else none
  | .protocol i =>
    some { f with manager := if f.manager.box.get i then f.manager.uncheck i else f.manager.check i }
  | .itemName who text => some (f.agentProfileNameChange who text)
  | .select item => some (f.selectedAgentProfile item)
  | .add => some f.add
  | .delete next => some (f.delete next)

/-- `ap.SecName->clear()`: a box with a current entry loses it. -/
def secNameClear (f : Form) : Form :=
  let cleared := { f with secNames := [] }
  if f.secName = none then cleared else cleared.secNameChanged none

/-- `ap.SecName->addItems`: the first entry of an empty box becomes the current one. -/
def secNameAddItems (f : Form) (users : List String) : Form :=
  if users = [] then f else { f with secNames := f.secNames ++ users }.secNameChanged (some 0)

/-- `Execute` up to the dialog: "Fill-in loaded user names". -/
def opened (f : Form) (users : List String) : Form :=
  let filled := f.secNameClear.secNameAddItems users
  match f.manager.currentprofile with
  | none => filled
  | some who =>
    filled.secNameSetCurrentIndex (some ((findText filled.secNames (f.shown who secNameLens)).getD 0))

/-- `Execute`: only an accepted dialog is written to the file. -/
def execute (users : List String) (es : List Edit) (accepted : Bool) (f : Form) : Option Form :=
  (Runs.exec step (f.opened users) es).map fun f =>
    if accepted then { f with manager := f.manager.writeConfigFile } else f

end Form

end SnmpB.Profile
