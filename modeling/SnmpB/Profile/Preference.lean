import SnmpB.Library.Runs
import SnmpB.Profile.Views

/-! # The stored profile and protocol

What the bar of the main window shows is stored whenever it is selected, also by the
handlers that a selection runs again. At the start the bar is set to what is stored.
-/
namespace SnmpB.Profile
open Widget

/-- The protocol behind a number, if any. -/
def protocolOf (prefproto : ℤ) : Option Protocol :=
  if prefproto = 0 then some .v1
  else if prefproto = 1 then some .v2
  else if prefproto = 2 then some .v3
  else none

/-- The number of the button that is checked, or -1. -/
def numberOf : Option Protocol → ℤ
  | some .v1 => 0
  | some .v2 => 1
  | some .v3 => 2
  | none => -1

theorem protocolOf_numberOf (i : Option Protocol) : protocolOf (numberOf i) = i := by
  rcases i with _ | _ | _ | _ <;> rfl

/-- The bar, and the preference as it is stored. -/
structure Bar where
  view : View
  curprofile : String
  curproto : ℤ

namespace Bar

def saveCurrentProfile (b : Bar) (name : String) (proto : ℤ) : Bar :=
  { b with curprofile := name, curproto := proto }

/-- A button is checked. The button that was checked before and the new one both report, if they changed. -/
def setChecked (report : Bar → Bar) (i : Protocol) (b : Bar) : Bar :=
  if b.view.radio = some i then b
  else
    let checked : Bar := { b with view := { b.view with radio := some i } }
    report (if b.view.radio.isSome then report checked else checked)

/-- The combo box changes, and reports it if its index does. -/
def setCombo (report : Bar → Bar) (combo : Combo String) (b : Bar) : Bar :=
  let changed : Bar := { b with view := { b.view with combo } }
  if b.view.combo.index = combo.index then changed else report changed

variable (m : AgentProfileManager) (recode : String → String)

/-- `SelectAgentProfile`, with the profile from the preference file or without. `recode` is what a text becomes
on the way through `toLatin1`; `reports` bounds how deep the handlers run again. -/
def selectAgentProfile : ℕ → Option String → ℤ → Bar → Bar
  | 0, _, _, b => b
  | reports + 1, prefprofile, prefproto, b =>
    match m.getSupportedProtocol (match prefprofile with
      | some name => recode name
      | none => b.view.currentText) with
    | none => { b with view := { b.view with enabled := ⟨false, false, false⟩ } }
    | some support =>
      let selected := selectedproto support (protocolOf prefproto)
      let b : Bar := { b with view := { b.view with enabled := support } }
      let b := match selected with
        | none => b
        | some i => b.setChecked (fun b => selectAgentProfile reports none (numberOf b.view.radio) b) i
      match prefprofile with
      | some name =>
        -- The agent profile is loaded from the preference file,
        -- update the combobox
        let combo := b.view.combo.setCurrentIndex (b.view.combo.findText (recode name))
        (b.setCombo (fun b => selectAgentProfile reports none (-1) b) combo).saveCurrentProfile name prefproto
      | none => b.saveCurrentProfile b.view.currentText (numberOf selected)

def selectAgentProto (reports : ℕ) (b : Bar) : Bar :=
  b.selectAgentProfile m recode reports none (numberOf b.view.radio)

/-- `AgentProfileListChange`. -/
def agentProfileListChange (reports : ℕ) (b : Bar) : Bar :=
  let prefproto := numberOf b.view.radio
  let cap := b.view.currentText
  let changed := fun b => selectAgentProfile m recode reports none (-1) b
  let b := b.setCombo changed b.view.combo.clear
  let b := b.setCombo changed (b.view.combo.addItems m.getAgentsList)
  if cap.isEmpty then b.selectAgentProfile m recode (reports + 1) none (-1)
  else
    let found := b.view.combo.findText cap
    let b := b.setCombo changed (b.view.combo.restore cap)
    b.selectAgentProfile m recode (reports + 1) none (if found < 0 then -1 else prefproto)

/-- The bar before the program has filled it. -/
def empty : View := ⟨⟨[], none⟩, none, ⟨true, true, true⟩⟩

/-- What `Agent::Init` does with the stored preference, before the signals are connected. -/
def init (cp : String) (prefproto : ℤ) : Bar :=
  (agentProfileListChange m recode 0 ⟨empty, cp, prefproto⟩).selectAgentProfile m recode 1 (some cp) prefproto

/-- Where selecting the current profile ends. -/
def settle (m : AgentProfileManager) (prefproto : ℤ) (b : Bar) : Bar :=
  match m.getSupportedProtocol b.view.currentText with
  | none => { b with view := b.view.settled m (protocolOf prefproto) }
  | some support =>
    ⟨b.view.settled m (protocolOf prefproto), b.view.currentText,
      numberOf (selectedproto support (protocolOf prefproto))⟩

variable {m : AgentProfileManager} {recode : String → String}

/-- Reports about a button leave the bar alone that show it already. -/
theorem setChecked_view {report : Bar → Bar} {i : Protocol} {b : Bar}
    (h : ∀ b' : Bar, b'.view = { b.view with radio := some i } → (report b').view = b'.view) :
    (b.setChecked report i).view = { b.view with radio := some i } := by
  unfold setChecked
  split
  · next hradio => rw [← hradio]
  · dsimp only
    split
    · rw [h _ (h _ rfl), h _ rfl]
    · rw [h _ rfl]

theorem selectAgentProfile_view (reports : ℕ) {b : Bar} {support : Protocols} {i : Protocol}
    (hprofile : m.getSupportedProtocol b.view.currentText = some support) (henabled : b.view.enabled = support)
    (hradio : b.view.radio = some i) (hi : support.get i = true) :
    (selectAgentProfile m recode reports none (numberOf b.view.radio) b).view = b.view := by
  cases reports with
  | zero => rfl
  | succ reports =>
    simp only [selectAgentProfile, hprofile, protocolOf_numberOf, hradio, selectedproto_supported hi, setChecked,
      if_true, saveCurrentProfile]
    rw [← henabled, ← hradio]

/-- However deep the reports may go, the selection ends with what is stored last. -/
theorem selectAgentProfile_none (reports : ℕ) (prefproto : ℤ) (b : Bar) :
    selectAgentProfile m recode (reports + 1) none prefproto b = b.settle m prefproto := by
  rw [selectAgentProfile]
  unfold settle View.settled
  cases hprofile : m.getSupportedProtocol b.view.currentText with
  | none => rfl
  | some support =>
    cases hchosen : selectedproto support (protocolOf prefproto) with
    | none =>
      simp only [hchosen, Option.none_or]
      rfl
    | some i =>
      have hi := supported_of_selectedproto hchosen
      let opened : Bar := { b with view := { b.view with enabled := support } }
      have hchecked : (opened.setChecked (fun b => selectAgentProfile m recode reports none (numberOf b.view.radio) b)
          i).view = { opened.view with radio := some i } := by
        refine setChecked_view fun b' hb' => ?_
        have hprofile' : m.getSupportedProtocol b'.view.currentText = some support := by
          rw [hb']
          exact hprofile
        have henabled : b'.view.enabled = support := by rw [hb']
        have hradio : b'.view.radio = some i := by rw [hb']
        exact selectAgentProfile_view reports hprofile' henabled hradio hi
      simp only [hchosen, Option.some_or]
      exact congrArg (fun v : View => (⟨v, v.currentText, numberOf (some i)⟩ : Bar)) hchecked

@[simp] theorem settle_view (prefproto : ℤ) (b : Bar) :
    (b.settle m prefproto).view = b.view.settled m (protocolOf prefproto) := by
  unfold settle
  split <;> rfl

variable (m recode) in
/-- A button that was not checked reports, and that ends by selecting the current profile. -/
theorem setChecked_selectAgentProto (reports : ℕ) {i : Protocol} {b : Bar} (hradio : b.view.radio ≠ some i) :
    ∃ prefproto b', b'.view.combo = b.view.combo ∧
      b.setChecked (selectAgentProto m recode (reports + 1)) i = Bar.settle m prefproto b' := by
  let checked : Bar := { b with view := { b.view with radio := some i } }
  let reported := if b.view.radio.isSome then checked.selectAgentProto m recode (reports + 1) else checked
  have hcombo : reported.view.combo = b.view.combo := by
    simp only [reported, selectAgentProto, selectAgentProfile_none]
    split
    · rw [settle_view, View.settled_combo]
    · rfl
  refine ⟨numberOf reported.view.radio, reported, hcombo, ?_⟩
  rw [setChecked, if_neg hradio]
  exact selectAgentProfile_none reports _ _

/-- What the bar shows is what it shows without a preference. -/
theorem selectAgentProfile_view_eq (reports : ℕ) (prefproto : ℤ) (b : Bar) :
    (selectAgentProfile m recode reports none prefproto b).view =
      View.selectAgentProfile m reports (protocolOf prefproto) b.view := by
  cases reports with
  | zero => rfl
  | succ reports => rw [selectAgentProfile_none, settle_view, View.selectAgentProfile_succ]

theorem setCombo_view (reports : ℕ) (combo : Combo String) (b : Bar) :
    (b.setCombo (fun b => selectAgentProfile m recode reports none (-1) b) combo).view =
      b.view.turn m reports combo := by
  unfold setCombo View.turn
  dsimp only
  split
  · rfl
  · exact selectAgentProfile_view_eq reports (-1) _

@[simp] theorem setCombo_combo (reports : ℕ) (combo : Combo String) (b : Bar) :
    (b.setCombo (fun b => selectAgentProfile m recode reports none (-1) b) combo).view.combo = combo := by
  rw [setCombo_view]
  cases reports with
  | zero =>
    unfold View.turn
    split <;> rfl
  | succ reports => exact View.turn_combo reports b.view combo

variable (m recode) in
/-- The list is filled, the profile is looked for, and the one that is found is settled. -/
theorem agentProfileListChange_spec (reports : ℕ) (b : Bar) :
    ∃ w : Bar, w.view.combo.items = m.getAgentsList ∧
      w.view.combo.selected = View.restored m.getAgentsList b.view.currentText ∧
      b.agentProfileListChange m recode reports = w.settle m
        (if b.view.currentText ≠ "" ∧ b.view.currentText ∈ m.getAgentsList then numberOf b.view.radio else -1) := by
  let turn := fun (b : Bar) combo => b.setCombo (fun b => selectAgentProfile m recode reports none (-1) b) combo
  let shown := fun (b : Bar) => b.view.combo
  have hturn : ∀ b box, shown (turn b box) = box := fun b box => setCombo_combo reports box b
  obtain ⟨hitems, hselected⟩ := View.refound_combo m.getAgentsList b.view.currentText hturn b
  refine ⟨_, hitems, hselected, ?_⟩
  rw [← View.refilled_pref m.getAgentsList b.view.currentText hturn b, ← selectAgentProfile_none reports]
  simp only [agentProfileListChange, View.refound]
  split <;> rfl

/-- Before the signals are connected, a button that is checked reports nothing. -/
theorem setChecked_quiet (i : Protocol) (b : Bar) :
    b.setChecked (fun b => b) i = { b with view := { b.view with radio := some i } } := by
  unfold setChecked
  split
  · next hradio => rw [← hradio]
  · dsimp only
    rw [ite_self]

theorem setCombo_quiet (combo : Combo String) (b : Bar) :
    b.setCombo (fun b => b) combo = { b with view := { b.view with combo } } := ite_self _

/-- The stored profile is shown, and stored again as it was. -/
theorem selectAgentProfile_stored {cp : String} {support : Protocols}
    (hprofile : m.getSupportedProtocol (recode cp) = some support) (prefproto : ℤ) (b : Bar) :
    b.selectAgentProfile m recode 1 (some cp) prefproto =
      ⟨{ combo := b.view.combo.setCurrentIndex (b.view.combo.findText (recode cp))
         radio := (selectedproto support (protocolOf prefproto)).or b.view.radio
         enabled := support }, cp, prefproto⟩ := by
  simp only [selectAgentProfile, hprofile, setCombo_quiet, saveCurrentProfile]
  cases selectedproto support (protocolOf prefproto) with
  | none => rfl
  | some i => simp only [setChecked_quiet, Option.some_or]

end Bar

theorem AgentProfileManager.mem_getAgentsList {m : AgentProfileManager} {name : String} {support : Protocols}
    (h : m.getSupportedProtocol name = some support) : name ∈ m.getAgentsList := by
  obtain ⟨p, hp, -⟩ := Option.map_eq_some_iff.mp h
  obtain ⟨k, hk, hp⟩ := Option.bind_eq_some_iff.mp hp
  have hname : p.name = name := by simpa [hp] using List.find?_some hk
  refine List.mem_map.mpr ⟨k, List.mem_of_find?_eq_some hk, ?_⟩
  rw [nameOf, hp, Option.getD_some, hname]

/-- The profiles, and the bar with the preference. -/
structure Session where
  manager : AgentProfileManager
  bar : Bar

inductive BarEvent
  /-- An entry of the combo box is selected. -/
  | selectProfile (i : ℕ)
  /-- A button is clicked. -/
  | selectProto (i : Protocol)
  /-- `AgentProfileListChanged`, with the profiles as they are now. -/
  | listChanged (m : AgentProfileManager)

namespace Session
variable (recode : String → String) (n : ℕ)

/-- Only entries of the list can be selected, and only buttons that are enabled can be clicked. -/
def step (s : Session) : BarEvent → Option Session
  | .selectProfile i =>
    if i < s.bar.view.combo.items.length then
      let changed := fun b : Bar => b.selectAgentProfile s.manager recode (n + 1) none (-1)
      some ⟨s.manager, s.bar.setCombo changed { s.bar.view.combo with index := some i }⟩
    else none
  | .selectProto i =>
    if s.bar.view.enabled.get i then
      some ⟨s.manager, s.bar.setChecked (Bar.selectAgentProto s.manager recode (n + 1)) i⟩
    else none
  | .listChanged m => some ⟨m, s.bar.agentProfileListChange m recode (n + 1)⟩

def start (m : AgentProfileManager) (cp : String) (prefproto : ℤ) : Session := ⟨m, Bar.init m recode cp prefproto⟩

/-- What is stored is the profile that is shown and the protocol that is checked, which the profile supports. -/
def Right (s : Session) : Prop := ∀ name support, s.bar.view.combo.selected = some name →
  s.manager.getSupportedProtocol name = some support →
    ∃ i, s.bar.view.radio = some i ∧ support.get i = true ∧ s.bar.curprofile = name ∧
      s.bar.curproto = numberOf (some i)

def Supports (m : AgentProfileManager) (name : String) : Prop :=
  ∀ support, m.getSupportedProtocol name = some support → ∃ i, support.get i = true

/-- The profile that is selected by the event supports some protocol. -/
def Meets (s : Session) : BarEvent → Prop
  | .selectProfile i => ∀ name, s.bar.view.combo.items[i]? = some name → Supports s.manager name
  | .selectProto _ => True
  | .listChanged m => ∀ name, View.restored m.getAgentsList s.bar.view.currentText = some name → Supports m name

/-- The stored name survives Latin-1 and the stored protocol is one the profile supports; where there is no
profile of the name, the first one supports some protocol. -/
def StartsRight (m : AgentProfileManager) (cp : String) (prefproto : ℤ) : Prop :=
  match m.getSupportedProtocol (recode cp) with
  | some support => recode cp = cp ∧ ∃ i, prefproto = numberOf (some i) ∧ support.get i = true
  | none => ∀ name, m.getAgentsList.head? = some name → Supports m name

/-- A button is enabled only where the current profile supports its protocol. -/
def Enabled (s : Session) : Prop := ∀ i, s.bar.view.enabled.get i = true →
  ∃ support, s.manager.getSupportedProtocol s.bar.view.currentText = some support ∧ support.get i = true

variable {recode : String → String} {n : ℕ} {m : AgentProfileManager}

theorem enabled_settle (prefproto : ℤ) (b : Bar) : Enabled ⟨m, b.settle m prefproto⟩ := by
  intro i hi
  change (b.settle m prefproto).view.enabled.get i = true at hi
  have htext : (b.settle m prefproto).view.currentText = b.view.currentText := by
    rw [Bar.settle_view, View.currentText, View.settled_combo]
    rfl
  change ∃ support, m.getSupportedProtocol (b.settle m prefproto).view.currentText = some support ∧ _
  rw [htext]
  rw [Bar.settle_view, View.settled] at hi
  cases hprofile : m.getSupportedProtocol b.view.currentText with
  | none =>
    simp only [hprofile] at hi
    cases i <;> cases hi
  | some support =>
    simp only [hprofile] at hi
    exact ⟨support, rfl, hi⟩

/-- Selecting the current profile ends right exactly if that supports some protocol. -/
theorem right_settle_iff (prefproto : ℤ) (b : Bar) : Right ⟨m, b.settle m prefproto⟩ ↔
    ∀ name, b.view.combo.selected = some name → Supports m name := by
  unfold Right Supports
  simp only [Bar.settle_view, View.settled_combo]
  refine forall_congr' fun name => ?_
  rw [forall_comm]
  refine forall_congr' fun hname => forall_congr' fun support => imp_congr_right fun hprofile => ?_
  have hcurrent : m.getSupportedProtocol b.view.currentText = some support := by
    rw [View.currentText_of_selected hname, hprofile]
  constructor
  · rintro ⟨i, -, hi, -⟩
    exact ⟨i, hi⟩
  · rintro ⟨i, hi⟩
    obtain ⟨j, hj⟩ := selectedproto_of_supported hi (protocolOf prefproto)
    refine ⟨j, View.settled_radio hname hprofile hj, supported_of_selectedproto hj, ?_, ?_⟩
    · rw [Bar.settle, hcurrent]
      exact View.currentText_of_selected hname
    · rw [Bar.settle, hcurrent, ← hj]

/-- A step leaves everything as it is, or ends by selecting the current profile. -/
theorem step_cases {s s' : Session} {e : BarEvent} (hs : s.Enabled) (h : s.step recode n e = some s') :
    (s' = s ∧ (s.Right → s.Meets e)) ∨
    ∃ prefproto b, s'.bar = Bar.settle s'.manager prefproto b ∧
      ((∀ name, b.view.combo.selected = some name → Supports s'.manager name) ↔ s.Meets e) := by
  cases e with
  | selectProfile i =>
    obtain ⟨-, rfl⟩ := Option.ite_some_none_eq_some.mp h
    by_cases hindex : s.bar.view.combo.index = some i
    · refine Or.inl ⟨?_, ?_⟩
      · rw [Bar.setCombo, if_pos hindex, ← hindex]
      · intro hright name hname support hprofile
        have hselected : s.bar.view.combo.selected = some name := by
          rw [Combo.selected, hindex, Option.bind_some, hname]
        obtain ⟨j, -, hj, -⟩ := hright name support hselected hprofile
        exact ⟨j, hj⟩
    · let turned : Bar := { s.bar with view := { s.bar.view with combo := { s.bar.view.combo with index := some i } } }
      refine Or.inr ⟨-1, turned, ?_, ?_⟩
      · rw [Bar.setCombo, if_neg hindex]
        exact Bar.selectAgentProfile_none n (-1) turned
      · rfl
  | selectProto i =>
    obtain ⟨hi, rfl⟩ := Option.ite_some_none_eq_some.mp h
    by_cases hradio : s.bar.view.radio = some i
    · refine Or.inl ⟨?_, fun _ => trivial⟩
      rw [Bar.setChecked, if_pos hradio]
    · obtain ⟨prefproto, b, hcombo, hchecked⟩ := Bar.setChecked_selectAgentProto s.manager recode n hradio
      refine Or.inr ⟨prefproto, b, hchecked, iff_of_true ?_ trivial⟩
      intro name hname support hprofile
      rw [hcombo] at hname
      obtain ⟨support', hsupport, hget⟩ := hs i hi
      rw [View.currentText_of_selected hname, hprofile] at hsupport
      obtain rfl := Option.some.inj hsupport
      exact ⟨i, hget⟩
  | listChanged m =>
    cases h
    obtain ⟨w, -, hselected, hchange⟩ := Bar.agentProfileListChange_spec m recode (n + 1) s.bar
    refine Or.inr ⟨_, w, hchange, ?_⟩
    rw [hselected]
    rfl

theorem step_enabled {s s' : Session} {e : BarEvent} (hs : s.Enabled) (h : s.step recode n e = some s') :
    s'.Enabled := by
  rcases step_cases hs h with ⟨rfl, -⟩ | ⟨prefproto, b, hbar, -⟩
  · exact hs
  · obtain ⟨m, bar⟩ := s'
    obtain rfl : bar = b.settle m prefproto := hbar
    exact enabled_settle prefproto b

theorem step_right_iff {s s' : Session} {e : BarEvent} (hs : s.Enabled) (hright : s.Right)
    (h : s.step recode n e = some s') : s'.Right ↔ s.Meets e := by
  rcases step_cases hs h with ⟨rfl, hmeets⟩ | ⟨prefproto, b, hbar, hmeets⟩
  · exact iff_of_true hright (hmeets hright)
  · obtain ⟨m, bar⟩ := s'
    obtain rfl : bar = b.settle m prefproto := hbar
    rw [right_settle_iff, hmeets]

variable (recode) in
/-- The start ends with the stored profile, stored again as it was, or without it with the first one. -/
theorem init_cases (m : AgentProfileManager) (cp : String) (prefproto : ℤ) :
    (m.getSupportedProtocol (recode cp) = none ∧ ∃ b : Bar, b.view.combo.selected = m.getAgentsList.head? ∧
      Bar.init m recode cp prefproto =
        { b.settle m (-1) with view := { (b.settle m (-1)).view with enabled := ⟨false, false, false⟩ } }) ∨
    ∃ support combo radio, m.getSupportedProtocol (recode cp) = some support ∧ combo.selected = some (recode cp) ∧
      Bar.init m recode cp prefproto =
        ⟨⟨combo, (selectedproto support (protocolOf prefproto)).or radio, support⟩, cp, prefproto⟩ := by
  obtain ⟨w, hitems, hselected, hchange⟩ := Bar.agentProfileListChange_spec m recode 0 ⟨Bar.empty, cp, prefproto⟩
  have hunnamed : Bar.empty.currentText = "" := rfl
  rw [hunnamed] at hselected hchange
  rw [if_neg (by simp)] at hchange
  rw [Bar.init, hchange]
  cases hprofile : m.getSupportedProtocol (recode cp) with
  | none =>
    refine Or.inl ⟨rfl, w, hselected.trans (Views.restored_unnamed _), ?_⟩
    simp only [Bar.selectAgentProfile, hprofile]
  | some support =>
    have hmem : recode cp ∈ (w.settle m (-1)).view.combo.items := by
      rw [Bar.settle_view, View.settled_combo, hitems]
      exact AgentProfileManager.mem_getAgentsList hprofile
    exact Or.inr ⟨support, _, _, rfl, Combo.selected_findText hmem, Bar.selectAgentProfile_stored hprofile _ _⟩

theorem start_enabled (m : AgentProfileManager) (cp : String) (prefproto : ℤ) :
    (start recode m cp prefproto).Enabled := by
  intro i hi
  rcases init_cases recode m cp prefproto with ⟨-, b, -, hinit⟩ | ⟨support, combo, radio, hprofile, hshown, hinit⟩
  · simp only [start, hinit] at hi
    cases i <;> cases hi
  · simp only [start, hinit] at hi ⊢
    refine ⟨support, ?_, hi⟩
    rw [View.currentText_of_selected hshown, hprofile]

theorem start_right_iff (m : AgentProfileManager) (cp : String) (prefproto : ℤ) :
    (start recode m cp prefproto).Right ↔ StartsRight recode m cp prefproto := by
  unfold StartsRight
  rcases init_cases recode m cp prefproto with ⟨hprofile, b, hselected, hinit⟩ |
    ⟨support, combo, radio, hprofile, hshown, hinit⟩
  · have hsettled : (start recode m cp prefproto).Right ↔ Right ⟨m, b.settle m (-1)⟩ := by
      rw [start, hinit]
      rfl
    rw [hsettled, right_settle_iff, hselected, hprofile]
  · rw [start, hinit, hprofile]
    constructor
    · intro hright
      obtain ⟨i, -, hi, hname, hproto⟩ := hright _ support hshown hprofile
      exact ⟨hname.symm, i, hproto, hi⟩
    · rintro ⟨hname, i, rfl, hi⟩ name support' hselected hprofile'
      obtain rfl : recode cp = name := Option.some.inj (hshown.symm.trans hselected)
      obtain rfl : support = support' := Option.some.inj (hprofile.symm.trans hprofile')
      refine ⟨i, ?_, hi, hname.symm, rfl⟩
      simp only [protocolOf_numberOf, selectedproto_supported hi, Option.some_or]

/-- Main result: whatever is stored at the start and whatever is selected and changed behind it, what is stored
is the profile that is shown and the protocol that is checked, which the profile supports, exactly if the start
takes a profile and a protocol it supports, and no profile without any protocol is ever selected. -/
theorem stored_right_iff {m : AgentProfileManager} {cp : String} {prefproto : ℤ} {es : List BarEvent} {s : Session}
    (h : Runs.exec (step recode n) (start recode m cp prefproto) es = some s) :
    (∀ done, done <+: es → ∀ s', Runs.exec (step recode n) (start recode m cp prefproto) done = some s' → s'.Right) ↔
      StartsRight recode m cp prefproto ∧ Runs.Each (step recode n) Meets (start recode m cp prefproto) es := by
  rw [← start_right_iff]
  constructor
  · intro hall
    have hright : (start recode m cp prefproto).Right := hall [] List.nil_prefix _ rfl
    exact ⟨hright, (Runs.reached_iff_each_of (fun _ _ _ => step_enabled) (fun _ _ _ => step_right_iff)
      (start_enabled m cp prefproto) hright h).mp hall⟩
  · rintro ⟨hright, hmeets⟩
    exact (Runs.reached_iff_each_of (fun _ _ _ => step_enabled) (fun _ _ _ => step_right_iff)
      (start_enabled m cp prefproto) hright h).mpr hmeets

theorem stored_right_iff_twoProfiles :
    (∀ done, done <+: [.selectProfile 1, .selectProto .v1, .listChanged Form.twoProfiles.manager] → ∀ s',
        Runs.exec (step id 0) (start id Form.twoProfiles.manager "router" 1) done = some s' → s'.Right) ↔
      StartsRight id Form.twoProfiles.manager "router" 1 ∧
        Runs.Each (step id 0) Meets (start id Form.twoProfiles.manager "router" 1)
          [.selectProfile 1, .selectProto .v1, .listChanged Form.twoProfiles.manager] :=
  stored_right_iff rfl

/-- The stored protocol is not one of the stored profile: the button of another one is checked, and the stored
one stays stored. -/
theorem start_stores_unsupported :
    ¬ ∀ (m : AgentProfileManager) (n : ℕ) (cp : String) (prefproto : ℤ) (es : List BarEvent) (s : Session),
      Runs.exec (step id n) (start id m cp prefproto) es = some s → s.Right := by
  intro h
  obtain ⟨i, hradio, -, -, hproto⟩ := h Form.twoProfiles.manager 0 "switch" 1 [] _ rfl "switch" _ rfl rfl
  rw [← hradio] at hproto
  revert hproto
  decide

end Session

end SnmpB.Profile
