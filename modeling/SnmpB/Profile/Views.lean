import SnmpB.Library.Widget
import SnmpB.Profile.Stored

/-! # The three lists of profiles

The bar of the main window, the plot dialog and the discovery tab each list the
profiles, and fill their list again when it changes. While a list is filled its
handlers select protocols for whatever profile is current at the moment. The
plot dialog asks for the text of the bar where it should ask for its own.
-/
namespace SnmpB.Profile
open Widget

namespace AgentProfileManager

/-- `GetSupportedProtocol` of the profile with a name. -/
def getSupportedProtocol (m : AgentProfileManager) (name : String) : Option Protocols :=
  ((m.getAgentProfile name).bind fun k => m.profiles[k]?).map AgentProfile.support

end AgentProfileManager

/-- The preferred protocol, or the first one that is supported. -/
def selectedproto (support : Protocols) (prefproto : Option Protocol) : Option Protocol :=
  if prefproto = some .v1 ∧ support.v1 then some .v1
  else if prefproto = some .v2 ∧ support.v2 then some .v2
  else if prefproto = some .v3 ∧ support.v3 then some .v3
  else if support.v1 then some .v1
  else if support.v2 then some .v2
  else if support.v3 then some .v3
  else none

/-- The combo box of the profiles with the radio buttons of the protocols, one of which is checked
at most. -/
structure View where
  combo : Combo String
  radio : Option Protocol
  enabled : Protocols

namespace View

def currentText (v : View) : String := v.combo.selected.getD ""

variable (m : AgentProfileManager)

/-- `SelectAgentProfile` without a profile of its own. A button that is checked unchecks another one, and
both report to `SelectAgentProto`, which comes back here; `n` bounds how often. -/
def selectAgentProfile : ℕ → Option Protocol → View → View
  | 0, _, v => v
  | n + 1, prefproto, v =>
    match m.getSupportedProtocol v.currentText with
    | none => { v with enabled := ⟨false, false, false⟩ }
    | some support =>
      match selectedproto support prefproto with
      | none => { v with enabled := support }
      | some i =>
        if v.radio = some i then { v with enabled := support }
        else
          let checked : View := { v with enabled := support, radio := some i }
          let reported := if v.radio.isSome then selectAgentProfile n checked.radio checked else checked
          selectAgentProfile n reported.radio reported

/-- The combo box has changed; `currentIndexChanged` goes to `SelectAgentProfile`. -/
def turn (n : ℕ) (v : View) (combo : Combo String) : View :=
  if v.combo.index = combo.index then { v with combo } else selectAgentProfile m n none { v with combo }

/-- `AgentProfileListChange`, with the text that is looked for. -/
def listChange (n : ℕ) (cap : String) (v : View) : View :=
  let prefproto := v.radio
  let v := v.turn m n v.combo.clear
  let v := v.turn m n (v.combo.addItems m.getAgentsList)
  if cap.isEmpty then v.selectAgentProfile m n none
  else
    let found := v.combo.findText cap
    let v := v.turn m n (v.combo.restore cap)
    v.selectAgentProfile m n (if found < 0 then none else prefproto)

end View

/-- The bar, the plot dialog and the combo box of the discovery tab. -/
structure Views where
  agent : View
  plot : View
  discovery : Combo String

namespace Views

variable (m : AgentProfileManager)

/-- `Agent::AgentProfileListChange`. -/
def agentListChange (n : ℕ) (s : Views) : Views := { s with agent := s.agent.listChange m n s.agent.currentText }

/-- `GraphManager::AgentProfileListChange`, whose text is the one of the bar. -/
def plotListChange (n : ℕ) (s : Views) : Views := { s with plot := s.plot.listChange m n s.agent.currentText }

/-- `Discovery::AgentProfileListChange`. -/
def discoveryListChange (s : Views) : Views :=
  let cap := s.discovery.selected.getD ""
  let combo := s.discovery.clear.addItems m.getAgentsList
  { s with discovery := if cap.isEmpty then combo else combo.restore cap }

/-- `AgentProfileListChanged`, in the order of the connections. -/
def agentProfileListChanged (n : ℕ) (s : Views) : Views :=
  ((s.agentListChange m n).plotListChange m n).discoveryListChange m

end Views

/-! ## The protocol -/

theorem selectedproto_supported {support : Protocols} {i : Protocol} (h : support.get i = true) :
    selectedproto support (some i) = some i := by
  cases i <;> simp_all [selectedproto, Protocols.get]

theorem supported_of_selectedproto {support : Protocols} {prefproto : Option Protocol} {i : Protocol}
    (h : selectedproto support prefproto = some i) : support.get i = true := by
  unfold selectedproto at h
  repeat' split at h
  all_goals first
    | (cases h; simp_all [Protocols.get])
    | cases h

theorem selectedproto_of_supported {support : Protocols} {i : Protocol} (h : support.get i = true)
    (prefproto : Option Protocol) : ∃ j, selectedproto support prefproto = some j := by
  unfold selectedproto
  cases i <;> simp only [Protocols.get] at h <;> split_ifs <;> simp_all

namespace View

variable {m : AgentProfileManager}

/-- What the buttons show in the end. -/
def settled (m : AgentProfileManager) (prefproto : Option Protocol) (v : View) : View :=
  match m.getSupportedProtocol v.currentText with
  | none => { v with enabled := ⟨false, false, false⟩ }
  | some support => { v with enabled := support, radio := (selectedproto support prefproto).or v.radio }

theorem currentText_of_selected {v : View} {name : String} (h : v.combo.selected = some name) :
    v.currentText = name := by
  rw [currentText, h]
  rfl

/-- A button that reports while it is the right one changes nothing. -/
theorem selectAgentProfile_same (n : ℕ) {v : View} {support : Protocols} {i : Protocol}
    (hprofile : m.getSupportedProtocol v.currentText = some support) (henabled : v.enabled = support)
    (hradio : v.radio = some i) (hi : support.get i = true) : selectAgentProfile m n v.radio v = v := by
  cases n with
  | zero => rfl
  | succ n =>
    simp only [selectAgentProfile, hprofile, hradio, selectedproto_supported hi, if_true]
    rw [← hradio, ← henabled]

/-- However deep the reports may go, they end at once. -/
theorem selectAgentProfile_succ (n : ℕ) (prefproto : Option Protocol) (v : View) :
    selectAgentProfile m (n + 1) prefproto v = v.settled m prefproto := by
  unfold selectAgentProfile settled
  cases hprofile : m.getSupportedProtocol v.currentText with
  | none => rfl
  | some support =>
    cases hchosen : selectedproto support prefproto with
    | none => simp only [hchosen, Option.none_or]
    | some i =>
      have hi := supported_of_selectedproto hchosen
      by_cases hradio : v.radio = some i
      · simp only [hchosen, hradio, if_true, Option.some_or]
      · let checked : View := { v with enabled := support, radio := some i }
        have hreports : selectAgentProfile m n checked.radio checked = checked :=
          selectAgentProfile_same n (i := i) hprofile rfl rfl hi
        have hreported : (if v.radio.isSome then selectAgentProfile m n checked.radio checked else checked) =
            checked := by
          rw [hreports]
          exact ite_self checked
        simp only [hchosen, if_neg hradio, Option.some_or]
        exact (congrArg (fun w : View => selectAgentProfile m n w.radio w) hreported).trans hreports

@[simp] theorem settled_combo (prefproto : Option Protocol) (v : View) : (v.settled m prefproto).combo = v.combo := by
  unfold settled
  split <;> rfl

@[simp] theorem turn_combo (n : ℕ) (v : View) (combo : Combo String) : (v.turn m (n + 1) combo).combo = combo := by
  unfold turn
  split
  · rfl
  · rw [selectAgentProfile_succ, settled_combo]

/-- Where a list is left that looked for a text. -/
def restored (names : List String) (cap : String) : Option String :=
  if cap ≠ "" ∧ cap ∈ names then some cap else names.head?

section Refill
variable {σ : Type*} (combo : σ → Combo String) (turn : σ → Combo String → σ) (names : List String) (cap : String)

/-- The combo box is cleared and filled, and whoever listens comes between. -/
def refilled (s : σ) : σ :=
  let cleared := turn s (combo s).clear
  turn cleared ((combo cleared).addItems names)

/-- The list is filled again and led back to a text. -/
def refound (s : σ) : σ :=
  let filled := refilled combo turn names s
  if cap.isEmpty then filled else turn filled ((combo filled).restore cap)

variable {combo turn}

theorem refilled_combo (hturn : ∀ s box, combo (turn s box) = box) (s : σ) :
    combo (refilled combo turn names s) = (combo s).clear.addItems names := by
  simp only [refilled, hturn]

theorem refound_combo (hturn : ∀ s box, combo (turn s box) = box) (s : σ) :
    (combo (refound combo turn names cap s)).items = names ∧
      (combo (refound combo turn names cap s)).selected = restored names cap := by
  have hitems : ((combo s).clear.addItems names).items = names := List.nil_append _
  unfold refound
  by_cases hcap : cap = ""
  · have hempty : cap.isEmpty = true := by simpa using hcap
    rw [if_pos hempty, refilled_combo names hturn, restored, if_neg (by simp [hcap])]
    exact ⟨hitems, Combo.selected_addItems_clear _ _⟩
  · have hnot : ¬cap.isEmpty = true := by simpa using hcap
    rw [if_neg hnot, hturn, refilled_combo names hturn]
    refine ⟨hitems, ?_⟩
    rw [Combo.selected_restore, hitems, restored]
    simp only [hcap, ne_eq, not_false_eq_true, true_and]

/-- The protocol is remembered exactly if the text is found. -/
theorem refilled_pref (hturn : ∀ s box, combo (turn s box) = box) (s : σ) {β : Type*} (prefproto without : β) :
    (if cap.isEmpty then without
      else if (combo (refilled combo turn names s)).findText cap < 0 then without else prefproto) =
        if cap ≠ "" ∧ cap ∈ names then prefproto else without := by
  have hfind : (combo (refilled combo turn names s)).findText cap < 0 ↔ cap ∉ names := by
    rw [Combo.findText_neg_iff, refilled_combo names hturn]
    exact Iff.rfl
  by_cases hcap : cap = ""
  · simp [hcap]
  · by_cases hmem : cap ∈ names <;> simp [hcap, hfind, hmem]

end Refill

/-- The list is filled, the text is looked for, and the protocol is selected for what was found. -/
theorem listChange_spec (n : ℕ) (cap : String) (v : View) :
    ∃ w : View, w.combo.items = m.getAgentsList ∧ w.combo.selected = restored m.getAgentsList cap ∧
      v.listChange m (n + 1) cap =
        w.settled m (if cap ≠ "" ∧ cap ∈ m.getAgentsList then v.radio else none) := by
  have hturn : ∀ v box, (turn m (n + 1) v box).combo = box := turn_combo n
  obtain ⟨hitems, hselected⟩ := refound_combo m.getAgentsList cap hturn v
  refine ⟨_, hitems, hselected, ?_⟩
  rw [← refilled_pref m.getAgentsList cap hturn v, ← selectAgentProfile_succ n]
  simp only [listChange, refound]
  split <;> rfl

/-- The profile stays selected as long as there is one of its name, and the protocol as long as that
one supports it. -/
structure Keeps (m : AgentProfileManager) (v v' : View) : Prop where
  profile : ∀ name, v.combo.selected = some name → name ∈ m.getAgentsList → v'.combo.selected = some name
  protocol : ∀ name support i, v.combo.selected = some name → name ∈ m.getAgentsList → v.radio = some i →
    m.getSupportedProtocol name = some support → support.get i = true → v'.radio = some i

/-- The text leads back to the profile, and the protocol is remembered or would be selected anyway. -/
structure LedBack (m : AgentProfileManager) (cap : String) (v : View) : Prop where
  profile : ∀ name, v.combo.selected = some name → name ∈ m.getAgentsList →
    restored m.getAgentsList cap = some name
  protocol : ∀ name support i, v.combo.selected = some name → name ∈ m.getAgentsList → v.radio = some i →
    m.getSupportedProtocol name = some support → support.get i = true →
    (cap ≠ "" ∧ cap ∈ m.getAgentsList) ∨ selectedproto support none = some i

theorem settled_radio {w : View} {name : String} {support : Protocols} {prefproto : Option Protocol}
    {i : Protocol} (hname : w.combo.selected = some name) (hprofile : m.getSupportedProtocol name = some support)
    (hi : selectedproto support prefproto = some i) : (w.settled m prefproto).radio = some i := by
  simp [settled, currentText_of_selected hname, hprofile, hi]

theorem keeps_listChange_iff (n : ℕ) (cap : String) (v : View) :
    v.Keeps m (v.listChange m (n + 1) cap) ↔ v.LedBack m cap := by
  obtain ⟨w, -, hselected, hchange⟩ := listChange_spec (m := m) n cap v
  have hprofile : (v.listChange m (n + 1) cap).combo.selected = restored m.getAgentsList cap := by
    rw [hchange, settled_combo, hselected]
  constructor
  · intro hkeeps
    have hback : ∀ name, v.combo.selected = some name → name ∈ m.getAgentsList →
        restored m.getAgentsList cap = some name :=
      fun name hname hmem => hprofile.symm.trans (hkeeps.profile name hname hmem)
    refine ⟨hback, fun name support i hname hmem hradio hsupport hi => ?_⟩
    by_cases hfound : cap ≠ "" ∧ cap ∈ m.getAgentsList
    · exact Or.inl hfound
    · obtain ⟨j, hj⟩ := selectedproto_of_supported hi none
      have hafter := hkeeps.protocol name support i hname hmem hradio hsupport hi
      rw [hchange, if_neg hfound,
        settled_radio (hselected.trans (hback name hname hmem)) hsupport hj] at hafter
      exact Or.inr (hj.trans hafter)
  · intro hback
    refine ⟨fun name hname hmem => hprofile.trans (hback.profile name hname hmem), ?_⟩
    intro name support i hname hmem hradio hsupport hi
    rw [hchange]
    apply settled_radio (hselected.trans (hback.profile name hname hmem)) hsupport
    split
    · rw [hradio]
      exact selectedproto_supported hi
    · rename_i hfound
      exact (hback.protocol name support i hname hmem hradio hsupport hi).resolve_left hfound

end View

namespace Views

variable {m : AgentProfileManager}

/-- Each of the three lists keeps its profile, whatever the other two show. -/
structure Kept (m : AgentProfileManager) (s s' : Views) : Prop where
  agent : s.agent.Keeps m s'.agent
  plot : s.plot.Keeps m s'.plot
  discovery : ∀ name, s.discovery.selected = some name → name ∈ m.getAgentsList →
    s'.discovery.selected = some name

/-- A profile without a name is found again if it is the first one, with the protocol selected for it. -/
structure FirstUnnamed (m : AgentProfileManager) (radio : Option Protocol) : Prop where
  first : m.getAgentsList.head? = some ""
  protocol : ∀ support i, radio = some i → m.getSupportedProtocol "" = some support →
    support.get i = true → selectedproto support none = some i

/-- The plot dialog shows the profile of the bar, or the one the bar falls back to. -/
structure Agree (m : AgentProfileManager) (s : Views) : Prop where
  agent : ∀ name, s.agent.combo.selected = some name → name ∈ m.getAgentsList →
    name ≠ "" ∨ FirstUnnamed m s.agent.radio
  plot : ∀ name, s.plot.combo.selected = some name → name ∈ m.getAgentsList →
    View.restored m.getAgentsList s.agent.currentText = some name ∧ (name ≠ "" ∨ FirstUnnamed m s.plot.radio)
  discovery : ∀ name, s.discovery.selected = some name → name ∈ m.getAgentsList →
    name ≠ "" ∨ m.getAgentsList.head? = some ""

theorem restored_unnamed (names : List String) : View.restored names "" = names.head? :=
  if_neg fun hnamed => hnamed.1 rfl

theorem restored_named {names : List String} {name : String} (hname : name ≠ "") (hmem : name ∈ names) :
    View.restored names name = some name := if_pos ⟨hname, hmem⟩

/-- Looking for the profile that was found finds it again. -/
theorem restored_restored (names : List String) (cap : String) :
    View.restored names ((View.restored names cap).getD "") = View.restored names cap := by
  by_cases hcap : cap ≠ "" ∧ cap ∈ names
  · rw [restored_named hcap.1 hcap.2]
    exact restored_named hcap.1 hcap.2
  · have hfirst : View.restored names cap = names.head? := if_neg hcap
    rw [hfirst]
    cases names with
    | nil => exact restored_unnamed []
    | cons first names =>
      by_cases hname : first = ""
      · rw [hname]
        exact restored_unnamed _
      · exact restored_named hname List.mem_cons_self

theorem ledBack_iff {cap : String} {v : View} (hcap : ∀ name, v.combo.selected = some name →
      name ∈ m.getAgentsList → View.restored m.getAgentsList cap = some name →
      ((cap ≠ "" ∧ cap ∈ m.getAgentsList) ↔ name ≠ "")) :
    v.LedBack m cap ↔ ∀ name, v.combo.selected = some name → name ∈ m.getAgentsList →
      View.restored m.getAgentsList cap = some name ∧ (name ≠ "" ∨ FirstUnnamed m v.radio) := by
  constructor
  · intro hback name hname hmem
    have hrestored := hback.profile name hname hmem
    have hfound := hcap name hname hmem hrestored
    refine ⟨hrestored, or_iff_not_imp_left.mpr fun hempty => ⟨?_, ?_⟩⟩
    · have hnot : ¬ (cap ≠ "" ∧ cap ∈ m.getAgentsList) := fun h => hempty (hfound.mp h)
      rw [View.restored, if_neg hnot, not_not.mp hempty] at hrestored
      exact hrestored
    · intro support i hradio hsupport hi
      have hprotocol := hback.protocol name support i hname hmem hradio (not_not.mp hempty ▸ hsupport) hi
      exact hprotocol.resolve_left fun h => hempty (hfound.mp h)
  · intro hall
    refine ⟨fun name hname hmem => (hall name hname hmem).1, ?_⟩
    intro name support i hname hmem hradio hsupport hi
    obtain ⟨hrestored, hnamed | hfirst⟩ := hall name hname hmem
    · exact Or.inl ((hcap name hname hmem hrestored).mpr hnamed)
    · by_cases hnamed : name = ""
      · exact Or.inr (hfirst.protocol support i hradio (hnamed ▸ hsupport) hi)
      · exact Or.inl ((hcap name hname hmem hrestored).mpr hnamed)

theorem agent_keeps_iff (n : ℕ) (v : View) :
    v.Keeps m (v.listChange m (n + 1) v.currentText) ↔ ∀ name, v.combo.selected = some name →
      name ∈ m.getAgentsList → name ≠ "" ∨ FirstUnnamed m v.radio := by
  rw [View.keeps_listChange_iff, ledBack_iff]
  · refine forall_congr' fun name => forall_congr' fun hname => forall_congr' fun hmem => ?_
    refine and_iff_right_of_imp ?_
    rw [View.currentText_of_selected hname]
    intro hcond
    by_cases hnamed : name = ""
    · rw [hnamed, restored_unnamed]
      exact (hcond.resolve_left (not_not.mpr hnamed)).first
    · exact restored_named hnamed hmem
  · intro name hname hmem _
    rw [View.currentText_of_selected hname]
    exact and_iff_left hmem

/-- The dialog looks for what the bar has come to show. -/
theorem plot_keeps_iff (n : ℕ) (cap : String) (v : View) :
    v.Keeps m (v.listChange m (n + 1) ((View.restored m.getAgentsList cap).getD "")) ↔
      ∀ name, v.combo.selected = some name → name ∈ m.getAgentsList →
        View.restored m.getAgentsList cap = some name ∧ (name ≠ "" ∨ FirstUnnamed m v.radio) := by
  rw [View.keeps_listChange_iff, ledBack_iff]
  · rw [restored_restored]
  · intro name _ hmem hrestored
    rw [restored_restored] at hrestored
    rw [hrestored]
    exact and_iff_left hmem

theorem discovery_keeps_iff (s : Views) :
    (∀ name, s.discovery.selected = some name → name ∈ m.getAgentsList →
        (s.discoveryListChange m).discovery.selected = some name) ↔
      ∀ name, s.discovery.selected = some name → name ∈ m.getAgentsList →
        name ≠ "" ∨ m.getAgentsList.head? = some "" := by
  refine forall_congr' fun name => forall_congr' fun hname => forall_congr' fun hmem => ?_
  have hitems : (s.discovery.clear.addItems m.getAgentsList).items = m.getAgentsList := List.nil_append _
  simp only [discoveryListChange, hname, Option.getD_some]
  by_cases hnamed : name = ""
  · simp [hnamed, Combo.selected_addItems_clear]
  · have hnot : name.isEmpty = false := by simpa using hnamed
    simp [hnot, hnamed, Combo.selected_restore, hitems, hmem]

/-- Main result: for any list of profiles and whatever the three lists show, all of them keep their
profile and protocol exactly if the plot dialog shows the profile the bar comes to show, and none of them
a profile without a name that is not the first one. -/
theorem agentProfileListChanged_kept_iff (m : AgentProfileManager) (n : ℕ) (s : Views) :
    s.Kept m (s.agentProfileListChanged m (n + 1)) ↔ s.Agree m := by
  have hbar : (s.agentListChange m (n + 1)).agent.currentText =
      (View.restored m.getAgentsList s.agent.currentText).getD "" := by
    obtain ⟨w, -, hselected, hchange⟩ := View.listChange_spec (m := m) n s.agent.currentText s.agent
    rw [agentListChange, hchange, View.currentText, View.settled_combo, hselected]
  have hplot : (s.agentProfileListChanged m (n + 1)).plot =
      s.plot.listChange m (n + 1) ((View.restored m.getAgentsList s.agent.currentText).getD "") := by
    rw [← hbar]
    rfl
  constructor
  · intro hkept
    refine ⟨(agent_keeps_iff n s.agent).mp hkept.agent, ?_, (discovery_keeps_iff s).mp hkept.discovery⟩
    apply (plot_keeps_iff n s.agent.currentText s.plot).mp
    rw [← hplot]
    exact hkept.plot
  · intro hagree
    refine ⟨(agent_keeps_iff n s.agent).mpr hagree.agent, ?_, (discovery_keeps_iff s).mpr hagree.discovery⟩
    rw [hplot]
    exact (plot_keeps_iff n s.agent.currentText s.plot).mpr hagree.plot

/-- The bar and the discovery tab show the first profile, the plot dialog the second one. -/
def apart : Views where
  agent := ⟨⟨["router", "switch"], some 0⟩, some .v2, ⟨false, true, false⟩⟩
  plot := ⟨⟨["router", "switch"], some 1⟩, some .v1, ⟨true, false, false⟩⟩
  discovery := ⟨["router", "switch"], some 0⟩

/-- Nothing has changed in the list, and the plot dialog goes over to the profile of the bar. -/
theorem plot_follows_agent :
    ¬ ∀ (m : AgentProfileManager) (n : ℕ) (s : Views), s.Kept m (s.agentProfileListChanged m (n + 1)) := by
  intro h
  have hplot := (h Form.twoProfiles.manager 0 apart).plot.profile "switch" rfl (by decide)
  revert hplot
  decide

end Views

end SnmpB.Profile
