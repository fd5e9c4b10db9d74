import SnmpB.Settings.Transaction

/-! # A transport disabled at the start

The agent disables a transport for which it cannot create a session, in the
member that `Save` stores. The next save makes the setting permanent, unless the
user has edited it before.
-/
namespace SnmpB.Settings

namespace Preferences

/-! ## The state at the start -/

section
variable {f : Preferences}

theorem showFlag_on {flag : Flag} (h : f.box flag = f.members.flag flag ∨ f.members.flag flag = true) :
    f.showFlag flag = { f with box := Function.update f.box flag (f.members.flag flag) } := by
  unfold showFlag setCheckState
  split
  · rename_i hbox
    rw [← hbox, Function.update_eq_self]
  · rename_i hbox
    have hon := h.resolve_left hbox
    have hnever : f.members.refuses flag true = false := by cases flag <;> rfl
    have hsame : f.members.setFlag flag true = f.members := by
      unfold Members.setFlag
      rw [← hon, Function.update_eq_self]
    unfold toggled setFlag put
    rw [hon]
    simp only [hnever, Bool.false_eq_true, ↓reduceIte, hsame]

/-- The boxes of some flags show them, and the others are off. -/
def boxesOf (members : Members) (shown : List Flag) (flag : Flag) : Bool :=
  decide (flag ∈ shown) && members.flag flag

theorem showFlag_next {flag : Flag} {shown : List Flag} (h : f.box = boxesOf f.members shown)
    (hflag : flag ∉ shown) : f.showFlag flag = { f with box := boxesOf f.members (flag :: shown) } := by
  have hoff : f.box flag = false := by
    rw [h, boxesOf, decide_eq_false hflag, Bool.false_and]
  have hshown : f.showFlag flag = { f with box := Function.update f.box flag (f.members.flag flag) } := by
    apply showFlag_on
    cases hflag : f.members.flag flag with
    | false => exact Or.inl hoff
    | true => exact Or.inr rfl
  have hbox : Function.update f.box flag (f.members.flag flag) = boxesOf f.members (flag :: shown) := by
    funext other
    by_cases hother : other = flag
    · subst hother
      simp [boxesOf]
    · simp [boxesOf, hother, h]
  rw [hshown, hbox]

def buttonOf (automaticloading : ℤ) : Option Loading :=
  if automaticloading = 1 then some .enable
  else if automaticloading = 2 then some .enablePrompt
  else if automaticloading = 3 then some .disable
  else none

theorem buttonOf_number (button : Loading) : buttonOf button.number = some button := by
  cases button <;> rfl

theorem showLoading_off (h : f.radio = none) :
    f.showLoading = { f with radio := buttonOf f.members.automaticloading } := by
  have hset : ∀ button : Loading, f.members.automaticloading = button.number →
      f.setChecked button = { f with radio := some button } := by
    intro button hnumber
    have hradio : f.radio ≠ some button := by
      rw [h]
      exact nofun
    rw [setChecked_eq f hradio, ← hnumber]
  unfold showLoading buttonOf
  split
  · rename_i hnumber
    exact hset .enable hnumber
  · split
    · rename_i hnumber
      exact hset .enablePrompt hnumber
    · split
      · rename_i hnumber
        exact hset .disable hnumber
      · rw [← h]

theorem showFlags {flags shown : List Flag} (h : f.box = boxesOf f.members shown)
    (hflags : (flags.reverse ++ shown).Nodup) :
    flags.foldl showFlag f = { f with box := boxesOf f.members (flags.reverse ++ shown) } := by
  induction flags generalizing f shown with
  | nil => exact congrArg (fun box => { f with box }) h
  | cons flag flags ih =>
    have hnext : (flags.reverse ++ flag :: shown).Nodup := by simpa using hflags
    have hflag : flag ∉ shown := (List.nodup_cons.mp (List.nodup_append.mp hnext).2.1).1
    rw [List.foldl_cons, showFlag_next h hflag, ih rfl hnext]
    simp

theorem boxesOf_all (members : Members) :
    boxesOf members [.showagentname, .expandtrapbinding, .enable .ipv6, .enable .ipv4, .horizontalsplit] =
      members.flag := by
  funext flag
  have hall : flag ∈ [.showagentname, .expandtrapbinding, .enable .ipv6, .enable .ipv4, .horizontalsplit] := by
    rcases flag with ⟨_ | _⟩ | _ | _ | _ <;> decide
  rw [boxesOf, decide_eq_true hall, Bool.true_and]

/-- The widgets before the paths and the modules are looked at. -/
theorem init_widgets (members : Members) (stored : Stored) :
    ((((((setupUi members stored).showFlag .horizontalsplit).showFlag (.enable .ipv4)).showFlag
      (.enable .ipv6)).showFlag .expandtrapbinding).showFlag .showagentname).showLoading =
      { setupUi members stored with box := members.flag, radio := buttonOf members.automaticloading } := by
  have hoff : (setupUi members stored).box = boxesOf (setupUi members stored).members [] := by
    funext flag
    simp [setupUi, boxesOf]
  have hall : ([.horizontalsplit, .enable .ipv4, .enable .ipv6, .expandtrapbinding, .showagentname] :
      List Flag).foldl showFlag (setupUi members stored) = { setupUi members stored with box := members.flag } :=
    (showFlags hoff (by decide)).trans
      (congrArg (fun box => { setupUi members stored with box }) (boxesOf_all members))
  change (List.foldl showFlag (setupUi members stored) [.horizontalsplit, .enable .ipv4, .enable .ipv6,
    .expandtrapbinding, .showagentname]).showLoading = _
  rw [hall, showLoading_off rfl]
  rfl

/-- `default_mib_config`. -/
def defaultMibConfig : List String :=
  ["IF-MIB", "RFC1213-MIB", "SNMP-FRAMEWORK-MIB", "SNMP-NOTIFICATION-MIB", "SNMPv2-MIB", "SNMPv2-TM",
    "SNMP-VIEW-BASED-ACM-MIB"]

/-- The lists that are empty get their defaults. -/
def filled (defaultpaths : List String) (d : Stored) : Stored :=
  { d with
    mibpaths := if d.mibpaths.isEmpty then defaultpaths else d.mibpaths
    mibpreloads := if d.mibpreloads.isEmpty then defaultMibConfig else d.mibpreloads }

/-- The first dialog finds everything shown; at most the lists are reset to their defaults. -/
theorem init_opened (defaultpaths : List String) (members : Members) (stored : Stored) :
    (init defaultpaths members stored).Opened ∧ (init defaultpaths members stored).members = members ∧
      (init defaultpaths members stored).stored = filled defaultpaths stored := by
  have hwidgets : { setupUi members stored with
      box := members.flag, radio := buttonOf members.automaticloading }.Synced := by
    refine ⟨rfl, ?_, rfl⟩
    intro button hnumber
    have hbutton : buttonOf members.automaticloading = some button := by
      rw [show members.automaticloading = button.number from hnumber]
      exact buttonOf_number button
    exact hbutton
  generalize hf : ({ setupUi members stored with
    box := members.flag, radio := buttonOf members.automaticloading } : Preferences) = f at hwidgets
  have hmembers : f.members = members ∧ f.stored = stored := by
    rw [← hf]
    exact ⟨rfl, rfl⟩
  let reset : Preferences := if f.stored.mibpaths.isEmpty then f.mibPathReset defaultpaths else f
  have hreset : reset.Synced ∧ reset.members = f.members ∧ reset.stored = { f.stored with
      mibpaths := if f.stored.mibpaths.isEmpty then defaultpaths else f.stored.mibpaths } := by
    unfold reset
    split
    · exact ⟨⟨hwidgets.box, hwidgets.radio, rfl⟩, rfl, rfl⟩
    · exact ⟨hwidgets, rfl, rfl⟩
  let loaded : Preferences :=
    if reset.mibPathRefresh.stored.mibpreloads.isEmpty then reset.mibPathRefresh.mibPreloadsReset
    else reset.mibPathRefresh
  have hloaded : loaded.Opened ∧ loaded.members = f.members ∧ loaded.stored = filled defaultpaths f.stored := by
    obtain ⟨hsynced, hsame, hstored⟩ := hreset
    have hrefreshed := hsynced.mibPathRefresh
    have hlists : reset.mibPathRefresh.stored = { f.stored with
        mibpaths := if f.stored.mibpaths.isEmpty then defaultpaths else f.stored.mibpaths } := hstored
    unfold loaded filled
    split
    · rename_i hempty
      rw [hlists] at hempty
      refine ⟨⟨⟨hrefreshed.box, hrefreshed.radio, rfl⟩, hrefreshed.paths⟩, hsame, ?_⟩
      rw [if_pos hempty, mibPreloadsReset, refreshModules, hlists]
      rfl
    · rename_i hnonempty
      rw [hlists] at hnonempty
      refine ⟨hrefreshed, hsame, ?_⟩
      rw [if_neg hnonempty, hlists]
  have hinit : init defaultpaths members stored = loaded.selectedPreferences .transport := by
    unfold init
    simp only [init_widgets, hf]
    rfl
  have hflag : ∀ flag, loaded.showFlag flag = loaded := fun flag => showFlag_same (congrFun hloaded.1.box flag)
  have hsame : loaded.selectedPreferences .transport = loaded := by
    change (loaded.showFlag _).showFlag _ = loaded
    rw [hflag, hflag]
  rw [hinit, hsame]
  exact ⟨hloaded.1, hloaded.2.1.trans hmembers.1, hloaded.2.2.trans (congrArg (filled defaultpaths) hmembers.2)⟩

end

end Preferences

/-- The program, and whether the dialog is open. -/
structure Program where
  prefs : Preferences
  dialog : Bool

/-- What happens behind the start; the module loader saves at any time. -/
inductive Event
  | opened
  | turn (t : Turn)
  | closed (accepted : Bool)

/-- The event stores the members. -/
def Event.Saves : Event → Prop
  | .turn (.modules _) => True
  | .closed accepted => accepted
  | _ => False

namespace Program
open Preferences

variable (defaultpaths : List String)

def step (s : Program) : Event → Option Program
  | .opened => if s.dialog then none else some { s with dialog := true }
  | .turn (.edit e) => if s.dialog then (s.prefs.edit defaultpaths e).map (Program.mk · true) else none
  | .turn (.modules wanted) => some { s with prefs := s.prefs.saveWanted wanted }
  | .closed accepted =>
    if s.dialog then some ⟨if accepted then s.prefs.save else s.prefs.mibPathRefresh, false⟩ else none

/-- The user switches a transport on or off. -/
def Edits (transport : Transport) (s : Program) : Event → Prop
  | .turn (.edit (.check flag checked)) =>
    flag = .enable transport ∧ s.prefs.members.refuses flag checked = false
  | _ => False

/-- The user has switched the transport in these events. -/
def Edited (transport : Transport) : Program → List Event → Prop :=
  Runs.Somewhere (step defaultpaths) (Edits transport)

def enabled (s : Program) (transport : Transport) : Bool := s.prefs.members.flag (.enable transport)

def storedEnabled (s : Program) (transport : Transport) : Bool := s.prefs.stored.members.flag (.enable transport)

section
variable {defaultpaths : List String} {s s' : Program} {transport : Transport} {e : Event}

theorem toggle_other {m : Members} {flag other : Flag} {checked : Bool}
    (h : flag = other → m.refuses flag checked) : (m.toggle flag checked).flag other = m.flag other := by
  unfold Members.toggle
  split
  · rfl
  · rename_i hrefuses
    have hne : other ≠ flag := fun heq => hrefuses (h heq.symm)
    exact Function.update_of_ne hne ..

/-- An event changes a transport only if it edits it, and what is stored only if it saves. -/
structure Moved (transport : Transport) (s : Program) (e : Event) (s' : Program) : Prop where
  synced : s'.prefs.Synced
  enabled : ¬ s.Edits transport e → s'.enabled transport = s.enabled transport
  saved : e.Saves → s'.storedEnabled transport = s'.enabled transport
  kept : ¬ e.Saves → s'.storedEnabled transport = s.storedEnabled transport

theorem moved_turn {t : Turn} {f : Preferences} (hs : s.prefs.Synced) {dialog : Bool}
    (h : s.prefs.step defaultpaths t = some f) : Moved transport s (.turn t) ⟨f, dialog⟩ := by
  have htook := took hs h
  refine ⟨htook.synced, ?_, ?_, ?_⟩
  · intro hedits
    rw [Program.enabled, htook.members]
    cases t with
    | modules wanted => rfl
    | edit e =>
      cases e with
      | check flag checked =>
        apply toggle_other
        intro hflag
        by_contra hrefuses
        exact hedits ⟨hflag, Bool.eq_false_iff.mpr hrefuses⟩
      | select category => cases category <;> rfl
      | _ => rfl
  · intro hsaves
    rw [Program.enabled, storedEnabled, htook.members, htook.stored]
    cases t with
    | modules wanted => rfl
    | edit e => exact hsaves.elim
  · intro hsaves
    rw [storedEnabled, htook.stored]
    cases t with
    | modules wanted => exact (hsaves trivial).elim
    | edit e => cases e <;> rfl

theorem step_opened (h : s.step defaultpaths .opened = some s') : s' = { s with dialog := true } := by
  obtain ⟨-, h⟩ := Option.ite_none_left_eq_some.mp h
  exact (Option.some.inj h).symm

theorem step_closed {accepted : Bool} (h : s.step defaultpaths (.closed accepted) = some s') :
    s' = ⟨if accepted then s.prefs.save else s.prefs.mibPathRefresh, false⟩ := by
  obtain ⟨-, h⟩ := Option.ite_some_none_eq_some.mp h
  exact h.symm

theorem step_edit {e : Edit} (h : s.step defaultpaths (.turn (.edit e)) = some s') :
    ∃ f, s.prefs.edit defaultpaths e = some f ∧ s' = ⟨f, true⟩ := by
  obtain ⟨-, h⟩ := Option.ite_none_right_eq_some.mp h
  obtain ⟨f, hf, h⟩ := Option.map_eq_some_iff.mp h
  exact ⟨f, hf, h.symm⟩

theorem moved (hs : s.prefs.Synced) (h : s.step defaultpaths e = some s') : Moved transport s e s' := by
  cases e with
  | opened =>
    obtain rfl := step_opened h
    exact ⟨hs, fun _ => rfl, fun hsaves => hsaves.elim, fun _ => rfl⟩
  | closed accepted =>
    obtain rfl := step_closed h
    cases accepted with
    | true => exact ⟨hs.save.toSynced, fun _ => rfl, fun _ => rfl, fun hsaves => (hsaves rfl).elim⟩
    | false => exact ⟨hs.mibPathRefresh.toSynced, fun _ => rfl, fun hsaves => (nomatch hsaves), fun _ => rfl⟩
  | turn t =>
    cases t with
    | edit e =>
      obtain ⟨f, hf, rfl⟩ := step_edit h
      exact moved_turn (t := .edit e) hs hf
    | modules wanted =>
      cases h
      have hstep : s.prefs.step defaultpaths (.modules wanted) = some (s.prefs.saveWanted wanted) := rfl
      exact moved_turn hs hstep

theorem saves_not_edits (hsaves : e.Saves) : ¬ s.Edits transport e := by
  intro hedits
  cases e with
  | turn t =>
    cases t with
    | edit e => exact hsaves
    | modules wanted => exact hedits
  | opened => exact hedits
  | closed accepted => exact hedits

theorem exec_synced (hs : s.prefs.Synced) {es : List Event} (h : Runs.exec (step defaultpaths) s es = some s') :
    s'.prefs.Synced :=
  Runs.exec_invariant (P := fun s : Program => s.prefs.Synced)
    (fun s e s' hs h => (moved hs h : Moved .ipv4 s e s').synced) hs h

theorem edited_snoc {m : Program} {es : List Event} (hm : Runs.exec (step defaultpaths) s es = some m)
    (h : m.step defaultpaths e = some s') :
    Edited defaultpaths transport s (es ++ [e]) ↔ Edited defaultpaths transport s es ∨ m.Edits transport e := by
  rw [Edited, Runs.somewhere_snoc hm, h]
  simp

/-- Without an edit of its own a transport stays as it is. -/
theorem exec_enabled (hs : s.prefs.Synced) {es : List Event} (h : Runs.exec (step defaultpaths) s es = some s')
    (hedited : ¬ Edited defaultpaths transport s es) : s'.enabled transport = s.enabled transport := by
  induction es using List.reverseRecOn generalizing s' with
  | nil =>
    cases h
    rfl
  | append_singleton es e ih =>
    obtain ⟨m, hm, hlast⟩ := Runs.exec_snoc.mp h
    rw [edited_snoc hm hlast, not_or] at hedited
    rw [(moved (exec_synced hs hm) hlast).enabled hedited.2]
    exact ih hm hedited.1

/-- What is stored for it stays too, if nothing else than that could be saved. -/
theorem exec_storedEnabled (hs : s.prefs.Synced) {es : List Event}
    (h : Runs.exec (step defaultpaths) s es = some s')
    (hsaved : ∀ done e, done ++ [e] <+: es → e.Saves → ¬ Edited defaultpaths transport s done →
      s.storedEnabled transport = s.enabled transport)
    (hedited : ¬ Edited defaultpaths transport s es) : s'.storedEnabled transport = s.storedEnabled transport := by
  induction es using List.reverseRecOn generalizing s' with
  | nil =>
    cases h
    rfl
  | append_singleton es e ih =>
    obtain ⟨m, hm, hlast⟩ := Runs.exec_snoc.mp h
    have hboth := hedited
    rw [edited_snoc hm hlast, not_or] at hboth
    have hmoved : Moved transport m e s' := moved (exec_synced hs hm) hlast
    by_cases hsaves : e.Saves
    · rw [hmoved.saved hsaves, exec_enabled hs h hedited]
      exact (hsaved es e List.prefix_rfl hsaves hboth.1).symm
    · rw [hmoved.kept hsaves]
      apply ih hm ?_ hboth.1
      intro done e' hbegins
      exact hsaved done e' (hbegins.trans (List.prefix_append es [e]))

end

end Program

/-- The agent opens one of two transports and disables this one. -/
def Disables (m : Members) (sessions : Sessions) (transport : Transport) : Prop :=
  (∀ t, m.flag (.enable t) = true) ∧ sessions.both = false ∧
    sessions.alone .ipv4 = decide (transport = .ipv6)

theorem agent_flag_ne_iff {m m' : Members} {sessions : Sessions} (h : agent m sessions = some m')
    (transport : Transport) :
    m'.flag (.enable transport) ≠ m.flag (.enable transport) ↔ Disables m sessions transport := by
  have hsame (hm : m = m') (hnot : ¬ Disables m sessions transport) :
      m'.flag (.enable transport) ≠ m.flag (.enable transport) ↔ Disables m sessions transport := by
    subst hm
    exact iff_of_false (fun hne => hne rfl) hnot
  unfold agent at h
  split at h
  · rename_i hv4 hv6
    have hon : ∀ t, m.flag (.enable t) = true := by
      intro t
      cases t
      · exact hv4
      · exact hv6
    split at h
    · rename_i hboth
      cases h
      apply hsame rfl
      rintro ⟨-, hnone, -⟩
      rw [hboth] at hnone
      cases hnone
    · rename_i hboth
      have hdisables : Disables m sessions transport ↔ sessions.alone .ipv4 = decide (transport = .ipv6) :=
        ⟨fun hd => hd.2.2, fun hd => ⟨hon, Bool.eq_false_iff.mpr hboth, hd⟩⟩
      rw [hdisables]
      split at h
      · rename_i hipv4
        cases h
        cases transport <;> simp [Members.setFlag, hon, hipv4]
      · rename_i hipv4
        split at h
        · cases h
          cases transport <;> simp [Members.setFlag, hon, hipv4]
        · cases h
  · rename_i hv4 hv6
    split at h
    · cases h
      apply hsame rfl
      rintro ⟨hon, -⟩
      rw [hon] at hv6
      cases hv6
    · cases h
  · rename_i hv4 hv6
    split at h
    · cases h
      apply hsame rfl
      rintro ⟨hon, -⟩
      rw [hon] at hv4
      cases hv4
    · cases h
  · cases h

namespace Program
open Preferences

/-- Main result: what is stored for a transport the user leaves alone stays as it was, exactly if the
user has edited the disabled one before anything is saved. -/
theorem stored_iff_edited_before_save {defaultpaths : List String} {stored : Stored} {sessions : Sessions}
    {f : Preferences} {es : List Event} {s' : Program} (hstart : start defaultpaths stored sessions = some f)
    (h : Runs.exec (step defaultpaths) ⟨f, false⟩ es = some s') :
    (∀ done, done <+: es → ∀ r, Runs.exec (step defaultpaths) ⟨f, false⟩ done = some r → ∀ transport,
        ¬ Edited defaultpaths transport ⟨f, false⟩ done →
        r.storedEnabled transport = stored.members.flag (.enable transport)) ↔
      ∀ done e, done ++ [e] <+: es → e.Saves → ∀ transport, Disables stored.members sessions transport →
        Edited defaultpaths transport ⟨f, false⟩ done := by
  obtain ⟨members, hagent, rfl⟩ := Option.map_eq_some_iff.mp hstart
  obtain ⟨hopened, hmembers, hstored⟩ := init_opened defaultpaths members stored
  let s : Program := ⟨init defaultpaths members stored, false⟩
  have hs : s.prefs.Synced := hopened.toSynced
  have henabled (t : Transport) : s.enabled t = members.flag (.enable t) := by
    rw [Program.enabled, hmembers]
  have hkept (t : Transport) : s.storedEnabled t = stored.members.flag (.enable t) := by
    rw [storedEnabled, hstored]
    rfl
  constructor
  · intro hall done e hbegins hsaves transport hdisables
    by_contra hedited
    obtain ⟨rest, rfl⟩ := hbegins
    obtain ⟨r, hr, -⟩ := Runs.exec_append.mp h
    obtain ⟨m, hm, hlast⟩ := Runs.exec_snoc.mp hr
    have hnot : ¬ Edited defaultpaths transport s (done ++ [e]) := by
      rw [edited_snoc hm hlast, not_or]
      exact ⟨hedited, saves_not_edits hsaves⟩
    apply (agent_flag_ne_iff hagent transport).mpr hdisables
    rw [← henabled, ← hall (done ++ [e]) ⟨rest, rfl⟩ r hr transport hnot,
      (moved (exec_synced hs hm) hlast).saved hsaves]
    exact (exec_enabled hs hr hnot).symm
  · intro hall done hbegins r hr transport hedited
    have hsaved : ∀ done' e, done' ++ [e] <+: done → e.Saves → ¬ Edited defaultpaths transport s done' →
        s.storedEnabled transport = s.enabled transport := by
      intro done' e hdone hsaves hnot
      have hsame : ¬ Disables stored.members sessions transport :=
        fun hdisables => hnot (hall done' e (hdone.trans hbegins) hsaves transport hdisables)
      rw [← agent_flag_ne_iff hagent transport, not_not] at hsame
      rw [henabled, hkept, hsame]
    rw [exec_storedEnabled hs hr hsaved hedited, hkept]

/-- The program without a session for the second transport. -/
def ipv4Only : Program := ⟨init [] (fresh.members.setFlag (.enable .ipv6) false) fresh.stored, false⟩

theorem stored_iff_edited_before_save_ipv4Only :
    (∀ done, done <+: [.turn (.modules ["IF-MIB", "TCP-MIB"])] → ∀ r,
        Runs.exec (step []) ipv4Only done = some r → ∀ transport, ¬ Edited [] transport ipv4Only done →
        r.storedEnabled transport = fresh.stored.members.flag (.enable transport)) ↔
      ∀ done e, done ++ [e] <+: [.turn (.modules ["IF-MIB", "TCP-MIB"])] → e.Saves → ∀ transport,
        Disables fresh.stored.members ⟨false, fun transport => transport == .ipv4⟩ transport →
        Edited [] transport ipv4Only done :=
  have hstart : start [] fresh.stored ⟨false, fun transport => transport == .ipv4⟩ = some ipv4Only.prefs := rfl
  stored_iff_edited_before_save hstart rfl

/-- A module is loaded, and the transport is off for good. -/
theorem save_stores_disabled_transport :
    ¬ ∀ (defaultpaths : List String) (stored : Stored) (sessions : Sessions) (f : Preferences) (es : List Event)
      (r : Program), start defaultpaths stored sessions = some f →
      Runs.exec (step defaultpaths) ⟨f, false⟩ es = some r → ∀ transport,
      ¬ Edited defaultpaths transport ⟨f, false⟩ es →
      r.storedEnabled transport = stored.members.flag (.enable transport) := by
  intro h
  have hedited : ∀ f, ¬ Edited [] .ipv6 ⟨f, false⟩ [.turn (.modules ["IF-MIB", "TCP-MIB"])] := by
    rintro f (hedits | hrest)
    · exact hedits
    · exact hrest _ rfl
  have hsame := h [] fresh.stored ⟨false, fun transport => transport == .ipv4⟩ _
    [.turn (.modules ["IF-MIB", "TCP-MIB"])] _ rfl rfl .ipv6 (hedited _)
  revert hsame
  decide

end Program

end SnmpB.Settings
