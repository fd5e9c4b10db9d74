import SnmpB.Settings.Preferences

/-! # OK and Cancel

An accepted dialog should store what was edited last, and a rejected one should
leave no trace, in what is stored and in what a later save stores. Both are runs
of an abstract machine, and the dialog follows it exactly under a condition on
its turns.
-/
namespace SnmpB.Settings

/-- Switching the last transport off does not count. -/
def Members.toggle (m : Members) (flag : Flag) (checked : Bool) : Members :=
  if m.refuses flag checked then m else m.setFlag flag checked

/-- What a turn does to the choices: only edits change them, and showing a page is none. -/
def Choices.draft (defaultpaths : List String) (c : Choices) : Turn → Choices
  | .edit (.check flag checked) => { c with members := c.members.toggle flag checked }
  | .edit (.port transport v) => { c with members := c.members.setTrapPort transport v }
  | .edit (.loading button) => { c with members := { c.members with automaticloading := button.number } }
  | .edit (.select _) => c
  | .edit .pathAdd => { c with mibpaths := addPath c.mibpaths }
  | .edit (.pathEdit i text) => { c with mibpaths := c.mibpaths.set i text }
  | .edit (.pathDelete rows) =>
    { c with mibpaths := if rows.length ≥ c.mibpaths.length then c.mibpaths else deletePaths c.mibpaths rows }
  | .edit (.pathMove i j) => { c with mibpaths := movePath c.mibpaths i j }
  | .edit .pathReset => { c with mibpaths := defaultpaths }
  | .modules _ => c

/-- A turn that is no edit. -/
def Turn.isSave : Turn → Bool
  | .edit _ => false
  | .modules _ => true

namespace Preferences

/-- Between two dialogs the widgets show what the members and the settings have. -/
structure Synced (f : Preferences) : Prop where
  box : f.box = f.members.flag
  radio : ∀ button : Loading, f.members.automaticloading = button.number → f.radio = some button
  wanted : f.wanted = f.stored.mibpreloads

/-- A spin box can show the port, or shows its bound already. -/
def ShowsPort (f : Preferences) (transport : Transport) : Prop :=
  f.spin transport = bound (f.members.trapport transport) ∨
    f.members.trapport transport = bound (f.members.trapport transport)

/-- The turn does what it should to the choices. -/
def Follows (defaultpaths : List String) (f : Preferences) : Turn → Prop
  | .edit (.select .modules) => f.stored.mibpaths = f.modulePaths
  | .edit (.select .traps) => ∀ transport, f.ShowsPort transport
  | .edit .pathReset => f.modulePaths = defaultpaths
  | _ => True

/-- The turn leaves the members as they are, and stores the paths that are stored. -/
def Traceless (defaultpaths : List String) (f : Preferences) : Turn → Prop
  | .edit (.check flag checked) => f.members.refuses flag checked
  | .edit (.port transport v) => f.members.trapport transport = v
  | .edit (.loading button) => f.members.automaticloading = button.number
  | .edit (.select .traps) => ∀ transport, f.ShowsPort transport
  | .edit .pathReset => f.stored.mibpaths = defaultpaths
  | .edit _ => True
  | .modules _ => f.modulePaths = f.stored.mibpaths

/-! ## What a turn does -/

/-- The port that a spin box leaves in the member it is set to. -/
def readBack (spin port : ℤ) : ℤ := if spin = bound port then port else bound port

def shownPort (f : Preferences) (transport : Transport) : ℤ :=
  readBack (f.spin transport) (f.members.trapport transport)

section
variable {defaultpaths : List String} {f f' : Preferences}

theorem shownPort_eq_iff (transport : Transport) :
    f.shownPort transport = f.members.trapport transport ↔ f.ShowsPort transport := by
  unfold shownPort readBack ShowsPort
  split
  · rename_i hspin
    exact iff_of_true rfl (Or.inl hspin)
  · rename_i hspin
    rw [or_iff_right hspin]
    exact eq_comm

theorem shownPorts_eq_iff : f.shownPort = f.members.trapport ↔ ∀ transport, f.ShowsPort transport := by
  rw [funext_iff]
  exact forall_congr' shownPort_eq_iff

theorem showFlag_same {flag : Flag} (h : f.box flag = f.members.flag flag) : f.showFlag flag = f := if_pos h

theorem showLoading_same (hf : f.Synced) : f.showLoading = f := by
  unfold showLoading setChecked
  split
  · rename_i hnumber
    exact if_pos (hf.radio .enable hnumber)
  · split
    · rename_i hnumber
      exact if_pos (hf.radio .enablePrompt hnumber)
    · split
      · rename_i hnumber
        exact if_pos (hf.radio .disable hnumber)
      · rfl

theorem showPort_eq (f : Preferences) (transport : Transport) :
    ∃ spin, f.showPort transport =
        { f with spin, members := f.members.setTrapPort transport (f.shownPort transport) } ∧
      spin transport.other = f.spin transport.other := by
  unfold showPort setValue shownPort readBack
  split
  · refine ⟨f.spin, ?_, rfl⟩
    unfold Members.setTrapPort
    rw [Function.update_eq_self]
  · refine ⟨Function.update f.spin transport (bound (f.members.trapport transport)), rfl, ?_⟩
    apply Function.update_of_ne
    cases transport <;> decide

/-- Both ports as the page of the traps leaves them. -/
theorem showPorts_eq (f : Preferences) :
    ∃ spin, (f.showPort .ipv4).showPort .ipv6 =
      { f with spin, members := { f.members with trapport := f.shownPort } } := by
  obtain ⟨spin, hfirst, hother⟩ := showPort_eq f .ipv4
  obtain ⟨spin', hsecond, -⟩ := showPort_eq (f.showPort .ipv4) .ipv6
  have hsame : (f.showPort .ipv4).shownPort .ipv6 = f.shownPort .ipv6 := by
    have hspin : spin .ipv6 = f.spin .ipv6 := hother
    have hport : (f.members.setTrapPort .ipv4 (f.shownPort .ipv4)).trapport .ipv6 = f.members.trapport .ipv6 := by
      simp [Members.setTrapPort]
    rw [shownPort, shownPort, ← hspin, ← hport, hfirst]
  rw [hsame, hfirst] at hsecond
  rw [hfirst]
  refine ⟨spin', hsecond.trans ?_⟩
  have hports : Function.update (Function.update f.members.trapport .ipv4 (f.shownPort .ipv4)) .ipv6
      (f.shownPort .ipv6) = f.shownPort := by
    funext transport
    cases transport <;> simp
  unfold Members.setTrapPort
  rw [hports]

theorem toggled_eq (hf : f.Synced) {flag : Flag} {checked : Bool} (hbox : f.box flag ≠ checked) :
    ∃ box messages, f.toggled flag checked =
        { f with box, messages, members := f.members.toggle flag checked } ∧
      box = (f.toggled flag checked).members.flag := by
  unfold toggled setFlag Members.toggle
  simp only
  split
  · rename_i hrefuses
    have hchecked : checked = false := by
      unfold Members.refuses at hrefuses
      split at hrefuses
      · cases checked
        · rfl
        · cases hrefuses
      · cases hrefuses
    subst hchecked
    have hon : f.members.flag flag = true := by
      rw [← hf.box]
      simpa using hbox
    have hsame : f.members.setFlag flag true = f.members := by
      unfold Members.setFlag
      rw [← hon, Function.update_eq_self]
    have hbox' : Function.update (Function.update f.box flag false) flag true = f.members.flag := by
      rw [Function.update_idem, hf.box, ← hon, Function.update_eq_self]
    unfold checkAgain put
    simp only [Function.update_self, Bool.false_eq_true, ↓reduceIte, hsame, hbox']
    exact ⟨_, _, rfl, rfl⟩
  · refine ⟨Function.update f.box flag checked, f.messages, rfl, ?_⟩
    rw [hf.box]
    rfl

theorem setChecked_eq (f : Preferences) {button : Loading} (hradio : f.radio ≠ some button) :
    f.setChecked button =
      { f with radio := some button, members := { f.members with automaticloading := button.number } } :=
  if_neg hradio

theorem Loading.number_inj {a b : Loading} (h : a.number = b.number) : a = b := by
  cases a <;> cases b <;> first | rfl | cases h

variable (defaultpaths) in
def membersAfter (f : Preferences) : Turn → Members
  | .edit (.select .traps) => { f.members with trapport := f.shownPort }
  | t => (f.choices.draft defaultpaths t).members

variable (defaultpaths) in
def pathsAfter (f : Preferences) : Turn → List String
  | .edit (.select .modules) => f.stored.mibpaths
  | .edit .pathReset => f.modulePaths
  | t => (f.choices.draft defaultpaths t).mibpaths

variable (defaultpaths) in
def storedAfter (f : Preferences) : Turn → Stored
  | .edit .pathReset => { f.stored with mibpaths := defaultpaths }
  | .edit _ => f.stored
  | .modules wanted => { f.choices with mibpreloads := wanted }

/-- What a turn does to the members, to the paths of the list and to what is stored. -/
structure Took (defaultpaths : List String) (f : Preferences) (t : Turn) (f' : Preferences) : Prop where
  synced : f'.Synced
  members : f'.members = f.membersAfter defaultpaths t
  paths : f'.modulePaths = f.pathsAfter defaultpaths t
  stored : f'.stored = f.storedAfter defaultpaths t

theorem took_select (hf : f.Synced) (category : Category) :
    Took defaultpaths f (.edit (.select category)) (f.selectedPreferences category) := by
  have hflag : ∀ flag, f.showFlag flag = f := fun flag => showFlag_same (congrFun hf.box flag)
  cases category with
  | transport =>
    have hsame : f.selectedPreferences .transport = f := by
      change (f.showFlag _).showFlag _ = f
      rw [hflag, hflag]
    rw [hsame]
    exact ⟨hf, rfl, rfl, rfl⟩
  | mibtree =>
    have hsame : f.selectedPreferences .mibtree = f := by
      change (f.showFlag _).showLoading = f
      rw [hflag, showLoading_same hf]
    rw [hsame]
    exact ⟨hf, rfl, rfl, rfl⟩
  | modules => exact ⟨⟨hf.box, hf.radio, hf.wanted⟩, rfl, rfl, rfl⟩
  | traps =>
    obtain ⟨spin, hports⟩ := showPorts_eq f
    have hshown : ∀ flag, ((f.showPort .ipv4).showPort .ipv6).showFlag flag =
        (f.showPort .ipv4).showPort .ipv6 := by
      intro flag
      apply showFlag_same
      rw [hports]
      exact congrFun hf.box flag
    have hselected : f.selectedPreferences .traps =
        { f with spin, members := { f.members with trapport := f.shownPort } } := by
      change (((f.showPort .ipv4).showPort .ipv6).showFlag _).showFlag _ = _
      rw [hshown, hshown, hports]
    rw [hselected]
    exact ⟨⟨hf.box, hf.radio, hf.wanted⟩, rfl, rfl, rfl⟩

theorem took (hf : f.Synced) {t : Turn} (h : f.step defaultpaths t = some f') :
    Took defaultpaths f t f' := by
  cases t with
  | modules wanted =>
    cases h
    exact ⟨⟨hf.box, hf.radio, rfl⟩, rfl, rfl, rfl⟩
  | edit e =>
    cases e with
    | check flag checked =>
      obtain ⟨hbox, rfl⟩ := Option.ite_some_none_eq_some.mp h
      obtain ⟨box, messages, htoggled, hsync⟩ := toggled_eq hf hbox
      rw [htoggled] at hsync ⊢
      refine ⟨⟨hsync, ?_, hf.wanted⟩, rfl, rfl, rfl⟩
      intro button
      unfold Members.toggle
      split <;> exact hf.radio button
    | port transport v =>
      obtain ⟨-, rfl⟩ := Option.ite_some_none_eq_some.mp h
      exact ⟨⟨hf.box, hf.radio, hf.wanted⟩, rfl, rfl, rfl⟩
    | loading button =>
      obtain ⟨hradio, rfl⟩ := Option.ite_some_none_eq_some.mp h
      rw [setChecked_eq f hradio]
      refine ⟨⟨hf.box, ?_, hf.wanted⟩, rfl, rfl, rfl⟩
      intro other hnumber
      exact congrArg some (Loading.number_inj hnumber)
    | select category =>
      cases h
      exact took_select hf category
    | pathAdd =>
      cases h
      exact ⟨⟨hf.box, hf.radio, hf.wanted⟩, rfl, rfl, rfl⟩
    | pathEdit i text =>
      obtain ⟨-, rfl⟩ := Option.ite_some_none_eq_some.mp h
      exact ⟨⟨hf.box, hf.radio, hf.wanted⟩, rfl, rfl, rfl⟩
    | pathDelete rows =>
      obtain ⟨-, rfl⟩ := Option.ite_some_none_eq_some.mp h
      unfold mibPathDelete
      split
      · rename_i hall
        exact ⟨⟨hf.box, hf.radio, hf.wanted⟩, rfl, (if_pos hall).symm, rfl⟩
      · rename_i hsome
        exact ⟨⟨hf.box, hf.radio, hf.wanted⟩, rfl, (if_neg hsome).symm, rfl⟩
    | pathMove i j =>
      cases h
      exact ⟨⟨hf.box, hf.radio, hf.wanted⟩, rfl, rfl, rfl⟩
    | pathReset =>
      cases h
      exact ⟨⟨hf.box, hf.radio, rfl⟩, rfl, rfl, rfl⟩

/-- The choices follow their draft in a step exactly if the turn is as described. -/
theorem choices_iff_follows (hf : f.Synced) {t : Turn} (h : f.step defaultpaths t = some f') :
    f'.choices = f.choices.draft defaultpaths t ↔ f.Follows defaultpaths t := by
  have htook := took hf h
  have hchoices : f'.choices = ⟨f.membersAfter defaultpaths t, f.pathsAfter defaultpaths t⟩ := by
    rw [choices, htook.members, htook.paths]
  rw [hchoices]
  cases t with
  | modules wanted => exact iff_of_true rfl trivial
  | edit e =>
    cases e with
    | select category =>
      cases category with
      | transport => exact iff_of_true rfl trivial
      | mibtree => exact iff_of_true rfl trivial
      | modules =>
        constructor
        · exact congrArg Choices.mibpaths
        · intro hpaths
          exact congrArg (Choices.mk f.members) hpaths
      | traps =>
        refine Iff.trans ?_ shownPorts_eq_iff
        constructor
        · exact congrArg fun c : Choices => c.members.trapport
        · intro hports
          simp only [membersAfter, pathsAfter, Choices.draft, choices, hports]
    | pathReset =>
      constructor
      · exact congrArg Choices.mibpaths
      · intro hpaths
        exact congrArg (Choices.mk f.members) hpaths
    | check flag checked => exact iff_of_true rfl trivial
    | port transport v => exact iff_of_true rfl trivial
    | loading button => exact iff_of_true rfl trivial
    | pathAdd => exact iff_of_true rfl trivial
    | pathEdit i text => exact iff_of_true rfl trivial
    | pathDelete rows => exact iff_of_true rfl trivial
    | pathMove i j => exact iff_of_true rfl trivial

end

/-! ## A rejected dialog -/

/-- What a rejected dialog leaves: the members, and what is stored. -/
def kept (f : Preferences) : Members × Stored := (f.members, f.stored)

/-- The dialog without its edits. -/
def untouched (k : Members × Stored) : Turn → Members × Stored
  | .edit _ => k
  | .modules wanted => (k.1, { members := k.1, mibpaths := k.2.mibpaths, mibpreloads := wanted })

section
variable {defaultpaths : List String} {f f' : Preferences}

theorem toggle_eq_self_iff {m : Members} {flag : Flag} {checked : Bool} (h : m.flag flag ≠ checked) :
    m.toggle flag checked = m ↔ m.refuses flag checked := by
  unfold Members.toggle
  split
  · rename_i hrefuses
    exact iff_of_true rfl hrefuses
  · rename_i hrefuses
    refine iff_of_false ?_ hrefuses
    intro heq
    have hsame : (m.setFlag flag checked).flag flag = m.flag flag := by rw [heq]
    apply h
    rw [← hsame]
    exact Function.update_self ..

theorem setTrapPort_eq_self_iff {m : Members} {transport : Transport} {v : ℤ} :
    m.setTrapPort transport v = m ↔ m.trapport transport = v := by
  constructor
  · intro heq
    rw [← heq]
    exact Function.update_self ..
  · rintro rfl
    unfold Members.setTrapPort
    rw [Function.update_eq_self]

theorem kept_iff_traceless (hf : f.Synced) {t : Turn} (h : f.step defaultpaths t = some f') :
    f'.kept = untouched f.kept t ↔ f.Traceless defaultpaths t := by
  have htook := took hf h
  have hkept : f'.kept = (f.membersAfter defaultpaths t, f.storedAfter defaultpaths t) := by
    rw [kept, htook.members, htook.stored]
  have hmembers : ∀ {m : Members}, (m, f.stored) = f.kept ↔ m = f.members := by
    intro m
    rw [kept, Prod.mk.injEq, and_iff_left rfl]
  rw [hkept]
  cases t with
  | modules wanted =>
    constructor
    · exact congrArg fun k : Members × Stored => k.2.mibpaths
    · intro hpaths
      exact congrArg (fun paths => (f.members, Stored.mk ⟨f.members, paths⟩ wanted)) hpaths
  | edit e =>
    cases e with
    | check flag checked =>
      obtain ⟨hbox, -⟩ := Option.ite_some_none_eq_some.mp h
      exact hmembers.trans (toggle_eq_self_iff (hf.box ▸ hbox))
    | port transport v => exact hmembers.trans setTrapPort_eq_self_iff
    | loading button =>
      refine hmembers.trans ⟨fun heq => (congrArg Members.automaticloading heq).symm, ?_⟩
      intro hnumber
      exact congrArg (fun v => { f.members with automaticloading := v }) (Eq.symm hnumber)
    | select category =>
      cases category with
      | transport => exact iff_of_true rfl trivial
      | mibtree => exact iff_of_true rfl trivial
      | modules => exact iff_of_true rfl trivial
      | traps =>
        refine hmembers.trans (Iff.trans ?_ shownPorts_eq_iff)
        constructor
        · exact congrArg Members.trapport
        · intro hports
          exact congrArg (fun ports => { f.members with trapport := ports }) hports
    | pathReset =>
      constructor
      · intro heq
        exact (congrArg (fun k : Members × Stored => k.2.mibpaths) heq).symm
      · intro hpaths
        exact congrArg (fun paths => (f.members, { f.stored with mibpaths := paths })) (Eq.symm hpaths)
    | pathAdd => exact iff_of_true rfl trivial
    | pathEdit i text => exact iff_of_true rfl trivial
    | pathDelete rows => exact iff_of_true rfl trivial
    | pathMove i j => exact iff_of_true rfl trivial

/-- Before a dialog the list shows the paths that are stored. -/
structure Opened (f : Preferences) : Prop extends Synced f where
  paths : f.modulePaths = f.stored.mibpaths

theorem Opened.saveWanted (hf : f.Opened) (wanted : List String) : (f.saveWanted wanted).Opened :=
  ⟨⟨hf.box, hf.radio, rfl⟩, rfl⟩

theorem Synced.mibPathRefresh (hf : f.Synced) : f.mibPathRefresh.Opened :=
  ⟨⟨hf.box, hf.radio, hf.wanted⟩, rfl⟩

theorem Synced.save (hf : f.Synced) : f.save.Opened := ⟨⟨hf.box, hf.radio, rfl⟩, rfl⟩

theorem synced_exec (hf : f.Synced) {turns : List Turn} (h : Runs.exec (step defaultpaths) f turns = some f') :
    f'.Synced :=
  Runs.exec_invariant (P := Synced) (fun _ _ _ hf h => (took hf h).synced) hf h

/-- A dialog with nothing but saves runs as the abstract one. -/
theorem kept_saves (hf : f.Opened) {turns : List Turn}
    (h : Runs.exec (step defaultpaths) f (turns.filter Turn.isSave) = some f') :
    f'.kept = turns.foldl untouched f.kept := by
  induction turns generalizing f with
  | nil =>
    cases h
    rfl
  | cons t turns ih =>
    cases t with
    | edit e => exact ih hf h
    | modules wanted =>
      rw [List.filter_cons_of_pos rfl] at h
      obtain ⟨m, hm, hrest⟩ := Runs.exec_cons.mp h
      cases hm
      have hkept : (f.saveWanted wanted).kept = untouched f.kept (.modules wanted) := by
        simp only [Preferences.saveWanted, Preferences.save, refreshModules, untouched, kept, choices, hf.paths]
      rw [List.foldl_cons, ← hkept]
      exact ih (hf.saveWanted wanted) hrest

theorem exec_saves (f : Preferences) (turns : List Turn) :
    ∃ f', Runs.exec (step defaultpaths) f (turns.filter Turn.isSave) = some f' := by
  induction turns generalizing f with
  | nil => exact ⟨f, rfl⟩
  | cons t turns ih =>
    cases t with
    | edit e => exact ih f
    | modules wanted =>
      obtain ⟨f', hf'⟩ := ih (f.saveWanted wanted)
      exact ⟨f', Runs.exec_cons.mpr ⟨_, rfl, hf'⟩⟩

/-- What is stored behind a rejected dialog, and what a later save stores, are read off its trace. -/
theorem rejected_eq_iff {g : Preferences} (hf : f.Synced) (hg : g.Synced) :
    (f.mibPathRefresh.stored = g.mibPathRefresh.stored ∧
      f.mibPathRefresh.save.stored = g.mibPathRefresh.save.stored) ↔ f.kept = g.kept := by
  rw [kept, kept, Prod.mk.injEq]
  constructor
  · rintro ⟨hstored, hlater⟩
    exact ⟨congrArg (fun s : Stored => s.members) hlater, hstored⟩
  · rintro ⟨hmembers, hstored⟩
    refine ⟨hstored, ?_⟩
    simp only [Preferences.save, Preferences.mibPathRefresh, refreshModules, choices, hmembers, hf.wanted,
      hg.wanted, hstored]

/-! ## Both ends -/

/-- Main result: an accepted dialog stores the draft, however far it got, exactly if every turn
follows it, and a rejected one leaves no trace of its edits exactly if no turn makes one. -/
theorem execute_iff (hf : f.Opened) {turns : List Turn}
    (h : Runs.exec (step defaultpaths) f turns = some f') :
    ((∀ done, done <+: turns → ∀ g, execute defaultpaths done true f = some g →
        g.stored.toChoices = done.foldl (Choices.draft defaultpaths) f.choices) ↔
      Runs.Each (step defaultpaths) (Follows defaultpaths) f turns) ∧
    ((∀ done, done <+: turns → ∀ g, execute defaultpaths done false f = some g →
        ∀ g₀, execute defaultpaths (done.filter Turn.isSave) false f = some g₀ →
          g.stored = g₀.stored ∧ g.save.stored = g₀.save.stored) ↔
      Runs.Each (step defaultpaths) (Traceless defaultpaths) f turns) := by
  have hinvariant : ∀ (f : Preferences) (t : Turn) (f' : Preferences), f.Synced →
      f.step defaultpaths t = some f' → f'.Synced :=
    fun _ _ _ hf h => (took hf h).synced
  have hchoices : ∀ (f : Preferences) (t : Turn) (f' : Preferences), f.Synced → f.step defaultpaths t = some f' →
      ((∀ f', f.step defaultpaths t = some f' → f'.choices = f.choices.draft defaultpaths t) ↔
        Follows defaultpaths f t) :=
    fun f t f' hf hstep => ⟨fun hall => (choices_iff_follows hf hstep).mp (hall f' hstep),
      fun hturn m hm => (choices_iff_follows hf hm).mpr hturn⟩
  have hkept : ∀ (f : Preferences) (t : Turn) (f' : Preferences), f.Synced → f.step defaultpaths t = some f' →
      ((∀ f', f.step defaultpaths t = some f' → f'.kept = untouched f.kept t) ↔ Traceless defaultpaths f t) :=
    fun f t f' hf hstep => ⟨fun hall => (kept_iff_traceless hf hstep).mp (hall f' hstep),
      fun hturn m hm => (kept_iff_traceless hf hm).mpr hturn⟩
  have hfollows := Runs.each_congr_of hinvariant hchoices hf.toSynced h
  have htraceless := Runs.each_congr_of hinvariant hkept hf.toSynced h
  rw [← hfollows, ← htraceless, ← Runs.follows_iff_each, ← Runs.follows_iff_each]
  constructor
  · constructor
    · intro hall done hdone g hg
      exact hall done hdone g.save (Option.map_eq_some_iff.mpr ⟨g, hg, rfl⟩)
    · intro hall done hdone g hg
      obtain ⟨m, hm, rfl⟩ := Option.map_eq_some_iff.mp hg
      exact hall done hdone m hm
  · constructor
    · intro hall done hdone g hg
      obtain ⟨g₀, hg₀⟩ := exec_saves f done
      rw [← kept_saves hf hg₀]
      apply (rejected_eq_iff (synced_exec hf.toSynced hg) (synced_exec hf.toSynced hg₀)).mp
      exact hall done hdone _ (Option.map_eq_some_iff.mpr ⟨g, hg, rfl⟩) _
        (Option.map_eq_some_iff.mpr ⟨g₀, hg₀, rfl⟩)
    · intro hall done hdone g hg g₀ hg₀
      obtain ⟨m, hm, rfl⟩ := Option.map_eq_some_iff.mp hg
      obtain ⟨m₀, hm₀, rfl⟩ := Option.map_eq_some_iff.mp hg₀
      apply (rejected_eq_iff (synced_exec hf.toSynced hm) (synced_exec hf.toSynced hm₀)).mpr
      rw [kept_saves hf hm₀]
      exact hall done hdone m hm

end

/-- The preferences as they come, with two MIB paths. -/
def fresh : Preferences :=
  let members : Members :=
    ⟨fun flag => match flag with
      | .enable _ => true
      | .horizontalsplit => false
      | .expandtrapbinding => true
      | .showagentname => false, fun _ => 162, 2⟩
  { members, box := members.flag, spin := fun _ => 1, radio := some .enablePrompt
    modulePaths := ["mibs", "pibs"], wanted := ["IF-MIB"], stored := ⟨⟨members, ["mibs", "pibs"]⟩, ["IF-MIB"]⟩
    messages := [] }

theorem fresh_opened : fresh.Opened := by
  refine ⟨⟨rfl, ?_, rfl⟩, rfl⟩
  intro button hnumber
  cases button <;> first | rfl | cases hnumber

theorem execute_iff_fresh :
    ((∀ done, done <+: [.edit .pathAdd, .edit (.select .traps), .edit (.select .modules)] → ∀ g,
        execute ["mibs", "pibs"] done true fresh = some g →
        g.stored.toChoices = done.foldl (Choices.draft ["mibs", "pibs"]) fresh.choices) ↔
      Runs.Each (step ["mibs", "pibs"]) (Follows ["mibs", "pibs"]) fresh
        [.edit .pathAdd, .edit (.select .traps), .edit (.select .modules)]) ∧
    ((∀ done, done <+: [.edit .pathAdd, .edit (.select .traps), .edit (.select .modules)] → ∀ g,
        execute ["mibs", "pibs"] done false fresh = some g →
        ∀ g₀, execute ["mibs", "pibs"] (done.filter Turn.isSave) false fresh = some g₀ →
          g.stored = g₀.stored ∧ g.save.stored = g₀.save.stored) ↔
      Runs.Each (step ["mibs", "pibs"]) (Traceless ["mibs", "pibs"]) fresh
        [.edit .pathAdd, .edit (.select .traps), .edit (.select .modules)]) :=
  execute_iff fresh_opened rfl

/-- A new path is lost when the category of the modules is selected again, and a flag that is set in
a dialog that is cancelled is stored by the next save. -/
theorem dialog_loses_path_and_keeps_flag :
    (¬ ∀ (defaultpaths : List String) (f g : Preferences) (turns : List Turn), f.Opened →
      execute defaultpaths turns true f = some g →
      g.stored.toChoices = turns.foldl (Choices.draft defaultpaths) f.choices) ∧
    (¬ ∀ (defaultpaths : List String) (f g g₀ : Preferences) (turns : List Turn), f.Opened →
      execute defaultpaths turns false f = some g →
      execute defaultpaths (turns.filter Turn.isSave) false f = some g₀ →
      g.stored = g₀.stored ∧ g.save.stored = g₀.save.stored) := by
  constructor
  · intro h
    have hstored := h ["mibs", "pibs"] fresh _
      [.edit .pathAdd, .edit (.select .traps), .edit (.select .modules)] fresh_opened rfl
    have hpaths := congrArg Choices.mibpaths hstored
    revert hpaths
    decide
  · intro h
    have hlater := (h ["mibs", "pibs"] fresh _ _ [.edit (.check .showagentname true)] fresh_opened rfl rfl).2
    have hflag := congrArg (fun stored : Stored => stored.members.flag .showagentname) hlater
    revert hflag
    decide

end Preferences

end SnmpB.Settings
