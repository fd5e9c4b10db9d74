import SnmpB.Profile.Cancel

/-! # Looking at the profiles

Opening the dialog and turning from item to item are no edits, but every widget
that is filled in reports to the profile that is current. Whether any order of
items is harmless can be read off the profiles, the users and the widgets as they
are before.
-/
namespace SnmpB.Profile

/-- The page with the spin box. -/
def SpinField.page : SpinField → Page
  | .retries => .general
  | .timeout => .general
  | .maxRepetitions => .bulk
  | .nonRepeaters => .bulk

namespace Form
open AgentProfileManager

variable {f f' : Form} {k : ℕ} {p : AgentProfile} {P : AgentProfile → Prop}

/-- All profiles in use are as described. -/
def Every (f : Form) (P : AgentProfile → Prop) : Prop := ∀ who, f.Listed who P

theorem every_iff : f.Every P ↔ ∀ p, some p ∈ f.manager.list → P p := by
  unfold AgentProfileManager.list Live.listed
  constructor
  · intro hall p hp
    obtain ⟨who, hwho, hget⟩ := List.mem_map.mp hp
    exact hall who p hwho hget
  · intro hall who p hwho hget
    exact hall p (List.mem_map.mpr ⟨who, hwho, hget⟩)

theorem every_congr (h : f'.manager.list = f.manager.list) : f'.Every P ↔ f.Every P := by
  rw [every_iff, every_iff, h]

theorem not_every (h : ¬ f.Every P) :
    ∃ who p, who ∈ f.manager.agents ∧ f.manager.profiles[who]? = some p ∧ ¬ P p := by
  unfold Every Listed at h
  push Not at h
  exact h

/-! ## The widgets -/

theorem write_widgets {β : Type} (f : Form) (l : Lens AgentProfile β) (v : β) :
    (f.write l v).spin = f.spin ∧ (f.write l v).secNames = f.secNames ∧ (f.write l v).secName = f.secName ∧
      (f.write l v).secLevel = f.secLevel := by
  unfold write
  split <;> exact ⟨rfl, rfl, rfl, rfl⟩

theorem showSpin_widgets (f : Form) (who : ℕ) (field : SpinField) :
    (f.showSpin who field).spin = Function.update f.spin field (field.bound (f.shown who field.lens)) ∧
      (f.showSpin who field).secNames = f.secNames ∧ (f.showSpin who field).secName = f.secName ∧
      (f.showSpin who field).secLevel = f.secLevel := by
  unfold showSpin setValue
  split
  · rename_i hsame
    refine ⟨?_, rfl, rfl, rfl⟩
    rw [← hsame, Function.update_eq_self]
  · unfold valueChanged
    obtain ⟨hspin, hothers⟩ := write_widgets { f with
      spin := Function.update f.spin field (field.bound (f.shown who field.lens)) } field.lens
      (field.bound (f.shown who field.lens))
    exact ⟨hspin, hothers⟩

theorem filter_findText (names : List String) (text : String) :
    (findText names text).filter (· < names.length) = findText names text := by
  cases hfind : findText names text with
  | none => rfl
  | some i => exact Option.filter_eq_some_iff.mpr ⟨rfl, decide_eq_true (findText_some hfind).1⟩

theorem secNameSetCurrentIndex_widgets (f : Form) (index : Option ℕ) :
    (f.secNameSetCurrentIndex index).spin = f.spin ∧ (f.secNameSetCurrentIndex index).secNames = f.secNames ∧
      (f.secNameSetCurrentIndex index).secName = index.filter (· < f.secNames.length) ∧
      (f.secNameSetCurrentIndex index).secLevel = f.secLevel := by
  unfold secNameSetCurrentIndex
  simp only
  split
  · rename_i hsame
    exact ⟨rfl, rfl, hsame, rfl⟩
  · exact write_widgets { f with secName := index.filter (· < f.secNames.length) } secNameLens _

theorem secLevelSetCurrentIndex_widgets (f : Form) (level : ℤ) :
    (f.secLevelSetCurrentIndex level).spin = f.spin ∧ (f.secLevelSetCurrentIndex level).secNames = f.secNames ∧
      (f.secLevelSetCurrentIndex level).secName = f.secName ∧
      (f.secLevelSetCurrentIndex level).secLevel = Widget.comboIndex 3 level := by
  unfold secLevelSetCurrentIndex
  simp only
  split
  · rename_i hsame
    exact ⟨rfl, rfl, rfl, hsame⟩
  · exact write_widgets { f with secLevel := Widget.comboIndex 3 level } secLevelLens _

/-- What the widgets show behind an item of a profile. -/
structure Turned (f : Form) (page : Page) (p : AgentProfile) (f' : Form) : Prop where
  spin : ∀ field : SpinField, f'.spin field =
    if field.page = page then field.bound (field.lens.get p) else f.spin field
  secNames : f'.secNames = f.secNames
  secName : f'.secName = if page = .v3 then findText f.secNames p.secname else f.secName
  secLevel : f'.secLevel = if page = .v3 then Widget.comboIndex 3 p.seclevel else f.secLevel

/-- A page with two spin boxes. -/
theorem turned_showSpins (page : Page) {a b : SpinField} (hk : f.manager.currentprofile = some k)
    (hp : f.manager.profiles[k]? = some p) (hab : a ≠ b) (hpage : page ≠ .v3)
    (hfields : ∀ field : SpinField, field.page = page ↔ field = a ∨ field = b) :
    f.Turned page p ((f.showSpin k a).showSpin k b) := by
  obtain ⟨v, hfirst, -⟩ := wrote_showSpin hk hp a
  obtain ⟨haspin, hanames, haname, halevel⟩ := showSpin_widgets f k a
  obtain ⟨hbspin, hbnames, hbname, hblevel⟩ := showSpin_widgets (f.showSpin k a) k b
  have hget : b.lens.get (a.lens.put v p) = b.lens.get p := spinField_independent (Ne.symm hab) v p
  rw [shown_eq hp] at haspin
  rw [shown_eq hfirst.profiles.after, hget, haspin] at hbspin
  refine ⟨fun field => ?_, hbnames.trans hanames, ?_, ?_⟩
  · rw [hbspin]
    by_cases hfield : field.page = page
    · rw [if_pos hfield]
      rcases (hfields field).mp hfield with rfl | rfl
      · rw [Function.update_of_ne hab, Function.update_self]
      · exact Function.update_self ..
    · rw [if_neg hfield]
      have hnot := mt (hfields field).mpr hfield
      rw [not_or] at hnot
      rw [Function.update_of_ne hnot.2, Function.update_of_ne hnot.1]
  · rw [if_neg hpage]
    exact hbname.trans haname
  · rw [if_neg hpage]
    exact hblevel.trans halevel

theorem turned_selectAgentProfile (hk : f.manager.currentprofile = some k)
    (hp : f.manager.profiles[k]? = some p) (page : Page) : f.Turned page p (f.selectAgentProfile ⟨k, page⟩) := by
  cases page with
  | general =>
    obtain ⟨s, happly, -⟩ := wrote_apply hk hp
    let applied : Form := { f with manager := f.manager.applySupportedProtocol k }
    have hturned := turned_showSpins (f := applied) .general (happly.current.trans hk)
      happly.profiles.after (show SpinField.retries ≠ .timeout by decide) (by decide)
      (fun field => by cases field <;> decide)
    refine ⟨fun field => ?_, hturned.secNames, hturned.secName, hturned.secLevel⟩
    refine (hturned.spin field).trans ?_
    cases field <;> rfl
  | v1v2c => exact ⟨fun field => by cases field <;> rfl, rfl, rfl, rfl⟩
  | bulk =>
    exact turned_showSpins .bulk hk hp (show SpinField.maxRepetitions ≠ .nonRepeaters by decide) (by decide)
      (fun field => by cases field <;> decide)
  | v3 =>
    obtain ⟨v, huser, -⟩ := wrote_showUser hk hp
    let named : Form := f.secNameSetCurrentIndex (findText f.secNames p.secname)
    obtain ⟨hspin, hnames, hname, -⟩ := secNameSetCurrentIndex_widgets f (findText f.secNames p.secname)
    obtain ⟨hspin', hnames', hname', hlevel⟩ := secLevelSetCurrentIndex_widgets named p.seclevel
    have hselect : f.selectAgentProfile ⟨k, .v3⟩ = named.secLevelSetCurrentIndex p.seclevel := by
      unfold selectAgentProfile
      simp only [shown_eq hp]
      have hlevel : named.shown k secLevelLens = p.seclevel := shown_eq huser.profiles.after secLevelLens
      exact congrArg named.secLevelSetCurrentIndex hlevel
    rw [hselect]
    rw [filter_findText] at hname
    refine ⟨fun field => ?_, hnames'.trans hnames, hname'.trans hname, hlevel⟩
    rw [if_neg (by cases field <;> decide), hspin', hspin]

theorem turned_selectedAgentProfile (hk : k ∈ f.manager.agents) (hp : f.manager.profiles[k]? = some p)
    (page : Page) : f.Turned page p (f.selectedAgentProfile ⟨k, page⟩) := by
  let turned : Form := { f with manager := { f.manager with currentprofile := some k } }
  have hselect : f.selectedAgentProfile ⟨k, page⟩ = turned.selectAgentProfile ⟨k, page⟩ := if_pos hk
  rw [hselect]
  obtain ⟨hspin, hnames, hname, hlevel⟩ := turned_selectAgentProfile (f := turned) rfl hp page
  exact ⟨hspin, hnames, hname, hlevel⟩

/-! ## Any order of items -/

/-- All widgets can show all profiles; or they show the same already, and no profile makes a difference. -/
structure Neutral (f : Form) : Prop where
  support : f.Every fun p => p.support ≠ .none
  spin : ∀ field : SpinField, (f.Every fun p => field.lens.get p = field.bound (field.lens.get p)) ∨
    f.Every fun p => f.spin field = field.bound (field.lens.get p)
  user : f.secNames = [] ∧ f.secName = none ∨ f.Every fun p => p.secname ∈ f.secNames ∨ p.secname = ""
  level : (f.Every fun p => -1 ≤ p.seclevel ∧ p.seclevel < 3) ∨
    f.secLevel = none ∧ f.Every fun p => Widget.comboIndex 3 p.seclevel = none

/-- Turning to items leaves the profiles as they are, however long it goes on. -/
def Quiet (f : Form) : Prop :=
  ∀ (items : List Item) g, Runs.exec step f (items.map Edit.select) = some g → g.manager.list = f.manager.list

theorem Neutral.showsSpin (h : f.Neutral) (field : SpinField) : f.Every (f.ShowsSpin field) := by
  intro who p hwho hp
  rcases h.spin field with hrange | hshown
  · exact Or.inr (hrange who p hwho hp)
  · exact Or.inl (hshown who p hwho hp)

theorem Neutral.shows (h : f.Neutral) (page : Page) : f.Every (f.Shows page) := by
  intro who p hwho hp
  have hspin : ∀ field, f.ShowsSpin field p := fun field => h.showsSpin field who p hwho hp
  cases page with
  | general => exact ⟨h.support who p hwho hp, hspin _, hspin _⟩
  | v1v2c => trivial
  | bulk => exact ⟨hspin _, hspin _⟩
  | v3 =>
    constructor
    · rcases h.user with ⟨-, hnone⟩ | hall
      · exact Or.inr (Or.inl hnone)
      · exact (hall who p hwho hp).imp_right Or.inr
    · rcases h.level with hrange | ⟨hnone, -⟩
      · exact Or.inl (hrange who p hwho hp)
      · exact Or.inr hnone

theorem list_select_iff (hm : f.manager.Sound) (item : Item) :
    (f.selectedAgentProfile item).manager.list = f.manager.list ↔ f.Listed item.profile (f.Shows item.page) :=
  step_list_iff (e := .select item) hm rfl

/-- A list that stays as it is behind an item takes the widgets from one neutral state to another. -/
theorem Neutral.select (hm : f.manager.Sound) (h : f.Neutral) (item : Item) :
    (f.selectedAgentProfile item).manager.list = f.manager.list ∧ (f.selectedAgentProfile item).Neutral := by
  have hlist := (list_select_iff hm item).mpr (h.shows item.page item.profile)
  refine ⟨hlist, ?_⟩
  by_cases hwho : item.profile ∈ f.manager.agents
  · obtain ⟨who, page⟩ := item
    have hp := List.getElem?_eq_getElem (hm.listed who hwho)
    obtain ⟨hspin, hnames, hname, hlevel⟩ := turned_selectedAgentProfile hwho hp page
    refine ⟨(every_congr hlist).mpr h.support, fun field => ?_, ?_, ?_⟩
    · rw [every_congr hlist, every_congr hlist, hspin field]
      refine (h.spin field).imp_right fun hshown => ?_
      split
      · rw [← hshown who _ hwho hp]
        exact hshown
      · exact hshown
    · rw [every_congr hlist, hnames, hname]
      refine h.user.imp_left fun ⟨hempty, hnone⟩ => ⟨hempty, ?_⟩
      rw [hempty, hnone]
      exact ite_self none
    · rw [every_congr hlist, every_congr hlist, hlevel]
      refine h.level.imp_right fun ⟨hnone, hall⟩ => ⟨?_, hall⟩
      split
      · exact hall who _ hwho hp
      · exact hnone
  · have hsame : f.selectedAgentProfile item = f := if_neg hwho
    rw [hsame]
    exact h

theorem select_sound (hm : f.manager.Sound) (item : Item) : (f.selectedAgentProfile item).manager.Sound :=
  step_sound (e := .select item) hm rfl

/-- By induction on the items. -/
theorem Neutral.quiet (hm : f.manager.Sound) (h : f.Neutral) : f.Quiet := by
  intro items
  induction items generalizing f with
  | nil =>
    intro g hg
    cases hg
    rfl
  | cons item items ih =>
    intro g hg
    obtain ⟨m, hm', hrest⟩ := Runs.exec_cons.mp hg
    cases hm'
    obtain ⟨hlist, hneutral⟩ := h.select hm item
    exact (ih (select_sound hm item) hneutral g hrest).trans hlist

theorem Quiet.list (h : f.Quiet) (item : Item) :
    (f.selectedAgentProfile item).manager.list = f.manager.list := h [item] _ rfl

theorem Quiet.select (h : f.Quiet) (item : Item) : (f.selectedAgentProfile item).Quiet := by
  intro items g hg
  exact (h (item :: items) g hg).trans (h.list item).symm

theorem Quiet.shows (hm : f.manager.Sound) (h : f.Quiet) (page : Page) : f.Every (f.Shows page) := by
  intro who
  exact (list_select_iff hm ⟨who, page⟩).mp (h.list ⟨who, page⟩)

/-- Behind any item the widgets still show all profiles. -/
theorem Quiet.showsAfter (hm : f.manager.Sound) (h : f.Quiet) (item : Item) (page : Page) :
    f.Every ((f.selectedAgentProfile item).Shows page) :=
  (every_congr (h.list item)).mp ((h.select item).shows (select_sound hm item) page)

theorem Shows.spin {field : SpinField} (h : f.Shows field.page p) : f.ShowsSpin field p := by
  cases field with
  | retries => exact h.2.1
  | timeout => exact h.2.2
  | maxRepetitions => exact h.1
  | nonRepeaters => exact h.2

/-- A profile the widget cannot show rules out that another one moves it. -/
theorem Quiet.spin (hm : f.manager.Sound) (h : f.Quiet) (field : SpinField) :
    (f.Every fun p => field.lens.get p = field.bound (field.lens.get p)) ∨
      f.Every fun p => f.spin field = field.bound (field.lens.get p) := by
  refine or_iff_not_imp_left.mpr fun hrange who q hwho hq => ?_
  obtain ⟨other, p, hother, hp, hout⟩ := not_every hrange
  have hfirst : f.spin field = field.bound (field.lens.get p) :=
    (h.shows hm field.page other p hother hp).spin.resolve_right hout
  have hturned := (turned_selectedAgentProfile hwho hq field.page).spin field
  have hsecond := (h.showsAfter hm ⟨who, field.page⟩ field.page other p hother hp).spin.resolve_right hout
  rw [hturned, if_pos rfl] at hsecond
  exact hfirst.trans hsecond.symm

theorem Quiet.level (hm : f.manager.Sound) (h : f.Quiet) :
    (f.Every fun p => -1 ≤ p.seclevel ∧ p.seclevel < 3) ∨
      f.secLevel = none ∧ f.Every fun p => Widget.comboIndex 3 p.seclevel = none := by
  refine or_iff_not_imp_left.mpr fun hrange => ?_
  obtain ⟨other, p, hother, hp, hout⟩ := not_every hrange
  refine ⟨(h.shows hm .v3 other p hother hp).2.resolve_left hout, fun who q hwho hq => ?_⟩
  have hturned := (turned_selectedAgentProfile hwho hq .v3).secLevel
  rw [if_pos rfl] at hturned
  exact hturned.symm.trans ((h.showsAfter hm ⟨who, .v3⟩ .v3 other p hother hp).2.resolve_left hout)

/-- Whatever order of items is harmless, the widgets are neutral. -/
theorem Quiet.neutral (hm : f.manager.Sound) (hnames : f.secName = none → f.secNames = []) (h : f.Quiet) :
    f.Neutral where
  support who p hwho hp := (h.shows hm .general who p hwho hp).1
  spin := h.spin hm
  user := by
    by_cases hnone : f.secName = none
    · exact Or.inl ⟨hnames hnone, hnone⟩
    · refine Or.inr fun who p hwho hp => ?_
      exact (h.shows hm .v3 who p hwho hp).1.imp_right fun hrest => hrest.resolve_left hnone
  level := h.level hm

/-! ## The dialog -/

theorem secNameClear_widgets (f : Form) :
    f.secNameClear.spin = f.spin ∧ f.secNameClear.secNames = [] ∧ f.secNameClear.secName = none ∧
      f.secNameClear.secLevel = f.secLevel := by
  unfold secNameClear
  simp only
  split
  · rename_i hnone
    exact ⟨rfl, rfl, hnone, rfl⟩
  · exact write_widgets { f with secNames := [], secName := none } secNameLens _

theorem secNameAddItems_widgets (f : Form) (users : List String) :
    (f.secNameAddItems users).spin = f.spin ∧ (f.secNameAddItems users).secNames = f.secNames ++ users ∧
      (f.secNameAddItems users).secName = (if users = [] then f.secName else some 0) ∧
      (f.secNameAddItems users).secLevel = f.secLevel := by
  unfold secNameAddItems
  split
  · rename_i hempty
    rw [hempty, List.append_nil]
    exact ⟨rfl, rfl, rfl, rfl⟩
  · exact write_widgets { f with secNames := f.secNames ++ users, secName := some 0 } secNameLens _

/-- The dialog opens with the users in their box, one of which is current if there is any. -/
theorem opened_widgets (f : Form) (users : List String) :
    (f.opened users).spin = f.spin ∧ (f.opened users).secNames = users ∧
      ((f.opened users).secName = none ↔ users = []) ∧ (f.opened users).secLevel = f.secLevel := by
  obtain ⟨hspin, hnames, hname, hlevel⟩ := secNameClear_widgets f
  obtain ⟨hspin', hnames', hname', hlevel'⟩ := secNameAddItems_widgets f.secNameClear users
  rw [hnames, List.nil_append] at hnames'
  rw [hname] at hname'
  unfold opened
  simp only
  split
  · refine ⟨hspin'.trans hspin, hnames', ?_, hlevel'.trans hlevel⟩
    rw [hname']
    split <;> simp_all
  · rename_i who _
    let filled := f.secNameClear.secNameAddItems users
    let index := (findText filled.secNames (f.shown who secNameLens)).getD 0
    obtain ⟨hspin'', hnames'', hname'', hlevel''⟩ := secNameSetCurrentIndex_widgets filled (some index)
    refine ⟨hspin''.trans (hspin'.trans hspin), hnames''.trans hnames', ?_, hlevel''.trans (hlevel'.trans hlevel)⟩
    rw [hname'', hnames', Option.filter_eq_none_iff]
    have hindex : users ≠ [] → index < users.length := by
      intro husers
      change (findText filled.secNames _).getD 0 < _
      rw [hnames']
      cases hfind : findText users (f.shown who secNameLens) with
      | none => exact List.length_pos_iff.mpr husers
      | some i => exact (findText_some hfind).1
    constructor
    · intro hall
      by_contra husers
      exact absurd (decide_eq_true (hindex husers)) (by simpa using hall index rfl)
    · rintro rfl
      simp

/-- What keeps the profiles as they are while they are looked at. -/
structure Kept (f : Form) (users : List String) : Prop where
  current : f.Current (f.OpensWith users)
  support : f.Every fun p => p.support ≠ .none
  spin : ∀ field : SpinField, (f.Every fun p => field.lens.get p = field.bound (field.lens.get p)) ∨
    f.Every fun p => f.spin field = field.bound (field.lens.get p)
  user : users = [] ∨ f.Every fun p => p.secname ∈ users ∨ p.secname = ""
  level : (f.Every fun p => -1 ≤ p.seclevel ∧ p.seclevel < 3) ∨
    f.secLevel = none ∧ f.Every fun p => Widget.comboIndex 3 p.seclevel = none

/-- The first of the two profiles has a user who is no longer there. -/
def lostUser : Form :=
  { twoProfiles with manager := twoProfiles.manager.edit 0 (secNameLens.put "bob") }

theorem lostUser_sound : lostUser.manager.Sound :=
  ⟨by decide, by decide, fun k hk => by cases hk; decide⟩

end Form

end SnmpB.Profile
