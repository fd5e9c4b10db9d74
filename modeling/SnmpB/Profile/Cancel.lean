import SnmpB.Profile.Rewriting

/-! # Cancelling the dialog

The handlers write into the profiles themselves, and rejecting the dialog takes
nothing back. It leaves the profiles as they were exactly when nothing was added
or deleted and every write wrote what was there already.
-/
namespace SnmpB.Profile

namespace Form
open AgentProfileManager

variable {f f' : Form} {k : ℕ} {p : AgentProfile}

/-- The widgets of a page show what the profile has, when they are set to it. -/
def Shows (f : Form) : Page → AgentProfile → Prop
  | .general, p => p.support ≠ .none ∧ f.ShowsSpin .retries p ∧ f.ShowsSpin .timeout p
  | .v1v2c, _ => True
  | .bulk, p => f.ShowsSpin .maxRepetitions p ∧ f.ShowsSpin .nonRepeaters p
  | .v3, p => f.ShowsUser p ∧ f.ShowsLevel p

theorem wrote_apply {m : AgentProfileManager} (hk : m.currentprofile = some k) (hp : m.profiles[k]? = some p) :
    ∃ s, Wrote m (m.applySupportedProtocol k) k p (supportLens.put s p) ∧
      (supportLens.get p = s ↔ p.support ≠ .none) := by
  have howns := (Owns.refl hk hp).apply
  have hsteady := (Steady.refl m).apply k
  refine ⟨_, ⟨hsteady.agents, hsteady.current, howns.profiles⟩, ?_⟩
  rw [← Panel.applyOwn_flags_eq_iff ⟨m.box, p.support⟩]
  exact eq_comm

theorem wrote_selectGeneral (hk : f.manager.currentprofile = some k) (hp : f.manager.profiles[k]? = some p) :
    ∃ p', Wrote f.manager (f.selectAgentProfile ⟨k, .general⟩).manager k p p' ∧
      (p' = p ↔ f.Shows .general p) := by
  obtain ⟨s, happly, hs⟩ := wrote_apply hk hp
  let applied : Form := { f with manager := f.manager.applySupportedProtocol k }
  obtain ⟨v, w, hspins, hv, hw⟩ := wrote_showSpins (f := applied) (happly.current.trans hk) happly.profiles.after
    (show SpinField.retries ≠ .timeout by decide)
  refine ⟨_, happly.trans hspins, ?_⟩
  rw [Lens.put_eq_iff (l := supportLens) (v := s) rfl, Shows, ← hs]
  refine and_congr_right fun hsame => ?_
  have hput : supportLens.put s p = p := supportLens.put_eq_self.mpr hsame
  rw [hput] at hv hw ⊢
  rw [Lens.put_put_eq_self (spinField_independent (by decide)), hv, hw]
  rfl

theorem wrote_selectV3 (hk : f.manager.currentprofile = some k) (hp : f.manager.profiles[k]? = some p) :
    ∃ p', Wrote f.manager (f.selectAgentProfile ⟨k, .v3⟩).manager k p p' ∧ (p' = p ↔ f.Shows .v3 p) := by
  have hname : f.shown k secNameLens = p.secname := shown_eq hp secNameLens
  obtain ⟨v, huser, hv⟩ := wrote_showUser hk hp
  obtain ⟨w, hwrote, hw⟩ := wrote_showLevel (huser.current.trans hk) huser.profiles.after
  refine ⟨secLevelLens.put w (secNameLens.put v p), huser.trans ?_, ?_⟩
  · unfold selectAgentProfile
    simp only [hname]
    rw [shown_eq huser.profiles.after]
    exact hwrote
  · rw [Lens.put_put_eq_self fun _ _ => rfl, hv, Shows]
    refine and_congr_right fun _ => ?_
    have hsame : f.ShowsLevel p ↔ (f.secNameSetCurrentIndex (findText f.secNames p.secname)).ShowsLevel
        (secNameLens.put v p) := by
      rw [ShowsLevel, ShowsLevel, secNameSetCurrentIndex_secLevel]
      rfl
    rw [hsame, ← hw]
    rfl

theorem wrote_selectAgentProfile {page : Page} (hk : f.manager.currentprofile = some k)
    (hp : f.manager.profiles[k]? = some p) :
    ∃ p', Wrote f.manager (f.selectAgentProfile ⟨k, page⟩).manager k p p' ∧ (p' = p ↔ f.Shows page p) := by
  cases page with
  | general => exact wrote_selectGeneral hk hp
  | v1v2c => exact ⟨p, ⟨rfl, rfl, Live.Rewrites.refl hp⟩, iff_of_true rfl trivial⟩
  | bulk =>
    obtain ⟨v, w, hspins, hv, hw⟩ := wrote_showSpins hk hp (show SpinField.maxRepetitions ≠ .nonRepeaters by decide)
    refine ⟨_, hspins, ?_⟩
    rw [Lens.put_put_eq_self (spinField_independent (by decide)), hv, hw]
    rfl
  | v3 => exact wrote_selectV3 hk hp

/-- The user box has the user of the profile among its new entries. -/
def OpensWith (f : Form) (users : List String) (p : AgentProfile) : Prop :=
  if users = [] then f.secName = none ∨ p.secname = "" else p.secname ∈ users

theorem wrote_secNameClear (hk : f.manager.currentprofile = some k) (hp : f.manager.profiles[k]? = some p) :
    ∃ v, Wrote f.manager f.secNameClear.manager k p (secNameLens.put v p) ∧
      (v = p.secname ↔ f.secName = none ∨ p.secname = "") ∧
      f.secNameClear.secNames = [] ∧ f.secNameClear.secName = none := by
  unfold secNameClear
  simp only
  split
  · rename_i hindex
    exact ⟨_, wrote_refl hp secNameLens, iff_of_true rfl (Or.inl hindex), rfl, hindex⟩
  · rename_i hindex
    let emptied : Form := { f with secNames := [], secName := none }
    refine ⟨_, wrote_write (f := emptied) hk hp secNameLens _, ?_, ?_⟩
    · simp only [hindex, false_or]
      exact eq_comm
    · simp only [secNameChanged, write, hk, and_self]

/-- The emptied box is filled, and the entry with the name is selected, or else the first one. -/
theorem wrote_secNameFill {users : List String} (husers : users ≠ []) (hk : f.manager.currentprofile = some k)
    (hp : f.manager.profiles[k]? = some p) (hnames : f.secNames = []) (name : String) :
    (f.secNameAddItems users).secNames = users ∧ ∃ w,
      Wrote f.manager ((f.secNameAddItems users).secNameSetCurrentIndex (some ((findText users name).getD 0))).manager
        k p (secNameLens.put w p) ∧ (name = w ↔ name ∈ users) := by
  let filled : Form := { f with secNames := f.secNames ++ users, secName := some 0 }
  have hadd : f.secNameAddItems users = filled.write secNameLens (filled.secNameAt (some 0)) := if_neg husers
  have hfilled := wrote_write (f := filled) hk hp secNameLens (filled.secNameAt (some 0))
  rw [← hadd] at hfilled
  have hitems : (f.secNameAddItems users).secNames = users ∧ (f.secNameAddItems users).secName = some 0 := by
    rw [hadd]
    unfold write
    split <;> simp [filled, hnames]
  obtain ⟨w, hset, hw⟩ := wrote_secNameSetCurrentIndex (hfilled.current.trans hk) hfilled.profiles.after
    (some ((findText users name).getD 0))
  have hwrote := hfilled.trans hset
  rw [secNameLens.put_put] at hwrote
  refine ⟨hitems.1, w, hwrote, ?_⟩
  have hfirst : (secNameLens.put (filled.secNameAt (some 0)) p).secname = users[0]?.getD "" := by
    change filled.secNameAt (some 0) = _
    simp [secNameAt, filled, hnames]
  have hat : ∀ index, (f.secNameAddItems users).secNameAt index = (index.bind (users[·]?)).getD "" := by
    intro index
    rw [secNameAt, hitems.1]
  have hlen : 0 < users.length := List.length_pos_iff.mpr husers
  rw [hitems.1, hitems.2, hfirst] at hw
  rw [hw, hat]
  cases hfind : findText users name with
  | none =>
    have hmem := findText_none hfind
    refine iff_of_false ?_ hmem
    intro heq
    apply hmem
    simp only [Option.getD_none, Option.filter_some, hlen, decide_true, ↓reduceIte,
      List.getElem?_eq_getElem hlen, Option.getD_some] at heq
    rw [heq]
    exact List.getElem_mem hlen
  | some i =>
    obtain ⟨hlt, hget⟩ := findText_some hfind
    refine iff_of_true ?_ (List.mem_of_getElem? hget)
    rw [Option.getD_some, Option.filter_some, if_pos (decide_eq_true hlt)]
    cases i with
    | zero => simp [hget]
    | succ i => simp [hget]

theorem wrote_opened (hk : f.manager.currentprofile = some k) (hp : f.manager.profiles[k]? = some p)
    (users : List String) :
    ∃ p', Wrote f.manager (f.opened users).manager k p p' ∧ (p' = p ↔ f.OpensWith users p) := by
  have hname : f.shown k secNameLens = p.secname := shown_eq hp secNameLens
  obtain ⟨v, hclear, hv, hnames, hindex⟩ := wrote_secNameClear hk hp
  unfold opened OpensWith
  simp only [hk, hname]
  by_cases husers : users = []
  · have hadd : f.secNameClear.secNameAddItems users = f.secNameClear := if_pos husers
    have hset : ∀ i, f.secNameClear.secNameSetCurrentIndex (some i) = f.secNameClear := by
      intro i
      simp [secNameSetCurrentIndex, hnames, hindex]
    rw [hadd, hset, if_pos husers, ← hv]
    exact ⟨_, hclear, secNameLens.put_eq_self.trans eq_comm⟩
  · obtain ⟨hitems, w, hfill, hw⟩ :=
      wrote_secNameFill husers (hclear.current.trans hk) hclear.profiles.after hnames p.secname
    rw [hitems, if_neg husers, ← hw]
    refine ⟨_, hclear.trans hfill, ?_⟩
    rw [secNameLens.put_put]
    exact secNameLens.put_eq_self

/-- An edit of the profile `who`, if it is in use. -/
def Listed (f : Form) (who : ℕ) (P : AgentProfile → Prop) : Prop :=
  ∀ p, who ∈ f.manager.agents → f.manager.profiles[who]? = some p → P p

/-- The edit writes what the profile has already. -/
def Keeps (f : Form) : Edit → Prop
  | .line field text => f.Current fun p => field.lens.get p = text
  | .profileName text => f.Current fun p => p.name = text
  | .spin field v => f.Current fun p => field.lens.get p = v
  | .secName index => f.Current fun p => p.secname = f.secNameAt (some index)
  | .secLevel index => f.Current fun p => p.seclevel = index
  | .protocol i => f.Current fun p => p.support.get i = f.manager.box.toggled i
  | .itemName who text => f.Listed who fun p => p.name = text
  | .select item => f.Listed item.profile (f.Shows item.page)
  | .add => False
  | .delete _ => f.manager.currentprofile = none

theorem list_length (m : AgentProfileManager) : m.list.length = m.agents.length :=
  Live.listed_length _ _

theorem list_iff_listed {who : ℕ} {P : AgentProfile → Prop} (hm : f.manager.Sound)
    (hno : who ∉ f.manager.agents → f' = f)
    (hsome : ∀ p, who ∈ f.manager.agents → f.manager.profiles[who]? = some p →
      ∃ m p', m.agents = f.manager.agents ∧ m.profiles = f.manager.profiles ∧
        Wrote m f'.manager who p p' ∧ (p' = p ↔ P p)) :
    f'.manager.list = f.manager.list ↔ f.Listed who P := by
  by_cases hmem : who ∈ f.manager.agents
  · have hp := List.getElem?_eq_getElem (hm.listed who hmem)
    obtain ⟨m, p', hagents, hprofiles, hwrote, hiff⟩ := hsome _ hmem hp
    have hlist : m.list = f.manager.list := by rw [list, list, hagents, hprofiles]
    rw [← hlist, hwrote.list_iff (hagents ▸ hmem), hiff]
    constructor
    · intro hP q _ hq
      rw [hp] at hq
      exact Option.some.inj hq ▸ hP
    · intro hall
      exact hall _ hmem hp
  · rw [hno hmem]
    exact iff_of_true rfl fun p hin => absurd hin hmem

theorem wrote_setProfileName (hm : f.manager.Sound) (hk : f.manager.currentprofile = some k)
    (hp : f.manager.profiles[k]? = some p) (text : String) :
    Wrote f.manager (f.setProfileName text).manager k p (nameLens.put text p) := by
  have hwrote := wrote_write hk hp nameLens text
  have hmem : k ∈ (f.write nameLens text).manager.agents := hwrote.agents ▸ hm.current k hk
  have hagain := hwrote.trans (wrote_edit hwrote.profiles.after nameLens text)
  rw [nameLens.put_put] at hagain
  unfold setProfileName agentProfileNameChange
  simp only [hk, if_pos hmem]
  exact hagain

theorem list_toggle_iff (hm : f.manager.Sound) (i : Protocol) (h : f.step (.protocol i) = some f') :
    f'.manager.list = f.manager.list ↔ f.Keeps (.protocol i) := by
  cases h
  apply list_iff_current hm
  · intro hk
    simp only [AgentProfileManager.uncheck, AgentProfileManager.check, hk]
    split <;> rfl
  · intro k p hk hp
    have howns : Owns f.manager (if f.manager.box.get i then f.manager.uncheck i else f.manager.check i) k p
        (Panel.toggle ⟨f.manager.box, p.support⟩ i) := by
      unfold Panel.toggle
      split
      · exact (Owns.refl hk hp).uncheck i
      · exact (Owns.refl hk hp).check i
    have hsteady := (Steady.refl f.manager).click i
    refine ⟨_, ⟨hsteady.agents, hsteady.current, howns.profiles⟩, ?_⟩
    rw [← Panel.toggle_flags_eq_iff ⟨f.manager.box, p.support⟩ i]
    exact supportLens.put_eq_self.trans eq_comm

/-- One step leaves the profiles as they were exactly if it keeps what it writes. -/
theorem step_list_iff {e : Edit} (hm : f.manager.Sound) (h : f.step e = some f') :
    f'.manager.list = f.manager.list ↔ f.Keeps e := by
  cases e with
  | line field text =>
    cases h
    exact list_write_iff hm field.lens text
  | profileName text =>
    cases h
    apply list_iff_current hm
    · intro hk
      unfold setProfileName
      rw [hk]
    · intro k p hk hp
      exact ⟨_, wrote_setProfileName hm hk hp text, nameLens.put_eq_self⟩
  | spin field v =>
    obtain ⟨-, rfl⟩ := Option.ite_some_none_eq_some.mp h
    exact list_write_iff (f := { f with spin := Function.update f.spin field v }) hm field.lens v
  | secName index =>
    obtain ⟨-, rfl⟩ := Option.ite_some_none_eq_some.mp h
    exact list_write_iff (f := { f with secName := some index }) hm secNameLens _
  | secLevel index =>
    obtain ⟨-, rfl⟩ := Option.ite_some_none_eq_some.mp h
    exact list_write_iff (f := { f with secLevel := some index }) hm secLevelLens _
  | protocol i => exact list_toggle_iff hm i h
  | itemName who text =>
    cases h
    unfold agentProfileNameChange
    apply list_iff_listed hm
    · intro hno
      rw [if_neg hno]
    · intro p hmem hp
      rw [if_pos hmem]
      exact ⟨f.manager, _, rfl, rfl, wrote_edit hp nameLens text, nameLens.put_eq_self⟩
  | select item =>
    cases h
    unfold selectedAgentProfile
    apply list_iff_listed hm
    · intro hno
      rw [if_neg hno]
    · intro p hmem hp
      rw [if_pos hmem]
      let turned : Form := { f with manager := { f.manager with currentprofile := some item.profile } }
      obtain ⟨p', hwrote, hiff⟩ := @wrote_selectAgentProfile turned _ _ item.page rfl hp
      exact ⟨turned.manager, p', rfl, rfl, hwrote, hiff⟩
  | add =>
    cases h
    refine iff_of_false ?_ id
    intro heq
    have hlength := congrArg List.length heq
    rw [list_length, list_length, f.add_grows.1.agents, List.length_append, List.length_singleton] at hlength
    omega
  | delete next =>
    cases h
    rcases delete_cases f next hm with ⟨hnone, hsame⟩ | ⟨k, hdeleted⟩
    · rw [hsame]
      exact iff_of_true rfl hnone
    · refine iff_of_false ?_ (by simp [Keeps, hdeleted.selected])
      intro heq
      have hlength := congrArg List.length heq
      have hmem := hm.current k hdeleted.selected
      rw [list_length, list_length, hdeleted.agents, List.length_erase_of_mem hmem] at hlength
      have hpos := List.length_pos_of_mem hmem
      omega

theorem opened_list_iff (hm : f.manager.Sound) (users : List String) :
    (f.opened users).manager.list = f.manager.list ↔ f.Current (f.OpensWith users) := by
  apply list_iff_current hm
  · intro hk
    have hcleared : f.secNameClear.manager = f.manager := by
      unfold secNameClear secNameChanged write
      simp only [hk]
      split <;> rfl
    unfold opened secNameAddItems
    simp only [hk]
    split
    · rw [hcleared]
    · simp only [secNameChanged, write, hcleared, hk]
  · intro k p hk hp
    exact wrote_opened hk hp users

/-- The edits of a dialog leave the profiles as they were, whenever it is cancelled, exactly if the
opening and every edit keep what they write. -/
theorem execute_rejected_iff {users : List String} {es : List Edit} (hm : f.manager.Sound)
    (h : f' ∈ execute users es false f) :
    (∀ done, done <+: es → ∀ g ∈ execute users done false f, g.manager.list = f.manager.list) ↔
      f.Current (f.OpensWith users) ∧ Runs.Each step Keeps (f.opened users) es := by
  have hrejected : ∀ done, execute users done false f = Runs.exec step (f.opened users) done := by
    intro done
    simp [execute]
  rw [hrejected] at h
  simp only [hrejected, Option.mem_def]
  have hopened : (f.opened users).manager.Sound := (opened_steady f users).sound hm
  have hstep : ∀ (g : Form) e g', g.manager.Sound → g.manager.list = f.manager.list → g.step e = some g' →
      (g'.manager.list = f.manager.list ↔ g.Keeps e) := by
    intro g e g' hg hlist hstep
    rw [← hlist]
    exact step_list_iff hg hstep
  have hruns (hfirst : (f.opened users).manager.list = f.manager.list) :=
    Runs.reached_iff_each_of (I := fun g : Form => g.manager.Sound) (fun _ _ _ => step_sound) hstep hopened hfirst h
  rw [← opened_list_iff hm users]
  constructor
  · intro hall
    have hfirst := hall [] List.nil_prefix (f.opened users) rfl
    exact ⟨hfirst, (hruns hfirst).mp hall⟩
  · rintro ⟨hfirst, heach⟩
    exact (hruns hfirst).mpr heach

end Form

end SnmpB.Profile
