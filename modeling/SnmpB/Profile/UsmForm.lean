import SnmpB.Profile.Cancel
import SnmpB.Profile.Usm
import Mathlib.Data.List.Nodup
import Mathlib.Logic.Function.Basic

/-! # Cancelling the USM dialog

This dialog also writes into the profiles it shows, and `Execute` does nothing
when it is rejected. Its combo boxes can show every protocol a profile has, so
that a selection writes nothing new.
-/
namespace SnmpB.Profile

/-- What a user authenticates with, and what hides the messages. -/
inductive Service
  | auth | priv
  deriving DecidableEq, Repr

namespace USMProfile

def nameLens : Lens USMProfile String where
  get := USMProfile.name
  put v p := { p with name := v }
  get_put _ _ := rfl
  put_get _ := rfl
  put_put _ _ _ := rfl

def protoLens (service : Service) : Lens USMProfile ℤ where
  get p := match service with
    | .auth => p.authproto
    | .priv => p.privproto
  put v p := match service with
    | .auth => { p with authproto := v }
    | .priv => { p with privproto := v }
  get_put _ _ := by cases service <;> rfl
  put_get _ := by cases service <;> rfl
  put_put _ _ _ := by cases service <;> rfl

def passLens (service : Service) : Lens USMProfile String where
  get p := match service with
    | .auth => p.authpass
    | .priv => p.privpass
  put v p := match service with
    | .auth => { p with authpass := v }
    | .priv => { p with privpass := v }
  get_put _ _ := by cases service <;> rfl
  put_get _ := by cases service <;> rfl
  put_put _ _ _ := by cases service <;> rfl

/-- The profile `Add` creates, behind `SetSecurity(0, "", 0, "")`. -/
def new : USMProfile := ⟨"newuser", 0, "", 0, ""⟩

/-- Both protocols are among the seven entries of their boxes. -/
def Shown (p : USMProfile) : Prop := ∀ service, 0 ≤ (protoLens service).get p ∧ (protoLens service).get p < 7

end USMProfile

/-- The manager with the widgets of its form that report. -/
structure USMProfileManager where
  profiles : List USMProfile
  users : List ℕ
  currentprofile : Option ℕ
  box : Service → Option ℕ

namespace USMProfileManager
open USMProfile

/-- The profiles in use, in order. -/
def list (m : USMProfileManager) : List (Option USMProfile) := Live.listed m.profiles m.users

def edit (m : USMProfileManager) (who : ℕ) (g : USMProfile → USMProfile) : USMProfileManager :=
  { m with profiles := m.profiles.modify who g }

/-- `if (currentprofile)`, and the write into its field. -/
def write {β : Type} (m : USMProfileManager) (l : Lens USMProfile β) (v : β) : USMProfileManager :=
  match m.currentprofile with
  | none => m
  | some k => m.edit k (l.put v)

/-- `USMSecNameChange`: the text of an item in the tree has changed. -/
def uSMSecNameChange (m : USMProfileManager) (who : ℕ) (text : String) : USMProfileManager :=
  if who ∈ m.users then m.edit who (USMProfile.nameLens.put text) else m

/-- `SetSecName`; the item is renamed too and says so. -/
def setSecName (m : USMProfileManager) (text : String) : USMProfileManager :=
  match m.currentprofile with
  | none => m
  | some k => (m.write USMProfile.nameLens text).uSMSecNameChange k text

/-- `SetAuthPass` and `SetPrivPass`, with the text of the line edit. -/
def setPass (m : USMProfileManager) (service : Service) (text : String) : USMProfileManager :=
  m.write (passLens service) text

/-- `currentIndexChanged` of a protocol box: `SetAuthProto` and `SetPrivProto`. -/
def setProto (m : USMProfileManager) (service : Service) (index : Option ℕ) : USMProfileManager :=
  { m with box := Function.update m.box service index }.write (protoLens service) (Widget.comboValue index)

def setCurrentIndex (m : USMProfileManager) (service : Service) (prot : ℤ) : USMProfileManager :=
  let index := Widget.comboIndex 7 prot
  if m.box service = index then m else m.setProto service index

/-- What the form reads of a profile. -/
def shown {β : Type} (m : USMProfileManager) (who : ℕ) (l : Lens USMProfile β) : β :=
  l.get (m.profiles[who]?.getD USMProfile.new)

/-- `SelectUSMProfile`: the form is filled in. -/
def selectUSMProfile (m : USMProfileManager) (who : ℕ) : USMProfileManager :=
  let m := m.setCurrentIndex .auth (m.shown who (protoLens .auth))
  m.setCurrentIndex .priv (m.shown who (protoLens .priv))

/-- `SelectedUSMProfile`: the current item of the tree has changed. -/
def selectedUSMProfile (m : USMProfileManager) (who : ℕ) : USMProfileManager :=
  if who ∈ m.users then { m with currentprofile := some who }.selectUSMProfile who else m

/-- `Add`. -/
def add (m : USMProfileManager) : USMProfileManager :=
  let who := m.profiles.length
  let m := { m with
    profiles := m.profiles ++ [USMProfile.new]
    users := m.users ++ [who] }
  m.selectedUSMProfile who

/-- `users.takeAt(i)` for the profile `k`. -/
def takeAt (m : USMProfileManager) (k : ℕ) : USMProfileManager := { m with users := m.users.erase k }

/-- The item of a profile is deleted, and the tree chooses another one. -/
def currentItemChanged (m : USMProfileManager) (next : Option ℕ) : USMProfileManager :=
  next.elim m m.selectedUSMProfile

/-- "Readjust the currentprofile pointer with the new current widget item". -/
def readjust (m : USMProfileManager) (next : Option ℕ) : USMProfileManager :=
  { m with currentprofile := next.filter (· ∈ m.users) }

/-- `Delete`, with the item the tree turns to. -/
def delete (m : USMProfileManager) (next : Option ℕ) : USMProfileManager :=
  match m.currentprofile with
  | none => m
  | some k =>
    if k ∈ m.users then ((m.takeAt k).currentItemChanged next).readjust next
    else m

/-- What the user does in the dialog. -/
inductive Edit
  | secName (text : String)
  | pass (service : Service) (text : String)
  | proto (service : Service) (index : ℕ)
  | itemName (who : ℕ) (text : String)
  | select (who : ℕ)
  | add
  | delete (next : Option ℕ)

/-- A combo box reports an entry it has, and only when it is another one. -/
def step (m : USMProfileManager) : Edit → Option USMProfileManager
  | .secName text => some (m.setSecName text)
  | .pass service text => some (m.setPass service text)
  | .proto service index =>
    if index < 7 ∧ m.box service ≠ some index then some (m.setProto service (some index)) else none
  | .itemName who text => some (m.uSMSecNameChange who text)
  | .select who => some (m.selectedUSMProfile who)
  | .add => some m.add
  | .delete next => some (m.delete next)

/-- `Execute`: the manager afterwards, and the users, which change where the dialog was accepted. -/
def execute (ap : AuthPriv) (saving : Saving) (u : UsmUsers) (es : List Edit) (accepted : Bool)
    (m : USMProfileManager) : Option (USMProfileManager × UsmUsers) :=
  (Runs.exec step m es).map fun m =>
    (m, if accepted then Profile.execute ap saving m.list.reduceOption u else u)

/-- The profiles in use are there, the selected one is among them, and their protocols have entries
in the boxes. -/
structure Sound (m : USMProfileManager) : Prop where
  listed : ∀ k ∈ m.users, k < m.profiles.length
  current : ∀ k, m.currentprofile = some k → k ∈ m.users
  shown : ∀ p ∈ m.profiles, p.Shown

section
variable {β : Type} {m m' : USMProfileManager}

theorem Sound.getElem? (hm : m.Sound) {k : ℕ} (hk : k ∈ m.users) : ∃ p, m.profiles[k]? = some p ∧ p.Shown :=
  ⟨_, List.getElem?_eq_getElem (hm.listed k hk), hm.shown _ (List.getElem_mem _)⟩

theorem Sound.unselected (hm : m.Sound) : { m with currentprofile := none }.Sound :=
  ⟨hm.listed, fun _ hk => (nomatch hk), hm.shown⟩

theorem Sound.edit (hm : m.Sound) (who : ℕ) {g : USMProfile → USMProfile} (hg : ∀ p, p.Shown → (g p).Shown) :
    (m.edit who g).Sound where
  listed k hk := by
    rw [USMProfileManager.edit, List.length_modify]
    exact hm.listed k hk
  current := hm.current
  shown p hp := by
    rw [USMProfileManager.edit] at hp
    rcases Live.mem_modify hp with hp | ⟨q, hq, rfl⟩
    · exact hm.shown p hp
    · exact hg q (hm.shown q hq)

theorem Sound.write (hm : m.Sound) {l : Lens USMProfile β} {v : β} (hl : ∀ p, p.Shown → (l.put v p).Shown) :
    (m.write l v).Sound := by
  unfold USMProfileManager.write
  split
  · exact hm
  · exact hm.edit _ hl

theorem shown_put_name {p : USMProfile} (hp : p.Shown) (text : String) : (USMProfile.nameLens.put text p).Shown := hp

theorem shown_put_pass {p : USMProfile} (hp : p.Shown) (service : Service) (text : String) :
    ((passLens service).put text p).Shown := by
  cases service <;> exact hp

theorem shown_put_proto {p : USMProfile} (hp : p.Shown) (service : Service) {prot : ℤ}
    (hprot : 0 ≤ prot ∧ prot < 7) : ((protoLens service).put prot p).Shown := by
  intro other
  have hother := hp other
  cases service <;> cases other <;> first | exact hprot | exact hother

/-- A box that is set to the protocol of the selected profile writes nothing new. -/
theorem setCurrentIndex_same {k : ℕ} {p : USMProfile} (service : Service) (hk : m.currentprofile = some k)
    (hp : m.profiles[k]? = some p) (hshown : p.Shown) :
    ∃ box, m.setCurrentIndex service (m.shown k (protoLens service)) = { m with box } := by
  have hprot : m.shown k (protoLens service) = (protoLens service).get p := by
    unfold USMProfileManager.shown
    rw [hp]
    rfl
  obtain ⟨hlow, hhigh⟩ := hshown service
  have hread : (protoLens service).get p = Widget.comboValue (Widget.comboIndex 7 ((protoLens service).get p)) :=
    Widget.comboValue_comboIndex.mpr ⟨by omega, hhigh⟩
  unfold setCurrentIndex
  simp only [hprot]
  split
  · exact ⟨m.box, rfl⟩
  · refine ⟨Function.update m.box service (Widget.comboIndex 7 ((protoLens service).get p)), ?_⟩
    unfold setProto write
    rw [← hread]
    simp only [hk]
    unfold USMProfileManager.edit
    simp only
    rw [Live.modify_put_self _ hp]

theorem selectedUSMProfile_same (hm : { m with currentprofile := none }.Sound) (who : ℕ) :
    ∃ currentprofile box, m.selectedUSMProfile who = { m with currentprofile, box } ∧
      (currentprofile = m.currentprofile ∨ who ∈ m.users ∧ currentprofile = some who) := by
  unfold selectedUSMProfile
  split
  · rename_i hmem
    obtain ⟨p, hp, hshown⟩ := hm.getElem? hmem
    obtain ⟨box, hauth⟩ := setCurrentIndex_same (m := { m with currentprofile := some who }) .auth rfl hp hshown
    obtain ⟨box', hpriv⟩ := setCurrentIndex_same (m := { m with currentprofile := some who, box }) .priv rfl hp
      hshown
    refine ⟨some who, box', ?_, Or.inr ⟨hmem, rfl⟩⟩
    unfold selectUSMProfile
    simp only [hauth, hpriv]
  · exact ⟨m.currentprofile, m.box, rfl, Or.inl rfl⟩

theorem Sound.selectedUSMProfile (hm : m.Sound) (who : ℕ) : (m.selectedUSMProfile who).Sound := by
  obtain ⟨currentprofile, box, hsame, hcurrent⟩ := selectedUSMProfile_same hm.unselected who
  rw [hsame]
  refine ⟨hm.listed, ?_, hm.shown⟩
  rintro k hk
  rcases hcurrent with rfl | ⟨hmem, rfl⟩
  · exact hm.current k hk
  · cases hk
    exact hmem

theorem Sound.grown (hm : m.Sound) : { m with
    profiles := m.profiles ++ [USMProfile.new]
    users := m.users ++ [m.profiles.length] }.Sound := by
  refine ⟨?_, fun k hk => List.mem_append_left _ (hm.current k hk), ?_⟩
  · intro k hk
    rw [List.length_append, List.length_singleton]
    rcases List.mem_append.mp hk with hk | hk
    · exact (hm.listed k hk).trans (Nat.lt_succ_self _)
    · rw [List.mem_singleton.mp hk]
      exact Nat.lt_succ_self _
  · intro p hp
    rcases List.mem_append.mp hp with hp | hp
    · exact hm.shown p hp
    · rw [List.mem_singleton.mp hp]
      intro service
      cases service <;> decide

theorem Sound.add (hm : m.Sound) : m.add.Sound := hm.grown.selectedUSMProfile _

theorem add_users (hm : m.Sound) : m.add.users = m.users ++ [m.profiles.length] := by
  obtain ⟨currentprofile, box, hsame, -⟩ := selectedUSMProfile_same hm.grown.unselected m.profiles.length
  exact congrArg USMProfileManager.users hsame

/-- Taking the selected profile out leaves the others as they are. -/
theorem delete_cases (hm : m.Sound) (next : Option ℕ) :
    (m.currentprofile = none ∧ m.delete next = m) ∨
    ∃ k ∈ m.users, m.currentprofile = some k ∧ (m.delete next).users = m.users.erase k ∧
      (m.delete next).Sound := by
  cases hk : m.currentprofile with
  | none =>
    refine Or.inl ⟨rfl, ?_⟩
    unfold delete
    rw [hk]
  | some k =>
    have hmem := hm.current k hk
    have htaken : { m.takeAt k with currentprofile := none }.Sound :=
      ⟨fun j hj => hm.listed j (List.mem_of_mem_erase hj), fun j hj => (nomatch hj), hm.shown⟩
    have hturned : ∃ currentprofile box, (m.takeAt k).currentItemChanged next =
        { m.takeAt k with currentprofile, box } := by
      cases next with
      | none => exact ⟨m.currentprofile, m.box, rfl⟩
      | some who =>
        obtain ⟨currentprofile, box, hsame, -⟩ := selectedUSMProfile_same htaken who
        exact ⟨currentprofile, box, hsame⟩
    obtain ⟨currentprofile, box, hturned⟩ := hturned
    have hdelete : m.delete next = { m.takeAt k with currentprofile, box }.readjust next := by
      unfold delete
      rw [hk]
      simp only [if_pos hmem]
      rw [hturned]
    refine Or.inr ⟨k, hmem, rfl, ?_⟩
    rw [hdelete]
    refine ⟨rfl, htaken.listed, ?_, hm.shown⟩
    intro j hj
    obtain ⟨-, hin⟩ := Option.filter_eq_some_iff.mp hj
    exact of_decide_eq_true hin

theorem Sound.uSMSecNameChange (hm : m.Sound) (who : ℕ) (text : String) : (m.uSMSecNameChange who text).Sound := by
  unfold USMProfileManager.uSMSecNameChange
  split
  · exact hm.edit who fun p hp => shown_put_name hp text
  · exact hm

/-- The name is written twice, by the field and by the item it renames. -/
theorem setSecName_eq (hm : m.Sound) (text : String) : m.setSecName text = m.write USMProfile.nameLens text := by
  unfold setSecName
  split
  · rename_i hk
    unfold USMProfileManager.write
    rw [hk]
  · rename_i k hk
    obtain ⟨p, hp, -⟩ := hm.getElem? (hm.current k hk)
    have hagain :=
      Live.modify_put_self USMProfile.nameLens (Live.rewrites_modify hp (USMProfile.nameLens.put text)).after
    rw [USMProfile.nameLens.get_put] at hagain
    have hwrite : m.write USMProfile.nameLens text = m.edit k (USMProfile.nameLens.put text) := by
      unfold USMProfileManager.write
      rw [hk]
    rw [hwrite]
    unfold USMProfileManager.uSMSecNameChange
    rw [if_pos (show k ∈ (m.edit k (USMProfile.nameLens.put text)).users from hm.current k hk)]
    unfold USMProfileManager.edit
    simp only
    rw [hagain]

theorem step_sound {e : Edit} (hm : m.Sound) (h : m.step e = some m') : m'.Sound := by
  cases e with
  | secName text =>
    cases h
    rw [setSecName_eq hm]
    exact hm.write fun p hp => shown_put_name hp text
  | pass service text =>
    cases h
    exact hm.write fun p hp => shown_put_pass hp service text
  | proto service index =>
    obtain ⟨⟨hindex, -⟩, rfl⟩ := Option.ite_some_none_eq_some.mp h
    have hbox : { m with box := Function.update m.box service (some index) }.Sound :=
      ⟨hm.listed, hm.current, hm.shown⟩
    exact hbox.write fun p hp => shown_put_proto hp service ⟨Int.natCast_nonneg _, Int.ofNat_lt.mpr hindex⟩
  | itemName who text =>
    cases h
    exact hm.uSMSecNameChange who text
  | select who =>
    cases h
    exact hm.selectedUSMProfile who
  | add =>
    cases h
    exact hm.add
  | delete next =>
    cases h
    rcases delete_cases hm next with ⟨-, hsame⟩ | ⟨k, -, -, -, hsound⟩
    · rw [hsame]
      exact hm
    · exact hsound

end

/-! ## What is left after a rejected dialog -/

/-- The selected profile, if there is one, is as described. -/
def Current (m : USMProfileManager) (P : USMProfile → Prop) : Prop :=
  ∀ k p, m.currentprofile = some k → m.profiles[k]? = some p → P p

/-- The edit writes what the profile has already. -/
def Keeps (m : USMProfileManager) : Edit → Prop
  | .secName text => m.Current fun p => p.name = text
  | .pass service text => m.Current fun p => (passLens service).get p = text
  | .proto service index => m.Current fun p => (protoLens service).get p = index
  | .itemName who text => who ∈ m.users → ∀ p, m.profiles[who]? = some p → p.name = text
  | .select _ => True
  | .add => False
  | .delete _ => m.currentprofile = none

section
variable {β : Type} {m m' : USMProfileManager}

theorem list_edit_iff {k : ℕ} {p : USMProfile} (hk : k ∈ m.users) (hp : m.profiles[k]? = some p)
    (l : Lens USMProfile β) (v : β) : (m.edit k (l.put v)).list = m.list ↔ l.get p = v :=
  Live.listed_put_iff l hk hp

theorem list_write_iff (hm : m.Sound) (l : Lens USMProfile β) (v : β) :
    (m.write l v).list = m.list ↔ m.Current fun p => l.get p = v := by
  unfold USMProfileManager.write Current
  split
  · rename_i hk
    refine iff_of_true rfl ?_
    intro k p hk'
    rw [hk] at hk'
    cases hk'
  · rename_i k hk
    obtain ⟨p, hp, -⟩ := hm.getElem? (hm.current k hk)
    rw [list_edit_iff (hm.current k hk) hp]
    constructor
    · rintro hv j q hj hq
      cases hk.symm.trans hj
      cases hp.symm.trans hq
      exact hv
    · intro hall
      exact hall k p hk hp

theorem list_uSMSecNameChange_iff (hm : m.Sound) (who : ℕ) (text : String) :
    (m.uSMSecNameChange who text).list = m.list ↔
      (who ∈ m.users → ∀ p, m.profiles[who]? = some p → p.name = text) := by
  unfold USMProfileManager.uSMSecNameChange
  split
  · rename_i hwho
    obtain ⟨p, hp, -⟩ := hm.getElem? hwho
    rw [list_edit_iff hwho hp]
    constructor
    · rintro hv - q hq
      cases hp.symm.trans hq
      exact hv
    · intro hall
      exact hall hwho p hp
  · rename_i hwho
    exact iff_of_true rfl fun hin => absurd hin hwho

theorem list_length (m : USMProfileManager) : m.list.length = m.users.length := Live.listed_length _ _

theorem step_list_iff {e : Edit} (hm : m.Sound) (h : m.step e = some m') : m'.list = m.list ↔ m.Keeps e := by
  cases e with
  | secName text =>
    cases h
    rw [setSecName_eq hm]
    exact list_write_iff hm USMProfile.nameLens text
  | pass service text =>
    cases h
    exact list_write_iff hm (passLens service) text
  | proto service index =>
    obtain ⟨-, rfl⟩ := Option.ite_some_none_eq_some.mp h
    have hbox : { m with box := Function.update m.box service (some index) }.Sound :=
      ⟨hm.listed, hm.current, hm.shown⟩
    exact list_write_iff hbox (protoLens service) _
  | itemName who text =>
    cases h
    exact list_uSMSecNameChange_iff hm who text
  | select who =>
    cases h
    obtain ⟨currentprofile, box, hsame, -⟩ := selectedUSMProfile_same hm.unselected who
    rw [hsame]
    exact iff_of_true rfl trivial
  | add =>
    cases h
    refine iff_of_false ?_ id
    intro heq
    have hlength := congrArg List.length heq
    rw [list_length, list_length, add_users hm, List.length_append, List.length_singleton] at hlength
    omega
  | delete next =>
    cases h
    rcases delete_cases hm next with ⟨hnone, hsame⟩ | ⟨k, hmem, hcurrent, husers, -⟩
    · rw [hsame]
      exact iff_of_true rfl hnone
    · refine iff_of_false ?_ (by simp [Keeps, hcurrent])
      intro heq
      have hlength := congrArg List.length heq
      rw [list_length, list_length, husers, List.length_erase_of_mem hmem] at hlength
      have hpos := List.length_pos_of_mem hmem
      omega

/-- The edits of a dialog leave the profiles as they were, whenever it is cancelled, exactly if every
edit writes what is there. -/
theorem execute_rejected_iff {ap : AuthPriv} {saving : Saving} {u : UsmUsers} {es : List Edit}
    {result : USMProfileManager × UsmUsers} (hm : m.Sound)
    (h : execute ap saving u es false m = some result) :
    (∀ done, done <+: es → ∀ r, execute ap saving u done false m = some r → r.1.list = m.list) ↔
      Runs.Each step Keeps m es := by
  obtain ⟨m', hrun, -⟩ := Option.map_eq_some_iff.mp h
  have hstep : ∀ (g : USMProfileManager) e g', g.Sound → g.list = m.list → g.step e = some g' →
      (g'.list = m.list ↔ g.Keeps e) := by
    intro g e g' hg hlist hstep
    rw [← hlist]
    exact step_list_iff hg hstep
  rw [← Runs.reached_iff_each_of (fun _ _ _ => step_sound) hstep hm rfl hrun]
  constructor
  · intro hall done hdone g hg
    exact hall done hdone (g, u) (Option.map_eq_some_iff.mpr ⟨g, hg, rfl⟩)
  · intro hall done hdone r hr
    obtain ⟨g, hg, rfl⟩ := Option.map_eq_some_iff.mp hr
    exact hall done hdone g hg

end

end USMProfileManager

/-! ## Both dialogs -/

/-- Main result: a rejected dialog leaves the profiles as they were, however far it got, exactly if
everything it wrote was there already. The dialog of the agents writes when it opens, too. -/
theorem rejected_dialog_list_iff (users : List String) (es : List Form.Edit) (f f' : Form) (ap : AuthPriv)
    (saving : Saving) (u : UsmUsers) (edits : List USMProfileManager.Edit) (m : USMProfileManager)
    (result : USMProfileManager × UsmUsers) :
    (f.manager.Sound → Form.execute users es false f = some f' →
      ((∀ done, done <+: es → ∀ g, Form.execute users done false f = some g → g.manager.list = f.manager.list) ↔
        f.Current (f.OpensWith users) ∧ Runs.Each Form.step Form.Keeps (f.opened users) es)) ∧
    (m.Sound → m.execute ap saving u edits false = some result →
      ((∀ done, done <+: edits → ∀ r, m.execute ap saving u done false = some r → r.1.list = m.list) ↔
        Runs.Each USMProfileManager.step USMProfileManager.Keeps m edits)) :=
  ⟨fun hm h => Form.execute_rejected_iff hm h, fun hm h => USMProfileManager.execute_rejected_iff hm h⟩

/-- One user, which is selected. -/
def oneUser : USMProfileManager where
  profiles := [⟨"operator", 2, "secret", 1, "secret"⟩]
  users := [0]
  currentprofile := some 0
  box := fun service => if service = .auth then some 2 else some 1

theorem oneUser_sound : oneUser.Sound := by
  refine ⟨by decide, by decide, ?_⟩
  intro p hp service
  obtain rfl := List.mem_singleton.mp hp
  cases service <;> decide

theorem rejected_dialog_list_iff_examples :
    ((∀ done, done <+: [Form.Edit.profileName "gateway"] → ∀ g, Form.execute [] done false Form.twoProfiles = some g →
        g.manager.list = Form.twoProfiles.manager.list) ↔
      Form.twoProfiles.Current (Form.twoProfiles.OpensWith []) ∧
        Runs.Each Form.step Form.Keeps (Form.twoProfiles.opened []) [.profileName "gateway"]) ∧
    ((∀ done, done <+: [USMProfileManager.Edit.select 0] → ∀ r,
        oneUser.execute ⟨fun _ => none, fun _ => none⟩ .replaced ⟨threeUsers, []⟩ done false = some r →
          r.1.list = oneUser.list) ↔
      Runs.Each USMProfileManager.step USMProfileManager.Keeps oneUser [.select 0]) :=
  have hboth := rejected_dialog_list_iff [] [.profileName "gateway"] Form.twoProfiles _ ⟨fun _ => none, fun _ => none⟩
    .replaced ⟨threeUsers, []⟩ [.select 0] oneUser _
  ⟨hboth.1 Form.twoProfiles_sound rfl, hboth.2 oneUser_sound rfl⟩

/-- A profile is renamed, and so is a user; both dialogs are cancelled and the new names stay. -/
theorem rejected_dialog_keeps_names :
    (¬ ∀ (users : List String) (es : List Form.Edit) (f f' : Form), f.manager.Sound →
      Form.execute users es false f = some f' → f'.manager.list = f.manager.list) ∧
    (¬ ∀ (ap : AuthPriv) (saving : Saving) (u : UsmUsers) (es : List USMProfileManager.Edit)
      (m : USMProfileManager) (result : USMProfileManager × UsmUsers), m.Sound →
      m.execute ap saving u es false = some result → result.1.list = m.list) := by
  constructor
  · intro h
    have hlist := h [] [.profileName "gateway"] Form.twoProfiles _ Form.twoProfiles_sound rfl
    revert hlist
    decide
  · intro h
    have hlist := h ⟨fun _ => none, fun _ => none⟩ .replaced ⟨threeUsers, []⟩ [.secName "guest"] oneUser _ oneUser_sound rfl
    revert hlist
    decide

end SnmpB.Profile
