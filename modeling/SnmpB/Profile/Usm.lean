import SnmpB.Profile.UserTable
import Mathlib.Algebra.Group.Nat.Defs
import Mathlib.Data.List.TakeWhile

/-! # Accepting the USM dialog

`Execute` deletes the user table by walking over it, rebuilds it from the
profiles and saves it. The walk goes by position over an array that closes every
hole with its last entry, so it deletes the names of the first half only. Names
are handed to the library in Latin-1, up to the first zero.
-/
namespace SnmpB.Profile
open KeyedList UsmUserNameTableEntry USMUserNameTable

namespace USMUserNameTable

/-- The deletion loop of `Execute` from the entry `v3temp` on. The next entry is looked up before
the deletion moves another one here. -/
def deleteFrom (t : USMUserNameTable) (v3temp : ℕ) : USMUserNameTable :=
  match _h : t.peekNext v3temp with
  | none => t.deleteSecurityName (t.securityNameAt v3temp)
  | some v3user => deleteFrom (t.deleteSecurityName (t.securityNameAt v3temp)) v3user
termination_by t.entries - v3temp
decreasing_by
  obtain ⟨rfl, hlt⟩ := peekNext_some _h
  have hle := t.deleteSecurityName_entries_le (t.securityNameAt v3temp)
  omega

def deleteAll (t : USMUserNameTable) : USMUserNameTable :=
  match t.peekFirst with
  | none => t
  | some v3user => t.deleteFrom v3user

theorem users_deleteFrom {t : USMUserNameTable} {e : ℕ} (hpos : 0 < t.entries) (he : e ≤ t.entries)
    (hroom : t.entries + e ≤ t.table.length) :
    (t.deleteFrom e).users =
      (((t.table.drop e).take ((t.entries - e) / 2 + 1)).map usmUserSecurityName).foldl
        (deleteKey usmUserSecurityName) t.users := by
  induction t, e using deleteFrom.induct with
  | case1 t e hnone =>
    have hlast : (t.entries - e) / 2 = 0 := by
      unfold peekNext at hnone
      split at hnone
      · omega
      · cases hnone
    have hhead : t.table.drop e = t.table[e] :: t.table.drop (e + 1) := List.drop_eq_getElem_cons (by omega)
    rw [deleteFrom, hnone, users_deleteSecurityName, hlast, hhead, securityNameAt,
      List.getD_eq_getElem _ _ (by omega)]
    rfl
  | case2 t e v3user hsome ih =>
    obtain ⟨rfl, hlt⟩ := peekNext_some hsome
    have hhead : t.table.drop e = t.table[e] :: t.table.drop (e + 1) := List.drop_eq_getElem_cons (by omega)
    obtain ⟨hentries, htable⟩ := deleteSecurityName_at (t := t) (e := e) (by omega)
    have hlength := t.deleteSecurityName_length (t.securityNameAt e)
    have hrest := ih (by omega) (by omega) (by omega)
    have hcount : (t.entries - e) / 2 + 1 = (t.entries - 1 - (e + 1)) / 2 + 1 + 1 := by omega
    have hname : t.securityNameAt e = t.table[e].usmUserSecurityName := by
      rw [securityNameAt, List.getD_eq_getElem _ _ (by omega)]
    rw [deleteFrom, hsome]
    simp only
    rw [hrest, users_deleteSecurityName, htable, hentries, hcount, hhead, List.take_succ_cons, List.map_cons,
      List.foldl_cons, hname]

/-- What the loop leaves: the names of the entries up to the middle are deleted, one entry each. -/
def outlasting (t : USMUserNameTable) : List UsmUserNameTableEntry :=
  ((t.users.take (t.users.length / 2 + 1)).map usmUserSecurityName).foldl (deleteKey usmUserSecurityName) t.users

theorem users_deleteAll (t : USMUserNameTable) : t.deleteAll.users = t.outlasting := by
  unfold deleteAll outlasting peekFirst
  by_cases hpos : t.entries > 0
  · rw [if_pos hpos]
    simp only
    rw [users_deleteFrom hpos (Nat.zero_le _) t.room, List.drop_zero, Nat.sub_zero, t.users_length, users,
      List.take_take, Nat.min_eq_left (by omega)]
  · have hnone : t.users = [] := by
      rw [← List.length_eq_zero_iff, t.users_length]
      omega
    rw [if_neg hpos]
    simp [hnone]

/-- Where no two users share a security name, the users behind the middle are left. -/
theorem mem_outlasting_iff {t : USMUserNameTable} (hnames : (t.users.map usmUserSecurityName).Nodup)
    {e : UsmUserNameTableEntry} : e ∈ t.outlasting ↔ e ∈ t.users.drop (t.users.length / 2 + 1) :=
  mem_foldl_deleteKey_take hnames

end USMUserNameTable

/-! ## The profiles -/

structure USMProfile where
  name : String
  authproto : ℤ
  authpass : String
  privproto : ℤ
  privpass : String
  deriving DecidableEq

/-- `text.toLatin1()`: a character outside Latin-1 becomes a question mark for each UTF-16 unit. -/
def latin1Octets (text : String) : OctetStr :=
  text.toList.flatMap fun c =>
    if c.toNat < 256 then [UInt8.ofNat c.toNat] else if c.toNat < 2 ^ 16 then [63] else [63, 63]

/-- `OctetStr(const char *)` ends at the first zero. -/
def ofCString (s : OctetStr) : OctetStr := s.takeWhile (· != 0)

def protocolNone : ℤ := 1

def uiAuthToLibAuth (prot : ℤ) : ℤ :=
  match prot with
  | 0 => protocolNone
  | 1 => 2
  | 2 => 3
  | 3 => 4
  | 4 => 5
  | 5 => 6
  | 6 => 7
  | _ => protocolNone

def uiPrivToLibPriv (prot : ℤ) : ℤ :=
  match prot with
  | 0 => protocolNone
  | 1 => 2
  | 2 => 3
  | 3 => 9
  | 4 => 4
  | 5 => 20
  | 6 => 21
  | _ => protocolNone

namespace USMProfile

/-- The octets under which `Execute` adds the profile. -/
def securityName (p : USMProfile) : OctetStr := ofCString (latin1Octets p.name)

/-- `add_usm_user` without a user name of its own: both names are the security name. -/
def entry (p : USMProfile) : UsmUserNameTableEntry where
  usmUserName := p.securityName
  usmUserSecurityName := p.securityName
  usmUserAuthProtocol := uiAuthToLibAuth p.authproto
  usmUserPrivProtocol := uiPrivToLibPriv p.privproto
  authPassword := latin1Octets p.authpass
  privPassword := latin1Octets p.privpass

end USMProfile

/-- The protocols the library knows, with the strings that identify them in the file. -/
structure AuthPriv where
  getAuth : ℤ → Option String
  getPriv : ℤ → Option String

/-- The lines of one user in the file, decoded. -/
structure SavedUser where
  userName : OctetStr
  securityName : OctetStr
  authPassword : OctetStr
  privPassword : OctetStr
  authProtocol : String
  privProtocol : String
  deriving DecidableEq

def idString (get : ℤ → Option String) (protocol : ℤ) : Option String :=
  if protocol = protocolNone then some "none" else get protocol

def AuthPriv.save (ap : AuthPriv) (e : UsmUserNameTableEntry) : Option SavedUser := do
  let authProtocol ← idString ap.getAuth e.usmUserAuthProtocol
  let privProtocol ← idString ap.getPriv e.usmUserPrivProtocol
  some ⟨e.usmUserName, e.usmUserSecurityName, e.authPassword, e.privPassword, authProtocol, privProtocol⟩

/-- How the file system answers: the temporary file takes the place of the users file, it cannot be
written, or the users file is removed and the temporary one cannot be renamed. -/
inductive Saving
  | replaced | refused | removed
  deriving DecidableEq

/-- The users file afterwards. A protocol the library does not know is an error as well, and with an
error the temporary file goes. -/
def USMUserNameTable.saveToFile (t : USMUserNameTable) (ap : AuthPriv) (saving : Saving)
    (file : List SavedUser) : List SavedUser :=
  match t.users.mapM ap.save, saving with
  | some saved, .replaced => saved
  | some _, .removed => []
  | _, _ => file

/-- The user table and the users file. -/
structure UsmUsers where
  table : USMUserNameTable
  file : List SavedUser

/-- `USMProfileManager::Execute` behind an accepted dialog. -/
def execute (ap : AuthPriv) (saving : Saving) (profiles : List USMProfile) (u : UsmUsers) : UsmUsers :=
  let table := profiles.foldl (fun t p => t.addEntry p.entry) u.table.deleteAll
  ⟨table, table.saveToFile ap saving u.file⟩

/-! ## Whose names are left -/

/-- The octets are the text, one for each character. No two texts have the same octets. -/
def Spells (name : OctetStr) (text : String) : Prop := name.map UInt8.toNat = text.toList.map Char.toNat

def NameOf (profiles : List USMProfile) (name : OctetStr) : Prop := ∃ p ∈ profiles, Spells name p.name

/-- The security names in the table are the names of the profiles, and no other name is left in the
users file. -/
structure NamesMatch (profiles : List USMProfile) (u : UsmUsers) : Prop where
  listed : ∀ name ∈ u.table.users.map usmUserSecurityName, NameOf profiles name
  complete : ∀ p ∈ profiles, ∃ name ∈ u.table.users.map usmUserSecurityName, Spells name p.name
  file : ∀ name ∈ u.file.map SavedUser.securityName, NameOf profiles name

theorem Spells.inj {name : OctetStr} {text text' : String} (h : Spells name text) (h' : Spells name text') :
    text = text' := by
  have hchars : text.toList = text'.toList := by
    have hcodes : text.toList.map Char.toNat = text'.toList.map Char.toNat := h.symm.trans h'
    have hinj : Function.Injective Char.toNat := fun _ _ => Char.toNat_inj.mp
    exact hinj.list_map hcodes
  exact String.toList_inj.mp hchars

theorem Spells.zero_mem {name : OctetStr} {text : String} (h : Spells name text) :
    (0 : UInt8) ∈ name ↔ '\x00' ∈ text.toList := by
  have hoctet : Function.Injective UInt8.toNat := fun _ _ => UInt8.toNat_inj.mp
  have hchar : Function.Injective Char.toNat := fun _ _ => Char.toNat_inj.mp
  have hname : 0 ∈ name.map UInt8.toNat ↔ (0 : UInt8) ∈ name := List.mem_map_of_injective hoctet (a := 0)
  have htext : 0 ∈ text.toList.map Char.toNat ↔ '\x00' ∈ text.toList :=
    List.mem_map_of_injective hchar (a := '\x00')
  rw [← hname, ← htext, h]

theorem zero_notMem_ofCString (s : OctetStr) : (0 : UInt8) ∉ ofCString s := by
  intro h
  have hpass := List.mem_takeWhile_imp h
  simp at hpass

/-- A name in Latin-1 without a zero character is handed over as it is. -/
theorem spells_securityName {p : USMProfile} (hlatin : ∀ c ∈ p.name.toList, c.toNat < 256)
    (hzero : '\x00' ∉ p.name.toList) : Spells p.securityName p.name := by
  have hoctets : latin1Octets p.name = p.name.toList.map fun c => UInt8.ofNat c.toNat := by
    rw [List.map_eq_flatMap, latin1Octets]
    exact List.flatMap_congr fun c hc => if_pos (hlatin c hc)
  have hpass : ∀ octet ∈ p.name.toList.map (fun c => UInt8.ofNat c.toNat), (octet != 0) = true := by
    intro octet hmem
    obtain ⟨c, hc, rfl⟩ := List.mem_map.mp hmem
    have hlt := hlatin c hc
    have hne : c.toNat ≠ 0 := fun heq => hzero ((Char.toNat_inj.mp heq : c = '\x00') ▸ hc)
    rw [bne_iff_ne, ne_eq, ← UInt8.toNat_inj, UInt8.toNat_ofNat', Nat.mod_eq_of_lt hlt]
    exact hne
  rw [Spells, USMProfile.securityName, ofCString, hoctets, List.takeWhile_eq_self_iff.mpr hpass, List.map_map]
  refine List.map_congr_left fun c hc => ?_
  have hlt := hlatin c hc
  rw [Function.comp_apply, UInt8.toNat_ofNat']
  exact Nat.mod_eq_of_lt hlt

theorem latin1_of_spells {name : OctetStr} {text : String} (h : Spells name text) :
    ∀ c ∈ text.toList, c.toNat < 256 := by
  intro c hc
  have hcode : c.toNat ∈ name.map UInt8.toNat := by
    rw [h]
    exact List.mem_map_of_mem hc
  obtain ⟨octet, -, hoctet⟩ := List.mem_map.mp hcode
  rw [← hoctet]
  exact octet.toNat_lt

/-! ## The table and the file afterwards -/

/-- The users of the new table: those that are neither deleted nor overwritten, and of every name
handed over the last profile. -/
def Remains (profiles : List USMProfile) (t : USMUserNameTable) (e : UsmUserNameTableEntry) : Prop :=
  (e ∈ t.outlasting ∧ e.usmUserName ∉ profiles.map USMProfile.securityName) ∨
    ∃ before p after, profiles = before ++ p :: after ∧ e = p.entry ∧
      p.securityName ∉ after.map USMProfile.securityName

theorem mem_addProfiles {profiles : List USMProfile} {t : USMUserNameTable} {e : UsmUserNameTableEntry} :
    e ∈ (profiles.foldl (fun t p => t.addEntry p.entry) t).users ↔
      (e ∈ t.users ∧ e.usmUserName ∉ profiles.map USMProfile.securityName) ∨
      ∃ before p after, profiles = before ++ p :: after ∧ e = p.entry ∧
        p.securityName ∉ after.map USMProfile.securityName := by
  induction profiles generalizing t with
  | nil => simp
  | cons p profiles ih =>
    have hmem : e ∈ (t.addEntry p.entry).users ↔ e = p.entry ∨ (e ∈ t.users ∧ e.usmUserName ≠ p.securityName) := by
      rw [users_addEntry]
      exact mem_upsert_iff t.distinct
    rw [List.foldl_cons, ih, hmem, List.map_cons, List.mem_cons, not_or]
    constructor
    · rintro (⟨rfl | ⟨hold, hne⟩, hnot⟩ | ⟨before, q, after, rfl, hentry, hlast⟩)
      · exact Or.inr ⟨[], p, profiles, rfl, rfl, hnot⟩
      · exact Or.inl ⟨hold, hne, hnot⟩
      · exact Or.inr ⟨p :: before, q, after, rfl, hentry, hlast⟩
    · rintro (⟨hold, hne, hnot⟩ | ⟨before, q, after, hsplit, hentry, hlast⟩)
      · exact Or.inl ⟨Or.inr ⟨hold, hne⟩, hnot⟩
      · rcases List.cons_eq_append_iff.mp hsplit with ⟨rfl, hq⟩ | ⟨before, rfl, hprofiles⟩
        · cases hq
          exact Or.inl ⟨Or.inl hentry, hentry ▸ hlast⟩
        · exact Or.inr ⟨before, q, after, hprofiles, hentry, hlast⟩

theorem mem_execute {ap : AuthPriv} {saving : Saving} {profiles : List USMProfile} {u : UsmUsers}
    {e : UsmUserNameTableEntry} : e ∈ (execute ap saving profiles u).table.users ↔ Remains profiles u.table e := by
  rw [execute, mem_addProfiles, users_deleteAll, Remains]

theorem exists_last {profiles : List USMProfile} {name : OctetStr}
    (h : name ∈ profiles.map USMProfile.securityName) : ∃ before p after, profiles = before ++ p :: after ∧
      p.securityName = name ∧ p.securityName ∉ after.map USMProfile.securityName := by
  induction profiles with
  | nil => cases h
  | cons p profiles ih =>
    by_cases hlater : name ∈ profiles.map USMProfile.securityName
    · obtain ⟨before, q, after, rfl, hname, hlast⟩ := ih hlater
      exact ⟨p :: before, q, after, rfl, hname, hlast⟩
    · have hname : name = p.securityName := (List.mem_cons.mp h).resolve_right hlater
      exact ⟨[], p, profiles, rfl, hname.symm, hname ▸ hlater⟩

/-- The names in the new table. -/
theorem mem_names_execute {ap : AuthPriv} {saving : Saving} {profiles : List USMProfile} {u : UsmUsers}
    {name : OctetStr} :
    name ∈ (execute ap saving profiles u).table.users.map usmUserSecurityName ↔
      name ∈ profiles.map USMProfile.securityName ∨ ∃ e ∈ u.table.outlasting, e.usmUserSecurityName = name ∧
        e.usmUserName ∉ profiles.map USMProfile.securityName := by
  constructor
  · intro hname
    obtain ⟨e, he, rfl⟩ := List.mem_map.mp hname
    rcases mem_execute.mp he with ⟨hold, huser⟩ | ⟨before, p, after, rfl, rfl, -⟩
    · exact Or.inr ⟨e, hold, rfl, huser⟩
    · exact Or.inl (List.mem_map_of_mem (List.mem_append_right before List.mem_cons_self))
  · rintro (hname | ⟨e, he, rfl, huser⟩)
    · obtain ⟨before, p, after, hsplit, rfl, hlast⟩ := exists_last hname
      exact List.mem_map.mpr ⟨p.entry, mem_execute.mpr (Or.inr ⟨before, p, after, hsplit, rfl, hlast⟩), rfl⟩
    · exact List.mem_map_of_mem (mem_execute.mpr (Or.inl ⟨he, huser⟩))

theorem save_some {ap : AuthPriv} {e : UsmUserNameTableEntry} {u : SavedUser} (h : ap.save e = some u) :
    u.securityName = e.usmUserSecurityName := by
  unfold AuthPriv.save at h
  obtain ⟨authProtocol, -, h⟩ := Option.bind_eq_some_iff.mp h
  obtain ⟨privProtocol, -, h⟩ := Option.bind_eq_some_iff.mp h
  cases h
  rfl

theorem mapM_save (ap : AuthPriv) (users : List UsmUserNameTableEntry) :
    (users.mapM ap.save = none ∧ ∃ e ∈ users, ap.save e = none) ∨
    ∃ saved, users.mapM ap.save = some saved ∧ (∀ e ∈ users, ap.save e ≠ none) ∧
      saved.map SavedUser.securityName = users.map usmUserSecurityName := by
  induction users with
  | nil => exact Or.inr ⟨[], rfl, by simp, rfl⟩
  | cons e users ih =>
    rw [List.mapM_cons]
    cases hsave : ap.save e with
    | none => exact Or.inl ⟨rfl, e, List.mem_cons_self, hsave⟩
    | some first =>
      rcases ih with ⟨hnone, x, hx, hunknown⟩ | ⟨saved, hsaved, hknown, hnames⟩
      · exact Or.inl ⟨by rw [hnone]; rfl, x, List.mem_cons_of_mem e hx, hunknown⟩
      · refine Or.inr ⟨first :: saved, by rw [hsaved]; rfl, ?_, ?_⟩
        · exact List.forall_mem_cons.mpr ⟨by simp [hsave], hknown⟩
        · rw [List.map_cons, List.map_cons, hnames, save_some hsave]

/-- An error keeps the users file; otherwise it has the names of the table, or is gone. -/
theorem saveToFile_cases (t : USMUserNameTable) (ap : AuthPriv) (saving : Saving) (file : List SavedUser) :
    ((saving = .refused ∨ ∃ e ∈ t.users, ap.save e = none) ∧ t.saveToFile ap saving file = file) ∨
    (¬(saving = .refused ∨ ∃ e ∈ t.users, ap.save e = none) ∧
      (t.saveToFile ap saving file).map SavedUser.securityName ⊆ t.users.map usmUserSecurityName) := by
  unfold saveToFile
  rcases mapM_save ap t.users with ⟨hnone, hunknown⟩ | ⟨saved, hsaved, hknown, hnames⟩
  · rw [hnone]
    exact Or.inl ⟨Or.inr hunknown, rfl⟩
  · rw [hsaved]
    have hall : ¬∃ e ∈ t.users, ap.save e = none := fun ⟨e, he, hunknown⟩ => hknown e he hunknown
    cases saving with
    | refused => exact Or.inl ⟨Or.inl rfl, rfl⟩
    | replaced => exact Or.inr ⟨by simp [hall], by simp [hnames]⟩
    | removed => exact Or.inr ⟨by simp [hall], by simp⟩

/-! ## When the names match -/

/-- All names can be handed over, every user the deletion loop does not reach is a user of the
profiles, and so is every user of a users file that stays. -/
structure Carried (ap : AuthPriv) (saving : Saving) (profiles : List USMProfile) (u : UsmUsers) : Prop where
  latin1 : ∀ p ∈ profiles, ∀ c ∈ p.name.toList, c.toNat < 256
  cut : ∀ p ∈ profiles, '\x00' ∈ p.name.toList → NameOf profiles p.securityName ∧
    ∃ e ∈ u.table.outlasting, e.usmUserName ∉ profiles.map USMProfile.securityName ∧
      Spells e.usmUserSecurityName p.name
  outlasting : ∀ e ∈ u.table.outlasting, e.usmUserName ∈ profiles.map USMProfile.securityName ∨
    NameOf profiles e.usmUserSecurityName
  file : (saving = .refused ∨ ∃ e, Remains profiles u.table e ∧ ap.save e = none) →
    ∀ name ∈ u.file.map SavedUser.securityName, NameOf profiles name

variable {ap : AuthPriv} {saving : Saving} {profiles : List USMProfile} {u : UsmUsers}

/-- The file is right where the table is, or where it stays as it was and was right before. -/
theorem file_names_iff
    (htable : ∀ name ∈ (execute ap saving profiles u).table.users.map usmUserSecurityName, NameOf profiles name) :
    (∀ name ∈ (execute ap saving profiles u).file.map SavedUser.securityName, NameOf profiles name) ↔
      ((saving = .refused ∨ ∃ e, Remains profiles u.table e ∧ ap.save e = none) →
        ∀ name ∈ u.file.map SavedUser.securityName, NameOf profiles name) := by
  have herror : (∃ e ∈ (execute ap saving profiles u).table.users, ap.save e = none) ↔
      ∃ e, Remains profiles u.table e ∧ ap.save e = none := by
    simp only [mem_execute]
  have hcases := saveToFile_cases (execute ap saving profiles u).table ap saving u.file
  rw [herror] at hcases
  rcases hcases with ⟨hkept, hfile⟩ | ⟨hsaved, hfile⟩
  · have hsame : (execute ap saving profiles u).file = u.file := hfile
    rw [hsame]
    exact ⟨fun h _ => h, fun h => h hkept⟩
  · refine iff_of_true ?_ fun hkept => absurd hkept hsaved
    exact fun name hname => htable name (hfile hname)

theorem namesMatch_iff : NamesMatch profiles (execute ap saving profiles u) ↔ Carried ap saving profiles u := by
  constructor
  · intro h
    refine ⟨?_, ?_, ?_, (file_names_iff h.listed).mp h.file⟩
    · intro p hp
      obtain ⟨name, -, hspells⟩ := h.complete p hp
      exact latin1_of_spells hspells
    · intro p hp hzero
      refine ⟨h.listed _ (mem_names_execute.mpr (Or.inl (List.mem_map_of_mem hp))), ?_⟩
      obtain ⟨name, hname, hspells⟩ := h.complete p hp
      rcases mem_names_execute.mp hname with hhanded | ⟨e, he, rfl, huser⟩
      · -- what is handed over ends at the first zero
        obtain ⟨q, -, rfl⟩ := List.mem_map.mp hhanded
        exact absurd (hspells.zero_mem.mpr hzero) (zero_notMem_ofCString _)
      · exact ⟨e, he, huser, hspells⟩
    · intro e he
      by_cases huser : e.usmUserName ∈ profiles.map USMProfile.securityName
      · exact Or.inl huser
      · exact Or.inr (h.listed _ (mem_names_execute.mpr (Or.inr ⟨e, he, rfl, huser⟩)))
  · intro h
    have hhanded : ∀ p ∈ profiles, NameOf profiles p.securityName := by
      intro p hp
      by_cases hzero : '\x00' ∈ p.name.toList
      · exact (h.cut p hp hzero).1
      · exact ⟨p, hp, spells_securityName (h.latin1 p hp) hzero⟩
    have hlisted : ∀ name ∈ (execute ap saving profiles u).table.users.map usmUserSecurityName,
        NameOf profiles name := by
      intro name hname
      rcases mem_names_execute.mp hname with hname | ⟨e, he, rfl, huser⟩
      · obtain ⟨p, hp, rfl⟩ := List.mem_map.mp hname
        exact hhanded p hp
      · exact (h.outlasting e he).resolve_left huser
    refine ⟨hlisted, ?_, (file_names_iff hlisted).mpr h.file⟩
    intro p hp
    by_cases hzero : '\x00' ∈ p.name.toList
    · obtain ⟨-, e, he, huser, hspells⟩ := h.cut p hp hzero
      exact ⟨_, mem_names_execute.mpr (Or.inr ⟨e, he, rfl, huser⟩), hspells⟩
    · exact ⟨_, mem_names_execute.mpr (Or.inl (List.mem_map_of_mem hp)), spells_securityName (h.latin1 p hp) hzero⟩

/-- Main result: accepting the dialog leaves the names of the profiles, in the table and in the file,
exactly if all names are handed over and nobody else is left in either. -/
theorem execute_names_iff (ap : AuthPriv) (saving : Saving) (profiles : List USMProfile) (u : UsmUsers) :
    (NamesMatch profiles (execute ap saving profiles u) ↔ Carried ap saving profiles u) ∧
    ((u.table.users.map usmUserSecurityName).Nodup →
      ∀ e, e ∈ u.table.outlasting ↔ e ∈ u.table.users.drop (u.table.users.length / 2 + 1)) :=
  ⟨namesMatch_iff, fun hnames _ => mem_outlasting_iff hnames⟩

/-- A table as it is allocated, with three users. -/
def threeUsers : USMUserNameTable where
  table := [⟨[97], [97], 1, 1, [], []⟩, ⟨[98], [98], 1, 1, [], []⟩, ⟨[99], [99], 1, 1, [], []⟩] ++
    List.replicate 7 blank
  entries := 3
  allocated := by decide
  room := by decide
  distinct := by decide

/-- All three users are deleted in the dialog, and the third one stays. -/
theorem execute_keeps_third_user :
    ¬ ∀ (ap : AuthPriv) (saving : Saving) (profiles : List USMProfile) (u : UsmUsers),
      NamesMatch profiles (execute ap saving profiles u) := by
  intro h
  have hthird : (⟨[99], [99], 1, 1, [], []⟩ : UsmUserNameTableEntry) ∈ threeUsers.outlasting := by decide
  have hcarried := namesMatch_iff.mp (h ⟨fun _ => none, fun _ => none⟩ .replaced [] ⟨threeUsers, []⟩)
  rcases hcarried.outlasting _ hthird with hname | ⟨p, hp, -⟩
  · cases hname
  · cases hp

end SnmpB.Profile
