import SnmpB.Library.KeyedList
import Mathlib.Data.Int.Notation
import Mathlib.Data.List.GetD

/-! # The USM user-name table

An array of entries of which the first ones are in use. A pointer into it is a
position. Deleting a user moves the last entry in use into the hole, and the
memory behind the entries in use keeps what it held.
-/
namespace SnmpB.Profile
open KeyedList

abbrev OctetStr := List UInt8

structure UsmUserNameTableEntry where
  usmUserName : OctetStr
  usmUserSecurityName : OctetStr
  usmUserAuthProtocol : ℤ
  usmUserPrivProtocol : ℤ
  authPassword : OctetStr
  privPassword : OctetStr
  deriving DecidableEq

/-- An entry as `new` leaves it. -/
def UsmUserNameTableEntry.blank : UsmUserNameTableEntry := ⟨[], [], 0, 0, [], []⟩

open UsmUserNameTableEntry

/-- `max_entries` is the length of the array. Users are told apart by their user names. -/
structure USMUserNameTable where
  table : List UsmUserNameTableEntry
  entries : ℕ
  allocated : 0 < table.length
  room : entries ≤ table.length
  distinct : ((table.take entries).map usmUserName).Nodup

/-- The array after the entry at `i` was deleted. -/
def compact (table : List UsmUserNameTableEntry) (entries i : ℕ) : List UsmUserNameTableEntry :=
  if entries - 1 > i then table.set i (table.getD (entries - 1) blank) else table

theorem compact_length (table : List UsmUserNameTableEntry) (entries i : ℕ) :
    (compact table entries i).length = table.length := by
  unfold compact
  split
  · exact List.length_set
  · rfl

theorem take_compact {table : List UsmUserNameTableEntry} {entries i : ℕ} (hi : i < entries)
    (hroom : entries ≤ table.length) :
    (compact table entries i).take (entries - 1) = swapRemove (table.take entries) i := by
  have hlast : entries - 1 < table.length := by omega
  have hget : (table.take entries).getLast? = some (table.getD (entries - 1) blank) := by
    rw [List.getLast?_take, if_neg (by omega), List.getElem?_eq_getElem hlast, List.getD_eq_getElem _ _ hlast]
    rfl
  have htake : ∀ last : UsmUserNameTableEntry, ((table.take entries).set i last).dropLast =
      (table.set i last).take (entries - 1) := by
    intro last
    rw [← List.take_set, List.dropLast_eq_take, List.length_take, List.length_set, List.take_take]
    congr 1
    omega
  simp only [swapRemove, hget, htake, compact]
  split
  · rfl
  · exact (List.take_set_of_le (by omega)).symm

/-- The array before an entry is added behind those in use. -/
def grow (table : List UsmUserNameTableEntry) (entries : ℕ) : List UsmUserNameTableEntry :=
  if entries = table.length then table.take entries ++ List.replicate (4 * table.length - entries) blank
  else table

theorem lt_grow_length {table : List UsmUserNameTableEntry} {entries : ℕ} (hallocated : 0 < table.length)
    (hroom : entries ≤ table.length) : entries < (grow table entries).length := by
  unfold grow
  split
  · rw [List.length_append, List.length_take, List.length_replicate]
    omega
  · omega

theorem take_grow (table : List UsmUserNameTableEntry) (entries : ℕ) :
    (grow table entries).take entries = table.take entries := by
  unfold grow
  split
  · exact List.take_left' (by rw [List.length_take]; omega)
  · rfl

namespace USMUserNameTable

/-- The entries in use. -/
def users (t : USMUserNameTable) : List UsmUserNameTableEntry := t.table.take t.entries

theorem users_length (t : USMUserNameTable) : t.users.length = t.entries := by
  rw [users, List.length_take]
  exact Nat.min_eq_left t.room

def deleteSecurityName (t : USMUserNameTable) (securityName : OctetStr) : USMUserNameTable :=
  match h : find usmUserSecurityName t.users securityName with
  | none => t
  | some i =>
    have hi : i < t.entries := t.users_length ▸ (find_eq_some.mp h).1
    { table := compact t.table t.entries i
      entries := t.entries - 1
      allocated := by
        rw [compact_length]
        exact t.allocated
      room := by
        rw [compact_length]
        exact Nat.le_trans (Nat.sub_le _ _) t.room
      distinct := by
        rw [take_compact hi t.room]
        have hperm : (swapRemove t.users i).Perm (t.users.eraseIdx i) := swapRemove_perm (t.users_length.symm ▸ hi)
        rw [← users, (hperm.map usmUserName).nodup_iff]
        exact t.distinct.sublist ((List.eraseIdx_sublist _ i).map usmUserName) }

theorem users_deleteSecurityName (t : USMUserNameTable) (securityName : OctetStr) :
    (t.deleteSecurityName securityName).users = deleteKey usmUserSecurityName t.users securityName := by
  unfold deleteSecurityName
  split
  · rename_i hnone
    simp only [deleteKey, hnone]
  · rename_i i hsome
    have hi : i < t.entries := t.users_length ▸ (find_eq_some.mp hsome).1
    simp only [deleteKey, hsome]
    exact take_compact hi t.room

theorem users_append (t : USMUserNameTable) (e : UsmUserNameTableEntry) :
    ((grow t.table t.entries).set t.entries e).take (t.entries + 1) = t.users ++ [e] := by
  have hlt := lt_grow_length t.allocated t.room
  have hset : t.entries < ((grow t.table t.entries).set t.entries e).length := by
    rw [List.length_set]
    exact hlt
  rw [List.take_succ_eq_append_getElem hset, List.take_set_of_le (Nat.le_refl _), take_grow,
    List.getElem_set_self hset]
  rfl

/-- The fields `add_entry` overwrites in an entry with the user name: all others. -/
def overwrite (old e : UsmUserNameTableEntry) : UsmUserNameTableEntry :=
  { old with
    usmUserSecurityName := e.usmUserSecurityName
    usmUserAuthProtocol := e.usmUserAuthProtocol
    usmUserPrivProtocol := e.usmUserPrivProtocol
    authPassword := e.authPassword
    privPassword := e.privPassword }

theorem users_overwrite {t : USMUserNameTable} {e : UsmUserNameTableEntry} {i : ℕ}
    (h : find usmUserName t.users e.usmUserName = some i) :
    (t.table.set i (overwrite (t.table.getD i blank) e)).take t.entries = t.users.set i e := by
  obtain ⟨hi, hname, -⟩ := find_eq_some.mp h
  have hlt : i < t.table.length := Nat.lt_of_lt_of_le (t.users_length ▸ hi) t.room
  have hsame : overwrite (t.table.getD i blank) e = e := by
    have hold : (t.table.getD i blank).usmUserName = e.usmUserName := by
      rw [List.getD_eq_getElem _ _ hlt, ← hname]
      exact congrArg usmUserName (List.getElem_take).symm
    rw [overwrite, hold]
  rw [List.take_set, hsame]
  rfl

/-- An entry with the user name is overwritten; otherwise one is added. -/
def addEntry (t : USMUserNameTable) (e : UsmUserNameTableEntry) : USMUserNameTable :=
  match h : find usmUserName t.users e.usmUserName with
  | some i =>
    { table := t.table.set i (overwrite (t.table.getD i blank) e)
      entries := t.entries
      allocated := by
        rw [List.length_set]
        exact t.allocated
      room := by
        rw [List.length_set]
        exact t.room
      distinct := by
        have hnodup : ((upsert usmUserName t.users e).map usmUserName).Nodup := nodup_upsert t.distinct e
        rw [users_overwrite h]
        simpa only [upsert, h] using hnodup }
  | none =>
    { table := (grow t.table t.entries).set t.entries e
      entries := t.entries + 1
      allocated := by
        rw [List.length_set]
        exact Nat.zero_lt_of_lt (lt_grow_length t.allocated t.room)
      room := by
        rw [List.length_set]
        exact lt_grow_length t.allocated t.room
      distinct := by
        have hnodup : ((upsert usmUserName t.users e).map usmUserName).Nodup := nodup_upsert t.distinct e
        rw [users_append]
        simpa only [upsert, h] using hnodup }

theorem users_addEntry (t : USMUserNameTable) (e : UsmUserNameTableEntry) :
    (t.addEntry e).users = upsert usmUserName t.users e := by
  unfold addEntry
  split
  · rename_i i hsome
    simp only [upsert, hsome]
    exact users_overwrite hsome
  · rename_i hnone
    simp only [upsert, hnone]
    exact users_append t e

/-! ## Pointers into the table -/

def peekFirst (t : USMUserNameTable) : Option ℕ := if t.entries > 0 then some 0 else none

/-- `e - table >= entries - 1` in signed arithmetic. -/
def peekNext (t : USMUserNameTable) (e : ℕ) : Option ℕ := if e + 1 ≥ t.entries then none else some (e + 1)

/-- `e->usmUserSecurityName`, which may lie behind the entries in use. -/
def securityNameAt (t : USMUserNameTable) (e : ℕ) : OctetStr := (t.table.getD e blank).usmUserSecurityName

theorem peekNext_some {t : USMUserNameTable} {e next : ℕ} (h : t.peekNext e = some next) :
    next = e + 1 ∧ e + 1 < t.entries := by
  unfold peekNext at h
  split at h
  · cases h
  · rename_i hlt
    exact ⟨(Option.some.inj h).symm, Nat.lt_of_not_le hlt⟩

theorem deleteSecurityName_entries_le (t : USMUserNameTable) (securityName : OctetStr) :
    (t.deleteSecurityName securityName).entries ≤ t.entries := by
  unfold deleteSecurityName
  split
  · exact Nat.le_refl _
  · exact Nat.sub_le _ _

theorem deleteSecurityName_length (t : USMUserNameTable) (securityName : OctetStr) :
    (t.deleteSecurityName securityName).table.length = t.table.length := by
  unfold deleteSecurityName
  split
  · rfl
  · exact compact_length t.table t.entries _

/-- Deleting by the name of an entry in use: nothing behind the entry is touched. -/
theorem deleteSecurityName_at {t : USMUserNameTable} {e : ℕ} (he : e < t.entries) :
    (t.deleteSecurityName (t.securityNameAt e)).entries = t.entries - 1 ∧
    (t.deleteSecurityName (t.securityNameAt e)).table.drop (e + 1) = t.table.drop (e + 1) := by
  have hlt : e < t.users.length := t.users_length.symm ▸ he
  have hname : t.users[e].usmUserSecurityName = t.securityNameAt e := by
    rw [securityNameAt, List.getD_eq_getElem _ _ (Nat.lt_of_lt_of_le he t.room)]
    exact congrArg usmUserSecurityName List.getElem_take
  obtain ⟨i, hi, hfind⟩ := find_le hlt hname
  unfold deleteSecurityName
  split
  · rename_i hnone
    rw [hfind] at hnone
    cases hnone
  · rename_i j hsome
    obtain rfl : i = j := Option.some.inj (hfind.symm.trans hsome)
    refine ⟨rfl, ?_⟩
    change (compact t.table t.entries i).drop (e + 1) = _
    unfold compact
    split
    · exact List.drop_set_of_lt (Nat.lt_succ_of_le hi)
    · rfl

end USMUserNameTable

end SnmpB.Profile
