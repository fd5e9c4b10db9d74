import SnmpB.Profile.UserTable
import SnmpB.Usm.Privacy

/-! # Users and their keys

Users are added with passwords. The keys of a user for an engine are made when they are asked
for and kept in a second table. Nothing but these two tables decides what a user is found
with: whoever asks gets the keys that belong to the passwords the user was added with last.
The second table only saves time, but for the users that are deleted by a reference into the
first one, whose keys may stay.
-/
namespace SnmpB.Usm
open KeyedList
open SnmpB.Ber (Byte)
open SnmpB.Profile (OctetStr USMUserNameTable UsmUserNameTableEntry)

def maxLenUsmUserName : ℕ := 32

/-- `data` of a string. -/
def octets (s : OctetStr) : List Byte := s.map UInt8.toBitVec

/-! ## Keys for an engine -/

structure AuthPriv where
  getAuth : ℤ → Option Auth
  getPriv : ℤ → Option Priv

/-- `SNMP_AUTHPROTOCOL_NONE` and `SNMP_PRIVPROTOCOL_NONE`. -/
def protocolNone : ℤ := 1

def maxKeyLen : ℕ := 64

namespace AuthPriv

/-- None where the protocol is unknown or needs a password and has none. -/
def passwordToKeyAuth (ap : AuthPriv) (authProt : ℤ) (password engineId : OctetStr) : Option (List Byte) :=
  if authProt = protocolNone then some []
  else if password = [] then none
  else (ap.getAuth authProt).map fun a => a.passwordToKey (octets password) (octets engineId)

/-- `fix_key_len`: a key of the length the protocol uses, or none. -/
def fixKeyLen (p : Priv) (key : List Byte) : List Byte := if key.length ≥ p.minKeyLen then key.take p.minKeyLen else []

def passwordToKeyPriv (ap : AuthPriv) (authProt privProt : ℤ) (password engineId : OctetStr) :
    Option (List Byte) :=
  if privProt = protocolNone then some []
  else if password = [] then none
  else do
    let p ← ap.getPriv privProt
    let a ← ap.getAuth authProt
    if p.minKeyLen > maxKeyLen then none
    else
      let key ← ap.passwordToKeyAuth authProt password engineId
      let key ← if key.length < p.minKeyLen then p.extendShortKey a key else some key
      some (fixKeyLen p key)

def buildLocalizedKeys (ap : AuthPriv) (engineId : OctetStr) (n : UsmUserNameTableEntry) :
    Option (List Byte × List Byte) := do
  let authKey ← ap.passwordToKeyAuth n.usmUserAuthProtocol n.authPassword engineId
  let privKey ← ap.passwordToKeyPriv n.usmUserAuthProtocol n.usmUserPrivProtocol n.privPassword engineId
  some (authKey, privKey)

end AuthPriv

/-! ## The tables -/

structure UsmUserTableEntry where
  usmUserEngineID : OctetStr
  usmUserName : OctetStr
  usmUserSecurityName : OctetStr
  usmUserAuthProtocol : ℤ
  usmUserAuthKey : List Byte
  usmUserPrivProtocol : ℤ
  usmUserPrivKey : List Byte
  deriving DecidableEq

def UsmUserTableEntry.key (e : UsmUserTableEntry) : OctetStr × OctetStr := (e.usmUserName, e.usmUserEngineID)

/-- What `get_user` returns is a copy of an entry or looks like one. -/
abbrev UsmUser := UsmUserTableEntry

structure UserTables where
  usmUserNameTable : USMUserNameTable
  usmUserTable : List UsmUserTableEntry

namespace UserTables

def start : UserTables where
  usmUserNameTable :=
    { table := List.replicate 10 UsmUserNameTableEntry.blank
      entries := 0
      allocated := by decide
      room := by decide
      distinct := by simp }
  usmUserTable := []

/-- `USMUserNameTable::get_entry`. -/
def getNameEntry (t : UserTables) (securityName : OctetStr) : Option UsmUserNameTableEntry :=
  t.usmUserNameTable.users.find? fun n => decide (n.usmUserSecurityName = securityName)

/-- The three loops of `USMUserTable` that look for an entry. -/
def getEntry (t : UserTables) (engineId securityName : OctetStr) : Option UsmUserTableEntry :=
  t.usmUserTable.find? fun e => decide (e.usmUserSecurityName = securityName ∧ e.usmUserEngineID = engineId)

def getEntryOf (t : UserTables) (securityName : OctetStr) : Option UsmUserTableEntry :=
  t.usmUserTable.find? fun e => decide (e.usmUserSecurityName = securityName)

/-- A name that does not fit into the buffer is an error. -/
def fitting (userName : OctetStr) : Option OctetStr :=
  if userName.length ≤ maxLenUsmUserName then some userName else none

/-- `get_user_name` with a buffer of `MAXLEN_USMUSERNAME` octets. -/
def getUserName (t : UserTables) (securityName : OctetStr) : Option OctetStr :=
  ((t.getNameEntry securityName).bind fun n => fitting n.usmUserName).or
    ((t.getEntryOf securityName).bind fun e => fitting e.usmUserName)

/-- `delete_localized_user`, which is `delete_entries`. -/
def deleteLocalizedUser (t : UserTables) (userName : OctetStr) : UserTables :=
  { t with usmUserTable := removeFrom (fun e => decide (e.usmUserName = userName)) t.usmUserTable 0 }

/-- `add_localized_user`: an entry of the user for the engine goes first. -/
def addLocalizedUser (t : UserTables) (e : UsmUserTableEntry) : UserTables :=
  { t with usmUserTable := deleteKey UsmUserTableEntry.key t.usmUserTable e.key ++ [e] }

def discoveryUser (userName securityName : OctetStr) : UsmUser :=
  ⟨[], userName, securityName, protocolNone, [], protocolNone, []⟩

def localizedUser (n : UsmUserNameTableEntry) (engineId : OctetStr) (keys : List Byte × List Byte) :
    UsmUserTableEntry :=
  ⟨engineId, n.usmUserName, n.usmUserSecurityName, n.usmUserAuthProtocol, keys.1, n.usmUserPrivProtocol, keys.2⟩

/-- The user and the tables afterwards, where the user may have been added for the engine. -/
def getUser (ap : AuthPriv) (t : UserTables) (engineId securityName : OctetStr) : Option UsmUser × UserTables :=
  match t.getEntry engineId securityName with
  | some e => (some e, t)
  | none =>
    match t.getNameEntry securityName with
    | none =>
      match t.getEntryOf securityName with
      | some e => (if engineId = [] then some (discoveryUser e.usmUserName e.usmUserSecurityName) else none, t)
      | none => (none, t)
    | some n =>
      if engineId = [] then (some (discoveryUser n.usmUserName n.usmUserSecurityName), t)
      else
        match ap.buildLocalizedKeys engineId n with
        | none => (none, t)
        | some keys =>
          let t := t.addLocalizedUser (localizedUser n engineId keys)
          (t.getEntry engineId securityName, t)

/-- `add_usm_user` with a user name of its own; the keys for the local engine are made at once. -/
def addUsmUser (ap : AuthPriv) (localEngineId : OctetStr) (t : UserTables) (n : UsmUserNameTableEntry) : UserTables :=
  let t := t.deleteLocalizedUser n.usmUserName
  let t := { t with usmUserNameTable := t.usmUserNameTable.addEntry n }
  (getUser ap t localEngineId n.usmUserSecurityName).2

def deleteSecurityName (t : UserTables) (securityName : OctetStr) : UserTables :=
  { t with usmUserNameTable := t.usmUserNameTable.deleteSecurityName securityName }

/-- The second half of `delete_usm_user`. -/
def deleteKeysOf (t : UserTables) (securityName : OctetStr) : UserTables :=
  match t.getUserName securityName with
  | some userName => t.deleteLocalizedUser userName
  | none => t

/-- `delete_usm_user` with a name the caller keeps. -/
def deleteUsmUser (t : UserTables) (securityName : OctetStr) : UserTables :=
  (t.deleteSecurityName securityName).deleteKeysOf securityName

def nameAt (t : UserTables) (e : ℕ) : OctetStr := t.usmUserNameTable.securityNameAt e

/-- `delete_usm_user` as `Execute` calls it: the name is a reference to that of the entry at `e`, and
once the entry is deleted another name may stand there. -/
def deleteUsmUserAt (t : UserTables) (e : ℕ) : UserTables :=
  (t.deleteSecurityName (t.nameAt e)).deleteKeysOf ((t.deleteSecurityName (t.nameAt e)).nameAt e)

end UserTables

/-! ## Runs -/

/-- The calls of the application and, while messages are built and checked, of the library. Users
are added under one name. -/
inductive UserOp
  | addUsmUser (securityName : OctetStr) (authProtocol privProtocol : ℤ) (authPassword privPassword : OctetStr)
  | deleteUsmUser (securityName : OctetStr)
  | deleteUsmUserAt (e : ℕ)
  | getUser (engineId securityName : OctetStr)

def userStep (ap : AuthPriv) (localEngineId : OctetStr) (t : UserTables) : UserOp → UserTables
  | .addUsmUser name authProtocol privProtocol authPassword privPassword =>
    t.addUsmUser ap localEngineId ⟨name, name, authProtocol, privProtocol, authPassword, privPassword⟩
  | .deleteUsmUser name => t.deleteUsmUser name
  | .deleteUsmUserAt e => t.deleteUsmUserAt e
  | .getUser engineId name => (t.getUser ap engineId name).2

/-! ## Without a table of keys -/

/-- How users were added last: those that were not deleted since, and those whose keys may be left. -/
structure UserHistory where
  users : OctetStr → Option UsmUserNameTableEntry
  keys : OctetStr → Option UsmUserNameTableEntry

/-- The keys are left where the reference reads another name after the deletion. -/
def userHistoryStep (t : UserTables) (h : UserHistory) : UserOp → UserHistory
  | .addUsmUser name authProtocol privProtocol authPassword privPassword =>
    let n : UsmUserNameTableEntry := ⟨name, name, authProtocol, privProtocol, authPassword, privPassword⟩
    ⟨Function.update h.users name (some n), Function.update h.keys name (some n)⟩
  | .deleteUsmUser name => ⟨Function.update h.users name none, Function.update h.keys name none⟩
  | .deleteUsmUserAt e =>
    ⟨Function.update h.users (t.nameAt e) none,
      if (t.deleteSecurityName (t.nameAt e)).nameAt e = t.nameAt e then Function.update h.keys (t.nameAt e) none
      else h.keys⟩
  | .getUser _ _ => h

def userRun (ap : AuthPriv) (localEngineId : OctetStr) (ops : List UserOp) : UserTables × UserHistory :=
  ops.foldl (fun s op => (userStep ap localEngineId s.1 op, userHistoryStep s.1 s.2 op))
    (.start, ⟨fun _ => none, fun _ => none⟩)

/-- The user with keys made on the spot; without an engine there are none. -/
def freshUser (ap : AuthPriv) (n : UsmUserNameTableEntry) (engineId : OctetStr) : Option UsmUser :=
  if engineId = [] then some (UserTables.discoveryUser n.usmUserName n.usmUserSecurityName)
  else (ap.buildLocalizedKeys engineId n).map (UserTables.localizedUser n engineId)

end SnmpB.Usm
