import SnmpB.Mib.Smi

/-! # The lists of MIB modules

`MibModule` keeps the files found in the MIB paths with the root OIDs they
define (Total), the files the user or a walk asked for (Wanted), the modules the
library has loaded (Loaded) and the files that provide none of them (Unloaded).
The last two are rebuilt from scratch at every refresh. File names are ASCII, so
that `toLatin1` leaves them as they are.
-/
namespace SnmpB.Mib

/-- An entry of Total: a file name followed by the root OIDs found in the file. -/
structure TotalEntry where
  file : String
  roots : List Oid
  file_ne : file ≠ ""
  roots_ne : ∀ root ∈ roots, root ≠ []

def TotalEntry.items (e : TotalEntry) : List String := e.file :: e.roots.map Oid.getPrintable

inductive AutomaticLoadingPolicy
  | mibloadAll | mibloadDefault | mibloadNone
  deriving DecidableEq, Repr

inductive StandardButton
  | yes | no | yesToAll | noToAll | other
  deriving DecidableEq, Repr

/-- `MibModule` with the library, the stored preferences and the user at the prompt. -/
structure MibState where
  files : MibFiles
  total : List TotalEntry
  automaticLoading : ℕ
  answer : ℕ → StandardButton
  mibpreloads : List String
  wanted : List String
  handle : SmiHandle
  loaded : List SmiModule
  unloaded : List String
  policy : AutomaticLoadingPolicy
  prompts : ℕ

/-- `MibViewLoader::Load`: every wanted file in turn, whether it loads or not. -/
def load (files : MibFiles) (modules : List String) : SmiHandle :=
  modules.foldl (fun h file => (h.smiLoadModule files file).2) smiInit

/-- `RebuildUnloadedList`: the files of Total with the name of no file a loaded module was read from. -/
def rebuildUnloadedList (total : List TotalEntry) (loaded : List SmiModule) : List String :=
  (total.map (·.file)).filter fun current => !loaded.any fun m => fileName m.path == current

namespace MibState

/-- `Refresh` while the MIB paths stay as they are: the wanted modules are read back from the
preferences and loaded into a fresh library. -/
def refresh (st : MibState) : MibState :=
  let handle := load st.files st.mibpreloads
  { st with
    wanted := st.mibpreloads
    handle
    loaded := handle.listModules
    unloaded := rebuildUnloadedList st.total handle.listModules }

def save (st : MibState) : MibState := refresh { st with mibpreloads := st.wanted }

/-- A textual match of an item: `root_oid != "" && oid.startsWith(root_oid)`. -/
def startsWith (oid item : String) : Bool := item != "" && item.toList.isPrefixOf oid.toList

/-- The inner loop: the first item that improves on the best match ends it, and counts only
when the module is not loaded. -/
def matchEntry (unloaded : List String) (oid : String) (best : String × String) (mib : TotalEntry) :
    String × String :=
  match mib.items.find? fun item => startsWith oid item && decide (best.2.length < item.length) with
  | some item => if unloaded.contains mib.file then (mib.file, item) else best
  | none => best

def bestMatch (st : MibState) (oid : String) : String × String :=
  st.total.foldl (matchEntry st.unloaded oid) ("", "")

/-- "Load the module": `Save` refreshes once, then `Refresh` does again. -/
def loadWanted (st : MibState) (file : String) : MibState :=
  refresh (save { st with wanted := st.wanted ++ [file] })

def loadBestModule (st : MibState) (oid : String) : String × MibState :=
  if st.automaticLoading = 3 ∨ st.policy = .mibloadNone then ("", st)
  else
    let bestFile := (st.bestMatch oid).1
    if bestFile = "" then ("", st)
    else if st.automaticLoading = 2 ∧ st.policy ≠ .mibloadAll then
      let asked := { st with prompts := st.prompts + 1 }
      match st.answer st.prompts with
      | .noToAll => ("", { asked with policy := .mibloadNone })
      | .no => ("", asked)
      | .yesToAll => (bestFile, { asked with policy := .mibloadAll }.loadWanted bestFile)
      | .yes | .other => (bestFile, asked.loadWanted bestFile)
    else (bestFile, st.loadWanted bestFile)

end MibState

/-- `Agent::GetNodeFromOid`: the sub-identifiers are copied into 32-bit ones. -/
def getNodeFromOid (h : SmiHandle) (oid : Oid) : Option SmiNode :=
  h.smiGetNodeByOid (oid.map (· % 2 ^ 32))

end SnmpB.Mib
