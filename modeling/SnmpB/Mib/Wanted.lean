import SnmpB.Library.Runs
import SnmpB.Mib.Loading

/-! # The wanted modules

An entry of Wanted is read in three ways. The library takes it for the name of a
loaded module or else of a file, the list of loaded modules compares it with their
names, and the removal with the names of their files. A file defines one module.
Entries and rows are ASCII, so that `toLatin1` leaves them as they are.
-/
namespace SnmpB.Mib
open Runs

structure FilePath where
  dir : String
  fileName : String
  deriving DecidableEq, Repr

/-- The module a file defines and those it imports from. -/
structure ParsedModule where
  name : String
  imports : List String
  deriving DecidableEq, Repr

/-- The directories of the MIB path, and what is found there. -/
structure MibPath where
  dirs : List String
  readable : FilePath → Bool
  parse : FilePath → Option ParsedModule

structure LoadedMibModule where
  name : String
  path : FilePath
  deriving DecidableEq, Repr

/-! ## Loading with imports -/

def smiIsPath (s : String) : Bool := s.toList.contains '/'

/-- `QFileInfo`, for a text with a slash. -/
def splitPath (s : String) : FilePath :=
  let fileName := (s.toList.reverse.takeWhile (· != '/')).reverse
  ⟨String.ofList (s.toList.take (s.toList.length - fileName.length - 1)), String.ofList fileName⟩

def extensions : List String := ["", ".my", ".smiv1", ".smiv2", ".sming", ".mib", ".txt", ".yang"]

/-- The depth of imports at which the scanner gives up. -/
def maxLexDepth : ℕ := 30

def findModuleByName (modules : List LoadedMibModule) (name : String) : Bool := modules.any (·.name == name)

namespace MibPath

/-- Directory by directory, the name with each extension and then in lower case. -/
def smiGetModulePath (p : MibPath) (modulename : String) : Option FilePath :=
  if modulename = "" then none
  else if smiIsPath modulename then some (splitPath modulename)
  else p.dirs.findSome? fun dir =>
    ((extensions.map (modulename ++ ·) ++ extensions.map (modulename.toLower ++ ·)).map
      (FilePath.mk dir)).find? p.readable

/-- The module and its imports, each unless it is loaded by then. -/
def loadModule (p : MibPath) : ℕ → List LoadedMibModule → String → Option String × List LoadedMibModule
  | 0, modules, _ => (none, modules)
  | depth + 1, modules, modulename =>
    match p.smiGetModulePath modulename with
    | none => (none, modules)
    | some path =>
      match p.parse path with
      | none => (none, modules)
      | some m =>
        if findModuleByName modules m.name then (some m.name, modules)
        else
          (some m.name, m.imports.foldl
            (fun modules name =>
              if findModuleByName modules name then modules else (loadModule p depth modules name).2)
            (modules ++ [⟨m.name, path⟩]))

def smiLoadModule (p : MibPath) (modules : List LoadedMibModule) (module : String) :
    Option String × List LoadedMibModule :=
  if !smiIsPath module && findModuleByName modules module then (some module, modules)
  else p.loadModule maxLexDepth modules module

/-- The loop of `MibViewLoader::Load`, with what the library answers to each entry. -/
def loadStep (p : MibPath) (s : List (Option String) × List LoadedMibModule) (module : String) :
    List (Option String) × List LoadedMibModule :=
  (s.1 ++ [(p.smiLoadModule s.2 module).1], (p.smiLoadModule s.2 module).2)

/-- From a fresh library, with the dummy module. -/
def load (p : MibPath) (modules : List String) : List (Option String) × List LoadedMibModule :=
  modules.foldl p.loadStep ([], [⟨"", ⟨"", ""⟩⟩])

/-- A file is found for the name and defines a module. -/
def Found (p : MibPath) (name : String) (path : FilePath) (m : ParsedModule) : Prop :=
  p.smiGetModulePath name = some path ∧ p.parse path = some m

/-- Some module imports from the name. -/
def Imported (p : MibPath) (name : String) : Prop := ∃ path m, p.parse path = some m ∧ name ∈ m.imports

/-- Where a loaded module came from. -/
def CameFrom (p : MibPath) (entries : List String) (loaded : LoadedMibModule) : Prop :=
  ∃ name m, (name ∈ entries ∨ p.Imported name) ∧ p.Found name loaded.path m ∧ m.name = loaded.name

variable {p : MibPath}

theorem loadModule_fst (depth : ℕ) (modules : List LoadedMibModule) (name : String) :
    (p.loadModule (depth + 1) modules name).1 =
      ((p.smiGetModulePath name).bind p.parse).map ParsedModule.name := by
  rw [loadModule]
  cases p.smiGetModulePath name with
  | none => rfl
  | some path =>
    cases hparse : p.parse path with
    | none => simp [hparse]
    | some m =>
      simp only [Option.bind_some, hparse, Option.map_some]
      split <;> rfl

/-- What loading adds came from the name itself or from an import. -/
theorem loadModule_new {entries : List String} (depth : ℕ) :
    ∀ {modules : List LoadedMibModule} {name : String}, name ∈ entries ∨ p.Imported name →
      ∀ m ∈ (p.loadModule depth modules name).2, m ∈ modules ∨ p.CameFrom entries m := by
  induction depth with
  | zero => exact fun _ m hm => Or.inl hm
  | succ depth ih =>
    intro modules name hname m hm
    rw [loadModule] at hm
    split at hm
    · exact Or.inl hm
    · rename_i path hpath
      split at hm
      · exact Or.inl hm
      · rename_i parsed hparse
        split at hm
        · exact Or.inl hm
        · -- the imports, one after the other
          refine List.foldlRecOn (motive := fun before => ∀ m ∈ before, m ∈ modules ∨ p.CameFrom entries m)
            parsed.imports _ ?_ ?_ m hm
          · intro m hm
            rcases List.mem_append.mp hm with hm | hm
            · exact Or.inl hm
            · rw [List.mem_singleton.mp hm]
              exact Or.inr ⟨name, parsed, hname, ⟨hpath, hparse⟩, rfl⟩
          · intro before hbefore x hx m hm
            split at hm
            · exact hbefore m hm
            · rcases ih (Or.inr ⟨path, parsed, hparse, hx⟩) m hm with hm | hm
              · exact hbefore m hm
              · exact Or.inr hm

theorem smiLoadModule_new {entries : List String} {modules : List LoadedMibModule} {module : String}
    (hmodule : module ∈ entries) :
    ∀ m ∈ (p.smiLoadModule modules module).2, m ∈ modules ∨ p.CameFrom entries m := by
  intro m hm
  rw [smiLoadModule] at hm
  split at hm
  · exact Or.inl hm
  · exact loadModule_new maxLexDepth (Or.inl hmodule) m hm

/-- The answer to an entry is its own name, or the name of the module in the file found for it. -/
theorem smiLoadModule_fst (modules : List LoadedMibModule) (module : String) :
    (p.smiLoadModule modules module).1 = some module ∨
      (p.smiLoadModule modules module).1 = ((p.smiGetModulePath module).bind p.parse).map ParsedModule.name := by
  rw [smiLoadModule]
  split
  · exact Or.inl rfl
  · exact Or.inr (loadModule_fst 29 modules module)

theorem load_concat (modules : List String) (module : String) :
    p.load (modules ++ [module]) = p.loadStep (p.load modules) module := by
  rw [load, List.foldl_concat, load]

theorem load_new (modules : List String) :
    ∀ m ∈ (p.load modules).2, m.name = "" ∨ p.CameFrom modules m := by
  induction modules using List.reverseRecOn with
  | nil =>
    intro m hm
    rw [List.mem_singleton.mp hm]
    exact Or.inl rfl
  | append_singleton modules module ih =>
    intro m hm
    rw [load_concat] at hm
    have hlast : module ∈ modules ++ [module] := List.mem_append_right _ List.mem_cons_self
    rcases smiLoadModule_new hlast m hm with hm | hm
    · refine (ih m hm).imp_right ?_
      rintro ⟨name, parsed, hname, hfound⟩
      exact ⟨name, parsed, hname.imp_left (List.mem_append_left _), hfound⟩
    · exact Or.inr hm

/-- Every entry is answered. -/
theorem answer_mem {modules : List String} {module : String} (h : module ∈ modules) :
    ∃ before, (p.smiLoadModule before module).1 ∈ (p.load modules).1 := by
  induction modules using List.reverseRecOn with
  | nil => cases h
  | append_singleton modules last ih =>
    rw [load_concat, loadStep]
    rcases List.mem_append.mp h with h | h
    · obtain ⟨before, hbefore⟩ := ih h
      exact ⟨before, List.mem_append_left _ hbefore⟩
    · rw [List.mem_singleton.mp h]
      exact ⟨(p.load modules).2, List.mem_append_right _ List.mem_cons_self⟩

/-! ## Names of modules and of files -/

/-- The entry names the module it loads and the file it is read from, and an import never takes
that module from another file. -/
structure Named (p : MibPath) (entry : String) : Prop where
  own : ∀ path m, p.Found entry path m → m.name = entry ∧ path.fileName = entry
  imported : ∀ name path m, p.Imported name → p.Found name path m → m.name = entry →
    path.fileName = entry ∧ ∃ path' m', p.Found entry path' m'

theorem Named.answer {entry : String} (h : p.Named entry) (modules : List LoadedMibModule) :
    (p.smiLoadModule modules entry).1 = some entry ∨ (p.smiLoadModule modules entry).1 = none := by
  rcases smiLoadModule_fst modules entry with hown | hfile
  · exact Or.inl hown
  · rw [hfile]
    cases hpath : p.smiGetModulePath entry with
    | none => exact Or.inr rfl
    | some path =>
      cases hparse : p.parse path with
      | none => exact Or.inr (by rw [Option.bind_some, hparse, Option.map_none])
      | some m =>
        left
        rw [Option.bind_some, hparse, Option.map_some, (h.own path m ⟨hpath, hparse⟩).1]

theorem Named.found_answer {entry : String} (h : p.Named entry) {path : FilePath} {m : ParsedModule}
    (hfound : p.Found entry path m) (modules : List LoadedMibModule) :
    (p.smiLoadModule modules entry).1 = some entry := by
  rcases smiLoadModule_fst modules entry with hown | hfile
  · exact hown
  · rw [hfile, hfound.1, Option.bind_some, hfound.2, Option.map_some, (h.own path m hfound).1]

/-- The modules of `MibViewLoader`, those an entry loads directly. -/
def pmodv (p : MibPath) (modules : List String) : List String := (p.load modules).1.filterMap id

theorem pmodv_sublist {modules : List String} (h : ∀ entry ∈ modules, p.Named entry) :
    (p.pmodv modules).Sublist modules := by
  induction modules using List.reverseRecOn with
  | nil => exact List.Sublist.refl _
  | append_singleton modules last ih =>
    have hbefore := ih fun entry hentry => h entry (List.mem_append_left _ hentry)
    have hlast : p.Named last := h last (List.mem_append_right _ List.mem_cons_self)
    rw [pmodv, load_concat, loadStep, List.filterMap_append]
    refine hbefore.append ?_
    rcases hlast.answer (p.load modules).2 with hsome | hnone
    · rw [hsome]
      exact List.Sublist.refl _
    · rw [hnone]
      exact List.nil_sublist _

/-- Where a named entry has its module from. -/
theorem CameFrom.found {modules : List String} (h : ∀ entry ∈ modules, p.Named entry) {m : LoadedMibModule}
    (hm : p.CameFrom modules m) (hname : m.name ∈ modules) :
    m.path.fileName = m.name ∧ ∃ path' m', p.Found m.name path' m' := by
  obtain ⟨name, parsed, hentry | himport, hfound, heq⟩ := hm
  · obtain ⟨hown, hfile⟩ := (h name hentry).own m.path parsed hfound
    obtain rfl : name = m.name := hown.symm.trans heq
    exact ⟨hfile, m.path, parsed, hfound⟩
  · exact (h m.name hname).imported name m.path parsed himport hfound heq

theorem mem_pmodv_iff {modules : List String} (h : ∀ entry ∈ modules, p.Named entry) {m : LoadedMibModule}
    (hm : p.CameFrom modules m) : m.name ∈ p.pmodv modules ↔ m.name ∈ modules := by
  constructor
  · exact fun hmem => (pmodv_sublist h).subset hmem
  · intro hmem
    obtain ⟨-, path, parsed, hfound⟩ := hm.found h hmem
    obtain ⟨before, hanswer⟩ := answer_mem (p := p) hmem
    rw [(h m.name hmem).found_answer hfound] at hanswer
    exact List.mem_filterMap.mpr ⟨_, hanswer, rfl⟩

end MibPath

/-! ## The lists -/

/-- `MibModule` and the modules of the loader. -/
structure ModuleLists where
  total : List TotalEntry
  automaticLoading : ℕ
  answer : ℕ → StandardButton
  mibpreloads : List String
  wanted : List String
  direct : List String
  loaded : List LoadedMibModule
  unloaded : List String
  policy : AutomaticLoadingPolicy
  prompts : ℕ

inductive ListEvent
  | addModule (selected : List String)
  | removeModule (selected : List LoadedMibModule)
  | loadBestModule (oid : String)

namespace ModuleLists

def refresh (p : MibPath) (st : ModuleLists) : ModuleLists :=
  let loaded := (p.load st.mibpreloads).2.filter (·.name != "")
  { st with
    wanted := st.mibpreloads
    direct := p.pmodv st.mibpreloads
    loaded
    unloaded := (st.total.map (·.file)).filter fun current => !loaded.any (·.path.fileName == current) }

def save (p : MibPath) (st : ModuleLists) : ModuleLists := refresh p { st with mibpreloads := st.wanted }

/-- The column of the list of loaded modules. -/
def required (st : ModuleLists) (m : LoadedMibModule) : Bool := st.wanted.contains m.name

def addModule (p : MibPath) (st : ModuleLists) (selected : List String) : ModuleLists :=
  let st := { st with wanted := st.wanted ++ selected }
  if selected = [] then st else st.save p

def removeModule (p : MibPath) (st : ModuleLists) (selected : List LoadedMibModule) : ModuleLists :=
  let st := { st with
    wanted := selected.foldl (fun wanted m => wanted.filter (· != m.path.fileName)) st.wanted }
  if selected = [] then st else st.save p

/-- The file that `LoadBestModule` goes on to load, after the prompt. -/
def bestFile (st : ModuleLists) (oid : String) : Option String × ModuleLists :=
  let bestFile := (st.total.foldl (MibState.matchEntry st.unloaded oid) ("", "")).1
  if st.automaticLoading = 3 ∨ st.policy = .mibloadNone then (none, st)
  else if bestFile = "" then (none, st)
  else if st.automaticLoading = 2 ∧ st.policy ≠ .mibloadAll then
    let asked := { st with prompts := st.prompts + 1 }
    match st.answer st.prompts with
    | .noToAll => (none, { asked with policy := .mibloadNone })
    | .no => (none, asked)
    | .yesToAll => (some bestFile, { asked with policy := .mibloadAll })
    | .yes | .other => (some bestFile, asked)
  else (some bestFile, st)

def loadBestModule (p : MibPath) (st : ModuleLists) (oid : String) : ModuleLists :=
  match st.bestFile oid with
  | (none, st) => st
  | (some file, st) => refresh p (save p { st with wanted := st.wanted ++ [file] })

/-- Rows are selected in the lists that are shown. -/
def step (p : MibPath) (st : ModuleLists) : ListEvent → Option ModuleLists
  | .addModule selected => if selected.Subperm st.unloaded then some (st.addModule p selected) else none
  | .removeModule selected => if ∀ m ∈ selected, m ∈ st.loaded then some (st.removeModule p selected) else none
  | .loadBestModule oid => some (st.loadBestModule p oid)

def start (p : MibPath) (total : List TotalEntry) (automaticLoading : ℕ) (answer : ℕ → StandardButton)
    (mibpreloads : List String) : ModuleLists :=
  refresh p
    { total, automaticLoading, answer, mibpreloads, wanted := [], direct := [], loaded := [], unloaded := []
      policy := .mibloadDefault, prompts := 0 }

/-- The display, the removal and the loader agree on what Wanted says. -/
structure Agrees (p : MibPath) (st : ModuleLists) : Prop where
  shown : ∀ m ∈ st.loaded, st.required m = true ↔ m.name ∈ st.direct
  removed : ∀ selected, (∀ m ∈ selected, m ∈ st.loaded) →
    ∀ m ∈ selected, m.name ∉ (st.removeModule p selected).direct
  once : st.wanted.Nodup ∧ st.direct.Nodup

/-- What is added is not in Wanted yet, and names its module. -/
def AddsNamed (p : MibPath) (st : ModuleLists) : ListEvent → Prop
  | .addModule selected => selected.Nodup ∧ ∀ file ∈ selected, file ∉ st.wanted ∧ p.Named file
  | .removeModule _ => True
  | .loadBestModule oid => ∀ file, (st.bestFile oid).1 = some file → file ∉ st.wanted ∧ p.Named file

structure Consistent (p : MibPath) (st : ModuleLists) : Prop where
  stored : st.wanted = st.mibpreloads
  direct : st.direct = p.pmodv st.wanted
  loaded : st.loaded = (p.load st.wanted).2.filter (·.name != "")
  nodup : st.wanted.Nodup
  named : ∀ entry ∈ st.wanted, p.Named entry

variable {p : MibPath}

theorem refresh_consistent {st : ModuleLists} (hnodup : st.mibpreloads.Nodup)
    (hnamed : ∀ entry ∈ st.mibpreloads, p.Named entry) : (st.refresh p).Consistent p :=
  ⟨rfl, rfl, rfl, hnodup, hnamed⟩

theorem wanted_append {st : ModuleLists} (h : st.Consistent p) {files : List String} (hfiles : files.Nodup)
    (hnew : ∀ file ∈ files, file ∉ st.wanted ∧ p.Named file) :
    (st.wanted ++ files).Nodup ∧ ∀ entry ∈ st.wanted ++ files, p.Named entry := by
  constructor
  · refine List.nodup_append.mpr ⟨h.nodup, hfiles, ?_⟩
    rintro entry hentry file hfile rfl
    exact (hnew entry hfile).1 hentry
  · intro entry hentry
    rcases List.mem_append.mp hentry with hentry | hentry
    · exact h.named entry hentry
    · exact (hnew entry hentry).2

theorem addModule_consistent {st : ModuleLists} (h : st.Consistent p) {selected : List String}
    (hnodup : selected.Nodup) (hnew : ∀ file ∈ selected, file ∉ st.wanted ∧ p.Named file) :
    (st.addModule p selected).Consistent p := by
  rw [addModule]
  split
  · rename_i hnone
    rw [hnone, List.append_nil]
    exact h
  · obtain ⟨hall, hnamed⟩ := wanted_append h hnodup hnew
    exact refresh_consistent hall hnamed

/-- The entries that a removal leaves. -/
theorem mem_removed {selected : List LoadedMibModule} {wanted : List String} {entry : String} :
    entry ∈ selected.foldl (fun wanted m => wanted.filter (· != m.path.fileName)) wanted ↔
      entry ∈ wanted ∧ ∀ m ∈ selected, entry ≠ m.path.fileName := by
  induction selected generalizing wanted with
  | nil => simp
  | cons m selected ih => simp [ih, and_assoc]

theorem removed_sublist (selected : List LoadedMibModule) (wanted : List String) :
    (selected.foldl (fun wanted m => wanted.filter (· != m.path.fileName)) wanted).Sublist wanted := by
  induction selected generalizing wanted with
  | nil => exact List.Sublist.refl _
  | cons m selected ih => exact (ih _).trans List.filter_sublist

theorem removeModule_consistent {st : ModuleLists} (h : st.Consistent p) (selected : List LoadedMibModule) :
    (st.removeModule p selected).Consistent p := by
  rw [removeModule]
  split
  · rename_i hnone
    rw [hnone]
    exact h
  · have hsublist := removed_sublist selected st.wanted
    exact refresh_consistent (h.nodup.sublist hsublist) fun entry hentry => h.named entry (hsublist.subset hentry)

/-- The prompt changes nothing but its own state. -/
theorem bestFile_consistent {st : ModuleLists} (h : st.Consistent p) (oid : String) :
    (st.bestFile oid).2.Consistent p ∧ (st.bestFile oid).2.wanted = st.wanted := by
  have hsame : ∀ policy prompts, ({ st with policy, prompts } : ModuleLists).Consistent p :=
    fun _ _ => ⟨h.stored, h.direct, h.loaded, h.nodup, h.named⟩
  simp only [bestFile]
  split
  · exact ⟨h, rfl⟩
  · split
    · exact ⟨h, rfl⟩
    · split
      · split
        · exact ⟨hsame _ _, rfl⟩
        · exact ⟨hsame _ _, rfl⟩
        · exact ⟨hsame _ _, rfl⟩
        · exact ⟨hsame _ _, rfl⟩
        · exact ⟨hsame _ _, rfl⟩
      · exact ⟨h, rfl⟩

theorem loadBestModule_consistent {st : ModuleLists} (h : st.Consistent p) {oid : String}
    (hnew : ∀ file, (st.bestFile oid).1 = some file → file ∉ st.wanted ∧ p.Named file) :
    (st.loadBestModule p oid).Consistent p := by
  obtain ⟨hafter, hwanted⟩ := bestFile_consistent h oid
  rw [loadBestModule]
  split
  · rename_i st' hbest
    rw [hbest] at hafter
    exact hafter
  · rename_i file st' hbest
    rw [hbest] at hafter hwanted hnew
    obtain ⟨hall, hnamed⟩ := wanted_append hafter (List.nodup_singleton file) fun f hf => by
      rw [List.mem_singleton.mp hf, hwanted]
      exact hnew file rfl
    exact refresh_consistent hall hnamed

theorem step_consistent {st st' : ModuleLists} {e : ListEvent} (h : st.Consistent p) (hadds : st.AddsNamed p e)
    (hstep : step p st e = some st') : st'.Consistent p := by
  cases e with
  | addModule selected =>
    simp only [step] at hstep
    split at hstep
    · cases hstep
      exact addModule_consistent h hadds.1 hadds.2
    · cases hstep
  | removeModule selected =>
    simp only [step] at hstep
    split at hstep
    · cases hstep
      exact removeModule_consistent h selected
    · cases hstep
  | loadBestModule oid =>
    cases hstep
    exact loadBestModule_consistent h hadds

theorem Consistent.cameFrom {st : ModuleLists} (h : st.Consistent p) {m : LoadedMibModule} (hm : m ∈ st.loaded) :
    p.CameFrom st.wanted m := by
  rw [h.loaded, List.mem_filter, bne_iff_ne] at hm
  exact (MibPath.load_new st.wanted m hm.1).resolve_left hm.2

theorem Consistent.agrees {st : ModuleLists} (h : st.Consistent p) : st.Agrees p := by
  constructor
  · intro m hm
    rw [required, List.contains_iff_mem, h.direct, MibPath.mem_pmodv_iff h.named (h.cameFrom hm)]
  · intro selected hselected m hm hdirect
    have hafter := removeModule_consistent h selected
    rw [hafter.direct] at hdirect
    have hleft : m.name ∈ (st.removeModule p selected).wanted :=
      (MibPath.pmodv_sublist hafter.named).subset hdirect
    have hwanted : (st.removeModule p selected).wanted =
        selected.foldl (fun wanted m => wanted.filter (· != m.path.fileName)) st.wanted := by
      rw [removeModule]
      split <;> rfl
    rw [hwanted, mem_removed] at hleft
    have hfile := ((h.cameFrom (hselected m hm)).found h.named hleft.1).1
    exact hleft.2 m hm hfile.symm
  · exact ⟨h.nodup, h.direct ▸ h.nodup.sublist (MibPath.pmodv_sublist h.named)⟩

/-- From a stored list of named entries, in a run that adds only such entries, each once. -/
theorem lists_agree {total : List TotalEntry} {automaticLoading : ℕ} {answer : ℕ → StandardButton}
    {mibpreloads : List String} (hnodup : mibpreloads.Nodup) (hnamed : ∀ entry ∈ mibpreloads, p.Named entry)
    {es : List ListEvent} {st : ModuleLists}
    (h : exec (step p) (start p total automaticLoading answer mibpreloads) es = some st)
    (hadds : Each (step p) (AddsNamed p) (start p total automaticLoading answer mibpreloads) es) :
    st.Agrees p := by
  have hstart : (start p total automaticLoading answer mibpreloads).Consistent p :=
    refresh_consistent hnodup hnamed
  have hconsistent : st.Consistent p :=
    exec_invariant_of (fun _ _ _ hs hadd hstep => step_consistent hs hadd hstep) hadds hstart h
  exact hconsistent.agrees

/-- A directory whose files have the names of their modules. -/
def plainFiles : MibPath where
  dirs := ["mibs"]
  readable path := path.dir = "mibs" && ["IF-MIB", "SNMPv2-SMI", "TCP-MIB"].contains path.fileName
  parse path :=
    if path.fileName = "SNMPv2-SMI" then some ⟨"SNMPv2-SMI", []⟩
    else if path.fileName = "IF-MIB" then some ⟨"IF-MIB", ["SNMPv2-SMI"]⟩
    else if path.fileName = "TCP-MIB" then some ⟨"TCP-MIB", ["SNMPv2-SMI"]⟩
    else none

theorem plainFiles_named {entry : String} (h : entry = "IF-MIB" ∨ entry = "TCP-MIB") :
    plainFiles.Named entry := by
  have himports : ∀ name, plainFiles.Imported name → name = "SNMPv2-SMI" := by
    rintro name ⟨path, m, hparse, hname⟩
    simp only [plainFiles] at hparse
    split_ifs at hparse <;> cases hparse
    · cases hname
    · exact List.mem_singleton.mp hname
    · exact List.mem_singleton.mp hname
  have hsmi : plainFiles.smiGetModulePath "SNMPv2-SMI" = some ⟨"mibs", "SNMPv2-SMI"⟩ := by decide
  have hentry : ∃ imports, plainFiles.smiGetModulePath entry = some ⟨"mibs", entry⟩ ∧
      plainFiles.parse ⟨"mibs", entry⟩ = some ⟨entry, imports⟩ := by
    rcases h with rfl | rfl
    · exact ⟨["SNMPv2-SMI"], by decide, by decide⟩
    · exact ⟨["SNMPv2-SMI"], by decide, by decide⟩
  obtain ⟨imports, hpath, hparse⟩ := hentry
  constructor
  · rintro path m ⟨hpath', hparse'⟩
    obtain rfl : path = ⟨"mibs", entry⟩ := Option.some.inj (hpath'.symm.trans hpath)
    obtain rfl : m = ⟨entry, imports⟩ := Option.some.inj (hparse'.symm.trans hparse)
    exact ⟨rfl, rfl⟩
  · rintro name path m himported ⟨hpath', hparse'⟩ hname
    rw [himports name himported, hsmi] at hpath'
    cases hpath'
    cases hparse'
    rcases h with rfl | rfl
    · exact absurd hname (by decide)
    · exact absurd hname (by decide)

theorem noRoots : ∀ root ∈ ([] : List Oid), root ≠ [] := fun _ hroot => absurd hroot List.not_mem_nil

def plainTotal : List TotalEntry := [⟨"IF-MIB", [], by decide, noRoots⟩, ⟨"TCP-MIB", [], by decide, noRoots⟩]

def addThenRemove : List ListEvent :=
  [.addModule ["TCP-MIB"], .removeModule [⟨"IF-MIB", ⟨"mibs", "IF-MIB"⟩⟩]]

theorem lists_agree_plain : ∃ st, exec (step plainFiles) (start plainFiles plainTotal 3 (fun _ => .no) ["IF-MIB"])
      addThenRemove = some st ∧ st.Agrees plainFiles := by
  have hrun : ∃ st, exec (step plainFiles) (start plainFiles plainTotal 3 (fun _ => .no) ["IF-MIB"])
      addThenRemove = some st := ⟨_, rfl⟩
  have hnodup : ["IF-MIB"].Nodup := by decide
  obtain ⟨st, hrun⟩ := hrun
  refine ⟨st, hrun, lists_agree hnodup ?_ hrun ?_⟩
  · intro entry hentry
    exact plainFiles_named (Or.inl (List.mem_singleton.mp hentry))
  · refine ⟨⟨by decide, ?_⟩, fun _ _ => ⟨trivial, fun _ _ => trivial⟩⟩
    intro file hfile
    rw [List.mem_singleton.mp hfile]
    exact ⟨by decide, plainFiles_named (Or.inr rfl)⟩

/-- A file that does not have the name of its module. -/
def textFile : MibPath where
  dirs := ["mibs"]
  readable path := path.dir = "mibs" && path.fileName = "IF-MIB.txt"
  parse path := if path.fileName = "IF-MIB.txt" then some ⟨"IF-MIB", []⟩ else none

/-- The module is added by the name of its file, and shown as not required. -/
theorem file_not_shown :
    ¬ ∀ (p : MibPath) (total : List TotalEntry) (automaticLoading : ℕ) (answer : ℕ → StandardButton)
      (es : List ListEvent) (st : ModuleLists),
      exec (step p) (start p total automaticLoading answer []) es = some st → st.Agrees p := by
  intro h
  have hagrees := h textFile [⟨"IF-MIB.txt", [], by decide, noRoots⟩] 3 (fun _ => .no)
    [.addModule ["IF-MIB.txt"]] _ rfl
  have hshown := (hagrees.shown ⟨"IF-MIB", ⟨"mibs", "IF-MIB.txt"⟩⟩ (by decide)).mpr (by decide)
  revert hshown
  decide

end ModuleLists

/-! ## Without imports -/

def FilePath.text (path : FilePath) : String := path.dir ++ "/" ++ path.fileName

theorem fileName_text {path : FilePath} (h : '/' ∉ path.fileName.toList) : fileName path.text = path.fileName := by
  have hpass : ∀ c ∈ path.fileName.toList.reverse, (c != '/') = true := by
    intro c hc
    rw [bne_iff_ne]
    rintro rfl
    exact h (List.mem_reverse.mp hc)
  have htext : path.text.toList.reverse = path.fileName.toList.reverse ++ '/' :: path.dir.toList.reverse := by
    simp [FilePath.text]
  rw [fileName, htext, List.takeWhile_append_of_pos hpass, List.takeWhile_cons_of_neg (by decide)]
  simp

theorem capital_ne_slash {n : UInt32} (h : n ≥ 'A'.val ∧ n ≤ 'Z'.val) : n + ('a'.val - 'A'.val) ≠ '/'.val := by
  obtain ⟨hlow, hhigh⟩ := h
  have hfrom : 65 ≤ n.toNat := by simpa [UInt32.le_iff_toNat_le] using hlow
  have hto : n.toNat ≤ 90 := by simpa [UInt32.le_iff_toNat_le] using hhigh
  intro heq
  have hval := congrArg UInt32.toNat heq
  have hshift : ('a'.val - 'A'.val).toNat = 32 := by decide
  have hslash : '/'.val.toNat = 47 := by decide
  rw [UInt32.toNat_add, hshift, hslash] at hval
  omega

theorem toLower_noSlash {s : String} (h : '/' ∉ s.toList) : '/' ∉ s.toLower.toList := by
  have hmap : s.toLower = s.map Char.toLower := rfl
  rw [hmap, String.toList_map]
  intro hmem
  obtain ⟨c, hc, hlower⟩ := List.mem_map.mp hmem
  unfold Char.toLower at hlower
  split at hlower
  · rename_i hcapital
    exact capital_ne_slash hcapital (congrArg Char.val hlower)
  · exact h (hlower ▸ hc)

namespace MibPath

/-- What a name leads to, for a library that loads no imports. -/
def files (p : MibPath) : MibFiles := fun name =>
  (p.smiGetModulePath name).bind fun path => (p.parse path).map fun m => ⟨m.name, path.text, 0, []⟩

variable {p : MibPath}

theorem smiGetModulePath_noSlash {name : String} {path : FilePath} (hname : smiIsPath name = false)
    (h : p.smiGetModulePath name = some path) : '/' ∉ path.fileName.toList := by
  have hplain : '/' ∉ name.toList := by simpa [smiIsPath] using hname
  have hextensions : ∀ ext ∈ extensions, '/' ∉ ext.toList := by decide
  rw [smiGetModulePath] at h
  split at h
  · cases h
  · rw [if_neg (by simp [hname])] at h
    obtain ⟨dir, -, hfind⟩ := List.exists_of_findSome?_eq_some h
    obtain ⟨file, hfile, rfl⟩ := List.mem_map.mp (List.mem_of_find?_eq_some hfind)
    rcases List.mem_append.mp hfile with hfile | hfile
    · obtain ⟨ext, hext, rfl⟩ := List.mem_map.mp hfile
      rw [String.toList_append, List.mem_append, not_or]
      exact ⟨hplain, hextensions ext hext⟩
    · obtain ⟨ext, hext, rfl⟩ := List.mem_map.mp hfile
      rw [String.toList_append, List.mem_append, not_or]
      exact ⟨toLower_noSlash hplain, hextensions ext hext⟩

/-- The two libraries have loaded the same modules from files of the same names. -/
def SameLoaded (modules : List LoadedMibModule) (h : SmiHandle) : Prop :=
  modules.map (fun m => (m.name, m.path.fileName)) = h.modules.map fun m => (m.name, Mib.fileName m.path)

theorem SameLoaded.findModuleByName {modules : List LoadedMibModule} {h : SmiHandle}
    (hsame : SameLoaded modules h) (name : String) :
    findModuleByName modules name = (h.findModuleByName name).isSome := by
  have hnames : modules.map LoadedMibModule.name = h.modules.map SmiModule.name := by
    simpa [SameLoaded, List.map_map, Function.comp_def] using congrArg (List.map Prod.fst) hsame
  have hmodules : (modules.map LoadedMibModule.name).any (· == name) = modules.any (·.name == name) := List.any_map
  have hhandle : (h.modules.map SmiModule.name).any (· == name) = h.modules.any (·.name == name) := List.any_map
  rw [Mib.findModuleByName, SmiHandle.findModuleByName, List.isSome_find?, ← hmodules, hnames, hhandle]

theorem SameLoaded.loadModule (hplain : ∀ path m, p.parse path = some m → m.imports = [])
    {modules : List LoadedMibModule} {h : SmiHandle} (hsame : SameLoaded modules h) (depth : ℕ) {name : String}
    (hname : smiIsPath name = false) :
    SameLoaded (p.loadModule (depth + 1) modules name).2 (h.loadModule p.files name).2 := by
  rw [MibPath.loadModule, SmiHandle.loadModule, files]
  cases hpath : p.smiGetModulePath name with
  | none => exact hsame
  | some path =>
    cases hparse : p.parse path with
    | none => simpa [hparse] using hsame
    | some m =>
      simp only [Option.bind_some, hparse, Option.map_some, hplain path m hparse, List.foldl_nil,
        hsame.findModuleByName]
      cases hloaded : h.findModuleByName m.name with
      | none =>
        have hfile := fileName_text (smiGetModulePath_noSlash hname hpath)
        simpa [SameLoaded, hfile] using hsame
      | some loaded => simpa using hsame

theorem SameLoaded.smiLoadModule (hplain : ∀ path m, p.parse path = some m → m.imports = [])
    {modules : List LoadedMibModule} {h : SmiHandle} (hsame : SameLoaded modules h) {module : String}
    (hmodule : smiIsPath module = false) :
    SameLoaded (p.smiLoadModule modules module).2 (h.smiLoadModule p.files module).2 := by
  rw [MibPath.smiLoadModule, hmodule, hsame.findModuleByName, SmiHandle.smiLoadModule]
  cases h.findModuleByName module with
  | some found => simpa [SameLoaded] using hsame
  | none =>
    have hloaded := hsame.loadModule hplain 29 hmodule
    simp only
    revert hloaded
    rcases SmiHandle.loadModule p.files h module with ⟨_ | m, h'⟩
    · exact fun hloaded => hloaded
    · intro hloaded
      rw [SameLoaded, SmiHandle.addView_modules]
      exact hloaded

theorem load_sameLoaded (hplain : ∀ path m, p.parse path = some m → m.imports = []) {modules : List String}
    (hmodules : ∀ module ∈ modules, smiIsPath module = false) :
    SameLoaded (p.load modules).2 (Mib.load p.files modules) := by
  induction modules using List.reverseRecOn with
  | nil => rfl
  | append_singleton modules module ih =>
    have hbefore := ih fun module hmodule => hmodules module (List.mem_append_left _ hmodule)
    rw [load_concat, load_append]
    exact hbefore.smiLoadModule hplain (hmodules module (List.mem_append_right _ List.mem_cons_self))

end MibPath

/-- Without imports and paths a refresh leaves the same files in Unloaded as the refresh that the
lookup of unknown OIDs is about. -/
theorem ModuleLists.refresh_unloaded {p : MibPath} (hplain : ∀ path m, p.parse path = some m → m.imports = [])
    {st : ModuleLists} (hmodules : ∀ module ∈ st.mibpreloads, smiIsPath module = false) :
    (st.refresh p).unloaded =
      rebuildUnloadedList st.total (Mib.load p.files st.mibpreloads).listModules := by
  have hsame := MibPath.load_sameLoaded hplain hmodules
  have hlisted : ((p.load st.mibpreloads).2.filter (·.name != "")).map (fun m => (m.name, m.path.fileName)) =
      (Mib.load p.files st.mibpreloads).listModules.map fun m => (m.name, fileName m.path) := by
    have hfilter := congrArg (List.filter fun named : String × String => named.1 != "") hsame
    rwa [List.filter_map, List.filter_map] at hfilter
  have hfiles := congrArg (List.map Prod.snd) hlisted
  rw [List.map_map, List.map_map] at hfiles
  refine List.filter_congr fun current _ => ?_
  have hleft := List.any_map (l := (p.load st.mibpreloads).2.filter (·.name != ""))
    (f := Prod.snd ∘ fun m => (m.name, m.path.fileName)) (p := (· == current))
  have hright := List.any_map (l := (Mib.load p.files st.mibpreloads).listModules)
    (f := Prod.snd ∘ fun m => (m.name, fileName m.path)) (p := (· == current))
  rw [hfiles, hright] at hleft
  exact congrArg Bool.not hleft.symm

end SnmpB.Mib
