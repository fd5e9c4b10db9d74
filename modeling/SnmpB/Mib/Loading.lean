import SnmpB.Mib.Module
import Mathlib.Data.Finset.Card
import Mathlib.Data.Finset.Dedup

/-! # What a requested file does to the lists

A file leaves Unloaded exactly when loading it adds a module read from it. A file
that no longer loads, that defines a module some other file has provided, or in
place of which a file with an extension is read, stays in Unloaded however often
it is requested.
-/
namespace SnmpB.Mib

namespace SmiHandle

@[simp] theorem addView_modules (h : SmiHandle) (name : String) : (h.addView name).modules = h.modules := by
  unfold addView
  split <;> rfl

/-- Loading the file adds a module from it: it still loads, it is the file that is read, and nothing
loaded has its names. -/
def Provides (files : MibFiles) (h : SmiHandle) (file : String) : Prop :=
  h.findModuleByName file = none ∧
    ∃ m, files file = some m ∧ fileName m.path = file ∧ h.findModuleByName m.name = none

theorem smiLoadModule_modules (files : MibFiles) (h : SmiHandle) (file : String) :
    (¬Provides files h file ∧ (h.smiLoadModule files file).2.modules = h.modules) ∨
    (∃ m : SmiModule, h.findModuleByName m.name = none ∧ (Provides files h file ↔ fileName m.path = file) ∧
      (h.smiLoadModule files file).2.modules = h.modules ++ [m]) := by
  unfold smiLoadModule
  cases hfile : h.findModuleByName file with
  | some m => exact Or.inl ⟨fun hp => by simp [hp.1] at hfile, by simp⟩
  | none =>
    unfold loadModule
    cases hm : files file with
    | none => exact Or.inl ⟨fun ⟨_, m, hp, _⟩ => by simp [hm] at hp, rfl⟩
    | some m =>
      cases hname : h.findModuleByName m.name with
      | some loaded =>
        refine Or.inl ⟨?_, by simp only [hname, addView_modules]⟩
        rintro ⟨-, m', hm', -, hnone⟩
        rw [hm] at hm'
        cases hm'
        simp [hname] at hnone
      | none =>
        have hprovides : Provides files h file ↔ fileName m.path = file := by
          constructor
          · rintro ⟨-, m', hm', hpath, -⟩
            rw [hm] at hm'
            cases hm'
            exact hpath
          · exact fun hpath => ⟨hfile, m, hm, hpath, hname⟩
        exact Or.inr ⟨m, hname, hprovides, by simp only [hname, addView_modules]⟩

/-- The dummy module stays, so no other module ever has the empty name. -/
def HasWellKnown (h : SmiHandle) : Prop := wellKnown ∈ h.modules

theorem HasWellKnown.name_ne {h : SmiHandle} (hw : h.HasWellKnown) {name : String}
    (hnone : h.findModuleByName name = none) : name ≠ "" := by
  rintro rfl
  have hno := List.find?_eq_none.mp hnone wellKnown hw
  simp [wellKnown] at hno

theorem HasWellKnown.smiLoadModule {h : SmiHandle} (hw : h.HasWellKnown) (files : MibFiles)
    (file : String) : (h.smiLoadModule files file).2.HasWellKnown := by
  unfold HasWellKnown
  rcases smiLoadModule_modules files h file with ⟨-, hsame⟩ | ⟨m, -, -, hadd⟩
  · rwa [hsame]
  · rw [hadd]
    exact List.mem_append_left _ hw

end SmiHandle

open SmiHandle

theorem load_hasWellKnown (files : MibFiles) (modules : List String) :
    (load files modules).HasWellKnown := by
  have hfold : ∀ h : SmiHandle, h.HasWellKnown →
      (modules.foldl (fun h file => (h.smiLoadModule files file).2) h).HasWellKnown := by
    induction modules with
    | nil => exact fun _ hw => hw
    | cons file modules ih => exact fun h hw => ih _ (hw.smiLoadModule files file)
  exact hfold smiInit (List.mem_singleton.mpr rfl)

theorem load_append (files : MibFiles) (modules : List String) (file : String) :
    load files (modules ++ [file]) = ((load files modules).smiLoadModule files file).2 := by
  rw [load, List.foldl_append]
  rfl

theorem mem_rebuildUnloadedList {total : List TotalEntry} {loaded : List SmiModule} {file : String} :
    file ∈ rebuildUnloadedList total loaded ↔
      (∃ e ∈ total, e.file = file) ∧ ∀ m ∈ loaded, fileName m.path ≠ file := by
  simp [rebuildUnloadedList]

theorem unloaded_smiLoadModule (files : MibFiles) (total : List TotalEntry) {h : SmiHandle}
    (hw : h.HasWellKnown) {file : String} (hfile : file ∈ rebuildUnloadedList total h.listModules) :
    (file ∉ rebuildUnloadedList total (h.smiLoadModule files file).2.listModules ↔
      Provides files h file) ∧
    rebuildUnloadedList total (h.smiLoadModule files file).2.listModules ⊆
      rebuildUnloadedList total h.listModules := by
  rcases smiLoadModule_modules files h file with ⟨hnot, hsame⟩ | ⟨m, hname, hprovides, hadd⟩
  · have hlist : (h.smiLoadModule files file).2.listModules = h.listModules := by
      rw [listModules, hsame, listModules]
    rw [hlist]
    exact ⟨iff_of_false (not_not.mpr hfile) hnot, List.Subset.refl _⟩
  · have hne := hw.name_ne hname
    have hlist : (h.smiLoadModule files file).2.listModules =
        h.listModules ++ [m] := by
      rw [listModules, hadd, List.filter_append, listModules]
      simp [hne]
    rw [hlist]
    constructor
    · rw [hprovides, mem_rebuildUnloadedList]
      obtain ⟨htotal, hpaths⟩ := mem_rebuildUnloadedList.mp hfile
      constructor
      · intro hgone
        by_contra hpath
        refine hgone ⟨htotal, fun m' hm' => ?_⟩
        rcases List.mem_append.mp hm' with hm' | hm'
        · exact hpaths m' hm'
        · rw [List.mem_singleton.mp hm']
          exact hpath
      · rintro hpath ⟨-, hothers⟩
        exact hothers m (List.mem_append_right _ (List.mem_singleton.mpr rfl)) hpath
    · intro f hf
      rw [mem_rebuildUnloadedList] at hf ⊢
      exact ⟨hf.1, fun m' hm' => hf.2 m' (List.mem_append_left _ hm')⟩

namespace MibState

structure Refreshed (st : MibState) : Prop where
  wanted : st.wanted = st.mibpreloads
  handle : st.handle = load st.files st.wanted
  loaded : st.loaded = st.handle.listModules
  unloaded : st.unloaded = rebuildUnloadedList st.total st.loaded

theorem refresh_refreshed (st : MibState) : st.refresh.Refreshed := ⟨rfl, rfl, rfl, rfl⟩

def SameLists (st st' : MibState) : Prop :=
  ∃ policy prompts, st' = { st with policy, prompts }

theorem SameLists.refl (st : MibState) : SameLists st st := ⟨st.policy, st.prompts, rfl⟩

theorem SameLists.trans {a b c : MibState} (h : a.SameLists b) (h' : b.SameLists c) :
    a.SameLists c := by
  obtain ⟨policy, prompts, rfl⟩ := h
  obtain ⟨policy', prompts', rfl⟩ := h'
  exact ⟨policy', prompts', rfl⟩

theorem SameLists.refreshed {st st' : MibState} (h : SameLists st st') (hr : st.Refreshed) :
    st'.Refreshed := by
  obtain ⟨policy, prompts, rfl⟩ := h
  exact ⟨hr.wanted, hr.handle, hr.loaded, hr.unloaded⟩

theorem matchEntry_unloaded (unloaded : List String) (oid : String) (total : List TotalEntry)
    (best : String × String) :
    (total.foldl (matchEntry unloaded oid) best).1 = best.1 ∨
    (total.foldl (matchEntry unloaded oid) best).1 ∈ unloaded := by
  induction total generalizing best with
  | nil => exact Or.inl rfl
  | cons e total ih =>
    rw [List.foldl_cons]
    rcases ih (matchEntry unloaded oid best e) with h | h
    · rw [h]
      unfold matchEntry
      split
      · split
        · rename_i hcontains
          exact Or.inr (List.contains_iff_mem.mp hcontains)
        · exact Or.inl rfl
      · exact Or.inl rfl
    · exact Or.inr h

/-- Everything `LoadBestModule` can do: return nothing and keep the lists, or return an
unloaded file and load the wanted files with it. -/
theorem loadBestModule_cases (st : MibState) (oid : String) :
    ((st.loadBestModule oid).1 = "" ∧ SameLists st (st.loadBestModule oid).2) ∨
    ((st.loadBestModule oid).1 ≠ "" ∧ (st.loadBestModule oid).1 ∈ st.unloaded ∧
      ∃ st', SameLists st st' ∧
        (st.loadBestModule oid).2 = st'.loadWanted (st.loadBestModule oid).1) := by
  unfold loadBestModule
  split
  · exact Or.inl ⟨rfl, SameLists.refl st⟩
  · simp only
    split
    · exact Or.inl ⟨rfl, SameLists.refl st⟩
    · rename_i hfile
      have hunloaded := (matchEntry_unloaded st.unloaded oid st.total ("", "")).resolve_left hfile
      split
      · cases st.answer st.prompts with
        | no => exact Or.inl ⟨rfl, st.policy, st.prompts + 1, rfl⟩
        | noToAll => exact Or.inl ⟨rfl, .mibloadNone, st.prompts + 1, rfl⟩
        | yesToAll => exact Or.inr ⟨hfile, hunloaded, _, ⟨.mibloadAll, st.prompts + 1, rfl⟩, rfl⟩
        | yes => exact Or.inr ⟨hfile, hunloaded, _, ⟨st.policy, st.prompts + 1, rfl⟩, rfl⟩
        | other => exact Or.inr ⟨hfile, hunloaded, _, ⟨st.policy, st.prompts + 1, rfl⟩, rfl⟩
      · exact Or.inr ⟨hfile, hunloaded, st, SameLists.refl st, rfl⟩

/-- Loading a wanted file keeps the lists refreshed; it leaves Unloaded exactly when it
provides a module, and Unloaded never grows. -/
theorem loadWanted_unloaded {st : MibState} (hr : st.Refreshed) {file : String}
    (hfile : file ∈ st.unloaded) :
    (st.loadWanted file).Refreshed ∧
    (file ∉ (st.loadWanted file).unloaded ↔ Provides st.files st.handle file) ∧
    (st.loadWanted file).unloaded ⊆ st.unloaded := by
  have hhandle : (st.loadWanted file).handle = (st.handle.smiLoadModule st.files file).2 := by
    rw [hr.handle]
    exact load_append st.files st.wanted file
  have hw : st.handle.HasWellKnown := by
    rw [hr.handle]
    exact load_hasWellKnown st.files st.wanted
  have hrefreshed := refresh_refreshed (save { st with wanted := st.wanted ++ [file] })
  have hnew : (st.loadWanted file).unloaded =
      rebuildUnloadedList st.total (st.handle.smiLoadModule st.files file).2.listModules := by
    rw [← hhandle]
    rfl
  have hold : st.unloaded = rebuildUnloadedList st.total st.handle.listModules := by
    rw [hr.unloaded, hr.loaded]
  rw [hold] at hfile
  rw [hnew, hold]
  exact ⟨hrefreshed, unloaded_smiLoadModule st.files st.total hw hfile⟩

end MibState

end SnmpB.Mib
