import SnmpB.Library.Loop
import SnmpB.Mib.Loading
import SnmpB.Agent.Pdu

/-! # Resolving the OID of a varbind

The part of `AsyncCallback` between the label `node_restart` and the printing of
the varbind: look the node up, load the best module while the OID is not fully
resolved, and start over after every module loaded.
-/
namespace SnmpB.Agent
open Mib

/-- The MIB lists, and the modules loaded for this varbind so far. -/
structure Restart where
  mib : MibState
  loading : List String

/-- The node found, with the remaining part of the printed OID at `f`. -/
structure Resolved where
  mib : MibState
  loading : List String
  node : Option (SmiNode × List Char)

/-- `LoadBestModule` and the jump back when it returned a module; else go on with the lists. -/
def loadOr (text : String) (s : Restart) (next : Restart → Restart ⊕ Resolved) : Restart ⊕ Resolved :=
  let loaded := s.mib.loadBestModule text
  if loaded.1 ≠ "" then .inl ⟨loaded.2, s.loading ++ [loaded.1]⟩ else next ⟨loaded.2, s.loading⟩

/-- "If the VB type is an OID, make sure the best module resolving it is loaded". -/
def isOidType (node : SmiNode) : Bool :=
  (smiGetNodeType node).any fun type => type.basetype == .objectIdentifier

/-- One pass from `node_restart` on. -/
def nodeRestart (vb : Vb) (s : Restart) : Restart ⊕ Resolved :=
  match getNodeFromOid s.mib.handle vb.oid with
  | none => loadOr vb.oid.getPrintable s fun s => .inr ⟨s.mib, s.loading, none⟩
  | some node =>
    let f := Oid.restOf (Oid.dotted node.oid) (Oid.dotted vb.oid)
    let value (s : Restart) : Restart ⊕ Resolved :=
      if isOidType node then
        loadOr vb.getOidValue.getPrintable s fun s => .inr ⟨s.mib, s.loading, some (node, f)⟩
      else .inr ⟨s.mib, s.loading, some (node, f)⟩
    if f ≠ ".0".toList then loadOr vb.oid.getPrintable s value else value s

def Restarts (vb : Vb) (mib : MibState) : Restart → Prop := Loop.Reaches (nodeRestart vb) ⟨mib, []⟩

/-- Handling the varbind ends, and every module it loads leaves Unloaded. -/
def HandlingProgresses (vb : Vb) (mib : MibState) : Prop :=
  Loop.Terminates (nodeRestart vb) ⟨mib, []⟩ ∧
  ∀ s s', Restarts vb mib s → nodeRestart vb s = .inl s' →
    ∀ file ∈ s'.loading.getLast?, file ∉ s'.mib.unloaded

/-- Every file requested on the way still loads, is itself the file that is read, and defines a
module that nothing loaded so far has provided. -/
def RequestsProvide (vb : Vb) (mib : MibState) : Prop :=
  ∀ s s', Restarts vb mib s → nodeRestart vb s = .inl s' →
    ∀ file ∈ s'.loading.getLast?, SmiHandle.Provides s.mib.files s.mib.handle file

/-- What a jump back does: it loads one unloaded file and records it. -/
def LoadsOne (s s' : Restart) : Prop :=
  ∃ file mib, file ∈ s.mib.unloaded ∧ s.mib.SameLists mib ∧
    s' = ⟨mib.loadWanted file, s.loading ++ [file]⟩

theorem loadOr_inl {text : String} {s s' : Restart} {next : Restart → Restart ⊕ Resolved}
    (h : loadOr text s next = .inl s') :
    LoadsOne s s' ∨ ∃ mib, s.mib.SameLists mib ∧ next ⟨mib, s.loading⟩ = .inl s' := by
  unfold loadOr at h
  simp only at h
  rcases s.mib.loadBestModule_cases text with ⟨hempty, hsame⟩ | ⟨hfile, hunloaded, mib, hsame, hload⟩
  · rw [if_neg (not_not.mpr hempty)] at h
    exact Or.inr ⟨_, hsame, h⟩
  · rw [if_pos hfile] at h
    cases h
    exact Or.inl ⟨_, mib, hunloaded, hsame, by rw [hload]⟩

theorem nodeRestart_inl {vb : Vb} {s s' : Restart} (h : nodeRestart vb s = .inl s') : LoadsOne s s' := by
  have hvalue : ∀ (node : SmiNode) (f : List Char) (mib : MibState), s.mib.SameLists mib →
      (if isOidType node then
        loadOr vb.getOidValue.getPrintable ⟨mib, s.loading⟩
          fun s => (.inr ⟨s.mib, s.loading, some (node, f)⟩ : Restart ⊕ Resolved)
      else .inr ⟨mib, s.loading, some (node, f)⟩) = .inl s' → LoadsOne s s' := by
    intro node f mib hsame hjump
    split at hjump
    · rcases loadOr_inl hjump with ⟨file, mib', hfile, hmib', rfl⟩ | ⟨_, _, hdone⟩
      · obtain ⟨policy, prompts, rfl⟩ := hsame
        exact ⟨file, mib', hfile, MibState.SameLists.trans ⟨policy, prompts, rfl⟩ hmib', rfl⟩
      · cases hdone
    · cases hjump
  unfold nodeRestart at h
  split at h
  · rcases loadOr_inl h with hloads | ⟨_, _, hdone⟩
    · exact hloads
    · cases hdone
  · rename_i node _
    simp only at h
    split at h
    · rcases loadOr_inl h with hloads | ⟨mib, hsame, hjump⟩
      · exact hloads
      · exact hvalue node _ mib hsame hjump
    · exact hvalue node _ s.mib (MibState.SameLists.refl s.mib) h

/-- A jump from refreshed lists keeps them refreshed and never lets Unloaded grow; the file it
loads leaves Unloaded exactly when it provides a module. -/
theorem nodeRestart_unloaded {vb : Vb} {s s' : Restart} (hr : s.mib.Refreshed)
    (h : nodeRestart vb s = .inl s') :
    s'.mib.Refreshed ∧ ∃ file, s'.loading.getLast? = some file ∧ file ∈ s.mib.unloaded ∧
      (file ∉ s'.mib.unloaded ↔ SmiHandle.Provides s.mib.files s.mib.handle file) ∧
      s'.mib.unloaded ⊆ s.mib.unloaded := by
  obtain ⟨file, mib, hfile, hsame, rfl⟩ := nodeRestart_inl h
  obtain ⟨policy, prompts, rfl⟩ := hsame
  obtain ⟨hrefreshed, hleaves, hsub⟩ := MibState.loadWanted_unloaded
    (MibState.SameLists.refreshed ⟨policy, prompts, rfl⟩ hr) hfile
  exact ⟨hrefreshed, file, by simp, hfile, hleaves, hsub⟩

theorem restarts_refreshed {vb : Vb} {mib : MibState} (hr : mib.Refreshed) {s : Restart}
    (h : Restarts vb mib s) : s.mib.Refreshed :=
  Loop.Reaches.invariant (P := fun s : Restart => s.mib.Refreshed)
    (fun _ _ hs hjump => (nodeRestart_unloaded hs hjump).1) h hr

theorem terminates_of_requestsProvide {vb : Vb} {mib : MibState} (hr : mib.Refreshed)
    (h : RequestsProvide vb mib) : Loop.Terminates (nodeRestart vb) ⟨mib, []⟩ := by
  refine Loop.terminates_of_measure (fun s => s.mib.unloaded.toFinset.card) ?_
  intro s hs s' hjump
  obtain ⟨-, file, hlast, hfile, hleaves, hsub⟩ :=
    nodeRestart_unloaded (restarts_refreshed hr hs) hjump
  have hgone := hleaves.mpr (h s s' hs hjump file hlast)
  refine Finset.card_lt_card ⟨fun f hf => ?_, fun hback => ?_⟩
  · exact List.mem_toFinset.mpr (hsub (List.mem_toFinset.mp hf))
  · exact hgone (List.mem_toFinset.mp (hback (List.mem_toFinset.mpr hfile)))

/-- Main result: handling a varbind makes progress exactly when every requested file is read and
defines a module of its own. -/
theorem handlingProgresses_iff (vb : Vb) (mib : MibState) :
    HandlingProgresses vb mib.refresh ↔ RequestsProvide vb mib.refresh := by
  have hr := MibState.refresh_refreshed mib
  constructor
  · rintro ⟨-, hleave⟩ s s' hs hjump file hlast
    obtain ⟨-, file', hlast', -, hleaves, -⟩ :=
      nodeRestart_unloaded (restarts_refreshed hr hs) hjump
    obtain rfl : file' = file := Option.some.inj (hlast'.symm.trans hlast)
    exact hleaves.mp (hleave s s' hs hjump file' hlast)
  · intro h
    refine ⟨terminates_of_requestsProvide hr h, fun s s' hs hjump file hlast => ?_⟩
    obtain ⟨-, file', hlast', -, hleaves, -⟩ :=
      nodeRestart_unloaded (restarts_refreshed hr hs) hjump
    obtain rfl : file' = file := Option.some.inj (hlast'.symm.trans hlast)
    exact hleaves.mpr (h s s' hs hjump file' hlast)

/-- A file found by the scan that does not load any more, under automatic loading without
prompts; `wanted` has been requested so far. -/
def goneFile (wanted : List String) : MibState :=
  { files := fun _ => none
    total := [⟨"GONE-MIB", [[1, 3, 6, 1, 4, 1, 9]], by decide, by decide⟩]
    automaticLoading := 1, answer := fun _ => .yes, mibpreloads := wanted, wanted
    handle := smiInit, loaded := [], unloaded := ["GONE-MIB"], policy := .mibloadDefault
    prompts := 0 }

def goneVb : Vb := ⟨[1, 3, 6, 1, 4, 1, 9, 5, 0], .int32 1⟩

theorem load_gone (wanted : List String) : load (fun _ => none) wanted = smiInit := by
  induction wanted using List.reverseRecOn with
  | nil => rfl
  | append_singleton wanted file ih =>
    rw [load_append, ih, SmiHandle.smiLoadModule]
    cases hname : smiInit.findModuleByName file with
    | none => rfl
    | some m =>
      have hempty : file = "" := by
        have hfound := List.find?_some hname
        obtain rfl := List.mem_singleton.mp (List.mem_of_find?_eq_some hname)
        exact (beq_iff_eq.mp hfound).symm
      subst hempty
      rfl

theorem nodeRestart_goneFile (wanted loading : List String) :
    ∃ wanted' loading', nodeRestart goneVb ⟨goneFile wanted, loading⟩ =
      .inl ⟨goneFile wanted', loading'⟩ := by
  have hbest : ((goneFile wanted).bestMatch goneVb.oid.getPrintable).1 = "GONE-MIB" := by
    change ((goneFile []).bestMatch goneVb.oid.getPrintable).1 = "GONE-MIB"
    decide
  have hrequest : (goneFile wanted).loadBestModule goneVb.oid.getPrintable =
      ("GONE-MIB", (goneFile wanted).loadWanted "GONE-MIB") := by
    rw [MibState.loadBestModule, hbest]
    rfl
  have hload : (goneFile wanted).loadWanted "GONE-MIB" = goneFile (wanted ++ ["GONE-MIB"]) := by
    simp only [MibState.loadWanted, MibState.save, MibState.refresh, goneFile, load_gone]
    rfl
  have hnode : getNodeFromOid smiInit goneVb.oid = some ⟨"iso", [1], .node, none, ""⟩ := by decide
  refine ⟨wanted ++ ["GONE-MIB"], loading ++ ["GONE-MIB"], ?_⟩
  have hhandle : (goneFile wanted).handle = smiInit := rfl
  have hrest : Oid.restOf (Oid.dotted [1]) (Oid.dotted goneVb.oid) ≠ ".0".toList := by decide
  simp only [nodeRestart, hhandle, hnode, hrest, ne_eq, not_false_eq_true, ↓reduceIte, loadOr,
    hrequest, hload]
  rw [if_pos (by decide)]

theorem goneFile_diverges : ¬ ∀ (vb : Vb) (mib : MibState), HandlingProgresses vb mib.refresh := by
  intro h
  have hrefresh : (goneFile []).refresh = goneFile [] := by
    simp only [MibState.refresh, goneFile, load_gone]
    rfl
  have hends := (h goneVb (goneFile [])).1
  rw [hrefresh] at hends
  refine Loop.not_terminates_of_invariant
    (P := fun s : Restart => ∃ wanted loading, s = ⟨goneFile wanted, loading⟩) ?_ ⟨[], [], rfl⟩ hends
  rintro s ⟨wanted, loading, rfl⟩
  obtain ⟨wanted', loading', hjump⟩ := nodeRestart_goneFile wanted loading
  exact ⟨_, hjump, wanted', loading', rfl⟩

end SnmpB.Agent
