import SnmpB.Library.Runs
import SnmpB.Mib.View

/-! # The views known to the loader

The loader keeps a list of views, which a reload walks over. The view of a
dialog is appended to it when the dialog is created, and nothing takes it out
again when the dialog is destroyed.
-/
namespace SnmpB.Mib
open Runs

/-- The views by number, `none` for those that have been destroyed, the list of the loader, and
the views of the dialogs that exist. -/
structure Registry where
  loader : MibViewLoader
  iso : Option SmiTree
  objects : List (Option BasicMibView)
  views : List ℕ
  dialogs : List ℕ

inductive RegistryEvent
  | newMibSelection
  | deleteMibSelection (bmv : ℕ)
  | refresh (pmodv : List String) (iso : Option SmiTree)
  | tabSelected

namespace Registry

def view (objects : List (Option BasicMibView)) (v : ℕ) : Option BasicMibView := objects[v]?.join

/-- The loop of `Load` over the views; `none` where a method of a view that is gone is called. -/
def clearViews : List ℕ → List (Option BasicMibView) → Option (List (Option BasicMibView))
  | [], objects => some objects
  | v :: views, objects =>
    match view objects v with
    | none => none
    | some bmv => clearViews views (objects.set v (some bmv.setDirty.clear))

/-- `new BasicMibView`, then `RegisterToLoader`. -/
def registerView (r : Registry) (bmv : BasicMibView) : Registry :=
  { r with objects := r.objects ++ [some bmv], views := r.views ++ [r.objects.length] }

def step (r : Registry) : RegistryEvent → Option Registry
  | .newMibSelection =>
    let bmv : BasicMibView := ⟨true, .empty⟩
    some { r.registerView (bmv.populate r.loader r.iso) with dialogs := r.objects.length :: r.dialogs }
  | .deleteMibSelection bmv =>
    if bmv ∈ r.dialogs then
      some { r with objects := r.objects.set bmv none, dialogs := r.dialogs.erase bmv }
    else none
  | .refresh pmodv iso =>
    (clearViews r.views r.objects).map fun objects => { r with loader := { r.loader with pmodv }, iso, objects }
  | .tabSelected =>
    some { r with objects := r.objects.modify 0 (Option.map fun bmv => bmv.populate r.loader r.iso) }

/-- The main window registers the view of its own tree, and keeps it. -/
def start (loader : MibViewLoader) (iso : Option SmiTree) : Registry :=
  ⟨loader, iso, [some ⟨true, .empty⟩], [0], []⟩

/-- Every view in the list belongs to an object that exists. -/
def AllExist (r : Registry) : Prop := ∀ v ∈ r.views, (view r.objects v).isSome

def ReloadFindsViews (r : Registry) (e : RegistryEvent) : Prop :=
  ∀ pmodv iso, e = .refresh pmodv iso → r.AllExist

/-! ## What a step does to the objects -/

theorem view_set {objects : List (Option BasicMibView)} {v : ℕ} (hv : v < objects.length)
    (bmv : Option BasicMibView) (u : ℕ) :
    view (objects.set v bmv) u = if v = u then bmv else view objects u := by
  unfold view
  rw [List.getElem?_set]
  split
  · rename_i heq
    simp
  · rfl

theorem view_append {objects : List (Option BasicMibView)} {v : ℕ} (hv : v < objects.length)
    (bmv : Option BasicMibView) : view (objects ++ [bmv]) v = view objects v := by
  rw [view, List.getElem?_append_left hv, view]

theorem lt_of_view {objects : List (Option BasicMibView)} {v : ℕ} {bmv : BasicMibView}
    (h : view objects v = some bmv) : v < objects.length := by
  by_contra hge
  rw [view, List.getElem?_eq_none (Nat.le_of_not_lt hge)] at h
  cases h

theorem clearViews_some {views : List ℕ} {objects objects' : List (Option BasicMibView)}
    (h : clearViews views objects = some objects') :
    objects'.length = objects.length ∧ ∀ v, (view objects' v).isSome = (view objects v).isSome := by
  induction views generalizing objects with
  | nil =>
    cases h
    exact ⟨rfl, fun _ => rfl⟩
  | cons v views ih =>
    unfold clearViews at h
    split at h
    · cases h
    · rename_i bmv hbmv
      obtain ⟨hlength, hsome⟩ := ih h
      refine ⟨hlength.trans List.length_set, fun u => ?_⟩
      rw [hsome, view_set (lt_of_view hbmv)]
      split
      · rename_i heq
        rw [← heq, hbmv]
        rfl
      · rfl

/-- Every view that was ever created is in the list. -/
structure Tracked (r : Registry) : Prop where
  views : r.views = List.range r.objects.length
  dialogs : ∀ d ∈ r.dialogs, d < r.objects.length

theorem Tracked.allExist_iff {r : Registry} (hr : r.Tracked) :
    r.AllExist ↔ ∀ v < r.objects.length, (view r.objects v).isSome := by
  unfold AllExist
  simp only [hr.views, List.mem_range]

theorem view_modify_isSome (objects : List (Option BasicMibView)) (i : ℕ) (f : BasicMibView → BasicMibView)
    (v : ℕ) : (view (objects.modify i (Option.map f)) v).isSome = (view objects v).isSome := by
  unfold view
  rw [List.getElem?_modify]
  cases objects[v]? with
  | none => rfl
  | some bmv =>
    by_cases hi : i = v
    · cases bmv <;> simp [hi]
    · simp [hi]

/-- What a step leaves of the objects: all of them but those it destroys. -/
structure Leaves (r r' : Registry) (gone : ℕ → Prop) : Prop where
  tracked : r'.Tracked
  length_le : r.objects.length ≤ r'.objects.length
  lt_of_gone : ∀ v, gone v → v < r.objects.length
  isSome_iff : ∀ v < r'.objects.length,
    (view r'.objects v).isSome ↔ (v < r.objects.length → (view r.objects v).isSome) ∧ ¬ gone v

theorem Tracked.newMibSelection {r : Registry} (hr : r.Tracked) (bmv : BasicMibView) :
    Leaves r { r.registerView bmv with dialogs := r.objects.length :: r.dialogs } fun _ => False where
  tracked := by
    refine ⟨by simp [registerView, hr.views, List.range_succ], fun d hd => ?_⟩
    rw [registerView, List.length_append, List.length_singleton]
    rcases List.mem_cons.mp hd with rfl | hd
    · exact Nat.lt_succ_self _
    · exact Nat.lt_succ_of_lt (hr.dialogs d hd)
  length_le := by simp [registerView]
  lt_of_gone := fun _ => False.elim
  isSome_iff := by
    intro v hv
    rw [registerView, List.length_append, List.length_singleton] at hv
    rcases Nat.lt_succ_iff_lt_or_eq.mp hv with hlt | rfl
    · simp [registerView, view_append hlt, hlt]
    · simp [registerView, view]

theorem Tracked.deleteMibSelection {r : Registry} (hr : r.Tracked) {bmv : ℕ} (hbmv : bmv ∈ r.dialogs) :
    Leaves r { r with objects := r.objects.set bmv none, dialogs := r.dialogs.erase bmv } fun v => v = bmv where
  tracked := by
    refine ⟨by simp [hr.views], fun d hd => ?_⟩
    rw [List.length_set]
    exact hr.dialogs d (List.mem_of_mem_erase hd)
  length_le := by simp
  lt_of_gone := by
    rintro v rfl
    exact hr.dialogs v hbmv
  isSome_iff := by
    intro v hv
    rw [List.length_set] at hv
    rw [view_set (hr.dialogs bmv hbmv)]
    by_cases heq : bmv = v
    · simp [heq]
    · simp [heq, hv, Ne.symm heq]

/-- The objects are rewritten in their places. -/
theorem Tracked.rewritten {r r' : Registry} (hr : r.Tracked) (hviews : r'.views = r.views)
    (hdialogs : r'.dialogs = r.dialogs) (hlength : r'.objects.length = r.objects.length)
    (hsome : ∀ v, (view r'.objects v).isSome = (view r.objects v).isSome) :
    Leaves r r' fun _ => False where
  tracked := by
    refine ⟨by rw [hviews, hlength, hr.views], fun d hd => ?_⟩
    rw [hlength]
    exact hr.dialogs d (hdialogs ▸ hd)
  length_le := Nat.le_of_eq hlength.symm
  lt_of_gone := fun _ => False.elim
  isSome_iff := by
    intro v hv
    rw [hlength] at hv
    simp [hsome, hv]

theorem Tracked.step {r r' : Registry} {e : RegistryEvent} (hr : r.Tracked) (h : r.step e = some r') :
    Leaves r r' fun v => e = .deleteMibSelection v := by
  cases e with
  | newMibSelection =>
    cases h
    simpa using hr.newMibSelection _
  | deleteMibSelection bmv =>
    unfold Registry.step at h
    simp only at h
    split at h
    · rename_i hbmv
      cases h
      simpa [eq_comm] using hr.deleteMibSelection hbmv
    · cases h
  | refresh pmodv iso =>
    obtain ⟨objects, hclear, rfl⟩ := Option.map_eq_some_iff.mp h
    obtain ⟨hlength, hsome⟩ := clearViews_some hclear
    have hleaves : Leaves r { r with loader := { r.loader with pmodv }, iso, objects } fun _ => False :=
      hr.rewritten rfl rfl hlength hsome
    simpa using hleaves
  | tabSelected =>
    cases h
    have hleaves : Leaves r { r with
        objects := r.objects.modify 0 (Option.map fun bmv => bmv.populate r.loader r.iso) } fun _ => False :=
      hr.rewritten rfl rfl (List.length_modify ..) (view_modify_isSome r.objects 0 _)
    simpa using hleaves

theorem Leaves.allExist_iff {r r' : Registry} {gone : ℕ → Prop} (hr : r.Tracked) (h : Leaves r r' gone) :
    r'.AllExist ↔ r.AllExist ∧ ∀ v, ¬ gone v := by
  rw [h.tracked.allExist_iff, hr.allExist_iff]
  constructor
  · intro hall
    constructor
    · intro v hv
      exact ((h.isSome_iff v (Nat.lt_of_lt_of_le hv h.length_le)).mp
        (hall v (Nat.lt_of_lt_of_le hv h.length_le))).1 hv
    · intro v hgone
      have hv := Nat.lt_of_lt_of_le (h.lt_of_gone v hgone) h.length_le
      exact ((h.isSome_iff v hv).mp (hall v hv)).2 hgone
  · rintro ⟨hall, hnone⟩ v hv
    exact (h.isSome_iff v hv).mpr ⟨hall v, hnone v⟩

/-- A run keeps every view of the list in existence exactly if it destroys no dialog. -/
theorem exec_allExist_iff {r r' : Registry} {es : List RegistryEvent} (hr : r.Tracked)
    (h : exec step r es = some r') : r'.AllExist ↔ r.AllExist ∧ ∀ v, .deleteMibSelection v ∉ es := by
  induction es generalizing r with
  | nil =>
    cases h
    simp
  | cons e es ih =>
    obtain ⟨m, hm, hrest⟩ := exec_cons.mp h
    have hleaves := hr.step hm
    rw [ih hleaves.tracked hrest, hleaves.allExist_iff hr]
    simp only [List.mem_cons, not_or, and_assoc, forall_and, eq_comm]

theorem start_tracked (loader : MibViewLoader) (iso : Option SmiTree) : (start loader iso).Tracked :=
  ⟨rfl, fun _ hd => absurd hd List.not_mem_nil⟩

theorem start_allExist (loader : MibViewLoader) (iso : Option SmiTree) : (start loader iso).AllExist := by
  intro v hv
  obtain rfl := List.mem_singleton.mp hv
  rfl

/-- Main result: every reload of a run finds all views in existence exactly if no dialog has been
destroyed before a reload. -/
theorem reloads_find_views_iff (loader : MibViewLoader) (iso : Option SmiTree) (es : List RegistryEvent) :
    Each step ReloadFindsViews (start loader iso) es ↔
      ∀ before pmodv iso' after, es = before ++ .refresh pmodv iso' :: after →
        (exec step (start loader iso) before).isSome → ∀ v, .deleteMibSelection v ∉ before := by
  have hreached : ∀ {before m}, exec step (start loader iso) before = some m →
      (m.AllExist ↔ ∀ v, .deleteMibSelection v ∉ before) := by
    intro before m hm
    rw [exec_allExist_iff (start_tracked loader iso) hm]
    exact and_iff_right (start_allExist loader iso)
  rw [each_iff_split]
  constructor
  · intro h before pmodv iso' after hes hsome
    obtain ⟨m, hm⟩ := Option.isSome_iff_exists.mp hsome
    exact (hreached hm).mp (h before _ after m hes hm pmodv iso' rfl)
  · rintro h before e after m hes hm pmodv iso' rfl
    exact (hreached hm).mpr (h before pmodv iso' after hes (Option.isSome_iff_exists.mpr ⟨m, hm⟩))

/-- One dialog is opened and closed before a reload. -/
theorem reload_after_dialog :
    ¬ ∀ (loader : MibViewLoader) (iso : Option SmiTree) (es : List RegistryEvent),
      Each step ReloadFindsViews (start loader iso) es := by
  intro h
  have hreload := each_iff_split.mp (h ⟨[], false, false⟩ none [.newMibSelection, .deleteMibSelection 1, .refresh [] none])
    [.newMibSelection, .deleteMibSelection 1] (.refresh [] none) [] _ rfl rfl
  have hview := hreload [] none rfl 1 (by decide)
  cases hview

end Registry

end SnmpB.Mib
