import Mathlib.Logic.Function.Basic
import SnmpB.Library.Preorder
import SnmpB.Mib.View

/-! # Expanding and collapsing a subtree

The context menu expands or collapses everything from the current item on. The end of the
subtree is looked for first, then an iterator runs up to it. Every item that changes runs
a handler that folds an only child likewise.
-/
namespace SnmpB.Mib
open RoseTree

/-- `MibNode::FoldState`. -/
inductive FoldState
  | collapsed | expanded
  deriving DecidableEq, Repr

/-- The item as it is shown. -/
structure ViewItem where
  type : MibType
  text : String
  deriving DecidableEq, Repr

/-- The items are known by their addresses. -/
abbrev ViewTree := RoseTree ViewItem

/-- The icon `SetPixmap` sets. -/
def ViewItem.setPixmap (node : ViewItem) (fold : FoldState) : String :=
  let isOpened := fold = .expanded
  match node.type with
  | .scalar => ":/icon/scalar"
  | .column => ":/icon/scalar"
  | .row => if isOpened then ":/icon/table-entry-open" else ":/icon/table-entry"
  | .table => if isOpened then ":/icon/table-open" else ":/icon/table"
  | .notification => ":/icon/alert"
  | .group => ":/icon/group"
  | .compliance => ":/icon/conformance"
  | .capabilities => ":/icon/capabilities"
  | .node => if isOpened then ":/icon/folder-open" else ":/icon/folder"

structure Folding where
  isExpanded : List ℕ → Bool
  icon : List ℕ → String

namespace Folding

def setExpanded (s : Folding) (item : List ℕ) (expand : Bool) : Folding :=
  { s with isExpanded := Function.update s.isExpanded item expand }

def setPixmap (s : Folding) (item : List ℕ) (icon : String) : Folding :=
  { s with icon := Function.update s.icon item icon }

end Folding

def foldState (expand : Bool) : FoldState := if expand then .expanded else .collapsed

/-- `setExpanded` of an item with what hangs below it. Only a change runs the handler. -/
def setExpanded (expand : Bool) : ViewTree → List ℕ → Folding → Folding
  | .node n children, item, s =>
    if s.isExpanded item = expand then s
    else
      let s := (s.setExpanded item expand).setPixmap item (n.setPixmap (foldState expand))
      -- speed up navigating deep hierarchies
      match children with
      | [child] => setExpanded expand child (item ++ [0]) s
      | _ => s

/-- The body of both handlers. -/
def foldNode (fold : FoldState) (t : ViewTree) (item : List ℕ) (s : Folding) : Folding :=
  let s := s.setPixmap item (t.value.setPixmap fold)
  match t.children with
  | [child] => setExpanded (fold = .expanded) child (item ++ [0]) s
  | _ => s

def expandNode : ViewTree → List ℕ → Folding → Folding := foldNode .expanded

def collapseNode : ViewTree → List ℕ → Folding → Folding := foldNode .collapsed

def child (t : ViewTree) (parent : List ℕ) (i : ℕ) : Option (List ℕ) :=
  if (t.subtree (parent ++ [i])).isSome then some (parent ++ [i]) else none

/-- Goes back in the tree till a sibling is found to mark the end. The path is that from `ptr` up: its
index among the children of its parent, and the path from there. -/
def findEnd (t : ViewTree) : List ℕ → Option (List ℕ)
  | [] => none
  | indexOfChild :: path =>
    match child t path.reverse (indexOfChild + 1) with
    | some sibling => some sibling
    | none => findEnd t path

/-- The items an iterator meets from `start` up to the end marker. -/
def upToEnd (t : ViewTree) (start : List ℕ) : List (List ℕ) :=
  (t.addresses.dropWhile (fun it => it ≠ start)).takeWhile (fun it => some it ≠ findEnd t start.reverse)

def foldItem (expand : Bool) (t : ViewTree) (s : Folding) (item : List ℕ) : Folding :=
  match t.subtree item with
  | some below => setExpanded expand below item s
  | none => s

def foldFromNode (expand : Bool) (t : ViewTree) (currentItem : Option (List ℕ)) (s : Folding) : Folding :=
  match currentItem with
  | none => s
  | some start => (upToEnd t start).foldl (foldItem expand t) s

def expandFromNode : ViewTree → Option (List ℕ) → Folding → Folding := foldFromNode true

def collapseFromNode : ViewTree → Option (List ℕ) → Folding → Folding := foldFromNode false

/-- What follows the last child of a parent and is below the parent is below the last child. -/
theorem isPrefix_of_last {t : ViewTree} {parent x : List ℕ} {i : ℕ} (hlast : parent ++ [i + 1] ∉ t.addresses)
    (hx : x ∈ t.addresses) (hle : parent ++ [i] ≤ x) (hbelow : parent <+: x) : parent ++ [i] <+: x := by
  obtain ⟨rest, rfl⟩ := hbelow
  rw [← not_lt, PrefixInterval.append_lt_append_iff] at hle
  cases rest with
  | nil => exact absurd (List.nil_lt_cons i []) hle
  | cons j rest =>
    rw [List.cons_lt_cons_iff, not_or] at hle
    have hj : parent ++ [j] ∈ t.addresses := by
      rw [List.append_cons] at hx
      exact mem_addresses_of_append hx
    have hji : ¬i + 1 ≤ j := fun hle' => hlast (mem_addresses_of_le hj hle')
    obtain rfl : i = j := by omega
    exact ⟨rest, (List.append_cons parent i rest).symm⟩

/-- The marker is where the subtree ends in the order of the addresses. -/
theorem findEnd_spec {t : ViewTree} (path : List ℕ) (h : path.reverse ∈ t.addresses) :
    (∀ sibling, findEnd t path = some sibling → sibling ∈ t.addresses ∧ path.reverse < sibling) ∧
      ∀ x ∈ t.addresses, path.reverse ≤ x →
        (path.reverse <+: x ↔ ∀ sibling, findEnd t path = some sibling → x < sibling) := by
  induction path with
  | nil =>
    have hnone : ∀ sibling, findEnd t [] ≠ some sibling := fun _ => Option.some_ne_none _ |>.symm
    exact ⟨fun e hend => absurd hend (hnone e),
      fun x _ _ => iff_of_true List.nil_prefix fun e hend => absurd hend (hnone e)⟩
  | cons i path ih =>
    rw [List.reverse_cons] at h ⊢
    obtain ⟨hin, hblock⟩ := ih (mem_addresses_of_append h)
    rw [findEnd, child]
    by_cases hsibling : path.reverse ++ [i + 1] ∈ t.addresses
    · rw [if_pos (mem_addresses.mp hsibling)]
      simp only [Option.some.injEq, forall_eq']
      refine ⟨⟨hsibling, ?_⟩, fun x _ hle => PrefixInterval.isPrefix_iff_lt_succ hle⟩
      exact PrefixInterval.append_singleton_lt (Nat.lt_succ_self i) List.prefix_rfl List.prefix_rfl
    · rw [if_neg fun hsome => hsibling (mem_addresses.mpr hsome)]
      dsimp only
      have hparent : path.reverse <+: path.reverse ++ [i] := List.prefix_append _ _
      refine ⟨fun sibling hend => ?_, fun x hx hle => ?_⟩
      · have hself := (hblock _ h (PrefixInterval.root_le hparent)).mp hparent
        exact ⟨(hin sibling hend).1, hself sibling hend⟩
      · rw [← hblock x hx ((PrefixInterval.root_le hparent).trans hle)]
        exact ⟨hparent.trans, isPrefix_of_last hsibling hx hle⟩

/-- The iterator meets exactly the subtree. -/
theorem mem_upToEnd {t : ViewTree} {start : List ℕ} (h : start ∈ t.addresses) {x : List ℕ} :
    x ∈ upToEnd t start ↔ x ∈ t.addresses ∧ start <+: x := by
  obtain ⟨hin, hblock⟩ := findEnd_spec start.reverse (by rwa [List.reverse_reverse])
  rw [List.reverse_reverse] at hin hblock
  have hrest : ∀ y, y ∈ t.addresses.dropWhile (fun it => it ≠ start) ↔ y ∈ t.addresses ∧ start ≤ y :=
    fun y => PrefixInterval.mem_dropWhile_ne (addresses_ascend t) h (by simp)
  rw [upToEnd]
  cases hend : findEnd t start.reverse with
  | none =>
    rw [List.takeWhile_eq_self_iff.mpr (by simp), hrest]
    refine and_congr_right fun hx => ⟨fun hle => ?_, PrefixInterval.root_le⟩
    exact (hblock x hx hle).mpr fun sibling hsome => nomatch hend.symm.trans hsome
  | some sibling =>
    obtain ⟨hsibling, hlt⟩ := hin sibling hend
    have hascend := (addresses_ascend t).sublist (List.dropWhile_sublist (fun it => it ≠ start))
    rw [PrefixInterval.mem_takeWhile_ne hascend ((hrest sibling).mpr ⟨hsibling, hlt.le⟩) (by simp), hrest, and_assoc]
    refine and_congr_right fun hx => ⟨fun hbetween => ?_, fun hbelow => ?_⟩
    · exact (hblock x hx hbetween.1).mpr fun e he => Option.some_inj.mp (hend.symm.trans he) ▸ hbetween.2
    · have hle := PrefixInterval.root_le hbelow
      exact ⟨hle, (hblock x hx hle).mp hbelow sibling hend⟩

/-- What folding from an item on may do. -/
structure Folds (expand : Bool) (item : List ℕ) (s s' : Folding) : Prop where
  outside : ∀ x, ¬item <+: x → s'.isExpanded x = s.isExpanded x ∧ s'.icon x = s.icon x
  stays : ∀ x, s.isExpanded x = expand → s'.isExpanded x = expand

namespace Folds
variable {expand : Bool} {item : List ℕ} {s s' s'' : Folding}

theorem refl (s : Folding) : Folds expand item s s := ⟨fun _ _ => ⟨rfl, rfl⟩, fun _ h => h⟩

theorem trans (h : Folds expand item s s') (h' : Folds expand item s' s'') : Folds expand item s s'' where
  outside x hx := ⟨(h'.outside x hx).1.trans (h.outside x hx).1, (h'.outside x hx).2.trans (h.outside x hx).2⟩
  stays x hx := h'.stays x (h.stays x hx)

theorem above {start : List ℕ} (hstart : start <+: item) (h : Folds expand item s s') : Folds expand start s s' where
  outside x hx := h.outside x fun hitem => hx (hstart.trans hitem)
  stays := h.stays

theorem setPixmap (icon : String) : Folds expand item s (s.setPixmap item icon) where
  outside x hx := by
    have hne : x ≠ item := by
      rintro rfl
      exact hx List.prefix_rfl
    exact ⟨rfl, Function.update_of_ne hne _ _⟩
  stays x hx := hx

theorem setExpanded : Folds expand item s (s.setExpanded item expand) where
  outside x hx := by
    have hne : x ≠ item := by
      rintro rfl
      exact hx List.prefix_rfl
    exact ⟨Function.update_of_ne hne _ _, rfl⟩
  stays x hx := by
    change Function.update s.isExpanded item expand x = expand
    rw [Function.update_apply]
    split
    · rfl
    · exact hx

end Folds

/-- A change runs `expandNode` or `collapseNode`. -/
theorem setExpanded_eq (expand : Bool) (t : ViewTree) (item : List ℕ) (s : Folding) :
    setExpanded expand t item s = if s.isExpanded item = expand then s
      else (if expand then expandNode else collapseNode) t item (s.setExpanded item expand) := by
  obtain ⟨n, children⟩ := t
  rw [setExpanded]
  cases expand <;> rfl

theorem handler_folds (expand : Bool) (t : ViewTree)
    (h : ∀ child ∈ t.children, ∀ item s, Folds expand item s (setExpanded expand child item s))
    (item : List ℕ) (s : Folding) :
    Folds expand item s ((if expand then expandNode else collapseNode) t item s) := by
  have hnode : Folds expand item s (foldNode (foldState expand) t item s) := by
    have hicon : Folds expand item s (s.setPixmap item (t.value.setPixmap (foldState expand))) := Folds.setPixmap _
    unfold foldNode
    dsimp only
    split
    · next child hchildren =>
      have hsame : decide (foldState expand = .expanded) = expand := by cases expand <;> rfl
      rw [hsame]
      have hbelow := h child (hchildren ▸ List.mem_cons_self) (item ++ [0])
        (s.setPixmap item (t.value.setPixmap (foldState expand)))
      exact hicon.trans (hbelow.above (List.prefix_append _ _))
    · exact hicon
  cases expand with
  | true => exact hnode
  | false => exact hnode

theorem setExpanded_folds (expand : Bool) (t : ViewTree) (item : List ℕ) (s : Folding) :
    Folds expand item s (setExpanded expand t item s) ∧ (setExpanded expand t item s).isExpanded item = expand := by
  induction t using RoseTree.induct generalizing item s with
  | node n children ih =>
    rw [setExpanded_eq]
    split
    · next hsame => exact ⟨Folds.refl s, hsame⟩
    · have hhandler := handler_folds expand (.node n children)
        (fun child hchild item s => (ih child hchild item s).1) item (s.setExpanded item expand)
      refine ⟨Folds.setExpanded.trans hhandler, hhandler.stays item ?_⟩
      exact Function.update_self _ _ _

/-- What the loop over the items does. -/
theorem foldl_foldItem {expand : Bool} {t : ViewTree} {start : List ℕ} (items : List (List ℕ))
    (h : ∀ x ∈ items, x ∈ t.addresses ∧ start <+: x) (s : Folding) :
    Folds expand start s (items.foldl (foldItem expand t) s) ∧
      ∀ x ∈ items, (items.foldl (foldItem expand t) s).isExpanded x = expand := by
  induction items generalizing s with
  | nil => exact ⟨Folds.refl s, fun x hx => nomatch hx⟩
  | cons item items ih =>
    obtain ⟨hitem, hbelow⟩ := h item List.mem_cons_self
    obtain ⟨below, hsubtree⟩ := Option.isSome_iff_exists.mp (mem_addresses.mp hitem)
    have hfold : foldItem expand t s item = setExpanded expand below item s := by rw [foldItem, hsubtree]
    obtain ⟨hfirst, hself⟩ := setExpanded_folds expand below item s
    obtain ⟨hrest, hall⟩ := ih (fun x hx => h x (List.mem_cons_of_mem item hx)) (setExpanded expand below item s)
    rw [List.foldl_cons, hfold]
    refine ⟨(hfirst.above hbelow).trans hrest, fun x hx => ?_⟩
    rcases List.mem_cons.mp hx with rfl | hx
    · exact hrest.stays x hself
    · exact hall x hx

theorem foldFromNode_spec (expand : Bool) {t : ViewTree} {start : List ℕ} (h : start ∈ t.addresses) (s : Folding) :
    (∀ x ∈ t.addresses, start <+: x → (foldFromNode expand t (some start) s).isExpanded x = expand) ∧
      ∀ x, ¬start <+: x → (foldFromNode expand t (some start) s).isExpanded x = s.isExpanded x ∧
        (foldFromNode expand t (some start) s).icon x = s.icon x := by
  obtain ⟨hfolds, hall⟩ : Folds expand start s (foldFromNode expand t (some start) s) ∧
      ∀ x ∈ upToEnd t start, (foldFromNode expand t (some start) s).isExpanded x = expand :=
    foldl_foldItem (upToEnd t start) (fun x hx => (mem_upToEnd h).mp hx) s
  exact ⟨fun x hx hbelow => hall x ((mem_upToEnd h).mpr ⟨hx, hbelow⟩), hfolds.outside⟩

/-- From the current item on exactly its subtree is expanded, or collapsed. -/
theorem fromNode_subtree {t : ViewTree} {currentItem : List ℕ} (h : currentItem ∈ t.addresses) (s : Folding) :
    ((∀ x ∈ t.addresses, currentItem <+: x → (expandFromNode t (some currentItem) s).isExpanded x = true) ∧
      ∀ x, ¬currentItem <+: x → (expandFromNode t (some currentItem) s).isExpanded x = s.isExpanded x ∧
        (expandFromNode t (some currentItem) s).icon x = s.icon x) ∧
    ((∀ x ∈ t.addresses, currentItem <+: x → (collapseFromNode t (some currentItem) s).isExpanded x = false) ∧
      ∀ x, ¬currentItem <+: x → (collapseFromNode t (some currentItem) s).isExpanded x = s.isExpanded x ∧
        (collapseFromNode t (some currentItem) s).icon x = s.icon x) :=
  ⟨foldFromNode_spec true h s, foldFromNode_spec false h s⟩

def smallTree : ViewTree :=
  .node ⟨.node, "MIB Tree"⟩ [.node ⟨.node, "iso"⟩ [.node ⟨.node, "std"⟩ [], .node ⟨.node, "org"⟩
    [.node ⟨.node, "dod"⟩ []]], .node ⟨.node, "joint"⟩ []]

def allCollapsed : Folding := ⟨fun _ => false, fun _ => ":/icon/folder"⟩

/-- The current item is the last child of a parent that has a sibling. -/
theorem fromNode_subtree_org : (expandFromNode smallTree (some [0, 1]) allCollapsed).isExpanded [0, 1, 0] = true ∧
    (expandFromNode smallTree (some [0, 1]) allCollapsed).isExpanded [1] = false := by
  have horg : [0, 1] ∈ smallTree.addresses := by decide
  obtain ⟨⟨hbelow, houtside⟩, -⟩ := fromNode_subtree horg allCollapsed
  exact ⟨hbelow [0, 1, 0] (by decide) (by decide), (houtside [1] (by decide)).1⟩

end SnmpB.Mib
