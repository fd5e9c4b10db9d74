import Mathlib.Data.List.Infix
import SnmpB.Library.Round
import SnmpB.Mib.Fold
import SnmpB.Mib.Select

/-! # Finding an item by its text

The search goes round the tree, from the item found last on or back from it, and ends
where it began. The loop is entered behind its test. The item found last is one of the
tree that is searched, so that a search after a reload begins with the dialog.
-/
namespace SnmpB.Mib
open RoseTree TreeWidget

structure FindDialog where
  comboFind : String
  checkWords : Bool
  checkCase : Bool
  checkBackward : Bool
  deriving DecidableEq, Repr

namespace ViewTree

abbrev Item (t : ViewTree) := { address : List ℕ // address ∈ t.addresses }

/-- What an iterator goes through. -/
def items (t : ViewTree) : List t.Item := t.addresses.attach

/-- `model()->index(0, 0, QModelIndex())`, the root. -/
def beginItem (t : ViewTree) : t.Item := ⟨[], nil_mem_addresses t⟩

/-- `while ( *it ) end = *it++`, from the beginning of the tree. -/
def endItem (t : ViewTree) : Option t.Item := t.items.foldl (fun _ it => some it) none

theorem items_nodup (t : ViewTree) : t.items.Nodup :=
  List.nodup_attach.mpr ((addresses_ascend t).imp ne_of_lt)

theorem head_items (t : ViewTree) : t.items.head? = some t.beginItem := by
  cases t
  rfl

theorem endItem_eq (t : ViewTree) : t.endItem = t.items.reverse.head? := by
  have hlast : ∀ (items : List t.Item) (e : Option t.Item),
      items.foldl (fun _ it => some it) e = items.getLast?.or e := by
    intro items
    induction items with
    | nil => exact fun _ => rfl
    | cons item items ih =>
      intro e
      rw [List.foldl_cons, ih, List.getLast?_cons]
      cases items.getLast? <;> rfl
  rw [endItem, hlast, Option.or_none, List.head?_reverse]

end ViewTree

/-- The members of `BasicMibView` about finding, and the current item. -/
structure FindView (t : ViewTree) where
  findString : String
  findStrings : List String
  findWord : Bool
  findCs : Bool
  findBack : Bool
  findLast : Option t.Item
  currentItem : Option t.Item
  deriving DecidableEq, Repr

namespace FindView

variable {t : ViewTree}

/-- The part of `Find` under `reevaluate`. -/
def reevaluate (v : FindView t) (findUid : FindDialog) : FindView t where
  findString := findUid.comboFind
  findStrings := if findUid.comboFind ∈ v.findStrings then v.findStrings else v.findStrings ++ [findUid.comboFind]
  findWord := findUid.checkWords
  findCs := findUid.checkCase
  findBack := findUid.checkBackward
  findLast := v.findLast
  currentItem := v.currentItem

/-- The condition of the loop on the text of an item; `fold` is the folding of case. -/
def isFound (v : FindView t) (fold : Char → Char) (text : String) : Bool :=
  let key := fun (s : String) => if v.findCs then s.toList else s.toList.map fold
  (v.findWord && decide (key text = key v.findString)) ||
    (!v.findWord && decide (key v.findString <:+: key text))

/-- What the loop leaves, having found an item or not. -/
def select (v : FindView t) : Option t.Item → FindView t
  | some cur => { v with currentItem := some cur, findLast := some cur }
  | none => v

/-- The dialog is given where it is to be read again. -/
def asked (v : FindView t) (findUid : Option FindDialog) : FindView t :=
  match findUid with
  | some findUid => v.reevaluate findUid
  | none => v

def startItem (v : FindView t) : t.Item := v.findLast.getD t.beginItem

/-- Move to next item, handle tree wrap-around. -/
def moveOn (v : FindView t) (it : t.Item) : Option t.Item :=
  if v.findBack then
    match Round.following t.items.reverse it with
    | none => t.endItem
    | some item => some item
  else
    match Round.following t.items it with
    | none => some t.beginItem
    | some item => some item

def textFound (fold : Char → Char) (v : FindView t) (item : t.Item) : Bool :=
  (t.subtree item).any fun cur => v.isFound fold cur.value.text

/-- The loop is entered where it moves on from `start`. The result is `none` where `fuel` passes do not end it. -/
def findFrom (fuel : ℕ) (fold : Char → Char) (v : FindView t) : Option (FindView t) :=
  (Loop.run (Round.pass v.moveOn (v.textFound fold) v.startItem) fuel (v.moveOn v.startItem)).map v.select

def find (fuel : ℕ) (fold : Char → Char) (findUid : Option FindDialog) (v : FindView t) : Option (FindView t) :=
  findFrom fuel fold (v.asked findUid)

end FindView

def viewItem (n : TreeNode) : ViewItem := ⟨smiKindToMibNodeType n.nodekind, n.name⟩

/-- What a view shows of a tree of the library. -/
def viewTree (modules : List String) (iso : SmiTree) : ViewTree :=
  .node ⟨.node, "MIB Tree"⟩ [(prune (declaredBy modules) iso).map viewItem]

theorem layout_viewItem (t : SmiTree) (base : ℕ) :
    (layout base t).map (fun mn => (⟨mn.type, mn.text⟩ : ViewItem)) = t.nodes.map viewItem :=
  (layout_map fun _ _ => rfl).1 t base

/-- The iterator of a populated view meets what stands at the addresses, in their order. -/
theorem viewTree_iterate (modules : List String) (iso : SmiTree) (v : BasicMibView) :
    let w := ((v.setDirty.clear).populate (.plain modules) (some iso)).widget
    (viewTree modules iso).addresses.map (fun item => ((viewTree modules iso).subtree item).map value) =
      (w.iterate w.items.length w.topLevel).map fun mn => some (⟨mn.type, mn.text⟩ : ViewItem) := by
  intro w
  have hitems : w.items = ⟨.node, none, "MIB Tree", [1]⟩ :: layout 1 (prune (declaredBy modules) iso) :=
    congrArg TreeWidget.items (populate_items modules iso v)
  have hiterate : w.iterate w.items.length w.topLevel = w.items := iterate_populated modules iso v
  have hlayout := layout_viewItem (prune (declaredBy modules) iso) 1
  rw [hiterate, hitems, map_addresses, viewTree, nodes_node, List.flatMap_cons, List.flatMap_nil, List.append_nil,
    nodes_map, ← hlayout, List.map_cons, List.map_cons, List.map_map]
  rfl

namespace FindView

variable {t : ViewTree}

def searchOrder (v : FindView t) : List t.Item := if v.findBack then t.items.reverse else t.items

theorem searchOrder_nodup (v : FindView t) : v.searchOrder.Nodup := by
  unfold searchOrder
  split
  · exact List.nodup_reverse.mpr t.items_nodup
  · exact t.items_nodup

theorem moveOn_eq (v : FindView t) : v.moveOn = Round.advance v.searchOrder := by
  funext it
  unfold moveOn searchOrder Round.advance
  split
  · rw [← t.endItem_eq]
    cases Round.following t.items.reverse it <;> rfl
  · rw [t.head_items]
    cases Round.following t.items it <;> rfl

/-- What a search through `searched` does about the selection and the place to search from. -/
structure FindsFirst (found : t.Item → Bool) (searched : List t.Item) (v v' : FindView t) : Prop where
  hit : ∀ cur, searched.find? found = some cur → v'.currentItem = some cur ∧ v'.findLast = some cur
  miss : (∀ item ∈ searched, found item = false) → v'.currentItem = v.currentItem ∧ v'.findLast = v.findLast

theorem findFrom_spec (fold : Char → Char) {v : FindView t} {before after : List t.Item}
    (hitems : v.searchOrder = before ++ v.startItem :: after) :
    ∃ fuel v', findFrom fuel fold v = some v' ∧ FindsFirst (v.textFound fold) (after ++ before) v v' := by
  have hrun := Round.run_advance (v.textFound fold) v.searchOrder_nodup hitems
  have hfind : findFrom ((after ++ before).length + 1) fold v =
      some (v.select ((after ++ before).find? (v.textFound fold))) := by
    rw [findFrom, moveOn_eq, hrun, Option.map_some]
  refine ⟨_, _, hfind, fun cur hcur => ?_, fun hnone => ?_⟩
  · rw [hcur]
    exact ⟨rfl, rfl⟩
  · rw [List.find?_eq_none.mpr fun item hitem => by simp [hnone item hitem]]
    exact ⟨rfl, rfl⟩

end FindView

open FindView

/-- The search ends and selects the first other item that matches, in cyclic preorder from the start item on
or back from it. -/
theorem find_spec (fold : Char → Char) (t : ViewTree) (findUid : Option FindDialog) (v : FindView t) :
    ∃ before after, t.items = before ++ v.startItem :: after ∧ v.startItem ∉ before ++ after ∧
      ∃ fuel v', find fuel fold findUid v = some v' ∧
        FindsFirst ((v.asked findUid).textFound fold)
          (if (v.asked findUid).findBack then (after ++ before).reverse else after ++ before) v v' := by
  obtain ⟨before, after, hitems⟩ := List.append_of_mem (List.mem_attach t.addresses v.startItem)
  have hasked : (v.asked findUid).startItem = v.startItem ∧
      (v.asked findUid).currentItem = v.currentItem ∧ (v.asked findUid).findLast = v.findLast := by
    cases findUid <;> exact ⟨rfl, rfl, rfl⟩
  obtain ⟨hstart, hcurrent, hlast⟩ := hasked
  have hnot : v.startItem ∉ before ++ after := by
    have hnodup := t.items_nodup
    rw [ViewTree.items, hitems, List.perm_middle.nodup_iff] at hnodup
    exact (List.nodup_cons.mp hnodup).1
  refine ⟨before, after, hitems, hnot, ?_⟩
  split
  · next hback =>
    have horder : (v.asked findUid).searchOrder = after.reverse ++ (v.asked findUid).startItem :: before.reverse := by
      rw [searchOrder, if_pos hback, ViewTree.items, hitems, hstart]
      simp
    obtain ⟨fuel, v', hfind, hhit, hmiss⟩ := findFrom_spec fold horder
    rw [← List.reverse_append] at hhit hmiss
    exact ⟨fuel, v', hfind, hhit, fun hnone => hcurrent ▸ hlast ▸ hmiss hnone⟩
  · next hforward =>
    have horder : (v.asked findUid).searchOrder = before ++ (v.asked findUid).startItem :: after := by
      rw [searchOrder, if_neg hforward, ViewTree.items, hitems, hstart]
    obtain ⟨fuel, v', hfind, hhit, hmiss⟩ := findFrom_spec fold horder
    exact ⟨fuel, v', hfind, hhit, fun hnone => hcurrent ▸ hlast ▸ hmiss hnone⟩

end SnmpB.Mib
