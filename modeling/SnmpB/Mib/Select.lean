import Mathlib.Data.List.Dedup
import Mathlib.Data.List.Sort
import SnmpB.Library.PrefixInterval
import SnmpB.Mib.Populate
import SnmpB.Oid.Text

/-! # Selecting the item of an OID

`SelectFromOid` walks over the items from the first one on and takes the first whose OID
is the text it is given, or whose OID begins that text and which is a column.
-/
namespace SnmpB.Mib
open RoseTree

namespace MibNode

def getOid (mn : MibNode) : String :=
  match mn.node with
  | some node => node.oid.getPrintable
  -- If the Node is NULL, this is the root node, return the iso OID ...
  | none => "1"

def getKind (mn : MibNode) : MibType := mn.type

/-- The condition of the loop, on one item. -/
def found (oid : String) (mn : MibNode) : Bool :=
  mn.getOid == oid || (mn.getOid.toList.isPrefixOf oid.toList && mn.getKind == .column)

end MibNode

/-- The items a `QTreeWidgetItemIterator` gives: the children of an item come next, before
what is still to be visited. -/
def TreeWidget.iterate (w : TreeWidget) : ℕ → List ℕ → List MibNode
  | 0, _ => []
  | _, [] => []
  | fuel + 1, id :: rest =>
    match w.items[id]? with
    | some cur => cur :: w.iterate fuel (cur.children ++ rest)
    | none => w.iterate fuel rest

/-- The item that becomes current, if any. No item is met twice, so their number is enough fuel. -/
def BasicMibView.selectFromOid (v : BasicMibView) (oid : String) : Option MibNode :=
  (v.widget.iterate v.widget.items.length v.widget.topLevel).find? (MibNode.found oid)

/-- The OIDs of child nodes add one sub-identifier to the OID of their parent, and ascend. -/
@[mk_iff] structure Numbered (oid : Oid) (childOids : List Oid) : Prop where
  below : ∀ c ∈ childOids, ∃ subid, c = oid ++ [subid]
  ascend : childOids.Pairwise (· < ·)

/-- The library numbers the child nodes of a node so. -/
theorem childNodes_numbered (h : SmiHandle) (parent : SmiNode) :
    Numbered parent.oid ((h.childNodes parent).map (·.oid)) := by
  let below := (h.objects.filter fun o => parent.oid.isPrefixOf o.2.oid).filterMap
    fun o => o.2.oid[parent.oid.length]?
  have hnodup : below.dedup.mergeSort.Nodup := (List.mergeSort_perm _ _).nodup_iff.mpr below.nodup_dedup
  have hsorted : below.dedup.mergeSort.Pairwise (· ≤ ·) := List.pairwise_mergeSort' (· ≤ ·) _
  have hsubids : below.dedup.mergeSort.Pairwise (· < ·) :=
    (hsorted.and hnodup).imp fun h => lt_of_le_of_ne h.1 h.2
  have hfirst : (h.childNodes parent).map (·.oid) <+: below.dedup.mergeSort.map (parent.oid ++ [·]) :=
    SmiHandle.siblings_oids h parent.oid parent.moduleName _
  constructor
  case below =>
    intro c hc
    obtain ⟨subid, -, rfl⟩ := List.mem_map.mp (hfirst.subset hc)
    exact ⟨subid, rfl⟩
  case ascend =>
    refine List.Pairwise.sublist hfirst.sublist (List.pairwise_map.mpr (hsubids.imp ?_))
    intro i j hij
    rw [PrefixInterval.append_lt_append_iff, List.cons_lt_cons_iff]
    exact Or.inl hij

/-- The tree of the library below `iso`. -/
structure OidTree where
  iso : SmiTree
  root : iso.value.oid = [1]
  numbered : iso.Everywhere fun n childNodes => Numbered n.oid (childNodes.map (·.oid))

/-- The preorder of the tree is the order of the OIDs. -/
theorem nodes_ascend {t : SmiTree}
    (h : t.Everywhere fun n childNodes => Numbered n.oid (childNodes.map (·.oid))) :
    (∀ n ∈ t.nodes, t.value.oid <+: n.oid) ∧ t.nodes.Pairwise fun a b => a.oid < b.oid := by
  induction t using RoseTree.induct with
  | node n cs ih =>
    obtain ⟨⟨hbelow, hascend⟩, hchildren⟩ := everywhere_node.mp h
    have hextends : ∀ c ∈ cs, ∀ x ∈ c.nodes, c.value.oid <+: x.oid := fun c hc =>
      (ih c hc (hchildren c hc)).1
    have hsubid : ∀ c ∈ cs, ∃ subid, c.value.oid = n.oid ++ [subid] := fun c hc =>
      hbelow c.value.oid (List.mem_map_of_mem (List.mem_map_of_mem hc))
    have hroot : ∀ x ∈ cs.flatMap nodes, n.oid <+: x.oid ∧ n.oid < x.oid := by
      intro x hx
      obtain ⟨c, hc, hx⟩ := List.mem_flatMap.mp hx
      obtain ⟨subid, hvalue⟩ := hsubid c hc
      have hprefix := hextends c hc x hx
      rw [hvalue] at hprefix
      refine ⟨(List.prefix_append _ _).trans hprefix, PrefixInterval.root_lt
        ((List.prefix_append _ _).trans hprefix) fun heq => ?_⟩
      have hlength := hprefix.length_le
      rw [heq, List.length_append, List.length_singleton] at hlength
      omega
    rw [nodes_node, value_node]
    constructor
    · rintro x (_ | ⟨_, hx⟩)
      · exact List.prefix_rfl
      · exact (hroot x hx).1
    · rw [List.pairwise_cons, List.pairwise_flatMap]
      refine ⟨fun x hx => (hroot x hx).2, fun c hc => (ih c hc (hchildren c hc)).2, ?_⟩
      rw [List.map_map, List.pairwise_map] at hascend
      refine hascend.imp_of_mem ?_
      intro a b ha hb hab x hx y hy
      obtain ⟨i, hi⟩ := hsubid a ha
      obtain ⟨j, hj⟩ := hsubid b hb
      have hx := hextends a ha x hx
      have hy := hextends b hb y hy
      rw [Function.comp_apply, Function.comp_apply, hi, hj, PrefixInterval.append_lt_append_iff,
        List.cons_lt_cons_iff] at hab
      have hij : i < j := hab.resolve_right fun h => List.not_lt_nil _ h.2
      rw [hi] at hx
      rw [hj] at hy
      exact PrefixInterval.append_singleton_lt hij hx hy

/-- Ascending OIDs are distinct. -/
def OidTree.forest (f : OidTree) : SmiForest where
  iso := f.iso
  distinct := List.pairwise_map.mpr ((nodes_ascend f.numbered).2.imp ne_of_lt)

/-- A node of a module with one table. -/
def demoNode (name : String) (oid : Oid) (nodekind : SmiNodekind) : TreeNode :=
  { name, oid, nodekind, type := none, moduleName := "DEMO-MIB", status := .current,
    isModuleIdentity := false }

/-- The first and the tenth column of a table. -/
def demoTree : OidTree where
  iso := .node (demoNode "iso" [1] .node) [.node (demoNode "demoTable" [1, 3] .table)
    [.node (demoNode "demoEntry" [1, 3, 1] .row)
      [.node (demoNode "demoIndex" [1, 3, 1, 1] .column) [],
        .node (demoNode "demoOctets" [1, 3, 1, 10] .column) []]]]
  root := rfl
  numbered := by
    have hcolumns : ([1] : List ℕ) < [10] := by decide
    simpa [everywhere_node, numbered_iff, demoNode] using hcolumns

def orgNode : TreeNode := { demoNode "org" [1, 3] .node with moduleName := "ORG-MIB" }
def memberBodyNode : TreeNode := { demoNode "member-body" [1, 2] .node with moduleName := "ORG-MIB" }

/-- Two nodes of a module of which one leads to a node of another. -/
def orgTree : OidTree where
  iso := .node { demoNode "iso" [1] .node with moduleName := "" } [.node memberBodyNode [],
    .node orgNode [.node (demoNode "demo" [1, 3, 6] .node) []]]
  root := rfl
  numbered := by
    have hnodes : ([2] : List ℕ) < [3] := by decide
    simpa [everywhere_node, numbered_iff, demoNode, orgNode, memberBodyNode] using hnodes

/-- What leads to the node of the loaded module is shown, and what does not is not. -/
theorem populate_law_org : ∃ shown : SmiTree,
    (((⟨true, .empty⟩ : BasicMibView).setDirty.clear).populate (.plain ["DEMO-MIB"])
      (some orgTree.iso)).widget.ShowsTree shown ∧ orgNode ∈ shown.nodes ∧ memberBodyNode ∉ shown.nodes := by
  obtain ⟨shown, hshows, -, -, hnodes, -, -⟩ := populate_law ["DEMO-MIB"] orgTree.forest ⟨true, .empty⟩
  refine ⟨shown, hshows, (hnodes _).mpr ⟨by decide, Or.inr ⟨demoNode "demo" [1, 3, 6] .node, ?_, by decide⟩⟩, fun h => ?_⟩
  · exact Relation.ReflTransGen.single (by decide : (orgNode, demoNode "demo" [1, 3, 6] .node) ∈ orgTree.iso.edges)
  · have hleaf : ∀ e ∈ orgTree.iso.edges, e.1 ≠ memberBodyNode := by decide
    obtain ⟨-, hroot | ⟨d, hreach, hdeclared⟩⟩ := (hnodes _).mp h
    · revert hroot
      decide
    · rcases Relation.ReflTransGen.cases_head hreach with rfl | ⟨c, hedge, -⟩
      · revert hdeclared
        decide
      · exact hleaf _ hedge rfl

namespace TreeWidget

/-- The iterator gives a tree in the order its items were made. -/
theorem iterate_layout (w : TreeWidget) :
    (∀ (t : SmiTree) {before after : List MibNode}, w.items = before ++ layout before.length t ++ after →
        ∀ (fuel : ℕ) (rest : List ℕ), w.iterate (t.nodes.length + fuel) (before.length :: rest) =
          layout before.length t ++ w.iterate fuel rest) ∧
      ∀ (cs : List SmiTree) {before after : List MibNode},
        w.items = before ++ layoutAll before.length cs ++ after →
        ∀ (fuel : ℕ) (rest : List ℕ),
          w.iterate ((cs.flatMap nodes).length + fuel) (childIds before.length cs ++ rest) =
            layoutAll before.length cs ++ w.iterate fuel rest := by
  refine inductAll ?node ?nil ?cons
  case node =>
    intro n cs ih before after h fuel rest
    obtain ⟨item, hitem, hsplit⟩ := layout_split before after n cs
    have hget : w.items[before.length]? = some item := by
      rw [h, hsplit]
      simp
    have hfuel : (node n cs).nodes.length + fuel = (cs.flatMap nodes).length + fuel + 1 := by
      rw [nodes_node, List.length_cons]
      omega
    have hbelow := ih (h.trans hsplit) fuel rest
    rw [List.length_append, List.length_singleton] at hbelow
    rw [hfuel, iterate, hget, layout, List.cons_append, ← hitem, ← hbelow, hitem]
    rfl
  case nil =>
    intro before after _ fuel rest
    simp [childIds, layoutAll]
  case cons =>
    intro c cs hc hcs before after h fuel rest
    obtain ⟨hfirst, hrest⟩ := layoutAll_split before after c cs
    have hbelow := hcs (h.trans hrest) fuel rest
    rw [List.length_append, layout_length] at hbelow
    rw [List.flatMap_cons, List.length_append, Nat.add_assoc, childIds, List.cons_append,
      hc (h.trans hfirst), hbelow, layoutAll, List.append_assoc]

end TreeWidget

open TreeWidget

/-- In a populated view the iterator meets every item once, in the order they were made. -/
theorem iterate_populated (modules : List String) (iso : SmiTree) (v : BasicMibView) :
    let w := ((v.setDirty.clear).populate (.plain modules) (some iso)).widget
    w.iterate w.items.length w.topLevel = w.items := by
  intro w
  have hw : w = ⟨⟨.node, none, "MIB Tree", [1]⟩ :: layout 1 (prune (declaredBy modules) iso), [0]⟩ :=
    populate_items modules iso v
  have hitems : w.items = [⟨.node, none, "MIB Tree", [1]⟩] ++
      layout 1 (prune (declaredBy modules) iso) ++ [] := by
    rw [hw, List.append_nil]
    rfl
  have hlayout := (iterate_layout w).1 (prune (declaredBy modules) iso) hitems 0 []
  rw [hw] at hlayout ⊢
  rw [List.length_cons, layout_length, iterate]
  exact congrArg _ (hlayout.trans (List.append_nil _))

namespace MibNode

/-- The OID an item stands for. -/
def oid (mn : MibNode) : Oid :=
  match mn.node with
  | some node => node.oid
  | none => [1]

theorem getOid_eq (mn : MibNode) : mn.getOid = mn.oid.getPrintable := by
  rw [getOid, oid]
  cases mn.node <;> rfl

theorem found_iff {mn : MibNode} {o : Oid} :
    mn.found o.getPrintable = true ↔
      mn.oid = o ∨ (mn.type = .column ∧ Oid.dotted mn.oid <+: Oid.dotted o) := by
  rw [found, getOid_eq, Bool.or_eq_true, Bool.and_eq_true, beq_iff_eq, beq_iff_eq,
    Oid.getPrintable_inj, List.isPrefixOf_iff_prefix, and_comm (b := mn.getKind = .column)]
  simp only [Oid.getPrintable, String.toList_ofList, getKind]

end MibNode

theorem layout_oids (t : SmiTree) (base : ℕ) : (layout base t).map MibNode.oid = t.nodes.map (·.oid) :=
  (layout_map fun _ _ => rfl).1 t base

/-- The items of a populated view stand in the order of their OIDs. -/
theorem items_ascend (modules : List String) (f : OidTree) (v : BasicMibView) :
    ((v.setDirty.clear).populate (.plain modules) (some f.iso)).widget.items.Pairwise
      fun a b => a.oid ≤ b.oid := by
  obtain ⟨hbelow, hascend⟩ := nodes_ascend f.numbered
  have hshown := prune_nodes_sublist (P := declaredBy modules) f.iso
  have hoids : ((layout 1 (prune (declaredBy modules) f.iso)).map MibNode.oid).Pairwise (· ≤ ·) := by
    rw [layout_oids, List.pairwise_map]
    exact (hascend.sublist hshown).imp fun h => h.le
  rw [populate_items, List.pairwise_cons]
  refine ⟨fun item hitem => ?_, List.pairwise_map.mp hoids⟩
  have hmem : item.oid ∈ (prune (declaredBy modules) f.iso).nodes.map (·.oid) := by
    rw [← layout_oids _ 1]
    exact List.mem_map_of_mem hitem
  obtain ⟨n, hn, hoid⟩ := List.mem_map.mp hmem
  have hroot := hbelow n (hshown.subset hn)
  rw [f.root, hoid] at hroot
  exact PrefixInterval.root_le hroot

/-- What is to be selected: the item of the OID, failing that a column that is a prefix of
it, failing that nothing. -/
def SelectsBest (items : List MibNode) (oid : Oid) : Option MibNode → Prop
  | some item => item ∈ items ∧
      (item.oid = oid ∨ (∀ i ∈ items, i.oid ≠ oid) ∧ item.type = .column ∧ item.oid <+: oid)
  | none => ∀ i ∈ items, i.oid ≠ oid ∧ ¬ (i.type = .column ∧ i.oid <+: oid)

/-- A column whose text begins that of the OID is the item of the OID; or there is no such
item, and the column is or lies below one that is a prefix of the OID. -/
def ColumnsApart (items : List MibNode) (oid : Oid) : Prop :=
  ∀ c ∈ items, c.type = .column → Oid.dotted c.oid <+: Oid.dotted oid →
    c.oid = oid ∨ (∀ i ∈ items, i.oid ≠ oid) ∧
      ∃ d ∈ items, d.type = .column ∧ d.oid <+: c.oid ∧ d.oid <+: oid

theorem selectsBest_of_columnsApart {items : List MibNode} {oid : Oid}
    (hsorted : items.Pairwise fun a b => a.oid ≤ b.oid) (h : ColumnsApart items oid) :
    SelectsBest items oid (items.find? (MibNode.found oid.getPrintable)) := by
  cases hfind : items.find? (MibNode.found oid.getPrintable) with
  | none =>
    rw [List.find?_eq_none] at hfind
    intro i hi
    have hnot := hfind i hi
    rw [MibNode.found_iff, not_or] at hnot
    exact ⟨hnot.1, fun hcolumn => hnot.2 ⟨hcolumn.1, Oid.dotted_prefix hcolumn.2⟩⟩
  | some item =>
    have hmem := List.mem_of_find?_eq_some hfind
    refine ⟨hmem, ?_⟩
    rcases MibNode.found_iff.mp (List.find?_some hfind) with hown | ⟨hcolumn, htext⟩
    · exact Or.inl hown
    · rcases h item hmem hcolumn htext with hown | ⟨hnone, d, hd, hdcolumn, hbelow, hprefix⟩
      · exact Or.inl hown
      · -- the column above is met as well, so it is not after the first item met
        have hdfound : MibNode.found oid.getPrintable d = true :=
          MibNode.found_iff.mpr (Or.inr ⟨hdcolumn, Oid.dotted_prefix hprefix⟩)
        have hle : item.oid ≤ d.oid := PrefixInterval.find?_le hsorted hfind hd hdfound
        have heq : item.oid = d.oid := hle.antisymm (PrefixInterval.root_le hbelow)
        rw [← heq] at hprefix
        exact Or.inr ⟨hnone, hcolumn, hprefix⟩

theorem columnsApart_of_selectsBest {items : List MibNode} {oid : Oid}
    (hsorted : items.Pairwise fun a b => a.oid ≤ b.oid)
    (h : SelectsBest items oid (items.find? (MibNode.found oid.getPrintable))) :
    ColumnsApart items oid := by
  intro c hc hcolumn htext
  by_cases hown : c.oid = oid
  · exact Or.inl hown
  have hcfound : MibNode.found oid.getPrintable c = true :=
    MibNode.found_iff.mpr (Or.inr ⟨hcolumn, htext⟩)
  cases hfind : items.find? (MibNode.found oid.getPrintable) with
  | none =>
    rw [List.find?_eq_none] at hfind
    exact absurd hcfound (hfind c hc)
  | some item =>
    rw [hfind] at h
    have hle : item.oid ≤ c.oid := PrefixInterval.find?_le hsorted hfind hc hcfound
    have hlt : c.oid < oid := Oid.lt_of_dotted_prefix htext hown
    rcases h with ⟨hmem, hexact | ⟨hnone, hitem, hprefix⟩⟩
    · exact absurd hexact (hle.trans_lt hlt).ne
    · refine Or.inr ⟨hnone, item, hmem, hitem, ?_, hprefix⟩
      rcases hle.eq_or_lt with heq | hbefore
      · exact heq ▸ List.prefix_rfl
      · exact PrefixInterval.isPrefix_of_between hprefix hbefore hlt

/-- The first item met is the right one exactly if no column stands in its way. -/
theorem selectFromOid_best_iff (modules : List String) (f : OidTree) (v : BasicMibView) (oid : Oid) :
    let view := (v.setDirty.clear).populate (.plain modules) (some f.iso)
    SelectsBest view.widget.items oid (view.selectFromOid oid.getPrintable) ↔
      ColumnsApart view.widget.items oid := by
  intro view
  have hsorted := items_ascend modules f v
  have hfind : view.selectFromOid oid.getPrintable =
      view.widget.items.find? (MibNode.found oid.getPrintable) :=
    congrArg _ (iterate_populated modules f.iso v)
  rw [hfind]
  exact ⟨columnsApart_of_selectsBest hsorted, selectsBest_of_columnsApart hsorted⟩

theorem column_by_text_selected :
    ¬ ∀ (modules : List String) (f : OidTree) (v : BasicMibView) (oid : Oid),
      let view := (v.setDirty.clear).populate (.plain modules) (some f.iso)
      SelectsBest view.widget.items oid (view.selectFromOid oid.getPrintable) := by
  intro h
  let view := ((⟨true, .empty⟩ : BasicMibView).setDirty.clear).populate (.plain ["DEMO-MIB"])
    (some demoTree.iso)
  have hbest : SelectsBest view.widget.items [1, 3, 1, 10, 5]
      (view.selectFromOid (Oid.getPrintable [1, 3, 1, 10, 5])) := h _ demoTree _ _
  have hselected : view.selectFromOid (Oid.getPrintable [1, 3, 1, 10, 5]) =
      some (TreeWidget.itemOf (demoNode "demoIndex" [1, 3, 1, 1] .column) []) := by decide
  rw [hselected] at hbest
  obtain ⟨-, hown | ⟨-, -, hprefix⟩⟩ := hbest
  · exact absurd hown (by decide)
  · exact absurd hprefix (by decide)

end SnmpB.Mib
