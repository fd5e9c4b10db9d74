import SnmpB.Mib.View

/-! # What the view shows

With both options off the view below `iso` is the tree of the library pruned to the
nodes of loaded modules and what leads to them.
-/
namespace SnmpB.Mib
open RoseTree

/-- The loader as the program uses it: neither option is ever set. -/
def MibViewLoader.plain (modules : List String) : MibViewLoader := ⟨modules, false, false⟩

/-- Declared by one of the loaded modules. -/
def declaredBy (modules : List String) (n : TreeNode) : Bool := modules.contains n.moduleName

theorem pruneSubTree_node (modules : List String) (n : TreeNode) (cs : List SmiTree) :
    (MibViewLoader.plain modules).pruneSubTree (.node n cs) =
      (!declaredBy modules n && (MibViewLoader.plain modules).pruneChildren cs) := by
  simp only [MibViewLoader.pruneSubTree, MibViewLoader.plain, Bool.false_and, Bool.false_eq_true,
    ↓reduceIte, Bool.not_false, Bool.true_or, Bool.and_true, MibViewLoader.isPartOfLoadedModules,
    declaredBy]
  cases modules.contains n.moduleName <;> rfl

theorem pruneChildren_cons (modules : List String) (c : SmiTree) (cs : List SmiTree) :
    (MibViewLoader.plain modules).pruneChildren (c :: cs) =
      ((MibViewLoader.plain modules).pruneSubTree c &&
        (MibViewLoader.plain modules).pruneChildren cs) := by
  have hleafs : (MibViewLoader.plain modules).ignoreleafs = false := rfl
  simp only [MibViewLoader.pruneChildren, hleafs, Bool.false_and, Bool.false_eq_true, ↓reduceIte]
  cases (MibViewLoader.plain modules).pruneSubTree c <;> rfl

/-- A subtree is cut off exactly if no loaded module declares a node of it. -/
theorem pruneSubTree_plain (modules : List String) :
    (∀ t : SmiTree, (MibViewLoader.plain modules).pruneSubTree t = !t.nodes.any (declaredBy modules)) ∧
      ∀ cs : List SmiTree, (MibViewLoader.plain modules).pruneChildren cs =
        !(cs.flatMap nodes).any (declaredBy modules) := by
  refine inductAll ?node ?nil ?cons
  case node =>
    intro n cs ih
    rw [pruneSubTree_node, ih, nodes_node, List.any_cons, Bool.not_or]
  case nil => rfl
  case cons =>
    intro c cs hc hcs
    rw [pruneChildren_cons, hc, hcs, List.flatMap_cons, List.any_append, Bool.not_or]

namespace TreeWidget

/-- Putting an item behind the last one shown appends it. -/
theorem insertAfter_last {children : List ℕ} (hnodup : children.Nodup) (item : ℕ) :
    insertAfter children children.getLast? item = children ++ [item] := by
  rcases List.eq_nil_or_concat children with rfl | ⟨before, last, rfl⟩
  · rfl
  · have hlast : last ∉ before := by
      rw [List.concat_eq_append, List.nodup_append] at hnodup
      exact fun h => hnodup.2.2 last h last List.mem_cons_self rfl
    have hindex : (before ++ [last]).idxOf last = before.length := by
      rw [List.idxOf_append_of_notMem hlast, List.idxOf_cons_self, Nat.add_zero]
    have hlength : before.length + 1 = (before ++ [last]).length := by simp
    have hmem : last ∈ before ++ [last] := List.mem_append_right _ List.mem_cons_self
    simp only [insertAfter, List.concat_eq_append, List.getLast?_append, List.getLast?_singleton,
      Option.some_or]
    rw [if_pos hmem, hindex, hlength, List.insertIdx_length_self]

/-- The item made for a node. -/
def itemOf (n : TreeNode) (children : List ℕ) : MibNode :=
  ⟨smiKindToMibNodeType n.nodekind, some n, n.name, children⟩

/-- The numbers of the children when their items are made from `base` on. -/
def childIds : ℕ → List SmiTree → List ℕ
  | _, [] => []
  | base, c :: cs => base :: childIds (base + c.nodes.length) cs

mutual

/-- The items of a tree in the order they are made, from the number `base` on. -/
def layout (base : ℕ) : SmiTree → List MibNode
  | .node n cs => itemOf n (childIds (base + 1) cs) :: layoutAll (base + 1) cs

def layoutAll (base : ℕ) : List SmiTree → List MibNode
  | [] => []
  | c :: cs => layout base c ++ layoutAll (base + c.nodes.length) cs

end

/-- What the items have from their nodes stands in the order of the nodes. -/
theorem layout_map {β : Type*} {key : MibNode → β} {value : TreeNode → β}
    (h : ∀ n children, key (itemOf n children) = value n) :
    (∀ (t : SmiTree) (base : ℕ), (layout base t).map key = t.nodes.map value) ∧
      ∀ (cs : List SmiTree) (base : ℕ), (layoutAll base cs).map key = (cs.flatMap nodes).map value := by
  refine inductAll ?node ?nil ?cons
  case node =>
    intro n cs ih base
    rw [layout, List.map_cons, ih, nodes_node, List.map_cons, h]
  case nil => exact fun _ => rfl
  case cons =>
    intro c cs hc hcs base
    rw [layoutAll, List.map_append, hc, hcs, List.flatMap_cons, List.map_append]

theorem layout_length (t : SmiTree) (base : ℕ) : (layout base t).length = t.nodes.length := by
  have hunits : (layout base t).map (fun _ => ()) = t.nodes.map fun _ => () := (layout_map fun _ _ => rfl).1 t base
  simpa using congrArg List.length hunits

theorem layout_ne_nil (base : ℕ) (t : SmiTree) : layout base t ≠ [] := by
  cases t with
  | node n cs => exact List.cons_ne_nil _ _

/-- Items `more` appended to the children of `parent`, and `fresh` ones made. -/
def grow (w : TreeWidget) (parent : ℕ) (more : List ℕ) (fresh : List MibNode) : TreeWidget :=
  { w with
    items := w.items.modify parent (fun p => { p with children := p.children ++ more }) ++ fresh }

@[simp] theorem grow_length (w : TreeWidget) (parent : ℕ) (more : List ℕ) (fresh : List MibNode) :
    (w.grow parent more fresh).items.length = w.items.length + fresh.length := by
  rw [grow, List.length_append, List.length_modify]

theorem grow_nil (w : TreeWidget) (parent : ℕ) : w.grow parent [] [] = w := by
  have hid : (fun p : MibNode => { p with children := p.children ++ [] }) = id := by
    funext p
    simp
  rw [grow, hid, List.modify_id, List.append_nil]

theorem modify_append_left {l : List MibNode} {i : ℕ} (h : i < l.length) (m : List MibNode)
    (f : MibNode → MibNode) : (l ++ m).modify i f = l.modify i f ++ m := by
  induction l generalizing i with
  | nil => exact absurd h (Nat.not_lt_zero i)
  | cons x l ih =>
    cases i with
    | zero => rfl
    | succ i =>
      rw [List.cons_append, List.modify_succ_cons, ih (Nat.lt_of_succ_lt_succ h),
        List.modify_succ_cons, List.cons_append]

theorem modify_append_length (l m : List MibNode) (x : MibNode) (f : MibNode → MibNode) :
    (l ++ x :: m).modify l.length f = l ++ f x :: m := by
  induction l with
  | nil => rfl
  | cons y l ih =>
    rw [List.cons_append, List.length_cons, List.modify_succ_cons, ih, List.cons_append]

theorem grow_grow {w : TreeWidget} {parent : ℕ} (hparent : parent < w.items.length)
    (more more' : List ℕ) (fresh fresh' : List MibNode) :
    (w.grow parent more fresh).grow parent more' fresh' =
      w.grow parent (more ++ more') (fresh ++ fresh') := by
  have hlt : parent < (w.items.modify parent
      fun p => { p with children := p.children ++ more }).length := by
    rwa [List.length_modify]
  simp only [grow, modify_append_left hlt, List.modify_modify_eq, List.append_assoc,
    Function.comp_def]

/-- What is made below the item made last. -/
theorem grow_below (w : TreeWidget) (parent : ℕ) (more ids : List ℕ) (n : TreeNode)
    (fresh : List MibNode) :
    (w.grow parent more [itemOf n []]).grow w.items.length ids fresh =
      w.grow parent more (itemOf n ids :: fresh) := by
  simp only [grow, TreeWidget.mk.injEq, and_true]
  have hlength : (w.items.modify parent
      fun p => { p with children := p.children ++ more }).length = w.items.length :=
    List.length_modify ..
  rw [← hlength, modify_append_length, List.append_assoc]
  rfl

/-- `item` is the item of `parent`, and `prev` is the last of its children. -/
structure Ready (w : TreeWidget) (parent : ℕ) (prev : Option ℕ) (item : MibNode) : Prop where
  found : w.items[parent]? = some item
  last : prev = item.children.getLast?
  nodup : item.children.Nodup
  made : ∀ i ∈ item.children, i < w.items.length

theorem Ready.lt {w : TreeWidget} {parent : ℕ} {prev : Option ℕ} {item : MibNode}
    (h : w.Ready parent prev item) : parent < w.items.length :=
  (List.getElem?_eq_some_iff.mp h.found).1

theorem Ready.addNode {w : TreeWidget} {parent : ℕ} {prev : Option ℕ} {item : MibNode}
    (h : w.Ready parent prev item) (n : TreeNode) :
    w.addNode (smiKindToMibNodeType n.nodekind) n parent prev =
      w.grow parent [w.items.length] [itemOf n []] := by
  have hinsert : insertAfter item.children prev w.items.length =
      item.children ++ [w.items.length] := by
    rw [h.last]
    exact insertAfter_last h.nodup _
  have hmodify : w.items.modify parent
      (fun p => { p with children := insertAfter p.children prev w.items.length }) =
      w.items.modify parent (fun p => { p with children := p.children ++ [w.items.length] }) := by
    apply List.ext_getElem?
    intro i
    by_cases hi : parent = i
    · subst hi
      rw [List.getElem?_modify_eq, List.getElem?_modify_eq, h.found, Option.map_eq_map,
        Option.map_eq_map, Option.map_some, Option.map_some, hinsert]
    · rw [List.getElem?_modify_ne _ _ hi, List.getElem?_modify_ne _ _ hi]
  rw [TreeWidget.addNode, hmodify]
  rfl

theorem Ready.next {w : TreeWidget} {parent : ℕ} {prev : Option ℕ} {item : MibNode}
    (h : w.Ready parent prev item) {fresh : List MibNode} (hfresh : fresh ≠ []) :
    (w.grow parent [w.items.length] fresh).Ready parent (some w.items.length)
      { item with children := item.children ++ [w.items.length] } := by
  have hpos := List.length_pos_iff.mpr hfresh
  constructor
  · have hlt : parent < (w.items.modify parent fun p =>
        { p with children := p.children ++ [w.items.length] }).length := by
      simpa using h.lt
    rw [grow, List.getElem?_append_left hlt, List.getElem?_modify_eq, h.found]
    rfl
  · simp
  · rw [List.nodup_append]
    refine ⟨h.nodup, List.nodup_singleton _, ?_⟩
    rintro i hi _ hlast rfl
    exact absurd (List.mem_singleton.mp hlast) (h.made i hi).ne
  · intro i hi
    rw [grow_length]
    rcases List.mem_append.mp hi with hi | hi
    · exact (h.made i hi).trans (by omega)
    · rw [List.mem_singleton.mp hi]
      omega

theorem ready_made (w : TreeWidget) (parent : ℕ) (more : List ℕ) (n : TreeNode) :
    (w.grow parent more [itemOf n []]).Ready w.items.length none (itemOf n []) := by
  constructor
  · simp [grow]
  · rfl
  · exact List.nodup_nil
  · exact fun i hi => absurd hi List.not_mem_nil

end TreeWidget

open TreeWidget

theorem populate_plain (modules : List String) :
    (∀ (t : SmiTree) {w : TreeWidget} {parent : ℕ} {prev : Option ℕ} {item : MibNode},
        w.Ready parent prev item →
        (MibViewLoader.plain modules).populateSubTree t parent prev w =
          (w.items.length, w.grow parent [w.items.length]
            (layout w.items.length (prune (declaredBy modules) t)))) ∧
      ∀ (cs : List SmiTree) {w : TreeWidget} {current : ℕ} {prev : Option ℕ} {item : MibNode},
        w.Ready current prev item →
        (MibViewLoader.plain modules).populateChildren cs current prev w =
          w.grow current (childIds w.items.length (pruneAll (declaredBy modules) cs))
            (layoutAll w.items.length (pruneAll (declaredBy modules) cs)) := by
  refine inductAll ?node ?nil ?cons
  case node =>
    intro n cs ih w parent prev item h
    rw [MibViewLoader.populateSubTree, h.addNode n, ih (ready_made w parent _ n), grow_below,
      grow_length, List.length_singleton]
    rfl
  case nil =>
    intro w current prev item _
    exact (grow_nil w current).symm
  case cons =>
    intro c cs hc hcs w current prev item h
    rw [MibViewLoader.populateChildren, (pruneSubTree_plain modules).1, pruneAll]
    by_cases hany : c.nodes.any (declaredBy modules) = true
    · have hfresh : layout w.items.length (prune (declaredBy modules) c) ≠ [] := layout_ne_nil _ _
      rw [if_pos hany, if_neg (by simp [hany]), hc h]
      rw [hcs (h.next hfresh), grow_grow h.lt, grow_length, layout_length]
      rfl
    · rw [if_neg hany, if_pos (by simp [hany])]
      exact hcs h

namespace TreeWidget

mutual

/-- The item `id` and the items below it are the tree, in its order. -/
def Shows (w : TreeWidget) : SmiTree → ℕ → Prop
  | .node n cs, id => ∃ ids, w.items[id]? = some (itemOf n ids) ∧ ShowsAll w cs ids

def ShowsAll (w : TreeWidget) : List SmiTree → List ℕ → Prop
  | [], ids => ids = []
  | c :: cs, ids => ∃ id rest, ids = id :: rest ∧ Shows w c id ∧ ShowsAll w cs rest

end

theorem layout_split (before after : List MibNode) (n : TreeNode) (cs : List SmiTree) :
    ∃ item : MibNode, item = itemOf n (childIds (before.length + 1) cs) ∧
      before ++ layout before.length (.node n cs) ++ after =
        (before ++ [item]) ++ layoutAll (before ++ [item]).length cs ++ after := by
  refine ⟨_, rfl, ?_⟩
  rw [layout, List.length_append, List.length_singleton]
  simp only [List.append_assoc, List.cons_append, List.nil_append]

theorem layoutAll_split (before after : List MibNode) (c : SmiTree) (cs : List SmiTree) :
    before ++ layoutAll before.length (c :: cs) ++ after =
        before ++ layout before.length c ++ (layoutAll (before.length + c.nodes.length) cs ++ after) ∧
      before ++ layoutAll before.length (c :: cs) ++ after =
        (before ++ layout before.length c) ++
          layoutAll (before ++ layout before.length c).length cs ++ after := by
  rw [layoutAll, List.length_append, layout_length]
  simp only [List.append_assoc, and_self]

theorem shows_layout (w : TreeWidget) :
    (∀ (t : SmiTree) {before after : List MibNode}, w.items = before ++ layout before.length t ++ after →
        w.Shows t before.length) ∧
      ∀ (cs : List SmiTree) {before after : List MibNode},
        w.items = before ++ layoutAll before.length cs ++ after →
        w.ShowsAll cs (childIds before.length cs) := by
  refine inductAll ?node ?nil ?cons
  case node =>
    intro n cs ih before after h
    obtain ⟨item, hitem, hsplit⟩ := layout_split before after n cs
    refine ⟨childIds (before.length + 1) cs, ?_, ?_⟩
    · rw [h, hsplit, ← hitem]
      simp
    · have hshows := ih (h.trans hsplit)
      rwa [List.length_append, List.length_singleton] at hshows
  case nil => exact fun _ => rfl
  case cons =>
    intro c cs hc hcs before after h
    obtain ⟨hfirst, hrest⟩ := layoutAll_split before after c cs
    refine ⟨before.length, childIds (before.length + c.nodes.length) cs, rfl, hc (h.trans hfirst), ?_⟩
    have hshows := hcs (h.trans hrest)
    rwa [List.length_append, layout_length] at hshows

/-- The widget holds the root folder and below it the tree. -/
def ShowsTree (w : TreeWidget) (t : SmiTree) : Prop :=
  ∃ root id, w.topLevel = [root] ∧ w.items[root]? = some ⟨.node, none, "MIB Tree", [id]⟩ ∧
    w.Shows t id

end TreeWidget

/-- A tree of the library: no OID occurs twice. -/
structure SmiForest where
  iso : SmiTree
  distinct : (iso.nodes.map (·.oid)).Nodup

theorem SmiForest.nodup (f : SmiForest) : f.iso.nodes.Nodup := List.Nodup.of_map _ f.distinct

/-- The items of the view, in the order they are made. -/
theorem populate_items (modules : List String) (iso : SmiTree) (v : BasicMibView) :
    ((v.setDirty.clear).populate (.plain modules) (some iso)).widget =
      ⟨⟨.node, none, "MIB Tree", [1]⟩ :: layout 1 (prune (declaredBy modules) iso), [0]⟩ := by
  have hready : (TreeWidget.empty.addRoot "MIB Tree").Ready 0 none ⟨.node, none, "MIB Tree", []⟩ :=
    ⟨rfl, rfl, List.nodup_nil, fun i hi => absurd hi List.not_mem_nil⟩
  exact congrArg Prod.snd ((populate_plain modules).1 iso hready)

theorem populate_pruned (modules : List String) (iso : SmiTree) (v : BasicMibView) :
    ((v.setDirty.clear).populate (.plain modules) (some iso)).widget.ShowsTree
      (prune (declaredBy modules) iso) := by
  rw [populate_items]
  have hshows := (shows_layout ⟨⟨.node, none, "MIB Tree", [1]⟩ ::
    layout 1 (prune (declaredBy modules) iso), [0]⟩).1 (prune (declaredBy modules) iso)
    (List.append_nil ([⟨.node, none, "MIB Tree", [1]⟩] ++ layout 1 _)).symm
  exact ⟨0, 1, rfl, rfl, hshows⟩

/-- The view after a reload: exactly `iso` and the nodes that a loaded module declares or that
lead to one, each once, with the parents and the order of the siblings they have in the library. -/
theorem populate_law (modules : List String) (f : SmiForest) (v : BasicMibView) :
    ∃ shown : SmiTree,
      ((v.setDirty.clear).populate (.plain modules) (some f.iso)).widget.ShowsTree shown ∧
      shown.value = f.iso.value ∧ shown.nodes.Nodup ∧
      (∀ n, n ∈ shown.nodes ↔
        n ∈ f.iso.nodes ∧ (n = f.iso.value ∨ f.iso.Holds (declaredBy modules) n)) ∧
      (∀ p n, shown.Edge p n ↔ f.iso.Edge p n ∧ n ∈ shown.nodes) ∧
      shown.edges.Sublist f.iso.edges := by
  refine ⟨prune (declaredBy modules) f.iso, populate_pruned modules f.iso v, prune_value _,
    prune_nodes_nodup f.nodup, fun n => mem_prune_nodes f.nodup, fun p n => ?_,
    prune_edges_sublist _⟩
  rw [Edge, Edge, mem_prune_edges f.nodup, mem_prune_nodes f.nodup]
  constructor
  · rintro ⟨hedge, hholds⟩
    exact ⟨hedge, (edge_mem_nodes hedge).2, Or.inr hholds⟩
  · rintro ⟨hedge, -, rfl | hholds⟩
    · exact absurd hedge (not_edge_value f.nodup p)
    · exact ⟨hedge, hholds⟩

end SnmpB.Mib
