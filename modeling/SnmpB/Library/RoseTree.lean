import Mathlib.Logic.Relation
import Mathlib.Data.List.Flatten
import Mathlib.Data.List.Nodup
import Mathlib.Data.List.Pairwise

/-! # Trees and what pruning leaves of them

A finitely branching ordered tree, its edges in preorder, and the tree left when every
subtree without a selected node is cut off.
-/
namespace SnmpB

inductive RoseTree (α : Type*) where
  | node (value : α) (children : List (RoseTree α))

namespace RoseTree

variable {α : Type*}

@[induction_eliminator]
theorem induct {P : RoseTree α → Prop} (node : ∀ v cs, (∀ c ∈ cs, P c) → P (node v cs))
    (t : RoseTree α) : P t := by
  refine @RoseTree.rec α P (fun cs => ∀ c ∈ cs, P c) node ?_ ?_ t
  · exact fun c hc => absurd hc List.not_mem_nil
  · rintro c cs hc hcs d hd
    rcases List.mem_cons.mp hd with rfl | hd
    · exact hc
    · exact hcs d hd

/-- Induction over trees and lists of trees at once, as functions of both recurse. -/
theorem inductAll {P : RoseTree α → Prop} {Q : List (RoseTree α) → Prop}
    (node : ∀ v cs, Q cs → P (node v cs)) (nil : Q []) (cons : ∀ c cs, P c → Q cs → Q (c :: cs)) :
    (∀ t, P t) ∧ ∀ cs, Q cs := by
  have hall : ∀ t, P t := fun t => @RoseTree.rec α P Q node nil cons t
  refine ⟨hall, fun cs => ?_⟩
  induction cs with
  | nil => exact nil
  | cons c cs ih => exact cons c cs (hall c) ih

def value : RoseTree α → α
  | node v _ => v

@[simp] theorem value_node (v : α) (cs : List (RoseTree α)) : (node v cs).value = v := rfl

mutual

/-- Parent and child, in preorder of the child. -/
def edges : RoseTree α → List (α × α)
  | node v cs => edgesBelow v cs

def edgesBelow (v : α) : List (RoseTree α) → List (α × α)
  | [] => []
  | c :: cs => (v, c.value) :: (c.edges ++ edgesBelow v cs)

end

def nodes (t : RoseTree α) : List α := t.value :: t.edges.map Prod.snd

theorem edges_node (v : α) (cs : List (RoseTree α)) :
    (node v cs).edges = cs.flatMap fun c => (v, c.value) :: c.edges := by
  rw [edges]
  induction cs with
  | nil => rfl
  | cons c cs ih => rw [edgesBelow, ih, List.flatMap_cons, List.cons_append]

theorem nodes_node (v : α) (cs : List (RoseTree α)) :
    (node v cs).nodes = v :: cs.flatMap nodes := by
  rw [nodes, value_node, edges_node, List.map_flatMap]
  rfl

theorem mem_edges_node {v x y : α} {cs : List (RoseTree α)} :
    (x, y) ∈ (node v cs).edges ↔ ∃ c ∈ cs, (x = v ∧ y = c.value) ∨ (x, y) ∈ c.edges := by
  simp [edges_node]

theorem mem_nodes_node {v x : α} {cs : List (RoseTree α)} :
    x ∈ (node v cs).nodes ↔ x = v ∨ ∃ c ∈ cs, x ∈ c.nodes := by
  rw [nodes_node, List.mem_cons, List.mem_flatMap]

theorem mem_nodes {t : RoseTree α} {x : α} :
    x ∈ t.nodes ↔ x = t.value ∨ ∃ p, (p, x) ∈ t.edges := by
  simp [nodes]

theorem value_mem_nodes (t : RoseTree α) : t.value ∈ t.nodes := List.mem_cons_self

theorem edge_mem_nodes {t : RoseTree α} {x y : α} (h : (x, y) ∈ t.edges) :
    x ∈ t.nodes ∧ y ∈ t.nodes := by
  refine ⟨?_, List.mem_cons_of_mem _ (List.mem_map_of_mem (f := Prod.snd) h)⟩
  induction t with
  | node v cs ih =>
    obtain ⟨c, hc, ⟨rfl, -⟩ | hedge⟩ := mem_edges_node.mp h
    · exact value_mem_nodes _
    · exact mem_nodes_node.mpr (Or.inr ⟨c, hc, ih c hc hedge⟩)

theorem not_edge_value {t : RoseTree α} (hnodup : t.nodes.Nodup) (x : α) :
    (x, t.value) ∉ t.edges := by
  intro h
  exact (List.nodup_cons.mp hnodup).1 (List.mem_map_of_mem (f := Prod.snd) h)

def Edge (t : RoseTree α) (x y : α) : Prop := (x, y) ∈ t.edges

def Reaches (t : RoseTree α) : α → α → Prop := Relation.ReflTransGen t.Edge

theorem edge_of_child {v : α} {cs : List (RoseTree α)} {c : RoseTree α} (hc : c ∈ cs) {x y : α}
    (h : c.Edge x y) : (node v cs).Edge x y := mem_edges_node.mpr ⟨c, hc, Or.inr h⟩

theorem reaches_of_child {v : α} {cs : List (RoseTree α)} {c : RoseTree α} (hc : c ∈ cs) {x y : α}
    (h : c.Reaches x y) : (node v cs).Reaches x y :=
  Relation.ReflTransGen.mono (fun _ _ => edge_of_child hc) x y h

/-- Every node hangs below the root. -/
theorem reaches_of_mem {t : RoseTree α} {x : α} (h : x ∈ t.nodes) : t.Reaches t.value x := by
  induction t with
  | node v cs ih =>
    rcases mem_nodes_node.mp h with rfl | ⟨c, hc, hx⟩
    · exact Relation.ReflTransGen.refl
    · have hedge : (node v cs).Edge v c.value := mem_edges_node.mpr ⟨c, hc, Or.inl ⟨rfl, rfl⟩⟩
      exact Relation.ReflTransGen.head hedge (reaches_of_child hc (ih c hc hx))

/-- Where no node occurs twice, the edges out of a child's subtree are its own. -/
theorem edge_child {v : α} {cs : List (RoseTree α)} (hnodup : (node v cs).nodes.Nodup)
    {c : RoseTree α} (hc : c ∈ cs) {x y : α} (hx : x ∈ c.nodes) (h : (node v cs).Edge x y) :
    c.Edge x y := by
  rw [nodes_node, List.nodup_cons, List.mem_flatMap, List.nodup_flatMap] at hnodup
  obtain ⟨hroot, -, hdisjoint⟩ := hnodup
  obtain ⟨d, hd, ⟨rfl, -⟩ | hedge⟩ := mem_edges_node.mp h
  · exact absurd ⟨c, hc, hx⟩ hroot
  · by_cases heq : c = d
    · exact heq ▸ hedge
    · have hsymm : Std.Symm (Function.onFun List.Disjoint (@nodes α)) :=
        ⟨fun _ _ hab => List.disjoint_symm hab⟩
      exact absurd (edge_mem_nodes hedge).1 (hdisjoint.forall hc hd heq hx)

theorem nodup_child {v : α} {cs : List (RoseTree α)} (hnodup : (node v cs).nodes.Nodup)
    {c : RoseTree α} (hc : c ∈ cs) : c.nodes.Nodup := by
  rw [nodes_node, List.nodup_cons, List.nodup_flatMap] at hnodup
  exact hnodup.2.1 c hc

theorem reaches_child {v : α} {cs : List (RoseTree α)} (hnodup : (node v cs).nodes.Nodup)
    {c : RoseTree α} (hc : c ∈ cs) {x y : α} (hx : x ∈ c.nodes) (h : (node v cs).Reaches x y) :
    c.Reaches x y ∧ y ∈ c.nodes := by
  induction h with
  | refl => exact ⟨Relation.ReflTransGen.refl, hx⟩
  | tail _ hedge ih =>
    have hchild := edge_child hnodup hc ih.2 hedge
    exact ⟨ih.1.tail hchild, (edge_mem_nodes hchild).2⟩

section Everywhere

variable (P : α → List α → Prop)

mutual

/-- `P` holds of every node and the values of its children. -/
def Everywhere : RoseTree α → Prop
  | node v cs => P v (cs.map value) ∧ EverywhereAll cs

def EverywhereAll : List (RoseTree α) → Prop
  | [] => True
  | c :: cs => Everywhere c ∧ EverywhereAll cs

end

variable {P}

theorem everywhereAll_iff {cs : List (RoseTree α)} : EverywhereAll P cs ↔ ∀ c ∈ cs, Everywhere P c := by
  induction cs with
  | nil => simp [EverywhereAll]
  | cons c cs ih => rw [EverywhereAll, ih, List.forall_mem_cons]

theorem everywhere_node {v : α} {cs : List (RoseTree α)} :
    Everywhere P (node v cs) ↔ P v (cs.map value) ∧ ∀ c ∈ cs, Everywhere P c := by
  rw [Everywhere, everywhereAll_iff]

end Everywhere

section Prune

variable (P : α → Bool)

mutual

/-- The root stays; of the children those that hold a selected node. -/
def prune : RoseTree α → RoseTree α
  | node v cs => node v (pruneAll cs)

def pruneAll : List (RoseTree α) → List (RoseTree α)
  | [] => []
  | c :: cs => if c.nodes.any P then prune c :: pruneAll cs else pruneAll cs

end

/-- A selected node hangs below `x`, or is `x`. -/
def Holds (t : RoseTree α) (x : α) : Prop := ∃ d, t.Reaches x d ∧ P d = true

variable {P}

theorem pruneAll_eq (cs : List (RoseTree α)) :
    pruneAll P cs = (cs.filter (·.nodes.any P)).map (prune P) := by
  induction cs with
  | nil => rfl
  | cons c cs ih =>
    rw [pruneAll, ih, List.filter_cons]
    split <;> rfl

theorem prune_node (v : α) (cs : List (RoseTree α)) :
    prune P (node v cs) = node v ((cs.filter (·.nodes.any P)).map (prune P)) := by
  rw [prune, pruneAll_eq]

@[simp] theorem prune_value (t : RoseTree α) : (prune P t).value = t.value := by
  cases t with
  | node v cs => rfl

theorem mem_prune_edges_node {v x y : α} {cs : List (RoseTree α)} :
    (x, y) ∈ (prune P (node v cs)).edges ↔
      ∃ c ∈ cs, c.nodes.any P = true ∧ ((x = v ∧ y = c.value) ∨ (x, y) ∈ (prune P c).edges) := by
  rw [prune_node, mem_edges_node]
  constructor
  · rintro ⟨_, hmem, hxy⟩
    obtain ⟨c, hc, rfl⟩ := List.mem_map.mp hmem
    rw [prune_value] at hxy
    exact ⟨c, (List.mem_filter.mp hc).1, (List.mem_filter.mp hc).2, hxy⟩
  · rintro ⟨c, hc, hany, hxy⟩
    refine ⟨prune P c, List.mem_map_of_mem (List.mem_filter.mpr ⟨hc, hany⟩), ?_⟩
    rwa [prune_value]

/-- Pruning keeps parents and the order of the siblings. -/
theorem prune_edges_sublist (t : RoseTree α) : (prune P t).edges.Sublist t.edges := by
  induction t with
  | node v cs ih =>
    rw [prune_node, edges_node, edges_node, List.flatMap_map]
    have hkept : ∀ c ∈ cs.filter (·.nodes.any P),
        ((v, (prune P c).value) :: (prune P c).edges).Sublist ((v, c.value) :: c.edges) := by
      intro c hc
      rw [prune_value]
      exact (ih c (List.mem_filter.mp hc).1).cons_cons _
    exact (List.Sublist.flatMap_right _ hkept).trans (List.filter_sublist.flatMap _)

theorem holds_of_child {v : α} {cs : List (RoseTree α)} {c : RoseTree α} (hc : c ∈ cs) {x : α}
    (h : c.Holds P x) : (node v cs).Holds P x := by
  obtain ⟨d, hreach, hd⟩ := h
  exact ⟨d, reaches_of_child hc hreach, hd⟩

theorem holds_value_of_any {t : RoseTree α} (h : t.nodes.any P = true) : t.Holds P t.value := by
  obtain ⟨d, hd, hP⟩ := List.any_eq_true.mp h
  exact ⟨d, reaches_of_mem hd, hP⟩

theorem holds_child {v : α} {cs : List (RoseTree α)} (hnodup : (node v cs).nodes.Nodup)
    {c : RoseTree α} (hc : c ∈ cs) {x : α} (hx : x ∈ c.nodes) (h : (node v cs).Holds P x) :
    c.Holds P x ∧ c.nodes.any P = true := by
  obtain ⟨d, hreach, hd⟩ := h
  obtain ⟨hchild, hmem⟩ := reaches_child hnodup hc hx hreach
  exact ⟨⟨d, hchild, hd⟩, List.any_eq_true.mpr ⟨d, hmem, hd⟩⟩

/-- What pruning keeps: the edges to nodes that hold a selected one. -/
theorem mem_prune_edges {t : RoseTree α} (hnodup : t.nodes.Nodup) {x y : α} :
    (x, y) ∈ (prune P t).edges ↔ (x, y) ∈ t.edges ∧ t.Holds P y := by
  induction t with
  | node v cs ih =>
    rw [mem_prune_edges_node, mem_edges_node]
    constructor
    · rintro ⟨c, hc, hany, ⟨rfl, rfl⟩ | hedge⟩
      · exact ⟨⟨c, hc, Or.inl ⟨rfl, rfl⟩⟩, holds_of_child hc (holds_value_of_any hany)⟩
      · obtain ⟨hmem, hholds⟩ := (ih c hc (nodup_child hnodup hc)).mp hedge
        exact ⟨⟨c, hc, Or.inr hmem⟩, holds_of_child hc hholds⟩
    · rintro ⟨⟨c, hc, ⟨rfl, rfl⟩ | hedge⟩, hholds⟩
      · exact ⟨c, hc, (holds_child hnodup hc (value_mem_nodes c) hholds).2, Or.inl ⟨rfl, rfl⟩⟩
      · obtain ⟨hchild, hany⟩ := holds_child hnodup hc (edge_mem_nodes hedge).2 hholds
        exact ⟨c, hc, hany, Or.inr ((ih c hc (nodup_child hnodup hc)).mpr ⟨hedge, hchild⟩)⟩

theorem prune_nodes_sublist (t : RoseTree α) : (prune P t).nodes.Sublist t.nodes := by
  rw [nodes, nodes, prune_value]
  exact ((prune_edges_sublist t).map Prod.snd).cons_cons t.value

theorem prune_nodes_nodup {t : RoseTree α} (hnodup : t.nodes.Nodup) : (prune P t).nodes.Nodup :=
  hnodup.sublist (prune_nodes_sublist t)

theorem mem_prune_nodes {t : RoseTree α} (hnodup : t.nodes.Nodup) {x : α} :
    x ∈ (prune P t).nodes ↔ x ∈ t.nodes ∧ (x = t.value ∨ t.Holds P x) := by
  simp only [mem_nodes, prune_value, mem_prune_edges hnodup]
  constructor
  · rintro (rfl | ⟨p, hedge, hholds⟩)
    · exact ⟨Or.inl rfl, Or.inl rfl⟩
    · exact ⟨Or.inr ⟨p, hedge⟩, Or.inr hholds⟩
  · rintro ⟨rfl | ⟨p, hedge⟩, hx⟩
    · exact Or.inl rfl
    · exact hx.imp_right fun hholds => ⟨p, hedge, hholds⟩

end Prune

end RoseTree
end SnmpB
