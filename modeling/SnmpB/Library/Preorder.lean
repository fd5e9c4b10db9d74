import SnmpB.Library.PrefixInterval
import SnmpB.Library.RoseTree

/-! # Addresses in a tree

The address of a node lists the child indices on the way to it from the root. In preorder
the addresses ascend, so that those of a subtree, which extend the address of its root,
are one block of them.
-/
namespace SnmpB.RoseTree

variable {α : Type*}

def children : RoseTree α → List (RoseTree α)
  | node _ cs => cs

def subtree (t : RoseTree α) : List ℕ → Option (RoseTree α)
  | [] => some t
  | i :: address => t.children[i]?.bind fun c => c.subtree address

mutual

/-- In preorder. -/
def addresses : RoseTree α → List (List ℕ)
  | node _ cs => [] :: addressesFrom 0 cs

/-- Below the children from the index `i` on. -/
def addressesFrom (i : ℕ) : List (RoseTree α) → List (List ℕ)
  | [] => []
  | c :: cs => c.addresses.map (i :: ·) ++ addressesFrom (i + 1) cs

end

theorem subtree_append (t : RoseTree α) (address more : List ℕ) :
    t.subtree (address ++ more) = (t.subtree address).bind fun s => s.subtree more := by
  induction address generalizing t with
  | nil => rfl
  | cons i address ih =>
    rw [List.cons_append, subtree, subtree]
    cases t.children[i]? with
    | none => rfl
    | some c => exact ih c

theorem mem_addresses_both :
    (∀ (t : RoseTree α) (address : List ℕ), address ∈ t.addresses ↔ (t.subtree address).isSome = true) ∧
      ∀ (cs : List (RoseTree α)) (i : ℕ) (address : List ℕ), address ∈ addressesFrom i cs ↔
        ∃ j rest c, address = (i + j) :: rest ∧ cs[j]? = some c ∧ (c.subtree rest).isSome = true := by
  refine inductAll ?node ?nil ?cons
  case node =>
    intro v cs ih address
    cases address with
    | nil => simp [addresses, subtree]
    | cons j rest =>
      rw [addresses, List.mem_cons, ih, subtree, children, Option.isSome_bind]
      simp only [List.cons_ne_nil, List.cons.injEq, Nat.zero_add, false_or, Option.any_eq_true]
      constructor
      · rintro ⟨_, _, c, ⟨rfl, rfl⟩, hc, hrest⟩
        exact ⟨c, hc, hrest⟩
      · rintro ⟨c, hc, hrest⟩
        exact ⟨j, rest, c, ⟨rfl, rfl⟩, hc, hrest⟩
  case nil =>
    intro i address
    simp [addressesFrom]
  case cons =>
    intro c cs hc hcs i address
    rw [addressesFrom, List.mem_append, List.mem_map, hcs]
    constructor
    · rintro (⟨rest, hrest, rfl⟩ | ⟨j, rest, d, rfl, hd, hrest⟩)
      · exact ⟨0, rest, c, rfl, rfl, (hc rest).mp hrest⟩
      · exact ⟨j + 1, rest, d, by rw [Nat.add_assoc, Nat.add_comm 1], hd, hrest⟩
    · rintro ⟨j, rest, d, rfl, hd, hrest⟩
      cases j with
      | zero =>
        obtain rfl : c = d := Option.some_inj.mp hd
        exact Or.inl ⟨rest, (hc rest).mpr hrest, rfl⟩
      | succ j => exact Or.inr ⟨j, rest, d, by rw [Nat.add_assoc, Nat.add_comm 1], hd, hrest⟩

theorem mem_addresses {t : RoseTree α} {address : List ℕ} :
    address ∈ t.addresses ↔ (t.subtree address).isSome = true := mem_addresses_both.1 t address

theorem mem_addressesFrom {cs : List (RoseTree α)} {i : ℕ} {address : List ℕ} (h : address ∈ addressesFrom i cs) :
    ∃ j rest, address = (i + j) :: rest := by
  obtain ⟨j, rest, -, heq, -⟩ := (mem_addresses_both.2 cs i address).mp h
  exact ⟨j, rest, heq⟩

theorem addresses_ascend_both :
    (∀ t : RoseTree α, t.addresses.Pairwise (· < ·)) ∧
      ∀ (cs : List (RoseTree α)) (i : ℕ), (addressesFrom i cs).Pairwise (· < ·) := by
  refine inductAll ?node ?nil ?cons
  case node =>
    intro v cs ih
    rw [addresses, List.pairwise_cons]
    refine ⟨fun address h => ?_, ih 0⟩
    obtain ⟨j, rest, rfl⟩ := mem_addressesFrom h
    exact List.nil_lt_cons _ _
  case nil => exact fun _ => List.Pairwise.nil
  case cons =>
    intro c cs hc hcs i
    rw [addressesFrom, List.pairwise_append, List.pairwise_map]
    refine ⟨hc.imp fun h => ?_, hcs (i + 1), fun x hx y hy => ?_⟩
    · rw [List.cons_lt_cons_iff]
      exact Or.inr ⟨rfl, h⟩
    · obtain ⟨rest, -, rfl⟩ := List.mem_map.mp hx
      obtain ⟨j, rest', rfl⟩ := mem_addressesFrom hy
      rw [List.cons_lt_cons_iff]
      exact Or.inl (by omega)

/-- The preorder of the addresses is their lexicographic order. -/
theorem addresses_ascend (t : RoseTree α) : t.addresses.Pairwise (· < ·) := addresses_ascend_both.1 t

theorem nil_mem_addresses (t : RoseTree α) : [] ∈ t.addresses := mem_addresses.mpr rfl

/-- Ancestors and elder siblings of a node are nodes. -/
theorem mem_addresses_of_append {t : RoseTree α} {address more : List ℕ} (h : address ++ more ∈ t.addresses) :
    address ∈ t.addresses := by
  rw [mem_addresses, subtree_append] at h
  rw [mem_addresses]
  exact Option.isSome_of_isSome_bind h

theorem mem_addresses_child {t : RoseTree α} {address : List ℕ} {i : ℕ} :
    address ++ [i] ∈ t.addresses ↔ ∃ s, t.subtree address = some s ∧ i < s.children.length := by
  rw [mem_addresses, subtree_append]
  cases t.subtree address with
  | none => simp
  | some s => simp [subtree]

theorem mem_addresses_of_le {t : RoseTree α} {address : List ℕ} {i j : ℕ} (h : address ++ [j] ∈ t.addresses)
    (hij : i ≤ j) : address ++ [i] ∈ t.addresses := by
  obtain ⟨s, hs, hj⟩ := mem_addresses_child.mp h
  exact mem_addresses_child.mpr ⟨s, hs, hij.trans_lt hj⟩

/-- The addresses with the values behind them are the nodes in preorder. -/
theorem map_addresses_both :
    (∀ t : RoseTree α, t.addresses.map (fun address => (t.subtree address).map value) = t.nodes.map some) ∧
      ∀ (cs : List (RoseTree α)) (v : α) (before : List (RoseTree α)),
        (addressesFrom before.length cs).map (fun address => ((node v (before ++ cs)).subtree address).map value) =
          (cs.flatMap nodes).map some := by
  refine inductAll ?node ?nil ?cons
  case node =>
    intro v cs ih
    rw [nodes_node, List.map_cons, addresses, List.map_cons]
    exact congrArg _ (ih v [])
  case nil => exact fun _ _ => rfl
  case cons =>
    intro c cs hc hcs v before
    have hrest := hcs v (before ++ [c])
    rw [List.length_append, List.length_singleton, List.append_assoc, List.singleton_append] at hrest
    rw [addressesFrom, List.map_append, List.map_map, hrest, List.flatMap_cons, List.map_append, ← hc]
    refine congrArg (· ++ _) (List.map_congr_left fun address _ => ?_)
    rw [Function.comp_apply, subtree, children, List.getElem?_append_right le_rfl, Nat.sub_self]
    rfl

theorem map_addresses (t : RoseTree α) :
    t.addresses.map (fun address => (t.subtree address).map value) = t.nodes.map some := map_addresses_both.1 t

section Map
variable {β : Type*} (f : α → β)

mutual

def map : RoseTree α → RoseTree β
  | node v cs => node (f v) (mapAll cs)

def mapAll : List (RoseTree α) → List (RoseTree β)
  | [] => []
  | c :: cs => c.map :: mapAll cs

end

theorem nodes_map_both : (∀ t : RoseTree α, (t.map f).nodes = t.nodes.map f) ∧
    ∀ cs : List (RoseTree α), (mapAll f cs).flatMap nodes = (cs.flatMap nodes).map f := by
  refine inductAll ?node ?nil ?cons
  case node =>
    intro v cs ih
    rw [map, nodes_node, nodes_node, ih, List.map_cons]
  case nil => rfl
  case cons =>
    intro c cs hc hcs
    rw [mapAll, List.flatMap_cons, List.flatMap_cons, List.map_append, hc, hcs]

theorem nodes_map (t : RoseTree α) : (t.map f).nodes = t.nodes.map f := (nodes_map_both f).1 t

end Map

end SnmpB.RoseTree
