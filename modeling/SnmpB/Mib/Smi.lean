import SnmpB.Oid.Basic

/-! # The loaded modules of the SMI library

The parts of libsmi the program relies on: the list of loaded modules, the view,
loading a file by name, and the lookup of the node that resolves an OID.
-/
namespace SnmpB.Mib

inductive SmiBasetype
  | unknown | integer32 | octetString | objectIdentifier | unsigned32 | integer64 | unsigned64
  | float32 | float64 | float128 | enum | bits | pointer
  deriving DecidableEq, Repr

inductive SmiNodekind
  | node | scalar | table | row | column | notification | group | compliance | capabilities
  deriving DecidableEq, Repr

/-- A type, with the named numbers of an enumeration in order. -/
structure SmiType where
  name : Option String
  basetype : SmiBasetype
  namedNumbers : List (String × ℕ)
  deriving DecidableEq, Repr

structure SmiNode where
  name : String
  oid : Oid
  nodekind : SmiNodekind
  type : Option SmiType
  moduleName : String
  deriving DecidableEq, Repr

structure SmiModule where
  name : String
  path : String
  language : ℕ
  nodes : List SmiNode
  deriving DecidableEq, Repr

/-- The content of the MIB paths: the module each name leads to, with the path of the file it is
read from, if any loads at all. That file may have an extension or be in lower case. -/
abbrev MibFiles := String → Option SmiModule

/-- `QFileInfo(path).fileName()`. -/
def fileName (path : String) : String := String.ofList (path.toList.reverse.takeWhile (· != '/')).reverse

/-- The modules loaded so far, oldest first, and the names in view. -/
structure SmiHandle where
  modules : List SmiModule
  views : List String
  deriving DecidableEq, Repr

/-- The dummy module "" with the top level well-known nodes. -/
def wellKnown : SmiModule :=
  { name := "", path := "", language := 0
    nodes := [⟨"ccitt", [0], .node, none, ""⟩, ⟨"iso", [1], .node, none, ""⟩,
      ⟨"joint-iso-ccitt", [2], .node, none, ""⟩] }

def smiInit : SmiHandle := ⟨[wellKnown], [""]⟩

namespace SmiHandle

def isInView (h : SmiHandle) (name : String) : Bool := h.views.contains name

def addView (h : SmiHandle) (name : String) : SmiHandle :=
  if h.isInView name then h else { h with views := h.views ++ [name] }

def findModuleByName (h : SmiHandle) (name : String) : Option SmiModule :=
  h.modules.find? (·.name == name)

/-- Parsing a file that defines an already loaded module is given up with that module. -/
def loadModule (files : MibFiles) (h : SmiHandle) (file : String) : Option SmiModule × SmiHandle :=
  match files file with
  | none => (none, h)
  | some m =>
    match h.findModuleByName m.name with
    | some loaded => (some loaded, h)
    | none => (some m, { h with modules := h.modules ++ [m] })

def smiLoadModule (files : MibFiles) (h : SmiHandle) (file : String) : Option String × SmiHandle :=
  match h.findModuleByName file with
  | some m => (some m.name, h.addView file)
  | none =>
    match h.loadModule files file with
    | (some m, h) => (some m.name, h.addView file)
    | (none, h) => (none, h)

/-- `smiGetFirstModule` and `smiGetNextModule` skip the module without a name. -/
def listModules (h : SmiHandle) : List SmiModule := h.modules.filter (·.name != "")

def objects (h : SmiHandle) : List (SmiModule × SmiNode) :=
  h.modules.flatMap fun m => m.nodes.map (m, ·)

/-- A tree node exists for every object and for everything above it. -/
def hasNode (h : SmiHandle) (oid : Oid) : Bool := h.objects.any fun o => oid.isPrefixOf o.2.oid

def getNode (h : SmiHandle) (parent : Oid) : Oid → Oid
  | [] => parent
  | subid :: rest =>
    if h.hasNode (parent ++ [subid]) then getNode h (parent ++ [subid]) rest else parent

/-- The better of two objects in view: the newer language, else the first. -/
def betterObject (h : SmiHandle) (good : Option (SmiModule × SmiNode)) (o : SmiModule × SmiNode) :
    Option (SmiModule × SmiNode) :=
  if h.isInView o.1.name then
    match good with
    | none => some o
    | some g => if g.1.language < o.1.language then some o else some g
  else good

def findObjectByNode (h : SmiHandle) (oid : Oid) : Option SmiNode :=
  let same := h.objects.filter (·.2.oid == oid)
  ((same.foldl h.betterObject none).or same.head?).map (·.2)

def smiGetNodeByOid (h : SmiHandle) (oid : Oid) : Option SmiNode :=
  if oid = [] then none else h.findObjectByNode (h.getNode [] oid)

/-- The object of a tree node: one of the given module first. -/
def objectAt (h : SmiHandle) (moduleName : String) (oid : Oid) : Option SmiNode :=
  ((h.objects.find? fun o => o.1.name == moduleName && o.2.oid == oid).map (·.2)).or (h.findObjectByNode oid)

/-- `smiGetNextChildNode` prefers the module of the sibling it is called with. -/
def siblings (h : SmiHandle) (parent : Oid) (moduleName : String) : List ℕ → List SmiNode
  | [] => []
  | subid :: subids =>
    match h.objectAt moduleName (parent ++ [subid]) with
    | none => []
    | some node => node :: siblings h parent node.moduleName subids

/-- The children in OID order, up to the first position without an object; `smiGetFirstChildNode`
prefers the module of the parent. -/
def childNodes (h : SmiHandle) (parent : SmiNode) : List SmiNode :=
  let below := (h.objects.filter fun o => parent.oid.isPrefixOf o.2.oid).filterMap
    fun o => o.2.oid[parent.oid.length]?
  h.siblings parent.oid parent.moduleName below.dedup.mergeSort

end SmiHandle

def smiGetNodeType (node : SmiNode) : Option SmiType :=
  node.type.filter (·.basetype != .unknown)

namespace SmiHandle

theorem getNode_isPrefix (h : SmiHandle) (parent oid : Oid) :
    parent <+: h.getNode parent oid ∧ h.getNode parent oid <+: parent ++ oid := by
  induction oid generalizing parent with
  | nil => simp [getNode]
  | cons subid rest ih =>
    simp only [getNode]
    split
    · have hrest := ih (parent ++ [subid])
      rw [List.append_assoc] at hrest
      exact ⟨(List.prefix_append parent [subid]).trans hrest.1, hrest.2⟩
    · exact ⟨List.prefix_rfl, List.prefix_append parent _⟩

theorem foldl_betterObject_mem (h : SmiHandle) (good : Option (SmiModule × SmiNode))
    (os : List (SmiModule × SmiNode)) {o : SmiModule × SmiNode}
    (ho : os.foldl h.betterObject good = some o) : good = some o ∨ o ∈ os := by
  induction os generalizing good with
  | nil => exact Or.inl ho
  | cons x os ih =>
    rcases ih (h.betterObject good x) ho with hx | hx
    · unfold betterObject at hx
      split at hx
      · split at hx
        · exact Or.inr (Option.some.inj hx ▸ List.mem_cons_self)
        · split at hx
          · exact Or.inr (Option.some.inj hx ▸ List.mem_cons_self)
          · exact Or.inl hx
      · exact Or.inl hx
    · exact Or.inr (List.mem_cons_of_mem x hx)

theorem findObjectByNode_some {h : SmiHandle} {oid : Oid} {node : SmiNode}
    (hnode : h.findObjectByNode oid = some node) :
    node.oid = oid ∧ ∃ m ∈ h.modules, node ∈ m.nodes := by
  simp only [findObjectByNode, Option.map_eq_some_iff] at hnode
  obtain ⟨o, ho, rfl⟩ := hnode
  have hmem : o ∈ h.objects.filter (·.2.oid == oid) := by
    rcases Option.or_eq_some_iff.mp ho with hgood | ⟨-, hhead⟩
    · exact (foldl_betterObject_mem h none _ hgood).resolve_left (by simp)
    · exact List.mem_of_mem_head? hhead
  rw [List.mem_filter] at hmem
  refine ⟨by simpa using hmem.2, ?_⟩
  simp only [objects, List.mem_flatMap, List.mem_map] at hmem
  obtain ⟨⟨m, hm, n, hn, rfl⟩, -⟩ := hmem
  exact ⟨m, hm, hn⟩

/-- The object of a tree node is a loaded one. -/
theorem objectAt_some {h : SmiHandle} {moduleName : String} {oid : Oid} {node : SmiNode}
    (hnode : h.objectAt moduleName oid = some node) :
    node.oid = oid ∧ ∃ m ∈ h.modules, node ∈ m.nodes := by
  rcases Option.or_eq_some_iff.mp hnode with hown | ⟨-, hother⟩
  · obtain ⟨object, hfind, rfl⟩ := Option.map_eq_some_iff.mp hown
    have hmatch := List.find?_some hfind
    simp only [Bool.and_eq_true, beq_iff_eq] at hmatch
    obtain ⟨m, hm, hmem⟩ := List.mem_flatMap.mp (List.mem_of_find?_eq_some hfind)
    obtain ⟨object, hobjects, rfl⟩ := List.mem_map.mp hmem
    exact ⟨hmatch.2, m, hm, hobjects⟩
  · exact findObjectByNode_some hother

/-- The children sit at the first of the positions, in their order. -/
theorem siblings_oids (h : SmiHandle) (parent : Oid) (moduleName : String) (subids : List ℕ) :
    (h.siblings parent moduleName subids).map (·.oid) <+: subids.map (parent ++ [·]) := by
  induction subids generalizing moduleName with
  | nil => exact List.prefix_rfl
  | cons subid subids ih =>
    rw [siblings]
    split
    · exact List.nil_prefix
    · rename_i node hnode
      rw [List.map_cons, List.map_cons, (objectAt_some hnode).1]
      exact List.cons_prefix_cons.mpr ⟨rfl, ih node.moduleName⟩

theorem siblings_mem {h : SmiHandle} {parent : Oid} {moduleName : String} {subids : List ℕ} {node : SmiNode}
    (hnode : node ∈ h.siblings parent moduleName subids) : ∃ m ∈ h.modules, node ∈ m.nodes := by
  induction subids generalizing moduleName with
  | nil => cases hnode
  | cons subid subids ih =>
    rw [siblings] at hnode
    split at hnode
    · cases hnode
    · rename_i first hfirst
      rcases List.mem_cons.mp hnode with rfl | hrest
      · exact (objectAt_some hfirst).2
      · exact ih hrest

/-- The node that resolves an OID is a loaded object whose OID is a prefix of it. -/
theorem smiGetNodeByOid_some {h : SmiHandle} {oid : Oid} {node : SmiNode}
    (hnode : h.smiGetNodeByOid oid = some node) :
    node.oid <+: oid ∧ ∃ m ∈ h.modules, node ∈ m.nodes := by
  unfold smiGetNodeByOid at hnode
  split at hnode
  · cases hnode
  · obtain ⟨hoid, hmem⟩ := findObjectByNode_some hnode
    refine ⟨?_, hmem⟩
    rw [hoid]
    simpa using (getNode_isPrefix h [] oid).2

end SmiHandle

end SnmpB.Mib
