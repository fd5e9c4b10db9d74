import SnmpB.Library.RoseTree
import SnmpB.Mib.Smi

/-! # The MIB tree view

`MibViewLoader` decides which nodes of the library are shown and builds the items
of a view, which are inserted one by one behind the sibling shown before.
-/
namespace SnmpB.Mib
open RoseTree

inductive SmiStatus
  | unknown | current | deprecated | mandatory | optional | obsolete
  deriving DecidableEq, Repr

/-- A node with its status and whether it is the identity node of its module. -/
structure TreeNode extends SmiNode where
  status : SmiStatus
  isModuleIdentity : Bool
  deriving DecidableEq, Repr

/-- Nodes under the children that `smiGetFirstChildNode` and `smiGetNextChildNode` give. -/
abbrev SmiTree := RoseTree TreeNode

/-- The names of the modules in `pmodv` and the two options. -/
structure MibViewLoader where
  pmodv : List String
  ignoreconformance : Bool
  ignoreleafs : Bool

namespace MibViewLoader

def isPartOfLoadedModules (l : MibViewLoader) (smiNode : TreeNode) : Bool :=
  l.pmodv.contains smiNode.moduleName

def confmask (nodekind : SmiNodekind) : Bool := nodekind = .group ∨ nodekind = .compliance

def leafmask (nodekind : SmiNodekind) : Bool :=
  confmask nodekind ∨ nodekind = .column ∨ nodekind = .scalar ∨ nodekind = .row ∨
    nodekind = .notification

mutual

/-- Whether the subtree is left out of the view. -/
def pruneSubTree (l : MibViewLoader) : SmiTree → Bool
  | .node smiNode childNodes =>
    if l.ignoreconformance && confmask smiNode.nodekind then true
    else if l.ignoreleafs && (leafmask smiNode.nodekind ||
        (smiNode.nodekind = .node && smiNode.status ≠ .unknown && !smiNode.isModuleIdentity)) then
      true
    else if l.isPartOfLoadedModules smiNode && (!l.ignoreconformance || childNodes.isEmpty) then false
    else l.pruneChildren childNodes

/-- The loop over the child nodes. -/
def pruneChildren (l : MibViewLoader) : List SmiTree → Bool
  | [] => true
  | childNode :: childNodes =>
    if l.ignoreleafs && leafmask childNode.value.nodekind &&
        l.isPartOfLoadedModules childNode.value then
      l.ignoreconformance && confmask childNode.value.nodekind
    else if !l.pruneSubTree childNode then false
    else l.pruneChildren childNodes

end

end MibViewLoader

/-- `MibNode::MibType`. -/
inductive MibType
  | node | scalar | table | row | column | notification | group | compliance | capabilities
  deriving DecidableEq, Repr

def smiKindToMibNodeType : SmiNodekind → MibType
  | .node => .node
  | .scalar => .scalar
  | .table => .table
  | .row => .row
  | .column => .column
  | .notification => .notification
  | .group => .group
  | .compliance => .compliance
  | .capabilities => .capabilities

/-- An item, with its children by their numbers. -/
structure MibNode where
  type : MibType
  node : Option TreeNode
  text : String
  children : List ℕ
  deriving DecidableEq, Repr

/-- The items of a tree widget, numbered in the order of their creation. -/
structure TreeWidget where
  items : List MibNode
  topLevel : List ℕ
  deriving DecidableEq, Repr

namespace TreeWidget

def empty : TreeWidget := ⟨[], []⟩

/-- `parent->insertChild(parent->indexOfChild(sibling) + 1, item)`. -/
def insertAfter (children : List ℕ) (sibling : Option ℕ) (item : ℕ) : List ℕ :=
  match sibling with
  | none => item :: children
  | some sibling =>
    if sibling ∈ children then children.insertIdx (children.idxOf sibling + 1) item
    else item :: children

/-- `new MibNode(label, this)`. -/
def addRoot (w : TreeWidget) (label : String) : TreeWidget :=
  ⟨w.items ++ [⟨.node, none, label, []⟩], w.topLevel ++ [w.items.length]⟩

/-- `new MibNode(mibtype, node, parent, sibling)`. -/
def addNode (w : TreeWidget) (mibtype : MibType) (node : TreeNode) (parent : ℕ)
    (sibling : Option ℕ) : TreeWidget :=
  { w with
    items := w.items.modify parent
        (fun p => { p with children := insertAfter p.children sibling w.items.length }) ++
      [⟨mibtype, some node, node.name, []⟩] }

end TreeWidget

namespace MibViewLoader

mutual

/-- Gives the item of the node, with everything shown below it. -/
def populateSubTree (l : MibViewLoader) :
    SmiTree → ℕ → Option ℕ → TreeWidget → ℕ × TreeWidget
  | .node smiNode childNodes, parent, sibling, w =>
    (w.items.length, l.populateChildren childNodes w.items.length none
      (w.addNode (smiKindToMibNodeType smiNode.nodekind) smiNode parent sibling))

/-- The loop over the child nodes, with the sibling shown last. -/
def populateChildren (l : MibViewLoader) :
    List SmiTree → ℕ → Option ℕ → TreeWidget → TreeWidget
  | [], _, _, w => w
  | childNode :: childNodes, current, prev, w =>
    if l.pruneSubTree childNode then l.populateChildren childNodes current prev w
    else
      let shown := l.populateSubTree childNode current prev w
      l.populateChildren childNodes current (some shown.1) shown.2

end

end MibViewLoader

structure BasicMibView where
  isdirty : Bool
  widget : TreeWidget

namespace BasicMibView

def setDirty (v : BasicMibView) : BasicMibView := { v with isdirty := true }

def clear (v : BasicMibView) : BasicMibView := { v with widget := .empty }

/-- `iso` is what `smiGetNode(NULL, "iso")` gives. -/
def populate (v : BasicMibView) (l : MibViewLoader) (iso : Option SmiTree) : BasicMibView :=
  if v.isdirty then
    let widget := v.widget.addRoot "MIB Tree"
    { isdirty := false
      widget := match iso with
        | none => widget
        | some smiNode => (l.populateSubTree smiNode v.widget.items.length none widget).2 }
  else v

end BasicMibView

end SnmpB.Mib
