import Std.Data.HashSet
import FormWeave.Design.Document
import FormWeave.Design.Forest

/-!
# Designs

A design is a document flattened in depth-first order. Every node has an id, the depth and the
scope it stands in, the resource it refers to, and the numbers of its label and tooltip in a
message catalog. `Design.ofDocument` flattens, `Design.document` nests again.
-/

namespace FormWeave

inductive NodeScope
  | file
  /-- In the class around the node. -/
  | member
  /-- In a function body or a block. -/
  | inner
  deriving DecidableEq, Repr, Inhabited

def NodeScope.name : NodeScope → String
  | file => "global"
  | member => "class"
  | inner => "local"

def ItemBody.childScope (body : ItemBody) (scope : NodeScope) : NodeScope :=
  match body with
  | .widgetClass .. => .member
  | .function .. | .codeBlock .. => .inner
  | _ => scope

structure Node where
  id : NodeId
  depth : Nat
  scope : NodeScope
  hasChildren : Bool
  hasChildWidgets : Bool
  body : ItemBody
  resource : Option Resource
  /-- The number of the label in a catalog, 0 if there is no label. -/
  labelNumber : Nat
  tooltipNumber : Nat
  deriving DecidableEq, Repr, Inhabited

namespace Node

def kind (node : Node) : NodeKind := node.body.kind

instance : DesignNode Node where
  id := Node.id
  depth := Node.depth
  kind := Node.kind
  label node := node.body.label?
  tooltip node := node.body.tooltip?
  setCode? node text := (node.body.setCode? text).map fun body => { node with body }
  setCallback? node text := (node.body.setCallback? text).map fun body => { node with body }

end Node

/-- A loaded design: its nodes in depth-first order and its resources. -/
structure Design where
  nodes : List Node := []
  resources : ResourceTable := {}
  deriving DecidableEq, Repr, Inhabited

inductive DesignError
  | tooManyNodes
  | duplicateNodeId (id : NodeId)
  deriving DecidableEq, Repr

namespace Design

/-- A design has at most as many nodes as there are ids other than 0. -/
def maxNodes : Nat := 65535

structure FlatItem where
  id? : Option NodeId
  depth : Nat
  scope : NodeScope
  hasChildren : Bool
  hasChildWidgets : Bool
  body : ItemBody
  deriving Repr, Inhabited

mutual
/-- `done` with an item at `depth` in `scope`, and then all items below it. -/
def flattenItem (depth : Nat) (scope : NodeScope) (done : Array FlatItem) :
    Item → Array FlatItem
  | .mk id body children =>
    let flat : FlatItem :=
      { id? := id, depth, scope, body
        hasChildren := !children.isEmpty
        hasChildWidgets := children.any (·.body.kind == .widget) }
    flattenItems (depth + 1) (body.childScope scope) (done.push flat) children

def flattenItems (depth : Nat) (scope : NodeScope) (done : Array FlatItem) :
    List Item → Array FlatItem
  | [] => done
  | item :: rest => flattenItems depth scope (flattenItem depth scope done item) rest
end

def flatten (items : List Item) : List FlatItem := (flattenItems 0 .file #[] items).toList

def firstRepeated? (seen : Std.HashSet NodeId) : List NodeId → Option NodeId
  | [] => none
  | id :: rest => if seen.contains id then some id else firstRepeated? (seen.insert id) rest

/-- The ids not in `used` among the first `count` of 1, 2, …, 65535, 0. -/
def freeIds (used : Std.HashSet NodeId) (count : Nat) : List NodeId :=
  ((List.range (min count 65536)).map fun i => NodeId.mk (.ofNat (i + 1))).filter
    fun id => !used.contains id

def nodeOf (resources : ResourceTable) (id : NodeId) (number : Nat) (item : FlatItem) :
    Node × Nat :=
  let translated := item.body.kind.isWidget
  let hasLabel := translated && item.body.label?.isSome
  let hasTooltip := translated && item.body.tooltip?.isSome
  let afterLabel := if hasLabel then number + 1 else number
  ({ id
     depth := item.depth
     scope := item.scope
     hasChildren := item.hasChildren
     hasChildWidgets := item.hasChildWidgets
     body := item.body
     resource := item.body.resourceName?.bind resources.find?
     labelNumber := if hasLabel then number else 0
     tooltipNumber := if hasTooltip then afterLabel else 0 },
   if hasTooltip then afterLabel + 1 else afterLabel)

/-- `done` with nodes for the items. An item without an id takes the next one of `free`; catalog
numbers count on from `number`. -/
def number (resources : ResourceTable) :
    (free : List NodeId) → (number : Nat) → (done : Array Node) → List FlatItem →
      Except DesignError (Array Node)
  | _, _, done, [] => .ok done
  | free, next, done, item :: rest =>
    match item.id?, free with
    | some id, free =>
      let (node, next) := nodeOf resources id next item
      number resources free next (done.push node) rest
    | none, id :: free =>
      let (node, next) := nodeOf resources id next item
      number resources free next (done.push node) rest
    | none, [] => .error .tooManyNodes

/-- The design of a document. Items without an id get the unused ids in the order 1, 2, …, 65535,
0; catalog numbers follow the order of the nodes. -/
def ofDocument (document : Document) : Except DesignError Design := do
  let items := flatten document.items
  if items.length > maxNodes then throw .tooManyNodes
  let given := items.filterMap (·.id?)
  if let some id := firstRepeated? {} given then throw (.duplicateNodeId id)
  -- Each given id can take one place in the order, so that many more places are enough.
  let used := Std.HashSet.ofList given
  let free := freeIds used (items.length + given.length)
  let nodes ← number document.resources free 1 #[] items
  return { nodes := nodes.toList, resources := document.resources }

mutual
def itemOfTree : Tree Node → Item
  | .node root children => .mk (some root.id) root.body (itemsOfForest children)

def itemsOfForest : List (Tree Node) → List Item
  | [] => []
  | tree :: rest => itemOfTree tree :: itemsOfForest rest
end

def document (design : Design) : Document :=
  { resources := design.resources, items := itemsOfForest (Forest.ofNodes design.nodes) }

def unknownResources (design : Design) : List (NodeId × String) :=
  design.nodes.filterMap fun node =>
    match node.body.resourceName?, node.resource with
    | some name, none => some (node.id, name)
    | _, _ => none

def find? (design : Design) (id : NodeId) : Option Node := DesignNode.find? design.nodes id

end Design

end FormWeave
