import FormWeave.Tag.Basic

/-!
# Nodes of a design tree

A design tree is a list of nodes in depth-first order; the descendants of a node are the nodes
behind it that lie deeper. `DesignNode` is what the planning of a run, the extraction of strings
and the merge need to know of a node.
-/

namespace FormWeave

inductive NodeKind
  | comment | code | codeBlock | declaration | function | widgetClass | widget | menuItem | data
  deriving DecidableEq, Repr, Inhabited

namespace NodeKind

def all : List NodeKind :=
  [comment, code, codeBlock, declaration, function, widgetClass, widget, menuItem, data]

def name : NodeKind → String
  | comment => "comment"
  | code => "code"
  | codeBlock => "code_block"
  | declaration => "declaration"
  | function => "function"
  | widgetClass => "widget_class"
  | widget => "widget"
  | menuItem => "menu_item"
  | data => "data"

def ofName? (text : String) : Option NodeKind := all.find? (·.name == text)

def isWidget : NodeKind → Bool
  | widget | widgetClass | menuItem => true
  | comment | code | codeBlock | declaration | function | data => false

def hasCallback : NodeKind → Bool
  | widget | menuItem => true
  | comment | code | codeBlock | declaration | function | widgetClass | data => false

def takes (kind : NodeKind) : TagKind → Bool
  | .generic => false
  | .code => kind == code
  | .menuCallback | .widgetCallback => kind.hasCallback

end NodeKind

class DesignNode (ν : Type) where
  id : ν → NodeId
  depth : ν → Nat
  kind : ν → NodeKind
  label : ν → Option String
  tooltip : ν → Option String
  setCode? : ν → String → Option ν
  setCallback? : ν → String → Option ν

namespace DesignNode

variable {ν : Type} [DesignNode ν]

def find? (nodes : List ν) (wanted : NodeId) : Option ν := nodes.find? (id · == wanted)

def replaceFirst (f : ν → ν) (wanted : NodeId) : List ν → List ν
  | [] => []
  | node :: rest =>
    if id node == wanted then f node :: rest else node :: replaceFirst f wanted rest

/-- Whether a node lies below `root`, seen from the nodes behind it. -/
def below (root node : ν) : Bool := depth root < depth node

end DesignNode

end FormWeave
