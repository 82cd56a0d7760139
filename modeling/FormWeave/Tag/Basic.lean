import FormWeave.Text.Digits
import FormWeave.Text.Utf8

/-!
# Merge tags

A tag is the line that closes a generated block. It says what the block holds, which design node
wrote it, and the checksum of the block as generated.
-/

namespace FormWeave

structure NodeId where
  value : UInt16
  deriving DecidableEq, Repr, Hashable, Inhabited

def NodeId.render (id : NodeId) : String := Text.hex 4 id.value.toNat

inductive TagKind
  /-- Generated structure; edits to it cannot be merged back. -/
  | generic
  | code
  | menuCallback
  | widgetCallback
  deriving DecidableEq, Repr, Inhabited

namespace TagKind

def index : TagKind → Nat
  | generic => 0
  | code => 1
  | menuCallback => 2
  | widgetCallback => 3

def lastIndex : Nat := 3

def ofIndex? : Int → Option TagKind
  | 0 => some generic
  | 1 => some code
  | 2 => some menuCallback
  | 3 => some widgetCallback
  | _ => none

def isMergeable (kind : TagKind) : Bool := kind != generic

def isCallback : TagKind → Bool
  | menuCallback | widgetCallback => true
  | generic | code => false

def name : TagKind → String
  | generic => "generic"
  | code => "code"
  | menuCallback => "menu_callback"
  | widgetCallback => "widget_callback"

@[simp] theorem ofIndex?_index (kind : TagKind) : ofIndex? kind.index = some kind := by
  cases kind <;> rfl

end TagKind

structure Tag where
  kind : TagKind
  nodeId : NodeId
  checksum : UInt32
  deriving DecidableEq, Repr, Inhabited

namespace Tag

def marker : String := "//~fl~"

def render (tag : Tag) : String :=
  marker ++ toString tag.kind.index ++ "~" ++ Text.hex 4 tag.nodeId.value.toNat ++ "~" ++
    Text.hex 8 tag.checksum.toNat ++ "~~"

def line (tag : Tag) : Bytes := utf8 (tag.render ++ "\n")

end Tag

end FormWeave
