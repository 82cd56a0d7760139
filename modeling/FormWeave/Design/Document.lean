import FormWeave.Design.Kind
import FormWeave.Writer.Basic

/-!
# Design documents

A document is a forest of items and a table of named resources. Items may lack an id; resources are
sorted by name.
-/

namespace FormWeave

inductive Resource
  | text (text : String)
  | bytes (bytes : Bytes)
  deriving DecidableEq, Repr, Inhabited

def Resource.content : Resource → Bytes
  | text t => utf8 t
  | bytes bs => bs

structure ResourceTable where
  entries : List (String × Resource) := []
  deriving DecidableEq, Repr, Inhabited

namespace ResourceTable

def find? (table : ResourceTable) (name : String) : Option Resource := table.entries.lookup name

def insertEntry (name : String) (resource : Resource) :
    List (String × Resource) → List (String × Resource)
  | [] => [(name, resource)]
  | (other, r) :: rest =>
    if name = other then (name, resource) :: rest
    else if name < other then (name, resource) :: (other, r) :: rest
    else (other, r) :: insertEntry name resource rest

def insert (table : ResourceTable) (name : String) (resource : Resource) : ResourceTable :=
  { entries := insertEntry name resource table.entries }

/-- The table of a list of resources; of two with one name the later counts. -/
def ofList (entries : List (String × Resource)) : ResourceTable :=
  entries.foldl (fun table (name, resource) => table.insert name resource) {}

end ResourceTable

inductive DataFormat
  | binary
  | text
  deriving DecidableEq, Repr, Inhabited

inductive ItemBody
  /-- Free text. First or last in a design it frames the whole file. -/
  | comment (text : String) (inSource inHeader : Bool)
  | code (code : String)
  | codeBlock (opening closing : String)
  | declaration (text : String) (visibility : Visibility)
  /-- A function, or a method inside a class. The name includes the arguments. -/
  | function (name returnType : String) (visibility : Visibility)
  | widgetClass (name base : String)
  /-- A widget. `image` names a resource. -/
  | widget (className : String) (name label tooltip callback image : Option String)
      (x y w h : Int)
  | menuItem (label : String) (shortcut callback : Option String)
  | data (name resource : String) (format : DataFormat) (visibility : Visibility)
  deriving DecidableEq, Repr, Inhabited

namespace ItemBody

def kind : ItemBody → NodeKind
  | comment .. => .comment
  | code .. => .code
  | codeBlock .. => .codeBlock
  | declaration .. => .declaration
  | function .. => .function
  | widgetClass .. => .widgetClass
  | widget .. => .widget
  | menuItem .. => .menuItem
  | data .. => .data

def label? : ItemBody → Option String
  | widget _ _ label .. => label
  | menuItem label .. => some label
  | _ => none

def tooltip? : ItemBody → Option String
  | widget _ _ _ tooltip .. => tooltip
  | _ => none

def resourceName? : ItemBody → Option String
  | widget _ _ _ _ _ image .. => image
  | data _ resource .. => some resource
  | _ => none

def callback? : ItemBody → Option String
  | widget _ _ _ _ callback .. => callback
  | menuItem _ _ callback => callback
  | _ => none

def setCode? : ItemBody → String → Option ItemBody
  | code _, text => some (code text)
  | _, _ => none

def setCallback? : ItemBody → String → Option ItemBody
  | widget className name label tooltip _ image x y w h, text =>
    some (widget className name label tooltip (some text) image x y w h)
  | menuItem label shortcut _, text => some (menuItem label shortcut (some text))
  | _, _ => none

end ItemBody

inductive Item
  | mk (id : Option NodeId) (body : ItemBody) (children : List Item)
  deriving Repr, Inhabited

namespace Item

def id? : Item → Option NodeId
  | mk id _ _ => id

def body : Item → ItemBody
  | mk _ body _ => body

def children : Item → List Item
  | mk _ _ children => children

end Item

structure Document where
  resources : ResourceTable := {}
  items : List Item := []
  deriving Repr, Inhabited

end FormWeave
