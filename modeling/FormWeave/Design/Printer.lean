import FormWeave.Design.Basic
import FormWeave.Json.Printer

/-!
# Writing design documents

A document as a JSON value, and as text. Fields that say nothing are left out: a missing text, an
empty text where that is the default, an item without children, a document without resources.
-/

namespace FormWeave

open Json Json.Value

def Visibility.toJson (v : Visibility) : Value := .ofText v.keyword

def DataFormat.toJson : DataFormat → Value
  | binary => .ofText "binary"
  | text => .ofText "text"

def Resource.toJson : Resource → Value
  | text t => .object [field "text" (.ofText t)]
  | bytes bs => .object [field "bytes" (.array (bs.map fun b => .ofInt b.toNat))]

def optionalField (name : String) (text : Option String) : List (List Char × Value) :=
  (text.map fun text => field name (.ofText text)).toList

def nonemptyField (name text : String) : List (List Char × Value) :=
  if text.isEmpty then [] else [field name (.ofText text)]

def ItemBody.fields (body : ItemBody) : List (List Char × Value) :=
  field "kind" (.ofText body.kind.name) ::
    match body with
    | comment text inSource inHeader =>
      [field "text" (.ofText text), field "in_source" (.bool inSource),
        field "in_header" (.bool inHeader)]
    | code lines => [field "code" (.ofText lines)]
    | codeBlock opening closing => field "open" (.ofText opening) :: nonemptyField "close" closing
    | declaration text visibility =>
      [field "text" (.ofText text), field "visibility" visibility.toJson]
    | function name returnType visibility =>
      field "name" (.ofText name) :: nonemptyField "return_type" returnType ++
        [field "visibility" visibility.toJson]
    | widgetClass name base => [field "name" (.ofText name), field "base" (.ofText base)]
    | widget className name label tooltip callback image x y w h =>
      field "class" (.ofText className) :: optionalField "name" name ++
        optionalField "label" label ++ optionalField "tooltip" tooltip ++
        optionalField "callback" callback ++ optionalField "image" image ++
        [field "x" (.ofInt x), field "y" (.ofInt y), field "w" (.ofInt w), field "h" (.ofInt h)]
    | menuItem label shortcut callback =>
      field "label" (.ofText label) :: optionalField "shortcut" shortcut ++
        optionalField "callback" callback
    | data name resource format visibility =>
      [field "name" (.ofText name), field "resource" (.ofText resource),
        field "format" format.toJson, field "visibility" visibility.toJson]

mutual
def Item.toJson : Item → Value
  | .mk id body children =>
    .object ((id.map fun id => field "id" (.ofInt id.value.toNat)).toList ++ body.fields ++
      (if children.isEmpty then [] else [field "children" (.array (Item.listToJson children))]))

def Item.listToJson : List Item → List Value
  | [] => []
  | item :: rest => item.toJson :: Item.listToJson rest
end

def Document.toJson (document : Document) : Value :=
  let entries := document.resources.entries.map fun (name, resource) =>
    field name resource.toJson
  .object ((if entries.isEmpty then [] else [field "resources" (.object entries)]) ++
    [field "items" (.array (Item.listToJson document.items))])

def Document.render (document : Document) : String := document.toJson.pretty

def Design.render (design : Design) : String := design.document.render

end FormWeave
