import FormWeave.Design.Basic
import FormWeave.Format.Error
import FormWeave.Json.Reader

/-!
# Reading design documents

A document is a JSON object with `resources` and `items`, or an array of these two. Members that
are not known are skipped, but a known one may stand only once. Fields with a default may be
missing; `null` is allowed only for fields that need not be there at all.
-/

namespace FormWeave

abbrev Reading := Except FormatError

namespace Design.Reader

open Json

def maxDepth : Nat := 127

def rawText (raw : List Char) : Reading String :=
  match Escape.decode? raw with
  | some text => .ok text
  | none => .error .badString

def text : Value → Reading String
  | .string raw => rawText raw
  | _ => .error (.expected "a string")

def optionalText : Value → Reading (Option String)
  | .null => .ok none
  | value => some <$> text value

def bool : Value → Reading Bool
  | .bool b => .ok b
  | _ => .error (.expected "a boolean")

def integer (low high : Int) : Value → Reading Int
  | .number n =>
    match n.toInt? with
    | some value => if low ≤ value && value ≤ high then .ok value else .error .numberOutOfRange
    | none => .error (.expected "an integer")
  | _ => .error (.expected "an integer")

def coordinate (value : Value) : Reading Int := integer (-0x80000000) 0x7fffffff value

def byte (value : Value) : Reading UInt8 := do return .ofNat (← integer 0 255 value).toNat

def nodeId : Value → Reading (Option NodeId)
  | .null => .ok none
  | value => do return some ⟨.ofNat (← integer 0 65535 value).toNat⟩

/-- The name in a value that is a name, or an object with the name as its only member and nothing
as its value. -/
def name : Value → Reading String
  | .string raw => rawText raw
  | .object [(raw, .null)] | .object [(raw, .object [])] => rawText raw
  | _ => .error (.expected "a name")

def visibility (value : Value) : Reading Visibility := do
  match ← name value with
  | "private" => return .priv
  | "public" => return .pub
  | "protected" => return .prot
  | other => throw (.unknownName other)

def dataFormat (value : Value) : Reading DataFormat := do
  match ← name value with
  | "binary" => return .binary
  | "text" => return .text
  | other => throw (.unknownName other)

def kind : Value → Reading NodeKind
  | .string raw => do
    let text ← rawText raw
    match NodeKind.ofName? text with
    | some kind => return kind
    | none => throw (.unknownName text)
  | .number n =>
    match n.toInt? with
    | some value =>
      match if value < 0 then none else NodeKind.all[value.toNat]? with
      | some kind => .ok kind
      | none => .error .numberOutOfRange
    | none => .error (.expected "the kind of an item")
  | _ => .error (.expected "the kind of an item")

abbrev Fields := List (String × Value)

def fields (members : List (List Char × Value)) : Reading Fields :=
  members.mapM fun (raw, value) => do return (← rawText raw, value)

/-- The value of a field that may be missing but must not be repeated. -/
def field? (fields : Fields) (wanted : String) : Reading (Option Value) :=
  match fields.filter (·.1 == wanted) with
  | [] => .ok none
  | [(_, value)] => .ok (some value)
  | _ => .error (.duplicateField wanted)

def required {α : Type} (fields : Fields) (wanted : String) (read : Value → Reading α) :
    Reading α := do
  match ← field? fields wanted with
  | some value => read value
  | none => throw (.missingField wanted)

def defaulted {α : Type} (fields : Fields) (wanted : String) (read : Value → Reading α)
    (default : α) : Reading α := do
  match ← field? fields wanted with
  | some value => read value
  | none => return default

def itemBody (fields : Fields) : Reading ItemBody := do
  match ← required fields "kind" kind with
  | .comment =>
    return .comment (← required fields "text" text) (← defaulted fields "in_source" bool true)
      (← defaulted fields "in_header" bool false)
  | .code => return .code (← required fields "code" text)
  | .codeBlock =>
    return .codeBlock (← required fields "open" text) (← defaulted fields "close" text "")
  | .declaration =>
    return .declaration (← required fields "text" text)
      (← defaulted fields "visibility" visibility .priv)
  | .function =>
    return .function (← required fields "name" text) (← defaulted fields "return_type" text "")
      (← defaulted fields "visibility" visibility .pub)
  | .widgetClass =>
    return .widgetClass (← required fields "name" text) (← defaulted fields "base" text "Fl_Group")
  | .widget =>
    return .widget (← required fields "class" text) (← defaulted fields "name" optionalText none)
      (← defaulted fields "label" optionalText none)
      (← defaulted fields "tooltip" optionalText none)
      (← defaulted fields "callback" optionalText none)
      (← defaulted fields "image" optionalText none) (← defaulted fields "x" coordinate 0)
      (← defaulted fields "y" coordinate 0) (← defaulted fields "w" coordinate 0)
      (← defaulted fields "h" coordinate 0)
  | .menuItem =>
    return .menuItem (← required fields "label" text)
      (← defaulted fields "shortcut" optionalText none)
      (← defaulted fields "callback" optionalText none)
  | .data =>
    return .data (← required fields "name" text) (← required fields "resource" text)
      (← defaulted fields "format" dataFormat .binary)
      (← defaulted fields "visibility" visibility .priv)

/-- An item, from its members and the items below it. Members other than the id and the children
have to be sound even where they are not used. -/
def itemOf (members : List (List Char × Value)) (children : List Item) : Reading Item := do
  let all ← fields members
  discard <| field? all "children"
  let id ← defaulted all "id" nodeId none
  let rest := all.filter fun (name, _) => name != "id" && name != "children"
  unless rest.all (·.2.isSound) do throw .badString
  return .mk id (← itemBody rest) children

mutual
def item : Value → Reading Item
  | .object members => do itemOf members (← children members)
  | _ => .error (.expected "an item")

def children : List (List Char × Value) → Reading (List Item)
  | [] => .ok []
  | (raw, .array values) :: rest =>
    if Escape.decode? raw == some "children" then items values else children rest
  | (raw, _) :: rest =>
    if Escape.decode? raw == some "children" then .error (.expected "an array") else children rest

def items : List Value → Reading (List Item)
  | [] => .ok []
  | value :: rest => do return (← item value) :: (← items rest)
end

def itemArray : Value → Reading (List Item)
  | .array values => items values
  | _ => .error (.expected "an array")

def resource : Value → Reading Resource
  | .object [(raw, value)] => do
    match ← rawText raw with
    | "text" => return .text (← text value)
    | "bytes" =>
      match value with
      | .array values => return .bytes (← values.mapM byte)
      | _ => throw (.expected "an array of bytes")
    | other => throw (.unknownName other)
  | _ => .error (.expected "a resource")

def resources : Value → Reading ResourceTable
  | .object members => do
    return .ofList (← members.mapM fun (raw, value) => do
      return (← rawText raw, ← resource value))
  | _ => .error (.expected "an object")

def part {α : Type} (read : Value → Reading α) (value : Value) : Reading α :=
  if value.fits (maxDepth - 1) then read value else .error .tooDeep

/-- A document. Members it does not know may be nested as deeply as they like. -/
def document : Value → Reading Document
  | .object members => do
    let all ← fields members
    return {
      resources := ← defaulted all "resources" (part resources) {}
      items := ← defaulted all "items" (part itemArray) [] }
  | .array [] => .ok {}
  | .array [first] => do return { resources := ← part resources first }
  | .array [first, second] => do
    return { resources := ← part resources first, items := ← part itemArray second }
  | _ => .error (.expected "a design document")

end Design.Reader

def Document.parse (text : String) : Reading Document :=
  match Json.Value.parse? text with
  | some value => Design.Reader.document value
  | none => .error .malformed

end FormWeave
