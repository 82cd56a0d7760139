import FormWeave.Tag.Basic
import FormWeave.Text.Blank

/-!
# Reading merge tags

A tag is read from the marker on: a kind, a node id and a checksum, each ended by `~`; what follows
the checksum is not looked at. The first field at fault decides the error.
-/

namespace FormWeave

inductive TagField
  | kind | nodeId | checksum
  deriving DecidableEq, Repr

def TagField.name : TagField → String
  | kind => "kind"
  | nodeId => "node id"
  | checksum => "checksum"

inductive TagError
  | missingMarker
  | missingField (field : TagField)
  | invalidField (field : TagField)
  | unknownKind (index : Int)
  deriving DecidableEq, Repr

def TagError.message : TagError → String
  | missingMarker => "the line has no `" ++ Tag.marker ++ "` marker"
  | missingField field => "the " ++ field.name ++ " field is missing"
  | invalidField field => "the " ++ field.name ++ " field is not valid"
  | unknownKind index => "block kind " ++ toString index ++ " is out of range (0 to 3)"

namespace Tag

def dropStart? : (start cs : List Char) → Option (List Char)
  | [], cs => some cs
  | _ :: _, [] => none
  | s :: start, c :: cs => if s == c then dropStart? start cs else none

def cutField : List Char → List Char × Option (List Char)
  | [] => ([], none)
  | c :: cs =>
    if c == '~' then ([], some cs)
    else ((c :: (cutField cs).1), (cutField cs).2)

/-- The value of a decimal integer with an optional sign that fits 64 bits. -/
def integer? (cs : List Char) : Option Int :=
  match cs with
  | '-' :: digits => (Text.decimalUpTo? 0x8000000000000000 digits).map fun n => -(n : Int)
  | '+' :: digits | digits => (Text.decimalUpTo? 0x7fffffffffffffff digits).map Int.ofNat

/-- The value of a field of hexadecimal digits with an optional `+` in front. Blanks at the end do
not count; the rest takes one to `width` bytes. -/
def hexField? (width : Nat) (field : List Char) : Option Nat :=
  let text := Text.dropBlanksEnd field
  if text.isEmpty || (utf8 (String.ofList text)).length > width then none
  else
    match text with
    | '+' :: digits => Text.hexNumber? digits
    | digits => Text.hexNumber? digits

def ofList (cs : List Char) : Except TagError Tag := do
  let some rest := dropStart? marker.toList cs | throw .missingMarker
  let (kindField, rest) := cutField rest
  let some index := integer? kindField | throw (.invalidField .kind)
  let some kind := TagKind.ofIndex? index | throw (.unknownKind index)
  let some rest := rest | throw (.missingField .nodeId)
  let (idField, rest) := cutField rest
  let some id := hexField? 4 idField | throw (.invalidField .nodeId)
  let some rest := rest | throw (.missingField .checksum)
  let some checksum := hexField? 8 (cutField rest).1 | throw (.invalidField .checksum)
  return { kind, nodeId := ⟨.ofNat id⟩, checksum := .ofNat checksum }

def parse (text : String) : Except TagError Tag := ofList text.toList

end Tag

end FormWeave
