import FormWeave.Text.Digits
import FormWeave.Text.Utf8
import FormWeave.Tag.Basic
import Std.Data.TreeMap.Basic

/-!
# Identifiers of the generated code

An identifier joins a word for what it names with a name or label, as in `cb_Save`. The table of
identifiers given out so far keeps them apart: a second owner asking for a taken identifier gets
one with a hexadecimal number behind it, and an owner asking again gets the identifier it has.
-/

namespace FormWeave

inductive ObjectId
  | node (id : NodeId)
  | resource (name : String)
  | numbered (number : Nat)
  deriving DecidableEq, Repr, Inhabited

def ObjectId.render : ObjectId → String
  | .node id => "node@" ++ id.render
  | .resource name => "resource@" ++ name
  | .numbered number => "object@0x" ++ Text.hex 1 number

namespace Identifier

/-- The longest identifier without a number: 128 bytes, less a number of eight digits and one. -/
def maxLength : Nat := 128 - 8 - 1

def isIdentByte (byte : UInt8) : Bool :=
  (0x30 ≤ byte && byte ≤ 0x39) || (0x41 ≤ byte && byte ≤ 0x5a) ||
    (0x61 ≤ byte && byte ≤ 0x7a) || byte == 0x5f

def stem (hint : String) : Bytes :=
  ((utf8 hint).dropWhile fun b => !isIdentByte b).takeWhile isIdentByte

/-- The identifier before it is made unique: the word, an underscore, and what a non-empty name,
else the label, has to offer, cut to the longest length. -/
def base (word : String) (name label : Option String) : String :=
  let start := String.ofList (word.toList.take (maxLength - 1)) ++ "_"
  let hint := ((name.filter (!·.isEmpty)).or label).getD ""
  let room := maxLength - (utf8 start).length
  start ++ String.ofList (((stem hint).take room).map fun b => Char.ofNat b.toNat)

def numbered (base : String) : Nat → String
  | 0 => base
  | n + 1 => base ++ Text.hex 1 (n + 1)

end Identifier

structure Identifiers (ω : Type) where
  taken : Std.TreeMap String ω := {}
  deriving Repr

namespace Identifiers

variable {ω : Type} [DecidableEq ω]

instance : Inhabited (Identifiers ω) := ⟨{}⟩

def owner? (ids : Identifiers ω) (text : String) : Option ω := ids.taken[text]?

def size (ids : Identifiers ω) : Nat := ids.taken.size

/-- The first form of `base` from the `n`-th on that `owner` has or nobody has. One of the first
`fuel` forms is free when `fuel` exceeds the number of identifiers given out. -/
def firstFree (ids : Identifiers ω) (owner : ω) (base : String) : (fuel n : Nat) → String
  | 0, n => Identifier.numbered base n
  | fuel + 1, n =>
    let text := Identifier.numbered base n
    match ids.owner? text with
    | none => text
    | some other => if other = owner then text else firstFree ids owner base fuel (n + 1)

def allocate (ids : Identifiers ω) (owner : ω) (word : String) (name label : Option String) :
    String × Identifiers ω :=
  let text := ids.firstFree owner (Identifier.base word name label) ids.size 0
  match ids.owner? text with
  | some _ => (text, ids)
  | none => (text, { taken := ids.taken.insert text owner })

end Identifiers

end FormWeave
