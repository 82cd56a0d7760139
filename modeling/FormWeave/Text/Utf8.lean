/-!
# Text as bytes

A byte sequence is a list of bytes; `utf8` is the encoding of a text. Reading goes through
`Utf8.take`, which takes one scalar value or one maximal ill-formed piece off the front, so strict
reading and reading with replacement differ only in what they do with an ill-formed piece.
-/

namespace FormWeave

abbrev Bytes := List UInt8

/-- A byte sequence with other bytes put over its own from a position on. Bytes missing in front of
the position are zeros. -/
def Bytes.splice (content : Bytes) (position : Nat) (bytes : Bytes) : Bytes :=
  content.take position ++ List.replicate (position - content.length) 0 ++ bytes ++
    content.drop (position + bytes.length)

def utf8 (text : String) : Bytes := text.toList.flatMap String.utf8EncodeChar

namespace Utf8

def isTail (b : UInt8) : Bool := 0x80 ≤ b && b ≤ 0xbf

/-- The values the second byte may take after a lead byte of a three byte sequence: no overlong
form and no surrogate. -/
def secondOfThree (lead b : UInt8) : Bool :=
  if lead == 0xe0 then 0xa0 ≤ b && b ≤ 0xbf
  else if lead == 0xed then 0x80 ≤ b && b ≤ 0x9f
  else isTail b

/-- The values the second byte may take after a lead byte of a four byte sequence: no overlong
form and nothing above U+10FFFF. -/
def secondOfFour (lead b : UInt8) : Bool :=
  if lead == 0xf0 then 0x90 ≤ b && b ≤ 0xbf
  else if lead == 0xf4 then 0x80 ≤ b && b ≤ 0x8f
  else isTail b

def extend (n : Nat) (b : UInt8) : Nat := n * 64 + b.toNat % 64

/-- What stands at the front of a byte sequence: a scalar value, or an ill-formed piece (`none`),
with the bytes behind it. -/
structure Taken (size : Nat) where
  scalar : Option Char
  rest : Bytes
  shorter : rest.length ≤ size

/-- Takes the first scalar value off `b :: rest`. An ill-formed piece is the longest start of a
well-formed sequence, or one byte if there is none. -/
def take (b : UInt8) (rest : Bytes) : Taken rest.length :=
  if b < 0x80 then ⟨some (Char.ofNat b.toNat), rest, Nat.le_refl _⟩
  else if 0xc2 ≤ b && b ≤ 0xdf then
    match rest with
    | b1 :: r =>
      if isTail b1 then ⟨some (Char.ofNat (extend (b.toNat % 32) b1)), r, by simp⟩
      else ⟨none, b1 :: r, Nat.le_refl _⟩
    | [] => ⟨none, [], Nat.le_refl _⟩
  else if 0xe0 ≤ b && b ≤ 0xef then
    match rest with
    | b1 :: r =>
      if secondOfThree b b1 then
        match r with
        | b2 :: r' =>
          if isTail b2 then
            ⟨some (Char.ofNat (extend (extend (b.toNat % 16) b1) b2)), r', by simp; omega⟩
          else ⟨none, b2 :: r', by simp⟩
        | [] => ⟨none, [], by simp⟩
      else ⟨none, b1 :: r, Nat.le_refl _⟩
    | [] => ⟨none, [], Nat.le_refl _⟩
  else if 0xf0 ≤ b && b ≤ 0xf4 then
    match rest with
    | b1 :: r =>
      if secondOfFour b b1 then
        match r with
        | b2 :: r' =>
          if isTail b2 then
            match r' with
            | b3 :: r'' =>
              if isTail b3 then
                ⟨some (Char.ofNat (extend (extend (extend (b.toNat % 8) b1) b2) b3)), r'',
                  by simp; omega⟩
              else ⟨none, b3 :: r'', by simp⟩
            | [] => ⟨none, [], by simp⟩
          else ⟨none, b2 :: r', by simp⟩
        | [] => ⟨none, [], by simp⟩
      else ⟨none, b1 :: r, Nat.le_refl _⟩
    | [] => ⟨none, [], Nat.le_refl _⟩
  else ⟨none, rest, Nat.le_refl _⟩

def scalarsFrom (done : List (Option Char)) : Bytes → List (Option Char)
  | [] => done.reverse
  | b :: rest => scalarsFrom ((take b rest).scalar :: done) (take b rest).rest
termination_by bytes => bytes.length
decreasing_by
  have := (take b rest).shorter
  simp only [List.length_cons]
  omega

def scalars (bytes : Bytes) : List (Option Char) := scalarsFrom [] bytes

def decode? (bytes : Bytes) : Option String :=
  let found := scalars bytes
  if found.all Option.isSome then some (String.ofList (found.filterMap id)) else none

def decodeLossy (bytes : Bytes) : String :=
  String.ofList ((scalars bytes).map (·.getD '\uFFFD'))

end Utf8

end FormWeave
