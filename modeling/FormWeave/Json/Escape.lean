import FormWeave.Text.Digits

/-!
# Escapes in JSON strings

`encode` writes a text as it stands between quotation marks, `decode?` reads it. Reading fails only
for an escaped surrogate that is not one half of a pair.
-/

namespace FormWeave.Json.Escape

def encodeChar (c : Char) : List Char :=
  if c = '"' then ['\\', '"']
  else if c = '\\' then ['\\', '\\']
  else if c = '\x08' then ['\\', 'b']
  else if c = '\t' then ['\\', 't']
  else if c = '\n' then ['\\', 'n']
  else if c = '\x0c' then ['\\', 'f']
  else if c = '\r' then ['\\', 'r']
  else if c.toNat < 0x20 then '\\' :: 'u' :: Text.padZeros 4 (Nat.toDigits 16 c.toNat)
  else [c]

def encode (text : List Char) : List Char := text.flatMap encodeChar

def letter? : Char → Option Char
  | '"' => some '"'
  | '\\' => some '\\'
  | '/' => some '/'
  | 'b' => some '\x08'
  | 'f' => some '\x0c'
  | 'n' => some '\n'
  | 'r' => some '\r'
  | 't' => some '\t'
  | _ => none

def isHigh (unit : Nat) : Bool := 0xd800 ≤ unit && unit ≤ 0xdbff

def isLow (unit : Nat) : Bool := 0xdc00 ≤ unit && unit ≤ 0xdfff

def pair (high low : Nat) : Char := Char.ofNat (0x10000 + (high - 0xd800) * 0x400 + (low - 0xdc00))

/-- The text that is written between quotation marks. `high` is a first half of a pair whose second
half has to come next. -/
def decodeFrom (high : Option Nat) : List Char → Option (List Char)
  | '\\' :: 'u' :: a :: b :: c :: d :: rest => do
    let unit ← Text.hexNumber? [a, b, c, d]
    match high with
    | some first => if isLow unit then return pair first unit :: (← decodeFrom none rest) else none
    | none =>
      if isHigh unit then decodeFrom (some unit) rest
      else if isLow unit then none
      else return Char.ofNat unit :: (← decodeFrom none rest)
  | '\\' :: c :: rest => do
    if high.isSome then none else return (← letter? c) :: (← decodeFrom none rest)
  | c :: rest => if high.isSome then none else do return c :: (← decodeFrom none rest)
  | [] => if high.isSome then none else some []

def decode? (raw : List Char) : Option String := (decodeFrom none raw).map String.ofList

end FormWeave.Json.Escape
