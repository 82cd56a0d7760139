import FormWeave.Text.Digits
import FormWeave.Text.Utf8

/-!
# Quoted C string literals

A byte sequence becomes a C string literal, quotes included, on lines of up to 80 columns: a line is
broken by a backslash in front of a token that might not fit. How far a line may be filled before a
token depends on the width of the token.
-/

namespace FormWeave.Literal

inductive Token
  | plain (byte : UInt8)
  | escaped (letter : UInt8)
  | verbatim (byte : UInt8)
  /-- A byte as an octal escape; `split` if the next byte is a hexadecimal digit. -/
  | octal (byte : UInt8) (split : Bool)
  deriving DecidableEq, Repr

def ascii (c : Char) : UInt8 := c.toNat.toUInt8

def isHexDigit (byte : UInt8) : Bool :=
  (ascii '0' ≤ byte && byte ≤ ascii '9') || (ascii 'a' ≤ byte && byte ≤ ascii 'f') ||
    (ascii 'A' ≤ byte && byte ≤ ascii 'F')

/-- The character behind the backslash for the bytes that have a short escape. A question mark
behind another one is escaped, so that no trigraph can begin. -/
def shortEscape? (previous : Option UInt8) (byte : UInt8) : Option UInt8 :=
  if byte == 0x08 then some (ascii 'b')
  else if byte == 0x09 then some (ascii 't')
  else if byte == 0x0a then some (ascii 'n')
  else if byte == 0x0c then some (ascii 'f')
  else if byte == 0x0d then some (ascii 'r')
  else if byte == ascii '"' || byte == ascii '\'' || byte == ascii '\\' then some byte
  else if byte == ascii '?' && previous == some (ascii '?') then some byte
  else none

def token (utf8Verbatim : Bool) (previous : Option UInt8) (byte : UInt8) (next : Option UInt8) :
    Token :=
  match shortEscape? previous byte with
  | some letter => .escaped letter
  | none =>
    if 32 ≤ byte && byte < 127 then .plain byte
    else if utf8Verbatim && byte ≥ 0x80 then .verbatim byte
    else .octal byte (next.any isHexDigit)

def tokens (utf8Verbatim : Bool) : (previous : Option UInt8) → Bytes → List Token
  | _, [] => []
  | previous, byte :: rest =>
    token utf8Verbatim previous byte rest.head? :: tokens utf8Verbatim (some byte) rest

/-- A literal under construction: what is written, last byte first, and the column. -/
structure Line where
  written : Bytes
  column : Nat

namespace Line

def put (line : Line) (bytes : Bytes) : Line :=
  { written := bytes.reverse ++ line.written, column := line.column + bytes.length }

def breakAt (line : Line) (limit : Nat) : Line :=
  if line.column ≥ limit then
    { written := [ascii '\n', ascii '\\'] ++ line.written, column := 0 }
  else line

def reopen (line : Line) : Line :=
  let closed := line.put [ascii '"']
  let next : Line :=
    if closed.column ≥ 79 then { written := ascii '\n' :: closed.written, column := 0 } else closed
  next.put [ascii '"']

/-- Writes a token. A line is never broken inside a multi-byte character. -/
def putToken (line : Line) : Token → Line
  | .escaped letter => (line.breakAt 77).put [ascii '\\', letter]
  | .plain byte => (line.breakAt 78).put [byte]
  | .verbatim byte =>
    if byte &&& 0x40 != 0 then (line.breakAt 78).put [byte] else line.put [byte]
  | .octal byte split =>
    -- The escape takes two, three or four columns, and one more may follow to close.
    let limit := if byte < 8 then 76 else if byte < 64 then 75 else 74
    let written := (line.breakAt limit).put (ascii '\\' :: utf8 (Text.octal 1 byte.toNat))
    if split then written.reopen else written

end Line

/-- The C string literal for `bytes`, quotes included. A byte outside printable ASCII without a
short escape is an octal escape; if a hexadecimal digit follows, the literal is closed and reopened
behind it, since some compilers read more than three digits. With `utf8Verbatim` the bytes of
multi-byte characters are copied instead. -/
def quoted (bytes : Bytes) (utf8Verbatim : Bool) : Bytes :=
  let start : Line := { written := [ascii '"'], column := 1 }
  let line := (tokens utf8Verbatim none bytes).foldl Line.putToken start
  (ascii '"' :: line.written).reverse

end FormWeave.Literal
