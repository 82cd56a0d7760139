import FormWeave.Json.Value

/-!
# JSON tokens

A JSON text is cut into tokens: brackets, colons and commas, names, strings and numbers, with white
space between them.
-/

namespace FormWeave.Json

inductive Token
  | openArray | closeArray | openObject | closeObject | colon | comma
  | null
  | bool (value : Bool)
  | number (value : Number)
  | string (raw : List Char)
  deriving DecidableEq, Repr

namespace Token

def isSpace (c : Char) : Bool := c == ' ' || c == '\n' || c == '\t' || c == '\r'

def isDigit (c : Char) : Bool := '0' ≤ c && c ≤ '9'

/-- The text of a string up to its closing quotation mark, and what stands behind it. `done` was
read already, last character first. -/
def string? (done : List Char) : List Char → Option (List Char × List Char)
  | '"' :: rest => some (done.reverse, rest)
  | '\\' :: 'u' :: a :: b :: c :: d :: rest =>
    if ([a, b, c, d].all fun c => (Text.hexValue? c).isSome) then
      string? (d :: c :: b :: a :: 'u' :: '\\' :: done) rest
    else none
  | '\\' :: c :: rest =>
    if (Escape.letter? c).isSome then string? (c :: '\\' :: done) rest else none
  | c :: rest => if c == '\\' || c.toNat < 0x20 then none else string? (c :: done) rest
  | [] => none

def digits? (cs : List Char) : Option (List Char × List Char) :=
  if cs.head?.any isDigit then some (cs.takeWhile isDigit, cs.dropWhile isDigit) else none

/-- The digits in front of the point: a zero alone, or digits that start with another one. -/
def whole? (cs : List Char) : Option (List Char × List Char) :=
  match cs with
  | '0' :: rest => if rest.head?.any isDigit then none else some (['0'], rest)
  | _ => digits? cs

def fraction? (cs : List Char) : Option (Option (List Char) × List Char) :=
  match cs with
  | '.' :: rest => (digits? rest).map fun (digits, rest) => (some digits, rest)
  | _ => some (none, cs)

def exponent? (cs : List Char) : Option (Option (Bool × List Char) × List Char) :=
  match cs with
  | c :: rest =>
    if c == 'e' || c == 'E' then
      match rest with
      | '-' :: rest => (digits? rest).map fun (digits, rest) => (some (true, digits), rest)
      | '+' :: rest => (digits? rest).map fun (digits, rest) => (some (false, digits), rest)
      | _ => (digits? rest).map fun (digits, rest) => (some (false, digits), rest)
    else some (none, cs)
  | [] => some (none, [])

def number? (cs : List Char) : Option (Number × List Char) := do
  let (negative, cs) := match cs with
    | '-' :: rest => (true, rest)
    | _ => (false, cs)
  let (whole, cs) ← whole? cs
  let (fraction, cs) ← fraction? cs
  let (exponent, cs) ← exponent? cs
  return ({ negative, whole, fraction, exponent }, cs)

def first? : List Char → Option (Token × List Char)
  | '[' :: rest => some (openArray, rest)
  | ']' :: rest => some (closeArray, rest)
  | '\x7b' :: rest => some (openObject, rest)
  | '\x7d' :: rest => some (closeObject, rest)
  | ':' :: rest => some (colon, rest)
  | ',' :: rest => some (comma, rest)
  | '"' :: rest => (string? [] rest).map fun (raw, rest) => (string raw, rest)
  | 'n' :: 'u' :: 'l' :: 'l' :: rest => some (null, rest)
  | 't' :: 'r' :: 'u' :: 'e' :: rest => some (bool true, rest)
  | 'f' :: 'a' :: 'l' :: 's' :: 'e' :: rest => some (bool false, rest)
  | cs => (number? cs).map fun (n, rest) => (number n, rest)

/-- The tokens of a text. `fuel` is at least its length, and `done` holds the tokens read already,
last one first. -/
def lexFrom (done : List Token) : (fuel : Nat) → List Char → Option (List Token)
  | _, [] => some done.reverse
  | 0, _ :: _ => none
  | fuel + 1, c :: cs =>
    if isSpace c then lexFrom done fuel cs
    else
      match first? (c :: cs) with
      | none => none
      | some (token, rest) => lexFrom (token :: done) fuel rest

def lex (text : List Char) : Option (List Token) := lexFrom [] text.length text

end Token

end FormWeave.Json
