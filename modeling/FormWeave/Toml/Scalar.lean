import FormWeave.Text.Digits

/-!
# Plain TOML scalars

Numbers, booleans, dates and times. Only whether a text is one of them is asked for, and which. A
text counts as an integer by its front and by where its underscores stand; whether all of it is
digits, and whether the number is in the range of its kind (128 bits for integers, double precision
for the others), matters only to someone who reads the number.
-/

namespace FormWeave.Toml

inductive Scalar
  | bool (value : Bool)
  | integer
  | float
  | datetime
  | unreadable
  deriving DecidableEq, Repr

namespace Scalar

def isDigit (c : Char) : Bool := '0' ≤ c && c ≤ '9'

def isDigitIn (base : Nat) (c : Char) : Bool := (Text.hexValue? c).any (· < base)

/-- Whether every underscore has a digit in front of it and one behind it. `inFront` says whether
there is a digit in front of the text. -/
def areSpacedBehind (isDigit : Char → Bool) : (inFront : Bool) → List Char → Bool
  | _, [] => true
  | inFront, '_' :: rest => inFront && rest.head?.any isDigit && areSpacedBehind isDigit false rest
  | _, c :: rest => areSpacedBehind isDigit (isDigit c) rest

def areSpaced (isDigit : Char → Bool) (cs : List Char) : Bool := areSpacedBehind isDigit false cs

def isSigned (cs : List Char) : Bool := cs.head? == some '+' || cs.head? == some '-'

def dropSign (cs : List Char) : List Char := if isSigned cs then cs.tail else cs

def isUpTo (base limit : Nat) (cs : List Char) : Bool :=
  let digits := cs.filter (· != '_')
  !digits.isEmpty && digits.all (isDigitIn base) &&
    (Text.cappedValue? Text.hexValue? base limit 0 digits).any (· ≤ limit)

/-- The integer that digits in a base stand for, if its value fits 128 bits with or without a
sign. -/
def integerOf (base : Nat) (negative : Bool) (digits : List Char) : Scalar :=
  let limit := if negative then 1 <<< 127 else (1 <<< 128) - 1
  if isUpTo base limit digits then integer else unreadable

def inBase? (base : Nat) (digits : List Char) : Option Scalar :=
  if digits.all (fun c => isDigitIn base c || c == '_') && areSpaced (isDigitIn base) digits then
    some (integerOf base false digits)
  else none

/-- The decimal integer of a text without its sign. A zero in front stands alone. With an underscore
behind the first digits whatever follows belongs to the integer, and digits up to `f` may have
underscores between them. -/
def decimal? (negative : Bool) (body : List Char) : Option Scalar :=
  if (body.head? == some '0' && body.length > 1) || !areSpaced (isDigitIn 16) body then none
  else some (integerOf 10 negative body)

def dropDigits? (cs : List Char) : Option (List Char) :=
  let run := cs.takeWhile fun c => isDigit c || c == '_'
  if run.any isDigit then some (cs.drop run.length) else none

def afterExponent? : List Char → Option (List Char)
  | c :: rest => if c == 'e' || c == 'E' then dropDigits? (dropSign rest) else some (c :: rest)
  | [] => some []

def afterFraction? : List Char → Option (List Char)
  | '.' :: rest => dropDigits? rest
  | rest => some rest

def isFloat (body : List Char) : Bool :=
  let whole := (body.takeWhile fun c => isDigit c || c == '_').filter isDigit
  let rest := do afterExponent? (← afterFraction? (← dropDigits? body))
  rest == some [] && (body.head? != some '0' || whole.length ≤ 1) && areSpaced isDigit body

/-- Whether `digits * 10 ^ power` is below the middle between the largest double and the power of
two above it, so that it is rounded to a double and not to infinity. The middle is an integer of 309
digits, so that of a number as large as that only the digits in front of the point count. -/
def isInRange (digits : List Char) (power : Int) : Bool :=
  let digits := digits.dropWhile (· == '0')
  let size := digits.length + power
  if digits.isEmpty || size < 309 then true
  else if size > 309 then false
  else
    let whole := digits.take 309
    (Text.decimalNumber? whole).getD 0 * Nat.pow 10 (309 - whole.length) <
      (1 <<< 1024) - (1 <<< 970)

/-- The exponent that digits stand for. Behind the digit that takes it to 65536 or above, no more
digits are read. -/
def exponentOf (digits : List Char) : Nat :=
  digits.foldl (fun n c => if n < 0x10000 then n * 10 + (c.toNat - '0'.toNat) else n) 0

def isFinite (cs : List Char) : Bool :=
  let body := (dropSign cs).filter (· != '_')
  let mantissa := body.takeWhile fun c => c != 'e' && c != 'E'
  let whole := mantissa.takeWhile (· != '.')
  let fraction := (mantissa.dropWhile (· != '.')).drop 1
  let exponent := (body.dropWhile fun c => c != 'e' && c != 'E').drop 1
  let size : Int := exponentOf (dropSign exponent)
  let power := if exponent.head? == some '-' then -size else size
  body == ['i', 'n', 'f'] || body == ['n', 'a', 'n'] ||
    isInRange (whole ++ fraction) (power - fraction.length)

def twoDigits? (low high : Nat) : List Char → Option (Nat × List Char)
  | a :: b :: rest => do
    let value ← Text.decimalNumber? [a, b]
    if low ≤ value && value ≤ high then some (value, rest) else none
  | _ => none

def daysIn (year month : Nat) : Nat :=
  if month == 2 then
    if (year % 4 == 0 && year % 100 != 0) || year % 400 == 0 then 29 else 28
  else if month == 4 || month == 6 || month == 9 || month == 11 then 30
  else 31

def afterDate? : List Char → Option (List Char)
  | a :: b :: c :: d :: '-' :: rest => do
    let year ← Text.decimalNumber? [a, b, c, d]
    match ← twoDigits? 1 12 rest with
    | (month, '-' :: rest) => do return (← twoDigits? 1 (daysIn year month) rest).2
    | _ => none
  | _ => none

def afterSubsecond? : List Char → Option (List Char)
  | '.' :: rest =>
    if (rest.takeWhile isDigit).isEmpty then none else some (rest.dropWhile isDigit)
  | rest => some rest

def afterTime? (cs : List Char) : Option (List Char) := do
  match ← twoDigits? 0 23 cs with
  | (_, ':' :: rest) =>
    match ← twoDigits? 0 59 rest with
    | (_, ':' :: rest) => afterSubsecond? (← twoDigits? 0 60 rest).2
    | (_, rest) => return rest
  | _ => none

def isOffset : List Char → Bool
  | [] | ['Z'] | ['z'] => true
  | '+' :: rest | '-' :: rest =>
    match twoDigits? 0 23 rest with
    | some (_, ':' :: rest) => (twoDigits? 0 59 rest).any fun (_, rest) => rest.isEmpty
    | _ => false
  | _ => false

def isDatetime (cs : List Char) : Bool :=
  match afterDate? cs with
  | some [] => true
  | some (c :: rest) =>
    (c == 'T' || c == 't' || c == ' ') && (afterTime? rest).any isOffset
  | none => (afterTime? cs).any List.isEmpty

def number? (cs body : List Char) : Option Scalar :=
  let rest := body.dropWhile isDigit
  let integer? := decimal? (cs.head? == some '-') body
  match rest with
  | [] => integer?
  | c :: _ =>
    if c == '-' || c == ':' || rest.contains ' ' then
      if isDatetime cs then some datetime else none
    else if rest.any fun c => c == '.' || c == 'e' || c == 'E' then
      if !isFloat body then none
      else some (if isFinite cs then float else unreadable)
    else if c == '_' then integer?
    else none

def ofList? (cs : List Char) : Option Scalar :=
  if cs == "true".toList then some (bool true)
  else if cs == "false".toList then some (bool false)
  else
    match cs with
    | '0' :: 'x' :: digits => inBase? 16 digits
    | '0' :: 'o' :: digits => inBase? 8 digits
    | '0' :: 'b' :: digits => inBase? 2 digits
    | _ =>
      let body := dropSign cs
      if body == "inf".toList || body == "nan".toList then some float
      else if body.isEmpty then none
      else number? cs body

def isScalarChar (c : Char) : Bool := !"=,[]\x7b\x7d \t#\r\n".toList.contains c

/-- The text of the scalar at the front, and what stands behind it. A date may be set off from its
time by a space. -/
def cut (cs : List Char) : List Char × List Char :=
  let word := cs.takeWhile isScalarChar
  let rest := cs.dropWhile isScalarChar
  match rest with
  | ' ' :: a :: more =>
    if afterDate? word == some [] && isDigit a then
      (word ++ ' ' :: (a :: more).takeWhile isScalarChar, (a :: more).dropWhile isScalarChar)
    else (word, rest)
  | _ => (word, rest)

end Scalar

end FormWeave.Toml
