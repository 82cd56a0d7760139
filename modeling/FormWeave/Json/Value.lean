import FormWeave.Json.Escape

/-!
# JSON values

A value keeps its strings and numbers as they are written, so that what an escape or a number
stands for is asked only where the value is used.
-/

namespace FormWeave.Json

structure Number where
  negative : Bool := false
  whole : List Char
  fraction : Option (List Char) := none
  exponent : Option (Bool × List Char) := none
  deriving DecidableEq, Repr, Inhabited

inductive Value
  | null
  | bool (value : Bool)
  | number (value : Number)
  | string (raw : List Char)
  | array (items : List Value)
  | object (members : List (List Char × Value))
  deriving Repr, Inhabited

namespace Number

def ofInt (n : Int) : Number :=
  { negative := n < 0, whole := Nat.toDigits 10 n.natAbs }

/-- The integer a number is written as, if it fits 64 bits with or without a sign. A point, an
exponent or a negative zero is no integer. -/
def toInt? (n : Number) : Option Int := do
  if n.fraction.isSome || n.exponent.isSome then none
  let limit := if n.negative then 1 <<< 63 else (1 <<< 64) - 1
  let value ← Text.decimalUpTo? limit n.whole
  if n.negative then (if value == 0 then none else some (-(value : Int))) else some value

/-- A number rounded to 53 binary digits, a tie to the even neighbour. -/
def round53 (n : Nat) : Nat :=
  if n < 1 <<< 53 then n
  else
    let unit := 1 <<< (Nat.log2 n - 52)
    let down := n / unit
    let twice := 2 * (n % unit)
    let up := twice > unit || (twice == unit && down % 2 == 1)
    (if up then down + 1 else down) * unit

def leading : (start : Nat) → List Char → Nat × Nat
  | start, [] => (start, 0)
  | start, c :: rest =>
    let next := start * 10 + (c.toNat - '0'.toNat)
    if next < 1 <<< 64 then leading next rest else (start, (c :: rest).length)

/-- The largest exponent that is told apart from larger ones. No number is long enough to make up
for a larger one. -/
def maxExponent : Nat := (1 <<< 31) - 1

/-- The significand of 64 bits and the decimal exponent of a number. Digits in front of the point
that do not fit raise the exponent; those behind it are dropped. -/
def parts (n : Number) : Nat × Int :=
  let (whole, dropped) := leading 0 n.whole
  let behind := n.fraction.getD []
  let (significand, left) := leading whole behind
  let shift : Int := match n.exponent with
    | none => 0
    | some (negative, digits) =>
      let size : Int := (Text.decimalUpTo? maxExponent digits).getD (maxExponent + 1)
      if negative then -size else size
  (significand, dropped - (behind.length - left : Int) + shift)

def isFinite (n : Number) : Bool :=
  let (significand, exponent) := n.parts
  significand == 0 || exponent < 0 ||
    (exponent ≤ 308 &&
      round53 significand * round53 (Nat.pow 10 exponent.toNat) < (1 <<< 1024) - (1 <<< 970))

end Number

namespace Value

def ofText (text : String) : Value := string (Escape.encode text.toList)

def ofInt (n : Int) : Value := number (.ofInt n)

def field (name : String) (value : Value) : List Char × Value :=
  (Escape.encode name.toList, value)

mutual
def fits (depth : Nat) : Value → Bool
  | array items => match depth with
    | 0 => false
    | depth + 1 => itemsFit depth items
  | object members => match depth with
    | 0 => false
    | depth + 1 => membersFit depth members
  | null | bool _ | number _ | string _ => true

def itemsFit (depth : Nat) : List Value → Bool
  | [] => true
  | item :: rest => item.fits depth && itemsFit depth rest

def membersFit (depth : Nat) : List (List Char × Value) → Bool
  | [] => true
  | (_, value) :: rest => value.fits depth && membersFit depth rest
end

mutual
def isSound : Value → Bool
  | number n => n.isFinite
  | string raw => (Escape.decode? raw).isSome
  | array items => itemsSound items
  | object members => membersSound members
  | null | bool _ => true

def itemsSound : List Value → Bool
  | [] => true
  | item :: rest => item.isSound && itemsSound rest

def membersSound : List (List Char × Value) → Bool
  | [] => true
  | (name, value) :: rest =>
    (Escape.decode? name).isSome && value.isSound && membersSound rest
end

end Value

end FormWeave.Json
