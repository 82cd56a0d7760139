/-!
# Numbers as digits

Hexadecimal and octal forms of a number, filled with zeros on the left to a least width, and the
reading of hexadecimal digits.
-/

namespace FormWeave.Text

def padZeros (width : Nat) (cs : List Char) : List Char :=
  List.replicate (width - cs.length) '0' ++ cs

def hex (width n : Nat) : String := String.ofList (padZeros width (Nat.toDigits 16 n))

def octal (width n : Nat) : String := String.ofList (padZeros width (Nat.toDigits 8 n))

theorem toList_toString (n : Nat) : (toString n).toList = Nat.toDigits 10 n := by
  rw [show toString n = n.repr from rfl, Nat.repr_eq_ofList_toDigits, String.toList_ofList]

theorem isDigit_of_mem_toString {n : Nat} {c : Char} (h : c ∈ (toString n).toList) :
    c.isDigit = true := by
  rw [toList_toString] at h
  exact Nat.isDigit_of_mem_toDigits (by decide) (by decide) h

def hexValue? (c : Char) : Option Nat :=
  if '0' ≤ c && c ≤ '9' then some (c.toNat - '0'.toNat)
  else if 'a' ≤ c && c ≤ 'f' then some (c.toNat - 'a'.toNat + 10)
  else if 'A' ≤ c && c ≤ 'F' then some (c.toNat - 'A'.toNat + 10)
  else none

/-- The value of a sequence of digits in `base`, read behind the value `start`. -/
def digitsValue? (value? : Char → Option Nat) (base : Nat) : (start : Nat) → List Char → Option Nat
  | start, [] => some start
  | start, c :: cs => do digitsValue? value? base (start * base + (← value? c)) cs

/-- The value of a sequence of digits in `base`, read behind the value `start`, as far as it is not
above `limit`: all larger values are taken for `limit + 1`. -/
def cappedValue? (value? : Char → Option Nat) (base limit : Nat) :
    (start : Nat) → List Char → Option Nat
  | start, [] => some (min start (limit + 1))
  | start, c :: cs => do
    cappedValue? value? base limit (min (start * base + (← value? c)) (limit + 1)) cs

theorem cappedValue?_congr (value? : Char → Option Nat) (base limit : Nat) (hb : 0 < base)
    (cs : List Char) : ∀ s t : Nat, min s (limit + 1) = min t (limit + 1) →
    cappedValue? value? base limit s cs = cappedValue? value? base limit t cs := by
  induction cs with
  | nil => intro s t h; simp [cappedValue?, h]
  | cons c cs ih =>
    intro s t h
    simp only [cappedValue?]
    cases value? c with
    | none => rfl
    | some d =>
      have same : min (s * base + d) (limit + 1) = min (t * base + d) (limit + 1) := by
        by_cases hs : s ≤ limit
        · have : s = t := by omega
          rw [this]
        · have h1 : s ≤ s * base := Nat.le_mul_of_pos_right s hb
          have h2 : t ≤ t * base := Nat.le_mul_of_pos_right t hb
          omega
      simp [same]

/-- Capping the value at every digit is the same as capping it at the end. -/
theorem cappedValue?_eq_map_min (value? : Char → Option Nat) (base limit : Nat) (hb : 0 < base)
    (cs : List Char) : ∀ start : Nat,
    cappedValue? value? base limit start cs =
      (digitsValue? value? base start cs).map (min · (limit + 1)) := by
  induction cs with
  | nil => intro start; rfl
  | cons c cs ih =>
    intro start
    simp only [cappedValue?, digitsValue?]
    cases value? c with
    | none => rfl
    | some d =>
      simp only [Option.bind_eq_bind, Option.bind_some]
      rw [cappedValue?_congr value? base limit hb cs _ (start * base + d) (by omega), ih]

def hexNumber? (cs : List Char) : Option Nat :=
  if cs.isEmpty then none else digitsValue? hexValue? 16 0 cs

def decimalValue? (c : Char) : Option Nat :=
  if '0' ≤ c && c ≤ '9' then some (c.toNat - '0'.toNat) else none

def decimalNumber? (cs : List Char) : Option Nat :=
  if cs.isEmpty then none else digitsValue? decimalValue? 10 0 cs

def decimalUpTo? (limit : Nat) (cs : List Char) : Option Nat :=
  if cs.isEmpty then none else (cappedValue? decimalValue? 10 limit 0 cs).filter (· ≤ limit)

end FormWeave.Text
