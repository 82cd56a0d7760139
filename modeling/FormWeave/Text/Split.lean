/-!
# Cutting a sequence at a separator

`split` cuts at every separator and drops it; `splitInclusive` keeps the separator at the end of
its piece. `lines` are the lines of a text without their ends.
-/

namespace FormWeave.Text

variable {α : Type} [BEq α]

/-- The pieces between the separators of a sequence: one more than there are separators. -/
def split (sep : α) : List α → List (List α)
  | [] => [[]]
  | x :: xs =>
    if x == sep then [] :: split sep xs
    else
      match split sep xs with
      | [] => [[x]]
      | piece :: pieces => (x :: piece) :: pieces

/-- The pieces of a sequence, each up to and with its separator; only the last may lack one and
none is empty. -/
def splitInclusive (sep : α) : List α → List (List α)
  | [] => []
  | x :: xs =>
    if x == sep then [x] :: splitInclusive sep xs
    else
      match splitInclusive sep xs with
      | [] => [[x]]
      | piece :: pieces => (x :: piece) :: pieces

@[simp] theorem flatten_splitInclusive (sep : α) (xs : List α) :
    (splitInclusive sep xs).flatten = xs := by
  induction xs with
  | nil => rfl
  | cons x xs ih =>
    rw [splitInclusive]
    split
    · simp [ih]
    · split
      · next h => simp [h] at ih; simp [← ih]
      · next h => simp [h] at ih; simp [← ih]

theorem split_ne_nil (sep : α) (xs : List α) : split sep xs ≠ [] := by
  cases xs with
  | nil => simp [split]
  | cons x xs =>
    rw [split]
    split
    · simp
    · split <;> simp

def chompLine (line : List Char) : List Char :=
  match line.reverse with
  | '\n' :: '\r' :: rest => rest.reverse
  | '\n' :: rest => rest.reverse
  | _ => line

/-- The lines of a text without their ends. A text that ends in a line feed has no empty line
behind it. -/
def lines (text : String) : List String :=
  (splitInclusive '\n' text.toList).map fun line => String.ofList (chompLine line)

end FormWeave.Text
