import FormWeave.Identifier

/-!
# Things written once

The lines that stand in the header or the source only once, and the objects whose one-time code is
already written. The source includes the header, so a line of the header also counts as present in
the source, but not the other way round.
-/

namespace FormWeave

inductive Scope
  | header | source
  deriving DecidableEq, Repr

structure Declarations where
  header : List String := []
  source : List String := []
  deriving Repr, Inhabited

namespace Declarations

def contains (known : Declarations) : Scope → String → Bool
  | .header, line => known.header.contains line
  | .source, line => known.header.contains line || known.source.contains line

/-- Records a line in a file. The answer is `true` if it has to be written: it could not be seen
there before. -/
def claim (known : Declarations) (scope : Scope) (line : String) : Bool × Declarations :=
  if known.contains scope line then (false, known)
  else
    match scope with
    | .header => (true, { known with header := line :: known.header })
    | .source => (true, { known with source := line :: known.source })

end Declarations

structure Objects where
  members : List ObjectId := []
  deriving Repr, Inhabited

namespace Objects

def size (known : Objects) : Nat := known.members.length

def see (known : Objects) (object : ObjectId) : Bool × Objects :=
  if known.members.contains object then (true, known)
  else (false, { members := object :: known.members })

end Objects

end FormWeave
