import FormWeave.Json.Token

/-!
# Reading JSON

A value is put together token by token. What is still open is kept on a stack, so that the depth of
the nesting does not matter.
-/

namespace FormWeave.Json

inductive Frame
  | array (done : List Value)
  /-- The value of `name` has to come next. -/
  | object (done : List (List Char × Value)) (name : List Char)
  deriving Repr

inductive ReaderState
  | value (stack : List Frame)
  /-- The first item of an array, or its end. -/
  | firstItem (stack : List Frame)
  /-- The name of a member, or, if none came yet, the end of the object. -/
  | name (stack : List Frame) (done : List (List Char × Value)) (mayClose : Bool)
  | colon (stack : List Frame) (done : List (List Char × Value)) (name : List Char)
  | after (stack : List Frame) (finished : Value)
  deriving Repr

namespace ReaderState

def begin? (stack : List Frame) : Token → Option ReaderState
  | .null => some (after stack .null)
  | .bool b => some (after stack (.bool b))
  | .number n => some (after stack (.number n))
  | .string raw => some (after stack (.string raw))
  | .openArray => some (firstItem stack)
  | .openObject => some (name stack [] true)
  | .closeArray | .closeObject | .colon | .comma => none

def next? : ReaderState → Token → Option ReaderState
  | value stack, token => begin? stack token
  | firstItem stack, .closeArray => some (after stack (.array []))
  | firstItem stack, token => begin? (.array [] :: stack) token
  | name stack done _, .string raw => some (colon stack done raw)
  | name stack _ true, .closeObject => some (after stack (.object []))
  | name .., _ => none
  | colon stack done raw, .colon => some (value (.object done raw :: stack))
  | colon .., _ => none
  | after (.array done :: stack) v, .comma => some (value (.array (v :: done) :: stack))
  | after (.array done :: stack) v, .closeArray => some (after stack (.array (v :: done).reverse))
  | after (.object done raw :: stack) v, .comma => some (name stack ((raw, v) :: done) false)
  | after (.object done raw :: stack) v, .closeObject =>
    some (after stack (.object ((raw, v) :: done).reverse))
  | after .., _ => none

def finished? : ReaderState → Option Value
  | after [] v => some v
  | _ => none

end ReaderState

def Value.ofTokens? (tokens : List Token) : Option Value := do
  (← tokens.foldlM ReaderState.next? (.value [])).finished?

def Value.parse? (text : String) : Option Value := do
  Value.ofTokens? (← Token.lex text.toList)

end FormWeave.Json
