/-!
# Errors of stored formats

Why a text in one of the notations the program reads does not hold what it should.
-/

namespace FormWeave

inductive FormatError
  | malformed
  | tooDeep
  /-- A string holds an escape that stands for no character. -/
  | badString
  | numberOutOfRange
  | missingField (name : String)
  | duplicateField (name : String)
  | expected (what : String)
  | unknownName (name : String)
  deriving DecidableEq, Repr

def FormatError.message : FormatError → String
  | malformed => "the text is malformed"
  | tooDeep => "the nesting is too deep"
  | badString => "a string holds an invalid escape"
  | numberOutOfRange => "a number is out of range"
  | missingField name => "missing field `" ++ name ++ "`"
  | duplicateField name => "duplicate field `" ++ name ++ "`"
  | expected what => "expected " ++ what
  | unknownName name => "unknown name `" ++ name ++ "`"

end FormWeave
