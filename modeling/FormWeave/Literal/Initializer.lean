import FormWeave.Text.Utf8

/-!
# Array initializers

A byte sequence as a C array initializer of decimal values, `{0,1,2,250}`, broken between values so
that a line has up to 80 columns.
-/

namespace FormWeave.Literal

def valueWidth (byte : UInt8) : Nat :=
  if byte ≥ 100 then 4 else if byte ≥ 10 then 3 else 2

def initializerValues : (column : Nat) → Bytes → List String
  | _, [] => []
  | column, byte :: rest =>
    let next := column + valueWidth byte
    let comma := if rest.isEmpty then "" else ","
    if next ≥ 77 then ("\n" ++ toString byte.toNat ++ comma) :: initializerValues 0 rest
    else (toString byte.toNat ++ comma) :: initializerValues next rest

def initializer (bytes : Bytes) : String :=
  "\x7b" ++ String.join (initializerValues 1 bytes) ++ "\x7d"

end FormWeave.Literal
