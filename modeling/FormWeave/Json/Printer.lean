import FormWeave.Json.Value

/-!
# Writing JSON

The pretty form has one item or member on a line, indented by two spaces a level; the compact form
has no white space.
-/

namespace FormWeave.Json

def Number.render (n : Number) : String :=
  let fraction := match n.fraction with
    | none => ""
    | some digits => "." ++ String.ofList digits
  let exponent := match n.exponent with
    | none => ""
    | some (negative, digits) => (if negative then "e-" else "e+") ++ String.ofList digits
  (if n.negative then "-" else "") ++ String.ofList n.whole ++ fraction ++ exponent

def renderString (raw : List Char) : String := "\"" ++ String.ofList raw ++ "\""

namespace Value

mutual
def compact : Value → String
  | null => "null"
  | bool true => "true"
  | bool false => "false"
  | number n => n.render
  | string raw => renderString raw
  | array items => "[" ++ String.intercalate "," (compactItems items) ++ "]"
  | object members => "\x7b" ++ String.intercalate "," (compactMembers members) ++ "\x7d"

def compactItems : List Value → List String
  | [] => []
  | item :: rest => compact item :: compactItems rest

def compactMembers : List (List Char × Value) → List String
  | [] => []
  | (name, value) :: rest =>
    (renderString name ++ ":" ++ compact value) :: compactMembers rest
end

def newLine (level : Nat) : String := "\n" ++ String.ofList (List.replicate (2 * level) ' ')

def block (opening closing : String) (level : Nat) (entries : List String) : String :=
  if entries.isEmpty then opening ++ closing
  else
    opening ++ newLine (level + 1) ++ String.intercalate ("," ++ newLine (level + 1)) entries ++
      newLine level ++ closing

mutual
def prettyAt (level : Nat) : Value → String
  | null => "null"
  | bool true => "true"
  | bool false => "false"
  | number n => n.render
  | string raw => renderString raw
  | array items => block "[" "]" level (prettyItems (level + 1) items)
  | object members => block "\x7b" "\x7d" level (prettyMembers (level + 1) members)

def prettyItems (level : Nat) : List Value → List String
  | [] => []
  | item :: rest => prettyAt level item :: prettyItems level rest

def prettyMembers (level : Nat) : List (List Char × Value) → List String
  | [] => []
  | (name, value) :: rest =>
    (renderString name ++ ": " ++ prettyAt level value) :: prettyMembers level rest
end

def pretty (value : Value) : String := prettyAt 0 value

end Value

end FormWeave.Json
