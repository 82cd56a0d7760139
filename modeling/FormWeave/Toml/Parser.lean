import FormWeave.Toml.Scalar
import FormWeave.Toml.Value

/-!
# Reading TOML

Each reader takes its part off the front of a text and hands on what stands behind it. Readers of
parts that can be nested get fuel: twice the length of the text is enough. They also get room: how
many more arrays and inline tables may be opened.
-/

namespace FormWeave.Toml

abbrev Reader := StateT (List Char) Option

namespace Reader

def isControl (c : Char) : Bool := (c.toNat < 0x20 && c != '\t') || c.toNat == 0x7f

def isSpace (c : Char) : Bool := c == ' ' || c == '\t'

def peek : Reader (Option Char) := do return (← get).head?

def spaces : Reader Unit := modify (·.dropWhile isSpace)

def accept (wanted : List Char) : Reader Bool := do
  let cs ← get
  if wanted.isPrefixOf cs then
    set (cs.drop wanted.length)
    return true
  else return false

def expect (wanted : List Char) : Reader Unit := do
  unless ← accept wanted do failure

def newline : Reader Bool := do
  if ← accept ['\n'] then return true else accept ['\r', '\n']

def comment : Reader Unit := do
  if ← accept ['#'] then
    modify (·.dropWhile fun c => !isControl c)

def blanks : (fuel : Nat) → Reader Unit
  | 0 => return
  | fuel + 1 => do
    spaces
    comment
    if ← newline then blanks fuel

def whiteLines : (fuel : Nat) → Reader Unit
  | 0 => return
  | fuel + 1 => do
    spaces
    if ← newline then whiteLines fuel

def code (count : Nat) : Reader Char := do
  let cs ← get
  let digits := cs.take count
  let value ← Text.hexNumber? digits
  if digits.length < count || !value.isValidChar then failure
  set (cs.drop count)
  return Char.ofNat value

def escape : Reader Char := do
  match ← get with
  | [] => failure
  | c :: rest =>
    set rest
    match c with
    | 'b' => return '\x08'
    | 't' => return '\t'
    | 'n' => return '\n'
    | 'f' => return '\x0c'
    | 'r' => return '\r'
    | 'e' => return '\x1b'
    | '"' => return '"'
    | '\\' => return '\\'
    | 'x' => code 2
    | 'u' => code 4
    | 'U' => code 8
    | _ => failure

def lineString (quote : Char) (done : List Char) : (fuel : Nat) → Reader String
  | 0 => failure
  | fuel + 1 => do
    match ← get with
    | [] => failure
    | c :: rest =>
      if c == quote then
        set rest
        return String.ofList done.reverse
      else if c == '\\' && quote == '"' then
        set rest
        lineString quote ((← escape) :: done) fuel
      else if isControl c then failure
      else
        set rest
        lineString quote (c :: done) fuel

/-- Takes a string of several lines up to its three closing quotes. Up to two quotes may stand in
front of those. Between double quotes a backslash at the end of a line joins it to the next text. -/
def blockString (quote : Char) (done : List Char) : (fuel : Nat) → Reader String
  | 0 => failure
  | fuel + 1 => do
    let cs ← get
    let quotes := (cs.takeWhile (· == quote)).length
    if quotes ≥ 3 then
      -- Of up to five quotes the last three close; any more stand behind the string.
      let inside := min (quotes - 3) 2
      set (cs.drop (inside + 3))
      return String.ofList (done.reverse ++ List.replicate inside quote)
    match cs with
    | [] => failure
    | '\\' :: rest =>
      set rest
      if quote == '"' then
        match rest.dropWhile isSpace with
        | '\n' :: _ | '\r' :: '\n' :: _ =>
          -- A joined line: all blanks and line ends up to the next text are dropped.
          whiteLines fuel
          blockString quote done fuel
        | _ => blockString quote ((← escape) :: done) fuel
      else blockString quote ('\\' :: done) fuel
    | '\r' :: '\n' :: rest =>
      set rest
      blockString quote ('\n' :: '\r' :: done) fuel
    | c :: rest =>
      if isControl c && c != '\n' then failure
      set rest
      blockString quote (c :: done) fuel

def string (quote : Char) (fuel : Nat) : Reader String := do
  if ← accept [quote, quote, quote] then
    discard newline
    blockString quote [] fuel
  else
    expect [quote]
    lineString quote [] fuel

def isBare (c : Char) : Bool := c.isAlphanum || c == '_' || c == '-'

def simpleKey (fuel : Nat) : Reader String := do
  let cs ← get
  match cs with
  | '"' :: rest =>
    set rest
    lineString '"' [] fuel
  | '\'' :: rest =>
    set rest
    lineString '\'' [] fuel
  | _ =>
    let word := cs.takeWhile isBare
    if word.isEmpty then failure
    set (cs.dropWhile isBare)
    return String.ofList word

def keyParts : (fuel : Nat) → Reader (List String)
  | 0 => failure
  | fuel + 1 => do
    spaces
    let first ← simpleKey fuel
    spaces
    if ← accept ['.'] then return first :: (← keyParts fuel) else return [first]

/-- How deeply arrays and inline tables may be nested, and how many parts a key may have. -/
def maxNesting : Nat := 80

def key (fuel : Nat) : Reader (List String) := do
  let parts ← keyParts fuel
  if parts.length > maxNesting then failure
  return parts

def scalar : Reader Value := do
  let (text, rest) := Scalar.cut (← get)
  set rest
  match ← Scalar.ofList? text with
  | .bool b => return .bool b
  | .integer => return .integer
  | .float => return .float
  | .datetime => return .datetime
  | .unreadable => return .unreadable

mutual
def value (room : Nat) : (fuel : Nat) → Reader Value
  | 0 => failure
  | fuel + 1 => do
    match ← peek with
    | some '"' => return .string (← string '"' fuel)
    | some '\'' => return .string (← string '\'' fuel)
    | some '[' =>
      if room == 0 then failure
      expect ['[']
      return .array (← items (room - 1) fuel)
    | some '\x7b' =>
      if room == 0 then failure
      expect ['\x7b']
      return .table .inlined (← entries (room - 1) [] fuel)
    | _ => scalar

def items (room : Nat) : (fuel : Nat) → Reader (List Value)
  | 0 => failure
  | fuel + 1 => do
    blanks fuel
    if ← accept [']'] then return []
    let item ← value room fuel
    blanks fuel
    if ← accept [','] then return item :: (← items room fuel)
    expect [']']
    return [item]

def entries (room : Nat) (done : Entries) : (fuel : Nat) → Reader Entries
  | 0 => failure
  | fuel + 1 => do
    blanks fuel
    if ← accept ['\x7d'] then return done
    let path ← key fuel
    -- Between braces, unlike elsewhere, a line may end on either side of the equals sign.
    blanks fuel
    expect ['=']
    blanks fuel
    let found ← value room fuel
    let done ← done.assign found path
    blanks fuel
    if ← accept [','] then entries room done fuel
    else
      expect ['\x7d']
      return done
end

def statement (fuel : Nat) : Reader (Option Statement) := do
  spaces
  match ← peek with
  | none | some '#' | some '\n' | some '\r' => return none
  | some '[' =>
    if ← accept ['[', '['] then
      let path ← key fuel
      expect [']', ']']
      return some (.element path)
    else
      expect ['[']
      let path ← key fuel
      expect [']']
      return some (.table path)
  | some _ =>
    let path ← key fuel
    expect ['=']
    spaces
    return some (.assign path (← value maxNesting fuel))

def document (found : Document) : (fuel : Nat) → Reader Document
  | 0 => failure
  | fuel + 1 => do
    let found ← match ← statement (fuel + 1) with
      | some s => found.add s
      | none => pure found
    spaces
    comment
    if (← get).isEmpty then return found
    else if ← newline then document found fuel
    else failure

end Reader

def parse? (text : String) : Option Entries := do
  let cs := text.toList
  let cs := if cs.head? == some '\uFEFF' then cs.drop 1 else cs
  let (document, _) ← (Reader.document {} (2 * cs.length + 2)).run cs
  return document.entries

end FormWeave.Toml
