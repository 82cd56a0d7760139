import FormWeave.Merge.Basic

/-!
# Command lines

A command line is read from left to right with a table of options, and the first thing that is
wrong, or that asks for help, ends the reading. An option may have a long name and a short one, and
it may take a value; it may stand only once. A value in a word of its own is looked at when the next
option is found, or at the end. The common options may stand in front of the command or behind it,
and behind it they count.
-/

namespace FormWeave

inductive OutputFormat
  | text | json
  deriving DecidableEq, Repr

inductive Command
  | init
  | generate (source header : Option String) (preview stdout : Bool)
  | strings (output : Option String)
  | merge (mode : MergeMode) (source : Option String) (format : OutputFormat) (diff watch : Bool)
  deriving Repr

structure Arguments where
  root : Option String := none
  verbose : Bool := false
  noColour : Bool := false
  command : Option Command := none
  deriving Repr

inductive UsageError
  | unknownOption (text : String)
  | unexpected (text : String)
  | missingValue (name : String)
  | unexpectedValue (name : String)
  | repeated (name : String)
  | invalidValue (name value : String)
  deriving DecidableEq, Repr

def UsageError.message : UsageError → String
  | unknownOption text => "unexpected argument '" ++ text ++ "' found"
  | unexpected text => "unexpected argument '" ++ text ++ "' found"
  | missingValue name => "a value is required for '--" ++ name ++ "' but none was supplied"
  | unexpectedValue name => "unexpected value for '--" ++ name ++ "' found"
  | repeated name => "the argument '--" ++ name ++ "' cannot be used multiple times"
  | invalidValue name value => "invalid value '" ++ value ++ "' for '--" ++ name ++ "'"

inductive Request
  | run (arguments : Arguments)
  | help
  | version
  deriving Repr

namespace Arguments

def modes : List (String × MergeMode) :=
  [("check", .check), ("interactive", .interactive), ("go", .go), ("go-safe", .goSafe)]

def formats : List (String × OutputFormat) := [("text", .text), ("json", .json)]

inductive Effect
  | switch
  /-- It gives a path, which must not be empty. -/
  | path
  | choice (names : List String)
  | help
  | version
  deriving DecidableEq, Repr

def Effect.takesValue : Effect → Bool
  | path | choice _ => true
  | switch | help | version => false

structure Spec where
  long : String
  short : Option Char := none
  effect : Effect := .switch
  deriving DecidableEq, Repr

structure Found where
  name : String
  value : String := ""
  deriving DecidableEq, Repr

inductive Stop
  | refused (error : UsageError)
  | help
  | version
  deriving DecidableEq, Repr

def common : List Spec :=
  [{ long := "path", short := some 'p', effect := .path },
    { long := "verbose", short := some 'v' },
    { long := "no-color" },
    { long := "help", short := some 'h', effect := .help }]

def optionsOf? : String → Option (List Spec)
  | "init" => some []
  | "generate" =>
    some [{ long := "source", effect := .path }, { long := "header", effect := .path },
      { long := "preview" }, { long := "stdout" }]
  | "strings" => some [{ long := "output", short := some 'o', effect := .path }]
  | "merge" =>
    some [{ long := "mode", effect := .choice (modes.map (·.1)) },
      { long := "source", effect := .path },
      { long := "format", effect := .choice (formats.map (·.1)) },
      { long := "diff" }, { long := "watch" }]
  | _ => none

def isCommand (word : String) : Bool := word == "help" || (optionsOf? word).isSome

def isTopic : List String → Bool
  | [] => true
  | [word] => isCommand word
  | _ => false

def record (found : List Found) (spec : Spec) (value : String) : Except Stop (List Found) :=
  if found.any (·.name == spec.long) then .error (.refused (.repeated spec.long))
  else
    let accepted := .ok (found ++ [Found.mk spec.long value])
    match spec.effect with
    | .switch => accepted
    | .path => if value.isEmpty then .error (.refused (.missingValue spec.long)) else accepted
    | .choice names =>
      if names.contains value then accepted
      else .error (.refused (.invalidValue spec.long value))
    | .help => .error .help
    | .version => .error .version

def isValue (word : String) : Bool := word.toList.head? != some '-' || word == "-"

/-- What was found so far: options that were looked at, and one that may still wait for its value,
or to be looked at with the value behind it. -/
structure Progress where
  found : List Found := []
  waiting : Option (Spec × Option String) := none

namespace Progress

def isOpen (p : Progress) : Bool := p.waiting.any (·.2.isNone)

def fill (p : Progress) (word : String) : Progress :=
  { p with waiting := p.waiting.map fun (spec, _) => (spec, some word) }

def settle (p : Progress) : Except Stop (List Found) :=
  match p.waiting with
  | none => .ok p.found
  | some (spec, none) => .error (.refused (.missingValue spec.long))
  | some (spec, some value) => record p.found spec value

def add (p : Progress) (spec : Spec) (value : String) : Except Stop Progress := do
  return { found := ← record (← p.settle) spec value }

def await (p : Progress) (spec : Spec) : Except Stop Progress := do
  return { found := ← p.settle, waiting := some (spec, none) }

end Progress

def cluster (specs : List Spec) (p : Progress) : List Char → Except Stop Progress
  | [] => .ok p
  | c :: rest =>
    match specs.find? (·.short == some c) with
    | none => .error (.refused (.unknownOption (String.ofList ['-', c])))
    | some spec =>
      if spec.effect.takesValue then
        match rest with
        | [] => p.await spec
        | '=' :: value | value => p.add spec (String.ofList value)
      else do cluster specs (← p.add spec "") rest

def longOption (specs : List Spec) (p : Progress) (text : List Char) : Except Stop Progress :=
  let name := String.ofList (text.takeWhile (· != '='))
  let value? := (text.dropWhile (· != '=')).tail?
  match specs.find? (·.long == name) with
  | none => .error (.refused (.unknownOption ("--" ++ name)))
  | some spec =>
    match spec.effect.takesValue, value? with
    | true, some value => p.add spec (String.ofList value)
    | true, none => p.await spec
    | false, some _ => .error (.refused (.unexpectedValue name))
    | false, none => p.add spec ""

def readWord (specs : List Spec) (p : Progress) (word : String) : Except Stop Progress :=
  if p.isOpen && isValue word then .ok (p.fill word)
  else
    match word.toList with
    | '-' :: '-' :: text => longOption specs p text
    | '-' :: c :: text => cluster specs p (c :: text)
    | _ => .error (.refused (.unexpected word))

/-- Reads words up to the first command, and returns it with what stands behind it. Two dashes alone
end the options, and nothing may stand behind them. -/
def scan (specs : List Spec) (isCommand : String → Bool) : Progress → List String →
    Except Stop (Progress × Option (String × List String))
  | p, [] => .ok (p, none)
  | p, word :: rest =>
    if !p.isOpen && isCommand word then .ok (p, some (word, rest))
    else if word == "--" then
      match rest with
      | [] => .ok (p, none)
      | extra :: _ => .error (.refused (.unexpected extra))
    else do scan specs isCommand (← readWord specs p word) rest

def value? (found : List Found) (name : String) : Option String :=
  (found.find? (·.name == name)).map (·.value)

def has (found : List Found) (name : String) : Bool := found.any (·.name == name)

def choice {α : Type} (found : List Found) (name : String) (choices : List (String × α))
    (default : α) : α :=
  ((value? found name).bind (choices.lookup ·)).getD default

def commandOf? (name : String) (found : List Found) : Option Command :=
  match name with
  | "init" => some .init
  | "generate" =>
    some (.generate (value? found "source") (value? found "header") (has found "preview")
      (has found "stdout"))
  | "strings" => some (.strings (value? found "output"))
  | "merge" =>
    some (.merge (choice found "mode" modes .check) (value? found "source")
      (choice found "format" formats .text) (has found "diff") (has found "watch"))
  | _ => none

/-- Understands the words of a command line. The options in front of the command are settled only
after those behind it. -/
def understand (words : List String) : Except Stop Arguments := do
  let version : Spec := { long := "version", short := some 'V', effect := .version }
  let (before, command) ← scan (version :: common) isCommand {} words
  let behind ← match command with
    | none => pure []
    | some ("help", words) =>
      throw (if isTopic words then .help
        else .refused (.unexpected (String.intercalate " " words)))
    | some (name, words) => do
      let specs := (optionsOf? name).getD []
      (← scan (common ++ specs) (fun _ => false) {} words).1.settle
  let before ← before.settle
  return {
    root := (value? behind "path").or (value? before "path")
    verbose := has before "verbose" || has behind "verbose"
    noColour := has before "no-color" || has behind "no-color"
    command := command.bind fun (name, _) => commandOf? name behind }

def parse (words : List String) : Except UsageError Request :=
  match understand words with
  | .ok arguments => .ok (.run arguments)
  | .error .help => .ok .help
  | .error .version => .ok .version
  | .error (.refused error) => .error error

def usage : String := String.intercalate "\n" [
  "Generate C++ sources from a UI design and merge hand edits back into it.",
  "",
  "Usage: formgen [OPTIONS] [COMMAND]",
  "",
  "Commands:",
  "  init      Create formgen.toml and a sample design",
  "  generate  Write the source and header files",
  "              --source <FILE>  --header <FILE>  --preview  --stdout",
  "  strings   Write the translation strings",
  "              -o, --output <FILE>",
  "  merge     Report hand edits in the generated source, or merge them back",
  "              --mode <check|interactive|go|go-safe>  --source <FILE>",
  "              --format <text|json>  --diff  --watch",
  "",
  "Options:",
  "  -p, --path <PATH>  Path to the project root directory",
  "  -v, --verbose      Enable verbose output",
  "      --no-color     Disable colored output",
  "  -h, --help         Print help",
  "  -V, --version      Print version"]

end Arguments

end FormWeave
