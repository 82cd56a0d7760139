import FormWeave.Project.FileSystem
import FormWeave.Project.Log
import FormWeave.Text.Split

/-!
# The surroundings of a command

What a command can do besides computing: work with files, write to the terminal, ask for a line and
log events. `Shell m` says that `m` offers this. `World` is one such offer as a value: a file
system, the number of the process, what is still to be read, and what was written.
-/

namespace FormWeave

class Shell (m : Type → Type) extends Monad m where
  workingDirectory : m String
  isFile : String → m Bool
  hasEntry : String → m Bool
  read : String → m (Except FileFault Bytes)
  create : String → m (Except FileFault Unit)
  /-- Puts bytes over those of a file from a position on. -/
  overwrite : String → Nat → Bytes → m (Except FileFault Unit)
  /-- Makes sure that what was written to a path lasts. -/
  sync : String → m (Except FileFault Unit)
  rename : String → String → m (Except FileFault Unit)
  remove : String → m Unit
  /-- A number no other command running at the same time has. -/
  processNumber : m Nat
  print : Bytes → m Unit
  complain : String → m Unit
  /-- A line of standard input; nothing if it is no text. -/
  readLine : m (Option String)
  log : LogEvent → m Unit

namespace Shell

variable {m : Type → Type} [Shell m]

def write (path : String) (content : Bytes) : m (Except FileFault Unit) := do
  match ← create path with
  | .error fault => return .error fault
  | .ok _ => overwrite path 0 content

def readText (path : String) : m (Except FileFault String) := do
  match ← read path with
  | .error fault => return .error fault
  | .ok bytes =>
    match Utf8.decode? bytes with
    | some text => return .ok text
    | none => return .error .invalidData

def copy (path target : String) : m (Except FileFault Unit) := do
  match ← read path with
  | .error fault => return .error fault
  | .ok bytes => write target bytes

def printLine (text : String) : m Unit := print (utf8 (text ++ "\n"))

def complainLine (text : String) : m Unit := complain (text ++ "\n")

end Shell

structure World where
  files : FileSystem
  input : Bytes := []
  output : Array Bytes := #[]
  errors : Array String := #[]
  verbose : Bool := false
  colour : Bool := false
  processNumber : Nat := 1

namespace World

def outputBytes (w : World) : Bytes := w.output.toList.flatten

def errorText (w : World) : String := String.join w.errors.toList

def change (f : FileSystem → Except FileFault FileSystem) : StateM World (Except FileFault Unit) :=
  fun w =>
    match f w.files with
    | .ok files => (.ok (), { w with files })
    | .error fault => (.error fault, w)

def takeLine (w : World) : Option String × World :=
  match Text.splitInclusive 0x0a w.input with
  | [] => (some "", w)
  | line :: rest => (Utf8.decode? line, { w with input := rest.flatten })

instance : Shell (StateM World) where
  workingDirectory := do return (← get).files.workingDirectory
  isFile path := do return (← get).files.isFile path
  hasEntry path := do return (← get).files.hasEntry path
  read path := do
    match (← get).files.device? path with
    | some .input => modifyGet fun w => (.ok w.input, { w with input := [] })
    | _ => return (← get).files.read path
  create path := change (·.write path [])
  overwrite path position bytes := do
    match (← get).files.device? path with
    | some .output => modifyGet fun w => (.ok (), { w with output := w.output.push bytes })
    | some .errors =>
      modifyGet fun w => (.ok (), { w with errors := w.errors.push (Utf8.decodeLossy bytes) })
    | _ => change (·.overwrite path position bytes)
  sync path := do return (← get).files.sync path
  rename path target := change (·.rename path target)
  remove path := discard <| change (·.remove path)
  processNumber := do return (← get).processNumber
  print bytes := modify fun w => { w with output := w.output.push bytes }
  complain text := modify fun w => { w with errors := w.errors.push text }
  readLine := modifyGet takeLine
  log event := modify fun w =>
    if w.verbose || event.level = .warn then
      { w with errors := w.errors.push (Log.render w.colour event) }
    else w

end World

end FormWeave
