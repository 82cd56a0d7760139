import FormWeave.Command.Run

/-!
# The program

The commands on the files of the operating system and at a terminal. All that is decided is decided
by the commands; a session only carries out what they ask for.
-/

namespace FormWeave

structure Session where
  verbose : Bool
  colour : Bool

abbrev SessionM := ReaderT Session IO

namespace Session

def faultOf : IO.Error → FileFault
  | .noFileOrDirectory .. | .noSuchThing .. => .notFound
  | .inappropriateType _ code _ => if code == 20 then .notDirectory else .isDirectory
  | .resourceBusy .. => .busy
  | .invalidArgument _ code _ => if code == 36 then .nameTooLong else .invalid
  | .resourceExhausted _ code _ => if code == 28 then .noSpace else .other
  | _ => .other

def attempt {α : Type} (operation : IO α) : IO (Except FileFault α) := do
  try return .ok (← operation) catch error => return .error (faultOf error)

def metadata? (path : String) : IO (Option IO.FS.Metadata) := do
  try return some (← (← IO.FS.realPath path).metadata) catch _ => return none

instance : Shell SessionM where
  workingDirectory := do return (← IO.currentDir).toString
  isFile path := do
    match ← metadata? path with
    | some found => return found.type == .file
    | none => return false
  hasEntry path := do return (← metadata? path).isSome
  read path := attempt do return (← IO.FS.readBinFile path).toList
  create path := attempt (IO.FS.writeBinFile path ByteArray.empty)
  overwrite path position bytes := attempt do
    let content := (← IO.FS.readBinFile path).toList
    IO.FS.writeBinFile path ⟨(Bytes.splice content position bytes).toArray⟩
  sync _ := return .ok ()
  rename path target := attempt (IO.FS.rename path target)
  remove path := discard <| attempt (IO.FS.removeFile path)
  processNumber := IO.monoNanosNow
  print bytes := do
    let output ← IO.getStdout
    output.write ⟨bytes.toArray⟩
    output.flush
  complain text := do (← IO.getStderr).putStr text
  readLine := do
    try return some (← (← IO.getStdin).getLine) catch _ => return none
  log event := do
    let session ← read
    if session.verbose || event.level = .warn then
      (← IO.getStderr).putStr (Log.render session.colour event)

def run (session : Session) (arguments : Arguments) : IO UInt32 := do
  let terminal : Terminal := { colour := session.colour }
  let result ← (Command.run terminal arguments : Command.Action SessionM Nat).run session
  if let .error error := result then (← IO.getStderr).putStr (error.render terminal)
  return (Command.exitStatus result).toUInt32

def changed? (path : String) : IO (Option IO.FS.SystemTime) := do
  return (← metadata? path).map fun found => found.modified

/-- Runs a command again whenever the file at a path has changed since `last`. -/
partial def watch (session : Session) (arguments : Arguments) (path : String)
    (last : Option IO.FS.SystemTime) : IO Unit := do
  IO.sleep 200
  let now ← changed? path
  if now.isSome && now != last then
    (Shell.printLine "\nSource change detected, merging..." : SessionM Unit).run session
    discard <| run session arguments
    watch session arguments path (← changed? path)
  else watch session arguments path last

def start (session : Session) (arguments : Arguments) : IO UInt32 := do
  let status ← run session arguments
  if status == 2 then return 2
  match ← (Command.watched? arguments : Command.Action SessionM (Option String)).run session with
  | .ok (some path) => watch session arguments path (← changed? path)
  | .ok none | .error _ => pure ()
  return status

end Session

end FormWeave

open FormWeave in
def main (words : List String) : IO UInt32 := do
  match Arguments.parse words with
  | .error error =>
    IO.eprintln ("error: " ++ error.message ++ "\n\nFor more information, try '--help'.")
    return 2
  | .ok .help =>
    IO.println Arguments.usage
    return 0
  | .ok .version =>
    IO.println ("formgen " ++ generatorVersion)
    return 0
  | .ok (.run arguments) =>
    let colour := !arguments.noColour && (← IO.getEnv "NO_COLOR").isNone
    Session.start { verbose := arguments.verbose, colour } arguments
