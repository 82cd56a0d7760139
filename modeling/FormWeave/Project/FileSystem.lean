import FormWeave.Path
import FormWeave.Text.Utf8
import FormWeave.Writer.Emit

/-!
# File systems

The files and directories of a machine as a value. Known are the directories on the way to the
working directory, what is made in them, and a few places that every machine has. A path is followed
name by name, so everything on the way has to be a directory.
-/

namespace FormWeave

/-- What stands at a place and holds nothing, but can be read and written. Nothing that is written
there can be made to last. -/
inductive Device
  | null
  | full
  | input
  | output
  | errors
  deriving DecidableEq, Repr

/-- What stands at a place. There are no links: an entry never stands for another place, and no two
places share a file. -/
inductive FileEntry
  | file (content : Bytes)
  | directory
  | device (device : Device)
  deriving DecidableEq, Repr

/-- A place: the names on the way to it from the root. -/
abbrev Place := List String

def Place.usual : List (Place × FileEntry) :=
  ["bin", "dev", "etc", "home", "lib", "opt", "proc", "root", "run", "sbin", "srv", "sys", "tmp",
    "usr", "var"].map (fun name => ([name], .directory)) ++
  [(["dev", "null"], .device .null), (["dev", "full"], .device .full),
    (["dev", "stdin"], .device .input), (["dev", "stdout"], .device .output),
    (["dev", "stderr"], .device .errors)]

structure FileSystem where
  workingDirectory : String
  entries : List (Place × FileEntry) := Place.usual
  deriving Repr

namespace FileSystem

def maxPathSize : Nat := 4095

def maxNameSize : Nat := 255

def home (fs : FileSystem) : Place :=
  (Path.components fs.workingDirectory).filterMap fun
    | .name text => some (String.ofList text)
    | .root | .here | .up => none

def at? (fs : FileSystem) (place : Place) : Option FileEntry :=
  -- The working directory and those above it are always there.
  if place.isPrefixOf fs.home then some .directory else fs.entries.lookup place

def isPossible (place : Place) : Bool := place.getLast?.all (·.utf8ByteSize ≤ maxNameSize)

def absence (place : Place) : FileFault :=
  if isPossible place then .notFound else .nameTooLong

def follow (fs : FileSystem) : Place → List Path.Component → Except FileFault Place
  | place, [] => .ok place
  | place, component :: rest =>
    match fs.at? place with
    | none => .error (absence place)
    | some (.file _) | some (.device _) => .error .notDirectory
    | some .directory =>
      match component with
      | .root | .here => follow fs place rest
      | .up => follow fs place.dropLast rest
      | .name text => follow fs (place ++ [String.ofList text]) rest

def origin (fs : FileSystem) (path : String) : Except FileFault Place :=
  if path.toList.contains '\x00' then .error .invalid
  else if path.isEmpty then .error .notFound
  else if path.utf8ByteSize > maxPathSize then .error .nameTooLong
  else .ok (if Path.isAbsolute path then [] else fs.home)

def namesDirectory (path : String) : Bool :=
  match Path.ending path with
  | .name => false
  | .separator | .directory => true

def resolve (fs : FileSystem) (path : String) : Except FileFault Place := do
  fs.follow (← fs.origin path) (Path.components path)

def find? (fs : FileSystem) (path : String) : Except FileFault FileEntry := do
  let place ← fs.resolve path
  match fs.at? place with
  | none => throw (absence place)
  | some .directory => return .directory
  | some entry => if namesDirectory path then throw .notDirectory else return entry

def isFile (fs : FileSystem) (path : String) : Bool :=
  match fs.find? path with
  | .ok (.file _) => true
  | _ => false

def hasEntry (fs : FileSystem) (path : String) : Bool := (fs.find? path).toBool

def read (fs : FileSystem) (path : String) : Except FileFault Bytes := do
  match ← fs.find? path with
  | .file content => return content
  | .device _ => return []
  | .directory => throw .isDirectory

def device? (fs : FileSystem) (path : String) : Option Device :=
  match fs.find? path with
  | .ok (.device device) => some device
  | _ => none

def put (fs : FileSystem) (place : Place) (entry : FileEntry) : FileSystem :=
  { fs with entries := (place, entry) :: fs.entries.filter (·.1 != place) }

def drop (fs : FileSystem) (place : Place) : FileSystem :=
  { fs with entries := fs.entries.filter fun (other, _) => !place.isPrefixOf other }

/-- The place of a file that is to be written. Its directory is there, and the path does not ask for
a directory at the place. -/
def writable (fs : FileSystem) (path : String) : Except FileFault Place := do
  let place ← fs.resolve path
  match fs.at? place, Path.ending path with
  | some .directory, _ | _, .separator => throw .isDirectory
  | some (.file _), .directory | some (.device _), .directory => throw .notDirectory
  | none, .directory => throw (absence place)
  | _, .name => if isPossible place then return place else throw .nameTooLong

def movable (fs : FileSystem) (path : String) : Except FileFault Place := do
  let place ← fs.resolve path
  match fs.at? place, Path.ending path with
  | some .directory, .directory => throw .busy
  | none, .directory => throw (absence place)
  | some .directory, .name => throw .isDirectory
  | _, .name => if isPossible place then return place else throw .nameTooLong
  | _, .separator => throw (if isPossible place then .notDirectory else .nameTooLong)
  | _, .directory => throw .notDirectory

def write (fs : FileSystem) (path : String) (content : Bytes) : Except FileFault FileSystem := do
  let place ← fs.writable path
  match fs.at? place with
  -- A device stays what it is.
  | some (.device .full) => if content.isEmpty then return fs else throw .noSpace
  | some (.device _) => return fs
  | _ => return fs.put place (.file content)

def overwrite (fs : FileSystem) (path : String) (position : Nat) (bytes : Bytes) :
    Except FileFault FileSystem := do
  fs.write path (Bytes.splice (← fs.read path) position bytes)

def sync (fs : FileSystem) (path : String) : Except FileFault Unit := do
  match ← fs.find? path with
  | .device _ => throw .invalid
  | .file _ | .directory => return

def rename (fs : FileSystem) (path target : String) : Except FileFault FileSystem := do
  let content ← fs.read path
  let place ← fs.resolve path
  let target ← fs.movable target
  return (fs.drop place).put target (.file content)

def remove (fs : FileSystem) (path : String) : Except FileFault FileSystem := do
  discard <| fs.read path
  return fs.drop (← fs.resolve path)

def withDirectory (fs : FileSystem) (start : Place) (path : List Path.Component) :
    Except FileFault FileSystem := do
  let place ← fs.follow start path
  match fs.at? place with
  | none => if isPossible place then return fs.put place .directory else throw .nameTooLong
  | some .directory => return fs
  | some (.file _) | some (.device _) => throw .notDirectory

/-- A change that may fail in the middle, with what it has changed so far staying changed. -/
abbrev Change := ExceptT FileFault (StateM FileSystem)

namespace Change

def makeBehind (parents : Change Unit) (start : Place) (path : List Path.Component) :
    Change Unit := do
  match (← get).withDirectory start path with
  | .ok fs => set fs
  | .error .notFound => do
    parents
    match (← get).withDirectory start path with
    | .ok fs => set fs
    | .error fault => throw fault
  | .error fault => throw fault

/-- Makes a directory and those on the way to it, as far as they are missing. The components of its
path come last one first. -/
def makeAlong (start : Place) : List Path.Component → Change Unit
  | [] => return
  | last :: front => makeBehind (makeAlong start front) start (last :: front).reverse

/-- Makes a directory and those on the way to it, as far as they are missing. Behind a `.` at the
end nothing is made: what stands in front of it has to be there. -/
def makeDirectory (path : String) : Change Unit := do
  if path.isEmpty then return
  match (← get).origin path with
  | .error fault => throw fault
  | .ok start =>
    let components := Path.components path
    let asked := if Path.endsHere path then components ++ [.here] else components
    makeBehind (makeAlong start components.dropLast.reverse) start asked

def writeWithDirectories (path : String) (content : Bytes) : Change Unit := do
  makeDirectory (Path.withFileName path "")
  match (← get).write path content with
  | .ok fs => set fs
  | .error fault => throw fault

end Change

def below? : (place other : Place) → Option Place
  | [], [] => none
  | [], other => some other
  | _ :: _, [] => none
  | name :: place, first :: other => if name == first then below? place other else none

def list (fs : FileSystem) : List String :=
  let shown := fs.entries.filterMap fun (place, entry) =>
    (below? fs.home place).map fun names =>
      String.intercalate "/" names ++ (if entry = .directory then "/" else "")
  shown.mergeSort fun a b => decide (a ≤ b)

end FileSystem

end FormWeave
