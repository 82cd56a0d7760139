/-!
# Paths

Paths are texts with `/` between components. Repeated separators, `.` components behind the first
one, and a separator at the end do not count as components; joining and printing keep the text as
it is.
-/

namespace FormWeave.Path

inductive Component
  | root
  | here
  | up
  | name (text : List Char)
  deriving DecidableEq, Repr

def cut (path : List Char) : List Char × List Char :=
  (path.takeWhile (· != '/'), path.dropWhile (· != '/'))

def isAbsolute (path : String) : Bool := path.toList.head? == some '/'

def pieces : List Char → List (List Char)
  | [] => [[]]
  | c :: cs =>
    if c == '/' then [] :: pieces cs
    else
      match pieces cs with
      | [] => [[c]]
      | piece :: rest => (c :: piece) :: rest

def componentOf? (piece : List Char) : Option Component :=
  if piece.isEmpty || piece == ['.'] then none
  else if piece == ['.', '.'] then some .up
  else some (.name piece)

inductive Ending
  | name
  | separator
  /-- `.`, `..` or nothing but separators, which stand for a directory. -/
  | directory
  deriving DecidableEq, Repr

def ending (path : String) : Ending :=
  let found := (pieces path.toList).reverse
  match found.find? (!·.isEmpty) with
  | none | some ['.'] | some ['.', '.'] => .directory
  | some _ => if found.head? == some [] then .separator else .name

def endsHere (path : String) : Bool :=
  (pieces path.toList).reverse.find? (!·.isEmpty) == some ['.']

/-- The components of a path. A `.` counts only at the start of a relative path. -/
def components (path : String) : List Component :=
  let found := pieces path.toList
  let front :=
    if isAbsolute path then [.root]
    else if found.head? == some ['.'] then [.here]
    else []
  front ++ found.filterMap componentOf?

def fileName? (path : String) : Option String :=
  match (components path).getLast? with
  | some (.name text) => some (String.ofList text)
  | _ => none

/-- A file name cut at its last dot: what stands before it, and what stands behind it. A name
without a dot, or with its only dot in front, has no extension. -/
def splitExtension (name : List Char) : List Char × Option (List Char) :=
  let tail := name.reverse.takeWhile (· != '.')
  match name.reverse.dropWhile (· != '.') with
  | [] => (name, none)
  | _ :: before => if before.isEmpty then (name, none) else (before.reverse, some tail.reverse)

def fileStem? (path : String) : Option String :=
  (fileName? path).map fun name => String.ofList (splitExtension name.toList).1

def join (base path : String) : String :=
  if isAbsolute path || base.isEmpty then path
  else if base.toList.getLast? == some '/' then base ++ path
  else base ++ "/" ++ path

def trimStart (path : List Char) : List Char :=
  match path with
  | [] => []
  | '/' :: rest => trimStart rest
  | ['.'] => []
  | '.' :: '/' :: rest => trimStart rest
  | _ => path

def trimEnd (path : List Char) : List Char := (trimStart path.reverse).reverse

def dropComponents? : (start path : List Component) → (rest : List Char) → Option (List Char)
  | [], _, rest => some rest
  | _ :: _, [], _ => none
  | s :: start, p :: path, rest =>
    if s != p then none
    else
      match p with
      | .root => dropComponents? start path (rest.dropWhile (· == '/'))
      | .here => dropComponents? start path (cut rest).2
      | .up | .name _ => dropComponents? start path (cut (trimStart rest)).2

def relativeTo? (path base : String) : Option String :=
  (dropComponents? (components base) (components path) path.toList).map fun rest =>
    let whole := (components base).isEmpty
    String.ofList (if whole then trimEnd rest else trimEnd (trimStart rest))

def shownIn (base path : String) : String := (relativeTo? path base).getD path

def withFileName (path name : String) : String :=
  let front := (trimEnd path.toList).reverse.dropWhile (· != '/')
  String.ofList front.reverse ++ name

def dropExtension (path : String) : String :=
  let extension := (fileName? path).bind fun name => (splitExtension name.toList).2
  String.ofList (path.toList.take (path.length - (extension.getD []).length))

/-- `path` with the extension of its file name replaced. The old extension is dropped first; if what
is left does not end in a name, as `..` does not, nothing takes its place. -/
def withExtension (path extension : String) : String :=
  let bare := dropExtension path
  match fileStem? bare with
  | none => bare
  | some stem => withFileName bare (stem ++ (if extension.isEmpty then "" else "." ++ extension))

end FormWeave.Path
