import FormWeave.Catalog
import FormWeave.Design.Printer
import FormWeave.Design.Reader
import FormWeave.Generation.Run
import FormWeave.Merge.Basic
import FormWeave.Project.Buffer
import FormWeave.Project.Shell
import FormWeave.Settings.Reader

/-!
# The files of a project

Finding and reading settings, loading and saving designs, and writing generated files.
-/

namespace FormWeave

variable {m : Type → Type} [Shell m]

def Design.parse (text : String) : Except Error Design := do
  let document ← (Document.parse text).mapError .designParse
  (Design.ofDocument document).mapError .design

namespace Project

def settingsNames : List String := ["formgen.toml", ".formgen.toml", ".config/formgen.toml"]

def firstFile : List String → m (Option String)
  | [] => return none
  | path :: rest => do
    if ← Shell.isFile path then return some path else firstFile rest

def settingsPath (root : String) : m (Option String) :=
  firstFile (settingsNames.map (Path.join root))

def loadSettings (root : String) : m (Except Error (Option Settings)) := do
  match ← settingsPath root with
  | none => return .ok none
  | some path =>
    match ← Shell.readText path with
    | .error fault => return .error (.file fault)
    | .ok text => return (some <$> Settings.parse text).mapError .configParse

def loadSettingsOrDefault (root : String) : m (Except Error Settings) := do
  return (← loadSettings root).map (·.getD {})

def loadDesign (path : String) : m (Except Error Design) := do
  if !(← Shell.isFile path) then return .error (.missingDesign path)
  match ← Shell.readText path with
  | .error fault => return .error (.file fault)
  | .ok text =>
    match Design.parse text with
    | .error error => return .error error
    | .ok design =>
      design.unknownResources.forM fun (id, name) =>
        Shell.log
          { level := .warn
            message := "unknown resource"
            fields := [("node", .plain id.render), ("resource", .quoted name)] }
      Shell.log
        { level := .debug
          message := "loaded design"
          fields := [("path", .plain path), ("nodes", .plain (toString design.nodes.length))] }
      return .ok design

/-- Saves a design. It is written to a temporary file first, which then takes the place of the old
one. -/
def saveDesign (design : Design) (path : String) : m (Except Error Unit) := do
  let temporary := Path.withExtension path ("json.tmp-" ++ toString (← Shell.processNumber))
  match ← Shell.write temporary (utf8 (design.render ++ "\n")) with
  | .error fault => return .error (.file fault)
  | .ok _ =>
    match ← Shell.rename temporary path with
    | .error fault =>
      -- The old design is still in its place.
      Shell.remove temporary
      return .error (.file fault)
    | .ok _ =>
      Shell.log
        { level := .debug, message := "saved design", fields := [("path", .plain path)] }
      return .ok ()

def openOutput (path : Option String) : m (Except Error Unit) := do
  match path with
  | none => return .ok ()
  | some path => return (← Shell.create path).mapError (.openOutput path)

def passOn (target : Scope → Option String) : List Block → m (List (Scope × FileFault))
  | [] => return []
  | block :: rest => do
    let result ← match target block.scope with
      | some path => Shell.overwrite path block.position block.bytes
      | none => do
        Shell.print block.bytes
        pure (.ok ())
    -- A fault does not keep back the blocks behind it.
    let others ← passOn target rest
    match result with
    | .error fault => return (block.scope, fault) :: others
    | .ok _ => return others

/-- Closes an output with the faults that came up. What went to a file without any has to last. -/
def close (target : Scope → Option String) (faults : List (Scope × FileFault)) (scope : Scope) :
    m (Except FileFault Unit) :=
  match faults.lookup scope, target scope with
  | some fault, _ => return .error fault
  | none, some path => Shell.sync path
  | none, none => return .ok ()

def deliver (source header : Option String) (writer : Writer) : m (Except Error Unit) := do
  -- Files are buffered, standard output is not.
  let buffer (path : Option String) : Buffer :=
    { capacity := if path.isSome then Buffer.fileCapacity else 0 }
  let target : Scope → Option String
    | .source => source
    | .header => header
  let blocks := Block.ofChunks (buffer source) (buffer header) writer.output.toList
  let faults ← passOn target (Block.joined blocks)
  let sourceClosed ← close target faults .source
  let headerClosed ← close target faults .header
  return (do sourceClosed; headerClosed).mapError .file

/-- The names of the header when it is written to a path, or to standard output. The source does
not include a header that is no file. -/
def headerNames (settings : Settings) (header : Option String) : HeaderNames :=
  let file := (header.bind Path.fileName?).getD settings.headerFile
  { file, included := header.map fun _ => settings.includeName file }

/-- Generates the code of a design into files. A missing path means standard output. -/
def writeCode (design : Design) (settings : Settings) (source header : Option String)
    (options : RunOptions) : m (Except Error Report) := do
  match ← openOutput source with
  | .error error => return .error error
  | .ok _ =>
    match ← openOutput header with
    | .error error => return .error error
    | .ok _ =>
      let names := headerNames settings header
      let (result, writer) :=
        Generation.runDesign names options design.nodes (Generation.start settings options)
      -- What was written before a fault is delivered as well.
      let delivered ← deliver source header writer
      match result, delivered with
      | .error fault, _ => return .error (.file fault)
      | .ok _, .error error => return .error error
      | .ok report, .ok _ =>
        Shell.log
          { level := .debug
            message := "generated code"
            fields := [("nodes", .plain (toString report.nodesWritten)),
              ("source", .optional source), ("header", .optional header)] }
        return .ok report

def writeStrings (design : Design) (settings : Settings) (path : String) :
    m (Except Error Nat) := do
  match ← Shell.create path with
  | .error fault => return .error (.openOutput path fault)
  | .ok _ =>
    let catalog := Catalog.ofNodes design.nodes settings.translation
    match ← Shell.overwrite path 0 (utf8 catalog.content) with
    | .error fault => return .error (.file fault)
    | .ok _ =>
      match ← Shell.sync path with
      | .error fault => return .error (.file fault)
      | .ok _ =>
        Shell.log
          { level := .debug
            message := "wrote translation strings"
            fields := [("count", .plain (toString catalog.count)), ("path", .plain path)] }
        return .ok catalog.count

end Project

def TagKind.logName : TagKind → String
  | generic => "Generic"
  | code => "Code"
  | menuCallback => "MenuCallback"
  | widgetCallback => "WidgetCallback"

def MergeNote.event : MergeNote → LogEvent
  | refused count =>
    { level := .warn
      message := "refusing to merge: generated structure was edited"
      fields := [("structural", .plain (toString count))] }
  | unresolved count =>
    { level := .warn
      message := "changed blocks have no matching design node"
      fields := [("unresolved", .plain (toString count))] }
  | noNode id line =>
    { level := .warn
      message := "no design node for changed block"
      fields := [("node", .plain id.render), ("line", .plain (toString line))] }
  | merged id kind =>
    { level := .info
      message := "merged edited block"
      fields := [("node", .plain id.render), ("kind", .plain kind.logName)] }
  | notTaken id kind =>
    { level := .warn
      message := "design node cannot take edited block"
      fields := [("node", .plain id.render), ("kind", .plain kind.logName)] }

end FormWeave
