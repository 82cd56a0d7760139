import FormWeave.Command.Report
import FormWeave.Command.Sample
import FormWeave.Project.Files

/-!
# Commands

What the program does for each command. A command ends with an exit status: 0 if all went well, 1
if a merge found edits it only reports or refuses to merge. An error ends it with status 2.
-/

namespace FormWeave

inductive CommandError
  | reported (error : Error)
  | plain (fault : FileFault)
  deriving DecidableEq, Repr

namespace CommandError

def render (t : Terminal) : CommandError → String
  | reported error =>
    let advice := match error.help? with
      | some text => "  help: " ++ text ++ "\n"
      | none => ""
    t.paint .red error.code ++ "\n\n  " ++ error.message ++ "\n" ++ advice
  | plain fault => t.paint .red "error:" ++ " " ++ fault.message ++ "\n"

end CommandError

namespace Command

variable {m : Type → Type} [Shell m]

abbrev Action (m : Type → Type) := ExceptT CommandError m

def reported {α : Type} (result : m (Except Error α)) : Action m α := do
  match ← result with
  | .ok value => return value
  | .error error => throw (.reported error)

def plain {α : Type} (result : m (Except FileFault α)) : Action m α := do
  match ← result with
  | .ok value => return value
  | .error fault => throw (.plain fault)

def say (text : String) : Action m Unit := Shell.printLine (m := m) text

def complain (text : String) : Action m Unit := Shell.complainLine (m := m) text

def rootOf (arguments : Arguments) : Action m String := do
  match arguments.root with
  | some root => return root
  | none => Shell.workingDirectory (m := m)

def runInit (root : String) : Action m Unit := do
  let settings := Path.join root "formgen.toml"
  let design := Path.join root "design.json"
  let designExists ← Shell.hasEntry (m := m) design
  if ← Shell.hasEntry (m := m) settings then say ("Config file already exists: " ++ settings)
  else
    plain (Shell.write settings (utf8 Sample.settings))
    say "Created formgen.toml"
  if designExists then say ("Design file already exists: " ++ design)
  else
    plain (Shell.write design (utf8 Sample.design))
    say ("Created design file: " ++ design)
    say ""
    say "Next steps:"
    say ("  1. Edit " ++ design ++ " to describe your window")
    say "  2. Run `formgen generate` to write hello.cxx and hello.h"
    say "  3. Edit callbacks in hello.cxx, then run `formgen merge --mode go`"

def loadProject (root : String) : Action m (Settings × String) := do
  let settings ← reported (Project.loadSettingsOrDefault root)
  return (settings, Path.join root settings.design)

def runGenerate (root : String) (source header : Option String) (preview stdout : Bool) :
    Action m Unit := do
  let (settings, path) ← loadProject root
  let design ← reported (Project.loadDesign path)
  let options : RunOptions := { preview }
  if stdout then
    match FormWeave.generate design settings options with
    | .error fault => throw (.plain fault)
    | .ok generated =>
      Shell.print (m := m) (generated.source ++ utf8 "\n" ++ generated.header)
  else
    let source := source.getD (Path.join root settings.sourceFile)
    let header := header.getD (Path.join root settings.headerFile)
    let report ← reported (Project.writeCode design settings (some source) (some header) options)
    say ("Generated " ++ Path.shownIn root source ++ " and " ++ Path.shownIn root header ++
      " from " ++ toString report.nodesWritten ++ " node(s).")

def catalogExtension : TranslationMode → String
  | .none => "txt"
  | .gnu => "po"
  | .posix => "msg"

def runStrings (root : String) (output : Option String) : Action m Unit := do
  let (settings, path) ← loadProject root
  let design ← reported (Project.loadDesign path)
  let name := settings.basename ++ "." ++ catalogExtension settings.translation.mode
  let path := output.getD (Path.join root name)
  let count ← reported (Project.writeStrings design settings path)
  say ("Wrote " ++ toString count ++ " string(s) to " ++ Path.shownIn root path ++ ".")

def isYes (answer : String) : Bool :=
  ["y", "Y", "yes", "Yes"].contains (Text.trim answer)

/-- The host of a merge at a terminal: it keeps a copy of the design file before the design is
changed, and asks. -/
def host (t : Terminal) (designPath : String) : MergeHost m where
  checkpoint := do
    let backup := designPath ++ ".bak"
    match ← Shell.copy designPath backup with
    | .error fault => return .error (.file fault)
    | .ok _ =>
      Shell.log
        { level := .debug, message := "backed up design", fields := [("backup", .plain backup)] }
      return .ok ()
  confirm _ message := do
    Shell.complainLine message
    Shell.complain "\nMerge these changes into the design? [y/N] "
    return (← Shell.readLine).any isYes
  message text := Shell.complainLine (t.paint .yellow "warning:" ++ " " ++ text)
  setModified := return
  refreshViews := return
  note note := Shell.log note.event

/-- Whether a merge is refused, or only found edits. -/
def isRefused : MergeOutcome → Bool
  | .report summary => summary.hasChanges
  | .conflict _ => true
  | .noChanges | .merged _ | .cancelled => false

def tellOutcome (t : Terminal) (outcome : MergeOutcome) (source design : String)
    (verbose : Bool) : Action m Unit := do
  match outcome with
  | .noChanges => say ("No edits to merge: " ++ source ++ " matches the design.")
  | .cancelled => say "Merge cancelled; the design was not changed."
  | .report summary =>
    if !summary.hasChanges then say ("Check passed: " ++ source ++ " matches the design.")
    else
      complain ("Check found edits in " ++ source ++ ".")
      (Report.summaryLines t summary).forM complain
      complain ""
      complain "Run `formgen merge --mode go` to merge them into the design."
  | .conflict summary =>
    complain (t.paint .red "error:" ++ " the generated structure of " ++ source ++
      " was edited; nothing was merged.")
    (Report.summaryLines t summary).forM complain
  | .merged summary =>
    let count := (summary.blocks.filter fun b => b.kind.isMergeable && b.resolved).length
    say (t.paint .green "Merged" ++ " " ++ toString count ++ " block(s) into " ++ design ++ ".")
    if summary.structuralChanges > 0 then
      complain (t.paint .yellow "warning:" ++ " " ++ toString summary.structuralChanges ++
        " edit(s) to generated structure will be lost on the next generation.")
    if verbose then (Report.summaryLines t summary).forM complain

def mergedSource (root : String) (source : Option String) : Action m String := do
  let (settings, _) ← loadProject root
  return source.getD (Path.join root settings.sourceFile)

def saveMerged (design : Design) (nodes : List Node) (designPath : String) :
    MergeOutcome → Action m Unit
  | .merged _ => do
    reported (Project.saveDesign { design with nodes } designPath)
    Shell.log (m := m)
      { level := .info, message := "saved merged design", fields := [("path", .plain designPath)] }
  | .report _ | .noChanges | .cancelled | .conflict _ => return

def tellMerge (t : Terminal) (verbose : Bool) (root source designPath : String)
    (format : OutputFormat) (diff : Bool) (design : Design) (outcome : MergeOutcome) :
    Action m Unit := do
  let shown := Path.shownIn root source
  match format with
  | .json => say (Report.json outcome (isRefused outcome) shown).compact
  | .text =>
    tellOutcome t outcome shown (Path.shownIn root designPath) verbose
    if diff then
      if let some summary := outcome.summary? then
        Shell.complain (m := m) (Report.diffs t design summary)

def runMerge (t : Terminal) (verbose : Bool) (root source : String) (mode : MergeMode)
    (format : OutputFormat) (diff : Bool) : Action m Bool := do
  let (settings, designPath) ← loadProject root
  let design ← reported (Project.loadDesign designPath)
  unless settings.mergeTags do
    complain (t.paint .yellow "warning:" ++
      " write_mergeback_data is disabled in formgen.toml; nothing to merge.")
  let content ← Shell.read (m := m) source
  let merge : m (Except Error MergeOutcome × List Node) :=
    Merge.run settings mode (host t designPath) content design.nodes
  let (result, nodes) ← merge
  let outcome ← reported (m := m) (return result)
  -- The design is saved before anything is told, so that what is told holds.
  saveMerged design nodes designPath outcome
  tellMerge t verbose root source designPath format diff design outcome
  return isRefused outcome

def watched? (arguments : Arguments) : Action m (Option String) := do
  match arguments.command with
  | some (.merge _ source _ _ true) =>
    let root ← rootOf arguments
    let path ← mergedSource root source
    say ("\nWatching " ++ Path.shownIn root path ++
      " for changes... (press Ctrl+C to stop)")
    return some path
  | _ => return none

def run (t : Terminal) (arguments : Arguments) : Action m Nat := do
  let root ← rootOf arguments
  match arguments.command with
  | none =>
    complain "No subcommand specified. Run `formgen --help` for usage."
    return 1
  | some .init =>
    runInit root
    return 0
  | some (.generate source header preview stdout) =>
    runGenerate root source header preview stdout
    return 0
  | some (.strings output) =>
    runStrings root output
    return 0
  | some (.merge mode source format diff _) =>
    let source ← mergedSource root source
    let refused ← runMerge t arguments.verbose root source mode format diff
    return if refused then 1 else 0

def exitStatus : Except CommandError Nat → Nat
  | .ok status => status
  | .error _ => 2

end Command

end FormWeave
