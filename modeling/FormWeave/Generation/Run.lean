import FormWeave.Design.Code
import FormWeave.Generation.Plan
import FormWeave.Generation.Prologue

/-!
# Generation runs

A run takes the steps of a plan one after the other. It can keep track of where the code of each
node lands in the two files.
-/

namespace FormWeave

/-- A range of positions, the end not included. -/
structure Range where
  start : Nat := 0
  stop : Nat := 0
  deriving DecidableEq, Repr, Inhabited

def Range.isEmpty (range : Range) : Bool := range.start ≥ range.stop

structure RangePair where
  source : Range := {}
  header : Range := {}
  deriving DecidableEq, Repr, Inhabited

structure NodeRanges where
  setup : RangePair := {}
  opening : RangePair := {}
  closing : RangePair := {}
  deriving DecidableEq, Repr, Inhabited

namespace NodeRanges

/-- The ranges with those of one phase replaced. A framing comment stands for its whole node. -/
def set (ranges : NodeRanges) (pair : RangePair) : Phase → NodeRanges
  | .setup => { ranges with setup := pair }
  | .opening => { ranges with opening := pair }
  | .closing => { ranges with closing := pair }
  | .framing => { ranges with opening := pair, closing := pair }

def inSource (ranges : NodeRanges) : List Range :=
  [ranges.setup.source, ranges.opening.source, ranges.closing.source]

def inHeader (ranges : NodeRanges) : List Range :=
  [ranges.setup.header, ranges.opening.header, ranges.closing.header]

def isEmpty (ranges : NodeRanges) : Bool :=
  ranges.inSource.all Range.isEmpty && ranges.inHeader.all Range.isEmpty

end NodeRanges

structure RangeTable where
  entries : List (NodeId × NodeRanges) := []
  deriving Repr, Inhabited

namespace RangeTable

def find? (table : RangeTable) (id : NodeId) : Option NodeRanges := table.entries.lookup id

def updateEntry (id : NodeId) (f : NodeRanges → NodeRanges) :
    List (NodeId × NodeRanges) → List (NodeId × NodeRanges)
  | [] => [(id, f {})]
  | (other, ranges) :: rest =>
    if other = id then (other, f ranges) :: rest else (other, ranges) :: updateEntry id f rest

def update (table : RangeTable) (id : NodeId) (f : NodeRanges → NodeRanges) : RangeTable :=
  { entries := updateEntry id f table.entries }

end RangeTable

structure RunOptions where
  preview : Bool := false
  trackRanges : Bool := false
  deriving DecidableEq, Repr, Inhabited

structure Report where
  ranges : RangeTable := {}
  nodesWritten : Nat := 0
  deriving Repr, Inhabited

structure HeaderNames where
  file : String
  included : Option String
  deriving DecidableEq, Repr

namespace Generation

variable {m : Type → Type} [Monad m] [MonadLiftT Emit m] {ν : Type} [DesignNode ν]

def positions : Emit (Nat × Nat) := Emit.ask fun w => (w.sourcePosition, w.headerPosition)

def tracked (track : Bool) (table : RangeTable) (phase : Phase) (node : ν) (emit : m Unit) :
    m RangeTable := do
  -- A phase that writes nothing leaves an empty range at its place.
  let before ← liftM positions
  emit
  let after ← liftM positions
  if track then
    let pair : RangePair :=
      { source := ⟨before.1, after.1⟩, header := ⟨before.2, after.2⟩ }
    return table.update (DesignNode.id node) (·.set pair phase)
  else return table

/-- Takes a step. `write` is how a node writes its code. -/
def take (names : HeaderNames) (track : Bool) (write : Phase → ν → m Unit) (table : RangeTable) :
    Step ν → m RangeTable
  | .write phase node => tracked track table phase node (write phase node)
  | .prologue => do
    liftM (Prologue.write names.file names.included)
    return table
  | .endClass => do
    liftM (Emit.header "\x7d;\n")
    liftM Emit.leaveClass
    return table
  | .endGuard => do
    liftM (Emit.header "#endif\n")
    return table

def endsNode : Step ν → Bool
  | .write .closing _ => true
  | _ => false

def run (names : HeaderNames) (track : Bool) (write : Phase → ν → m Unit) (nodes : List ν) :
    m Report := do
  liftM Emit.reset
  let steps := plan nodes
  let ranges ← steps.foldlM (take names track write) {}
  return { ranges, nodesWritten := steps.countP endsNode }

def writeNode : Phase → Node → Emit Unit
  | .setup => Node.writeSetup
  | .opening | .framing => Node.writeOpening
  | .closing => Node.writeClosing

def configuredNames (settings : Settings) : HeaderNames :=
  let file := settings.headerFile
  { file, included := some (settings.includeName file) }

end Generation

structure Generated where
  source : Bytes
  header : Bytes
  report : Report
  deriving Repr

def Generated.ofWriter (writer : Writer) (report : Report) : Generated :=
  { source := writer.source, header := writer.header, report }

namespace Generation

def start (settings : Settings) (options : RunOptions) : Writer :=
  { settings, preview := options.preview }

def runDesign (names : HeaderNames) (options : RunOptions) (nodes : List Node) : Emit Report :=
  run names options.trackRanges writeNode nodes

end Generation

def generate (design : Design) (settings : Settings) (options : RunOptions) :
    Except FileFault Generated :=
  let names := Generation.configuredNames settings
  let (result, writer) :=
    Generation.runDesign names options design.nodes (Generation.start settings options)
  result.map (Generated.ofWriter writer)

end FormWeave
