import FormWeave.Checksum.Running
import FormWeave.Design.Kind
import FormWeave.Error
import FormWeave.Tag.Parser
import FormWeave.Text.Split

/-!
# Finding edits in a source file

Every generated block ends in a tag line with the checksum of the block as generated. `scan` reads
a source file line by line, sums up what stands between tags, and lists the blocks whose checksum
is no longer that of their tag.
-/

namespace FormWeave

structure ChangedBlock where
  kind : TagKind
  nodeId : NodeId
  /-- The line of the closing tag, counted from 1. -/
  line : Nat
  text : String
  resolved : Bool
  deriving DecidableEq, Repr

structure MergeSummary where
  structuralChanges : Nat := 0
  codeChanges : Nat := 0
  callbackChanges : Nat := 0
  unresolvedIds : Nat := 0
  blocks : List ChangedBlock := []
  deriving DecidableEq, Repr, Inhabited

namespace MergeSummary

/-- The summary as a set of bits: 1 structure, 2 code, 4 callbacks, 8 edits without a node. -/
def bits (s : MergeSummary) : Nat :=
  (if s.structuralChanges > 0 then 1 else 0) + (if s.codeChanges > 0 then 2 else 0) +
    (if s.callbackChanges > 0 then 4 else 0) + (if s.unresolvedIds > 0 then 8 else 0)

def hasChanges (s : MergeSummary) : Bool :=
  s.structuralChanges + s.codeChanges + s.callbackChanges > 0

def hasMergeableChanges (s : MergeSummary) : Bool := s.codeChanges + s.callbackChanges > 0

def describe (s : MergeSummary) : String :=
  "Found " ++ toString s.codeChanges ++ " modifications in code blocks and " ++
    toString s.callbackChanges ++ " modifications in callbacks." ++
    (if s.unresolvedIds > 0 then
      "\n\nWARNING: for " ++ toString s.unresolvedIds ++
        " of these modifications no design node can be found. The design diverged from the " ++
        "source file and these modifications can't be merged back."
    else "") ++
    (if s.structuralChanges > 0 then
      "\n\nWARNING: " ++ toString s.structuralChanges ++
        " modifications in the generated structure can't be merged back and will be lost."
    else "")

def ofBlocks (blocks : List ChangedBlock) : MergeSummary where
  structuralChanges := blocks.countP (·.kind == .generic)
  codeChanges := blocks.countP (·.kind == .code)
  callbackChanges := blocks.countP (·.kind.isCallback)
  unresolvedIds := blocks.countP (!·.resolved)
  blocks

end MergeSummary

namespace Merge

/-- Drops carriage returns and up to two blanks at the start of each line. `skipped` blanks are
dropped already if the line has just begun. -/
def unindentFrom : (skipped : Option Nat) → Bytes → Bytes
  | _, [] => []
  | skipped, b :: rest =>
    if b == 0x0d then unindentFrom skipped rest
    else
      match skipped with
      | some n =>
        if n < 2 && (b == 0x20 || b == 0x09) then unindentFrom (some (n + 1)) rest
        else b :: unindentFrom (if b == 0x0a then some 0 else none) rest
      | none => b :: unindentFrom (if b == 0x0a then some 0 else none) rest

def unindentBytes (block : Bytes) : Bytes :=
  ((unindentFrom (some 0) block).reverse.dropWhile (· == 0x0a)).reverse

def unindent (block : Bytes) : String := Utf8.decodeLossy (unindentBytes block)

def fromMarker? (line : Bytes) : Option Bytes :=
  match line with
  | [] => none
  | b :: rest =>
    if (utf8 Tag.marker).isPrefixOf (b :: rest) then some (b :: rest) else fromMarker? rest

def readTag (line : Nat) (bytes : Bytes) : Except Error Tag :=
  let text := Utf8.decodeLossy bytes
  (Tag.parse text).mapError fun cause => .malformedTag line (Text.trimEnd text) cause

def accepts {ν : Type} [DesignNode ν] (nodes : List ν) (id : NodeId) (kind : TagKind) : Bool :=
  (DesignNode.find? nodes id).any fun node => (DesignNode.kind node).takes kind

/-- The state of a scan: the checksum and the lines of the open block, last line first, the number
of lines read, and the edited blocks found, last block first. -/
structure ScanState where
  checksum : Checksum.Running := {}
  block : List Bytes := []
  lines : Nat := 0
  changed : List ChangedBlock := []

/-- The state after a line. A line without a marker belongs to the open block. A line with one
closes it; whatever stands in front of the marker is not looked at. -/
def scanLine {ν : Type} [DesignNode ν] (nodes : List ν) (state : ScanState) (line : Bytes) :
    Except Error ScanState := do
  let number := state.lines + 1
  match fromMarker? line with
  | none =>
    return { state with
      checksum := state.checksum.add line, block := line :: state.block, lines := number }
  | some bytes =>
    let tag ← readTag number bytes
    if state.checksum.value == tag.checksum then
      return { lines := number, changed := state.changed }
    let block : ChangedBlock :=
      { kind := tag.kind
        nodeId := tag.nodeId
        line := number
        text := unindent state.block.reverse.flatten
        -- Structure is lost anyhow, so it never counts as without a node.
        resolved := tag.kind == .generic || accepts nodes tag.nodeId tag.kind }
    return { lines := number, changed := block :: state.changed }

def scan {ν : Type} [DesignNode ν] (source : Bytes) (nodes : List ν) :
    Except Error MergeSummary := do
  let state ← (Text.splitInclusive 0x0a source).foldlM (scanLine nodes) {}
  return .ofBlocks state.changed.reverse

end Merge

end FormWeave
