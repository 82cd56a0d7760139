import FormWeave.Merge.Scan
import FormWeave.Settings.Basic

/-!
# Merging edits back

`Merge.run` reads the edits of a source file and, as the mode says, copies edited code and callbacks
into the nodes that the tags name. Nothing is changed before the whole file has been read. The
application around a merge is a `MergeHost`: it saves a restore point, is asked, and is told what
happens.
-/

namespace FormWeave

inductive MergeMode
  | check
  | interactive
  | go
  /-- Merge if no structure was edited. -/
  | goSafe
  deriving DecidableEq, Repr, Inhabited

inductive MergeOutcome
  | report (summary : MergeSummary)
  | noChanges
  | merged (summary : MergeSummary)
  | cancelled
  | conflict (summary : MergeSummary)
  deriving DecidableEq, Repr

namespace MergeOutcome

def name : MergeOutcome → String
  | report _ => "report"
  | noChanges => "no_changes"
  | merged _ => "merged"
  | cancelled => "cancelled"
  | conflict _ => "conflict"

def summary? : MergeOutcome → Option MergeSummary
  | report s | merged s | conflict s => some s
  | noChanges | cancelled => none

end MergeOutcome

inductive MergeNote
  | refused (structural : Nat)
  /-- No edited block has a node that takes it. -/
  | unresolved (count : Nat)
  | noNode (node : NodeId) (line : Nat)
  | merged (node : NodeId) (kind : TagKind)
  | notTaken (node : NodeId) (kind : TagKind)
  deriving DecidableEq, Repr

def MergeNote.isMerged : MergeNote → Bool
  | merged .. => true
  | refused _ | unresolved _ | noNode .. | notTaken .. => false

structure MergeHost (m : Type → Type) where
  /-- Called right before the design is changed; an error stops the merge. -/
  checkpoint : m (Except Error Unit)
  confirm : MergeSummary → String → m Bool
  message : String → m Unit
  setModified : m Unit
  refreshViews : m Unit
  note : MergeNote → m Unit

namespace Merge

variable {ν : Type} [DesignNode ν] {m : Type → Type} [Monad m]

def patched? (block : ChangedBlock) (node : ν) : Option ν :=
  if block.kind.isCallback then DesignNode.setCallback? node block.text
  else DesignNode.setCode? node block.text

def applyBlock (nodes : List ν) (block : ChangedBlock) : List ν × MergeNote :=
  match DesignNode.find? nodes block.nodeId with
  | none => (nodes, .noNode block.nodeId block.line)
  | some node =>
    match patched? block node with
    | none => (nodes, .notTaken block.nodeId block.kind)
    | some patched =>
      (DesignNode.replaceFirst (fun _ => patched) block.nodeId nodes,
        .merged block.nodeId block.kind)

def applyBlocks : (nodes : List ν) → List ChangedBlock → List ν × List MergeNote
  | nodes, [] => (nodes, [])
  | nodes, block :: rest =>
    let (nodes, note) := applyBlock nodes block
    let (nodes, notes) := applyBlocks nodes rest
    (nodes, note :: notes)

/-- Copies the edited code and callbacks into the nodes, unless no node takes any of them. -/
def apply (host : MergeHost m) (nodes : List ν) (summary : MergeSummary) :
    m (Except Error MergeOutcome × List ν) := do
  -- Nothing is saved or changed for edits that cannot land anywhere.
  let mergeable := summary.blocks.filter (·.kind.isMergeable)
  if !mergeable.any (·.resolved) then
    if summary.unresolvedIds > 0 then host.note (.unresolved summary.unresolvedIds)
    return (.ok .noChanges, nodes)
  match ← host.checkpoint with
  | .error error => return (.error error, nodes)
  | .ok _ =>
    let (patched, notes) := applyBlocks nodes mergeable
    notes.forM host.note
    -- Every node may still have declined its text.
    if !notes.any MergeNote.isMerged then return (.ok .noChanges, patched)
    host.setModified
    host.refreshViews
    return (.ok (.merged summary), patched)

def proceed (mode : MergeMode) (host : MergeHost m) (nodes : List ν) (summary : MergeSummary) :
    m (Except Error MergeOutcome × List ν) := do
  match mode with
  | .check => return (.ok (.report summary), nodes)
  | .go => apply host nodes summary
  | .goSafe =>
    if summary.structuralChanges > 0 then
      host.note (.refused summary.structuralChanges)
      return (.ok (.conflict summary), nodes)
    else apply host nodes summary
  | .interactive =>
    if !summary.hasChanges then return (.ok .noChanges, nodes)
    else if !summary.hasMergeableChanges then
      host.message ("Found " ++ toString summary.structuralChanges ++
        " modifications in the generated structure of the source file. " ++
        "These changes can't be merged back and will be lost.")
      return (.ok (.conflict summary), nodes)
    else if ← host.confirm summary summary.describe then apply host nodes summary
    else return (.ok .cancelled, nodes)

/-- Merges the edits of a source file into the nodes of a design. `source` is the result of reading
the file; it is not looked at if the project does not tag blocks. -/
def run (settings : Settings) (mode : MergeMode) (host : MergeHost m)
    (source : Except FileFault Bytes) (nodes : List ν) : m (Except Error MergeOutcome × List ν) :=
  if !settings.mergeTags then return (.ok .noChanges, nodes)
  else
    match source with
    | .error fault => return (.error (.file fault), nodes)
    | .ok bytes =>
      match scan bytes nodes with
      | .error error => return (.error error, nodes)
      | .ok summary => proceed mode host nodes summary

end Merge

inductive HostCall
  | checkpoint
  | confirm (summary : MergeSummary) (message : String)
  | message (text : String)
  | setModified
  | refreshViews
  deriving DecidableEq, Repr

def MergeHost.recording (answer : Bool) (checkpoint : Except Error Unit) :
    MergeHost (StateM (List HostCall)) where
  checkpoint := do
    modify (· ++ [.checkpoint])
    return checkpoint
  confirm summary message := do
    modify (· ++ [.confirm summary message])
    return answer
  message text := modify (· ++ [.message text])
  setModified := modify (· ++ [.setModified])
  refreshViews := modify (· ++ [.refreshViews])
  note _ := return

def MergeHost.silent : MergeHost Id where
  checkpoint := .ok ()
  confirm _ _ := false
  message _ := ()
  setModified := ()
  refreshViews := ()
  note _ := ()

end FormWeave
