import FormWeave.Command.Arguments
import FormWeave.Design.Basic
import FormWeave.Diff.Script
import FormWeave.Json.Printer
import FormWeave.Project.Log

/-!
# Reports of a merge

What a merge found, for readers and for programs, and the differences between the design and the
edited blocks.
-/

namespace FormWeave

inductive Colour
  | red | green | yellow
  deriving DecidableEq, Repr

structure Terminal where
  colour : Bool
  deriving DecidableEq, Repr

namespace Terminal

def colourNumber : Colour → String
  | .red => "31"
  | .green => "32"
  | .yellow => "33"

def paint (t : Terminal) (colour : Colour) (text : String) : String :=
  if t.colour then "\x1b[" ++ colourNumber colour ++ "m" ++ text ++ "\x1b[39m" else text

def bold (t : Terminal) (text : String) : String :=
  if t.colour then Log.styled "1" text else text

end Terminal

namespace Report

open Json Json.Value

def blockJson (block : ChangedBlock) : Value :=
  .object
    [field "kind" (.ofText block.kind.name), field "line" (.ofInt block.line),
      field "node_id" (.ofInt block.nodeId.value.toNat), field "resolved" (.bool block.resolved),
      field "text" (.ofText block.text)]

def outcomeJson (outcome : MergeOutcome) : Value :=
  let status := field "status" (.ofText outcome.name)
  match outcome.summary? with
  | none => .object [status]
  | some s =>
    .object
      [field "blocks" (.array (s.blocks.map blockJson)),
        field "callback_changes" (.ofInt s.callbackChanges),
        field "code_changes" (.ofInt s.codeChanges), status,
        field "structural_changes" (.ofInt s.structuralChanges),
        field "unresolved_ids" (.ofInt s.unresolvedIds)]

def json (outcome : MergeOutcome) (refused : Bool) (source : String) : Value :=
  let bits := match outcome.summary? with
    | none => 0
    | some s => s.bits
  .object
    [field "bits" (.ofInt bits), field "ok" (.bool !refused),
      field "outcome" (outcomeJson outcome), field "source" (.ofText source)]

def blockContent : TagKind → String
  | .generic => "generated structure"
  | .code => "code"
  | .menuCallback => "menu callback"
  | .widgetCallback => "widget callback"

def blockStatus (t : Terminal) (block : ChangedBlock) : String :=
  if !block.kind.isMergeable then t.paint .yellow "lost"
  else if block.resolved then t.paint .green "mergeable"
  else t.paint .red "no node"

def summaryLines (t : Terminal) (s : MergeSummary) : List String :=
  ["  structural edits: " ++ toString s.structuralChanges,
    "  code edits: " ++ toString s.codeChanges,
    "  callback edits: " ++ toString s.callbackChanges] ++
  (if s.unresolvedIds > 0 then
    ["  edits without a design node: " ++ toString s.unresolvedIds] else []) ++
  ["", "Edited blocks:"] ++
  s.blocks.map fun block =>
    "  " ++ blockContent block.kind ++ " of node " ++ block.nodeId.render ++
      " ending at line " ++ toString block.line ++ " [" ++ blockStatus t block ++ "]"

def currentText? (design : Design) (id : NodeId) : Option String := do
  match (← design.find? id).body with
  | .code text => some text
  | .widget _ _ _ _ callback .. => some (callback.getD "")
  | .menuItem _ _ callback => some (callback.getD "")
  | _ => none

/-- The lines of a text, each with its end: a line feed, a carriage return, or both in this order.
`line` holds what was read of the current one, last character first. -/
def linesFrom (line : List Char) : List Char → List (List Char)
  | [] => if line.isEmpty then [] else [line.reverse]
  | '\r' :: '\n' :: rest => ('\n' :: '\r' :: line).reverse :: linesFrom [] rest
  | c :: rest =>
    if c == '\n' || c == '\r' then (c :: line).reverse :: linesFrom [] rest
    else linesFrom (c :: line) rest

def lines (text : String) : Array String :=
  ((linesFrom [] text.toList).map String.ofList).toArray

def withNewline (text : String) : String :=
  if text.toList.getLast? == some '\n' then text else text ++ "\n"

def diffLine (t : Terminal) : Diff.Action × String → String
  | (.delete, line) => "  " ++ t.paint .red ("-" ++ line)
  | (.insert, line) => "  " ++ t.paint .green ("+" ++ line)
  | (.keep, line) => "   " ++ line

def blockDiff (t : Terminal) (design : Design) (block : ChangedBlock) : String :=
  match currentText? design block.nodeId with
  | none => ""
  | some current =>
    let changes := Diff.changes (lines (withNewline current)) (lines (withNewline block.text))
    "\n" ++ t.bold ("node " ++ block.nodeId.render ++ ":") ++ "\n" ++
      String.join (changes.map (diffLine t))

def diffs (t : Terminal) (design : Design) (s : MergeSummary) : String :=
  String.join ((s.blocks.filter (·.kind.isMergeable)).map (blockDiff t design))

end Report

end FormWeave
