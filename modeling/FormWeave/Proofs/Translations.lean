import FormWeave.Catalog
import FormWeave.Proofs.Wiring

/-!
# Texts that are translated

The labels and tooltips of a design are shown to the user, in the language the user reads. The
opening code of a node calls for the translation of its texts, and nothing else does.
-/

namespace FormWeave

/-! ## 1. The texts of nodes -/

inductive TextPart
  | label | tooltip
  deriving DecidableEq

structure ShownText where
  node : Node
  part : TextPart
  text : String
  deriving DecidableEq

namespace Node

def textOf? (node : Node) : TextPart → Option String
  | .label => node.body.label?
  | .tooltip => node.body.tooltip?

def numberOf (node : Node) : TextPart → Nat
  | .label => node.labelNumber
  | .tooltip => node.tooltipNumber

def shownTexts (node : Node) : List ShownText :=
  if node.kind.isWidget then
    (node.body.label?.map (⟨node, .label, ·⟩)).toList ++
      (node.body.tooltip?.map (⟨node, .tooltip, ·⟩)).toList
  else []

variable {node : Node}

theorem mem_shownTexts {shown : ShownText} : shown ∈ node.shownTexts ↔
    node.kind.isWidget = true ∧ shown.node = node ∧ node.textOf? shown.part = some shown.text := by
  obtain ⟨owner, part, text⟩ := shown
  unfold shownTexts
  cases part <;> cases node.kind.isWidget <;> simp [textOf?] <;> grind

theorem nodup_shownTexts (node : Node) : node.shownTexts.Nodup := by
  unfold shownTexts
  split
  · cases node.body.label? <;> cases node.body.tooltip? <;> simp
  · exact List.nodup_nil

theorem map_text_shownTexts (node : Node) : node.shownTexts.map ShownText.text =
    if node.kind.isWidget then node.body.label?.toList ++ node.body.tooltip?.toList else [] := by
  unfold shownTexts
  split
  · cases node.body.label? <;> cases node.body.tooltip? <;> rfl
  · rfl

end Node

/-! ## 2. The calls in the code -/

/-- Code as it is cut up by the calls for labels and tooltips. -/
inductive Segment
  | code (spans : List Span)
  | call (part : TextPart) (text : String) (number : Nat)

namespace Segment

def spans (written : String → Nat → List Span) : Segment → List Span
  | code spans => spans
  | call _ text number => written text number

def request? (node : Node) : Segment → Option (ShownText × Nat)
  | code _ => none
  | call part text number => some (⟨node, part, text⟩, number)

end Segment

namespace Node

variable (context : Context) (names : Names) (node : Node)

def setterSegments (tooltip : Option String) : List Segment :=
  (tooltip.elim [] fun text => [.code (spell (context.indent ++ "o->tooltip(")),
    .call .tooltip text node.tooltipNumber, .code (spell ");\n")]) ++
  [.code (node.setters context names none)]

def openingSegments (declared : Bool) : List Segment :=
  match node.body with
  | .widget className name label tooltip _ _ x y w h =>
    [.code (spell (context.indent ++ "\x7b ")),
      .code (spell ((if declared then className ++ "* o = " else "") ++
        (name.elim "" (· ++ " = ")) ++ "new " ++ className ++ "(")),
      .code (spell (toString x ++ ", " ++ toString y ++ ", " ++ toString w ++ ", " ++ toString h ++
        ", ")),
      label.elim (.code (spell "0")) (.call .label · node.labelNumber), .code (spell ");\n")] ++
      node.setterSegments context.deeper names tooltip
  | .menuItem label shortcut _ =>
    [.code (spell (context.indent ++ "o->add(")), .call .label label node.labelNumber,
      .code (spell (", " ++ shortcut.getD "0" ++ ", (Fl_Callback*)" ++
        node.callback?.elim "0" (node.callbackReference names) ++ ");\n"))]
  | _ => []

def segments (phase : Phase) (present : String → Bool) (declared : Bool) : List Segment :=
  match phase with
  | .setup => [.code (node.setupSpans context names present)]
  | .opening | .framing => node.openingSegments context names declared
  | .closing => [.code (node.closingSpans context)]

theorem spans_setterSegments (tooltip : Option String) :
    (node.setterSegments context names tooltip).flatMap (Segment.spans (translated context)) =
      node.setters context names tooltip := by
  unfold setterSegments setters
  cases tooltip <;> simp [Segment.spans, optionally]

theorem spans_openingSegments (declared : Bool) :
    (node.openingSegments context names declared).flatMap (Segment.spans (translated context)) =
      node.openingSpans context names declared := by
  -- How deep a call is indented makes no difference to it.
  have hsetters := spans_setterSegments context.deeper names node
  have hdeeper : translated context.deeper = translated context := rfl
  rw [hdeeper] at hsetters
  unfold openingSegments openingSpans
  cases hbody : node.body with
  | widget className name label tooltip =>
    simp only [List.flatMap_append, hsetters]
    cases label <;> simp [Segment.spans]
  | menuItem => simp [Segment.spans]
  | _ => rfl

theorem spans_segments (phase : Phase) (present : String → Bool) (declared : Bool) :
    (node.segments context names phase present declared).flatMap
        (Segment.spans (translated context)) =
      node.spansIn context names phase present declared := by
  cases phase with
  | opening | framing => exact spans_openingSegments context names node declared
  | setup | closing => exact List.flatMap_singleton ..

/-- The calls in the opening code of a node are for its texts, by its numbers. -/
theorem requests_openingSegments (declared : Bool) :
    (node.openingSegments context names declared).filterMap (Segment.request? node) =
      node.shownTexts.map fun text => (text, node.numberOf text.part) := by
  unfold openingSegments setterSegments shownTexts Node.kind
  cases hbody : node.body with
  | widget className name label tooltip =>
    cases label <;> cases tooltip <;> rfl
  | menuItem => rfl
  | _ => rfl

/-- No other code of a node has calls. -/
theorem requests_segments (phase : Phase) (present : String → Bool) (declared : Bool) :
    (node.segments context names phase present declared).filterMap (Segment.request? node) =
      if phase = .setup ∨ phase = .closing then []
      else node.shownTexts.map fun text => (text, node.numberOf text.part) := by
  cases phase with
  | opening | framing => exact requests_openingSegments context names node declared
  | setup | closing => rfl

end Node

namespace Generation

variable (design : Design) (settings : Settings) (options : RunOptions)

/-- What a widget or menu item writes is made of its segments. -/
theorem segments_written {piece : Piece} (hpiece : piece ∈ written design settings options)
    {phase : Phase} {node : Node} (hstep : piece.step = .write phase node)
    (hkind : node.kind.hasCallback = true) :
    node ∈ design.nodes ∧ ∃ depth names present declared,
      let context : Context := ⟨settings, options.preview, depth⟩
      spans piece.chunks = (node.segments context names phase present declared).flatMap
        (Segment.spans (Node.translated context)) := by
  constructor
  · have hmem := List.mem_map_of_mem (f := Piece.step) hpiece
    rw [map_step_written, hstep] at hmem
    exact Forest.mem_of_plan hmem
  · obtain ⟨before, behind, hsplit⟩ := List.append_of_mem hpiece
    obtain ⟨depth, declared, hspans⟩ := spans_written design settings options hsplit hstep hkind
    exact ⟨depth, _, _, declared, hspans.trans (Node.spans_segments _ _ node phase _ declared).symm⟩

end Generation

end FormWeave
