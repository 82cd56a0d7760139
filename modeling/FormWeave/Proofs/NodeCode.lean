import FormWeave.Generation.Run
import FormWeave.Proofs.Emission

/-!
# The code of nodes leaves complete sections

Every occasion on which a node writes code starts and ends at the start of a line, and the sections
it closes are known beforehand: `Node.tagKinds` reads them off the item. An editable section stands
directly behind a generic one of the same node.
-/

namespace FormWeave

namespace Node

open Emit

/-- The kinds of the tags around the callback of a node. A callback that names a function has none. -/
def callbackKinds (node : Node) (kind : TagKind) : List TagKind :=
  match node.callback? with
  | some callback => if isFunctionName callback then [] else [.generic, kind]
  | none => []

def tagKinds (node : Node) (phase : Phase) : List TagKind :=
  match phase, node.body.kind with
  | .setup, .widget => node.callbackKinds .widgetCallback
  | .setup, .menuItem => node.callbackKinds .menuCallback
  | .opening, .code | .framing, .code => [.generic, .code]
  | .opening, .function | .framing, .function | .closing, .function => [.generic]
  | .opening, .widgetClass | .framing, .widgetClass | .closing, .widgetClass => [.generic]
  | _, _ => []

def sectionNames (node : Node) (phase : Phase) : List SectionName :=
  (node.tagKinds phase).map fun kind => (kind, node.id)

variable (node : Node)

/-! ## 1. Labels, images and callbacks -/

theorem idle_callbackName : (callbackName node).Idle := by
  unfold callbackName
  split <;> exact idle_uniqueId _ _ _ _

theorem idle_callbackExpression (callback : String) : (callbackExpression node callback).Idle := by
  unfold callbackExpression
  split
  · exact .pure _
  · exact idle_callbackName node

theorem idle_callbackOrNull : (callbackOrNull node).Idle := by
  unfold callbackOrNull
  split
  · exact idle_callbackExpression node _
  · exact .pure _

theorem idle_imageVariable (image : String) : (imageVariable image).Idle :=
  idle_uniqueId _ _ _ _

theorem closes_writeLabel (text : String) (number : Nat) (place : Cursor) :
    (writeLabel text number).Closes place .anywhere [] := by
  refine (idle_ask _).seq fun translation => ?_
  cases translation.mode with
  | none => exact closes_quoted place _
  | gnu =>
    exact (closes_source _ place).seq fun _ => (closes_quoted _ _).seq fun _ => closes_source _ _
  | posix =>
    exact (closes_source _ place).seq fun _ => (closes_quoted _ _).seq fun _ => closes_source _ _

theorem quiet_writeLabel (text : String) (number : Nat) : (writeLabel text number).Quiet := by
  refine (idle_ask _).quiet.bind fun translation => ?_
  cases translation.mode with
  | none => exact quiet_quoted _
  | gnu => exact (quiet_source _).bind fun _ => (quiet_quoted _).bind fun _ => quiet_source _
  | posix => exact (quiet_source _).bind fun _ => (quiet_quoted _).bind fun _ => quiet_source _

theorem closes_writeLabelOrNull (label : Option String) (number : Nat) (place : Cursor) :
    (writeLabelOrNull label number).Closes place .anywhere [] := by
  cases label with
  | none => exact closes_source _ place
  | some label => exact closes_writeLabel label number place

theorem closes_writeImage (image : String) (resource : Resource) :
    (writeImage image resource).Closes .lineStart .lineStart [] := by
  refine (closes_headerOnce _ _).discard.seq fun _ => ?_
  refine (idle_imageVariable image).seq fun array => (idle_seen _).seq fun known => ?_
  refine Closes.onlyIf ?_ _
  exact (closes_source _ _).seq fun _ => (closes_initializer _ _).seq fun _ =>
    closes_line _ (by decide)

/-- An inline callback is a section of its own behind the head of its function. -/
theorem closes_writeCallbackFunction (callback target : String) (kind : TagKind)
    (h : isFunctionName callback = false) :
    (writeCallbackFunction node callback target kind).Closes .lineStart .lineStart
      [(.generic, node.id), (kind, node.id)] := by
  rw [writeCallbackFunction, h]
  refine (idle_callbackName node).seq fun name => ?_
  refine (closes_line .lineStart (.append (by decide) _)).seq fun _ => ?_
  -- The head of the function is structure, the callback a section of its own.
  refine (closes_tag .generic node.id).bind fun _ => ?_
  refine (closes_indented callback .lineStart 1).seq fun _ => ?_
  exact (closes_tag kind node.id).bind fun _ => closes_line _ (by decide)

theorem closes_callback (target : String) (kind : TagKind) :
    (forSome node.callback? fun callback =>
      writeCallbackFunction node callback target kind).Closes .lineStart .lineStart
        ((node.callbackKinds kind).map fun kind => (kind, node.id)) := by
  rw [callbackKinds]
  cases node.callback? with
  | none => exact (Idle.pure _).closes _
  | some callback =>
    show (writeCallbackFunction node callback target kind).Closes _ _ _
    -- A callback that names a function is only declared.
    cases hname : isFunctionName callback with
    | true =>
      rw [writeCallbackFunction, hname]
      simpa [hname] using (closes_headerOnce _ _).discard
    | false => simpa [hname] using closes_writeCallbackFunction node callback target kind hname

/-! ## 2. Widgets -/

theorem quiet_writeSetters : (writeSetters node).Quiet := by
  unfold writeSetters
  split
  · refine Quiet.bind (.forSome (fun tooltip => ?_) _) fun _ => ?_
    · exact idle_indent.quiet.bind fun _ => (quiet_source _).bind fun _ =>
        (quiet_writeLabel _ _).bind fun _ => quiet_source _
    refine Quiet.bind (.forSome (fun image => .forSome (fun resource => ?_) _) _) fun _ => ?_
    · exact (idle_imageVariable image).quiet.bind fun _ => idle_indent.quiet.bind fun _ =>
        quiet_source _
    refine .forSome (fun callback => ?_) _
    exact (idle_callbackExpression node callback).quiet.bind fun _ =>
      idle_indent.quiet.bind fun _ => quiet_source _
  · exact (Idle.pure _).quiet

theorem closes_writeSetters : (writeSetters node).Closes .lineStart .lineStart [] := by
  unfold writeSetters
  split
  · refine Closes.seq (.forSome (fun tooltip => ?_) _) fun _ => ?_
    · exact idle_indent.seq fun _ => (closes_source _ _).seq fun _ =>
        (closes_writeLabel _ _ _).seq fun _ => closes_line _ (by decide)
    refine Closes.seq (.forSome (fun image => .forSome (fun resource => ?_) _) _) fun _ => ?_
    · exact (idle_imageVariable image).seq fun _ => idle_indent.seq fun _ =>
        closes_line _ (.append (by decide) _)
    refine .forSome (fun callback => ?_) _
    exact (idle_callbackExpression node callback).seq fun _ => idle_indent.seq fun _ =>
      closes_line _ (.append (by decide) _)
  · exact (Idle.pure _).closes _

theorem idle_usesLocal : (usesLocal node).Idle := by
  unfold usesLocal
  split
  · exact .pure _
  · exact (quiet_writeSetters node).idle_writesSource

theorem closes_writeWidgetSetup (h : node.body.kind = .widget) :
    (writeWidgetSetup node).Closes .lineStart .lineStart (node.sectionNames .setup) := by
  have hnames : node.sectionNames .setup =
      (node.callbackKinds .widgetCallback).map fun kind => (kind, node.id) := by
    unfold sectionNames tagKinds
    rw [h]
  rw [hnames, writeWidgetSetup]
  cases hbody : node.body with
  | widget className name label tooltip callback image =>
    refine Closes.seq (.forSome (fun name => ?_) _) fun _ => ?_
    · exact (closes_header _ _).seq fun _ => closes_line _ (.append (by decide) _)
    refine Closes.seq (.forSome (fun image => .forSome (closes_writeImage image) _) _) fun _ => ?_
    exact closes_callback node _ .widgetCallback
  | _ =>
    rw [hbody] at h
    cases h

theorem closes_writeWidgetOpening :
    (writeWidgetOpening node).Closes .lineStart .lineStart [] := by
  unfold writeWidgetOpening
  split
  · refine Closes.seq (.forSome (fun name => ?_) _) fun _ => ?_
    · exact (closes_access _ _).seq fun _ => closes_header _ _
    refine (idle_usesLocal node).seq fun usesLocal => idle_indent.seq fun _ => ?_
    refine (closes_source _ _).seq fun _ => (closes_source _ _).seq fun _ => ?_
    refine (closes_source _ _).seq fun _ => (closes_writeLabelOrNull _ _ _).seq fun _ => ?_
    refine (closes_line _ (by decide)).seq fun _ => idle_indentMore.seq fun _ => ?_
    exact closes_writeSetters node
  · exact (Idle.pure _).closes _

theorem closes_writeWidgetClosing :
    (writeWidgetClosing node).Closes .lineStart .lineStart [] := by
  unfold writeWidgetClosing
  split
  · refine Closes.seq (.onlyIf ?_ _) fun _ => ?_
    · exact idle_indent.seq fun _ => closes_line _ (.append (by decide) _)
    exact idle_indentLess.seq fun _ => idle_indent.seq fun _ =>
      closes_line _ (.append (by decide) _)
  · exact (Idle.pure _).closes _

/-! ## 3. The other items -/

theorem closes_writeComment (text : String) (inSource inHeader : Bool) :
    (writeComment text inSource inHeader).Closes .lineStart .lineStart [] := by
  refine .forM (fun line => ?_) _
  refine Closes.seq (.onlyIf ?_ _) fun _ => .onlyIf (closes_header _ _) _
  exact idle_indent.seq fun _ => closes_line _ (.append (.append (by decide) _) _)

theorem closes_writeDeclaration (scope : NodeScope) (text : String) (visibility : Visibility) :
    (writeDeclaration scope text visibility).Closes .lineStart .lineStart [] := by
  unfold writeDeclaration
  dsimp only
  split
  · exact (Idle.pure _).closes _
  split
  · refine Closes.seq (.discard ?_) fun _ => (Idle.pure _).closes _
    split
    · exact closes_sourceOnce _
    · exact closes_headerOnce _ _
  cases scope with
  | member => exact (closes_access _ _).seq fun _ => closes_headerStatement _ _ _ _
  | inner => exact idle_indent.seq fun _ => closes_sourceStatement _ _ _ _
  | file =>
    dsimp only
    split
    · exact closes_sourceStatement _ _ _ _
    · exact (closes_headerStatement _ _ _ _).seq fun _ => closes_sourceStatement _ _ _ _

theorem idle_memberOf : (memberOf node).Idle := by
  unfold memberOf
  split
  · exact idle_currentClass
  · exact .pure _

theorem closes_writeFunctionHead (name returnType : String) (visibility : Visibility) :
    (writeFunctionHead node name returnType visibility).Closes .lineStart .lineStart [] := by
  refine (idle_memberOf node).seq fun owner => ?_
  cases owner with
  | some owner =>
    exact (closes_access _ _).seq fun _ => (closes_header _ _).seq fun _ =>
      closes_line _ (.append (by decide) _)
  | none =>
    dsimp only
    split
    · exact closes_line _ (.append (by decide) _)
    · exact (closes_header _ _).seq fun _ => closes_line _ (.append (by decide) _)

theorem closes_writeFunctionOpening (name returnType : String) (visibility : Visibility) :
    (writeFunctionOpening node name returnType visibility).Closes .lineStart .lineStart
      [(.generic, node.id)] := by
  refine (closes_writeFunctionHead node _ _ _).seq fun _ => ?_
  exact (closes_tag .generic node.id).bind fun _ => (idle_setIndentation 1).closes _

theorem closes_writeClassOpening (name base : String) :
    (writeClassOpening node name base).Closes .lineStart .lineStart [(.generic, node.id)] := by
  refine (closes_header _ _).seq fun _ => (idle_enterClass _ _).seq fun _ => ?_
  refine (closes_access _ _).seq fun _ => (closes_header _ _).seq fun _ => ?_
  refine (closes_source _ _).seq fun _ => (closes_line _ (.append (by decide) _)).seq fun _ => ?_
  exact (closes_tag .generic node.id).bind fun _ => (idle_setIndentation 1).closes _

theorem closes_writeMenuItem (label : String) (shortcut : Option String) :
    (writeMenuItem node label shortcut).Closes .lineStart .lineStart [] := by
  refine idle_indent.seq fun _ => (closes_source _ _).seq fun _ => ?_
  refine (closes_writeLabel _ _ _).seq fun _ => (idle_callbackOrNull node).seq fun _ => ?_
  exact closes_line _ (.append (by decide) _)

theorem closes_writeDataValue (name : String) (format : DataFormat) (shared : Bool)
    (content : Option Bytes) :
    (writeDataValue name format shared content).Closes .lineStart .anywhere [] := by
  unfold writeDataValue
  cases format with
  | binary =>
    exact (Closes.onlyIf (closes_header _ _) _).seq fun _ => (closes_source _ _).seq fun _ =>
      closes_initializer _ _
  | text =>
    exact (Closes.onlyIf (closes_header _ _) _).seq fun _ => (closes_source _ _).seq fun _ =>
      closes_quoted _ _

theorem closes_writeData (name : String) (format : DataFormat) (visibility : Visibility) :
    (writeData node name format visibility).Closes .lineStart .lineStart [] :=
  (closes_writeDataValue _ _ _ _).seq fun _ => closes_line _ (by decide)

/-! ## 4. The three occasions -/

theorem closes_writeSetup :
    (writeSetup node).Closes .lineStart .lineStart (node.sectionNames .setup) := by
  unfold writeSetup
  split
  · next hbody => exact closes_writeWidgetSetup node (by rw [hbody]; rfl)
  · next hbody =>
    unfold sectionNames tagKinds
    rw [hbody]
    exact closes_callback node _ .menuCallback
  · next hwidget hmenu =>
    cases hbody : node.body with
    | widget => exact absurd hbody (hwidget _ _ _ _ _ _ _ _ _ _)
    | menuItem => exact absurd hbody (hmenu _ _ _)
    | _ =>
      unfold sectionNames tagKinds
      rw [hbody]
      exact (Idle.pure _).closes _

theorem closes_writeOpening :
    (writeOpening node).Closes .lineStart .lineStart (node.sectionNames .opening) := by
  unfold sectionNames tagKinds writeOpening
  cases node.body with
  | comment text inSource inHeader => exact closes_writeComment _ _ _
  | code code =>
    exact (closes_tag .generic node.id).bind fun _ => (closes_indented _ _ _).seq fun _ =>
      closes_tag .code node.id
  | codeBlock opening closing =>
    exact idle_indent.seq fun _ => (closes_line _ (.append (by decide) _)).seq fun _ =>
      idle_indentMore.closes _
  | declaration text visibility => exact closes_writeDeclaration _ _ _
  | function name returnType visibility => exact closes_writeFunctionOpening node _ _ _
  | widgetClass name base => exact closes_writeClassOpening node _ _
  | widget => exact closes_writeWidgetOpening node
  | menuItem label shortcut callback => exact closes_writeMenuItem node _ _
  | data name resource format visibility => exact closes_writeData node _ _ _

theorem closes_writeClosing :
    (writeClosing node).Closes .lineStart .lineStart (node.sectionNames .closing) := by
  unfold sectionNames tagKinds writeClosing
  cases node.body with
  | codeBlock opening closing =>
    exact idle_indentLess.seq fun _ => idle_indent.seq fun _ =>
      closes_line _ (.append (by decide) _)
  | function =>
    exact (closes_tag .generic node.id).bind fun _ => (idle_setIndentation 0).seq fun _ =>
      closes_line _ (by decide)
  | widgetClass =>
    exact idle_indent.seq fun _ => (closes_line _ (.append (by decide) _)).seq fun _ =>
      (closes_tag .generic node.id).bind fun _ => (idle_setIndentation 0).seq fun _ =>
        closes_line _ (by decide)
  | widget => exact closes_writeWidgetClosing node
  | _ => exact (Idle.pure _).closes _

/-- On every occasion a node closes the sections that its item calls for. -/
theorem closes_writeNode (phase : Phase) :
    (Generation.writeNode phase node).Closes .lineStart .lineStart (node.sectionNames phase) := by
  cases phase with
  | setup => exact closes_writeSetup node
  | opening => exact closes_writeOpening node
  | closing => exact closes_writeClosing node
  | framing =>
    -- A node that frames the file writes its opening code.
    have hsame : node.sectionNames .framing = node.sectionNames .opening := by
      simp only [sectionNames, tagKinds]
      cases node.body.kind <;> rfl
    rw [hsame]
    exact closes_writeOpening node

end Node

end FormWeave
