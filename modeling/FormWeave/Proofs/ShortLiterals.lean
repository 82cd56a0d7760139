import FormWeave.Proofs.UnawareCode

/-!
# Short literals

A preview holds placeholders for long literals and for data that is not there. If all texts and data
of a node are there and short, its code does not notice that it writes a preview.
-/

namespace FormWeave

open Emit

def Override.previewing : Override where
  preview _ := true

namespace Node

/-- What the code of a node writes as literals is known, and so short that a preview holds it in
full. -/
structure Short (node : Node) : Prop where
  label : ∀ text, node.body.label? = some text → (utf8 text).length ≤ Writer.previewLimit
  tooltip : ∀ text, node.body.tooltip? = some text → (utf8 text).length ≤ Writer.previewLimit
  image : ∀ image resource, node.shown? = some (image, resource) →
    resource.content.length ≤ Writer.previewLimit
  data : node.kind = .data →
    ∃ resource, node.resource = some resource ∧ resource.content.length ≤ Writer.previewLimit

variable (node : Node)

/-! ## 1. Code that does not notice a preview -/

@[grind ←] theorem unaware_identifier (owner : ObjectId) (word : String)
    (name label : Option String) : Unaware .previewing (uniqueId owner word name label) :=
  unaware_uniqueId rfl owner word name label

@[grind ←] theorem unaware_known (object : ObjectId) : Unaware .previewing (seen object) :=
  unaware_seen rfl object

@[grind ←] theorem unaware_callbackName : Unaware .previewing (callbackName node) := by
  unfold callbackName
  split <;> exact unaware_identifier _ _ _ _

@[grind ←] theorem unaware_callbackExpression (callback : String) :
    Unaware .previewing (callbackExpression node callback) := by
  unfold callbackExpression
  grind

@[grind ←] theorem unaware_callbackOrNull : Unaware .previewing (callbackOrNull node) := by
  unfold callbackOrNull
  grind

@[grind ←] theorem unaware_imageVariable (image : String) :
    Unaware .previewing (imageVariable image) := unaware_identifier _ _ _ _

@[grind ←] theorem unaware_writeCallbackFunction (callback target : String) (kind : TagKind) :
    Unaware .previewing (writeCallbackFunction node callback target kind) := by
  unfold writeCallbackFunction
  grind

@[grind ←] theorem unaware_writeLabel {text : String}
    (h : (utf8 text).length ≤ Writer.previewLimit) (number : Nat) :
    Unaware .previewing (writeLabel text number) := by
  have hstring : Unaware .previewing (string text) := unaware_quoted (Or.inr ⟨_, rfl, h⟩)
  refine (unaware_configured Settings.translation).bind fun translation => ?_
  cases translation.mode <;> grind

theorem unaware_writeLabelOrNull {label : Option String}
    (h : ∀ text, label = some text → (utf8 text).length ≤ Writer.previewLimit) (number : Nat) :
    Unaware .previewing (writeLabelOrNull label number) := by
  cases label with
  | none => exact unaware_source _
  | some text => exact unaware_writeLabel (h text rfl) number

@[grind ←] theorem unaware_writeImage (image : String) {resource : Resource}
    (h : resource.content.length ≤ Writer.previewLimit) :
    Unaware .previewing (writeImage image resource) := by
  have harray : Unaware .previewing (initializer (some resource.content)) :=
    unaware_initializer (Or.inr ⟨_, rfl, h⟩)
  unfold writeImage
  grind

variable {node}

theorem unaware_writeSetters (h : node.Short) : Unaware .previewing (writeSetters node) := by
  unfold writeSetters
  split
  · next className name label tooltip callback image x y width height hbody =>
    have htooltip : ∀ text, tooltip = some text → (utf8 text).length ≤ Writer.previewLimit := by
      simpa [hbody, ItemBody.tooltip?] using h.tooltip
    grind
  · exact .pure ()

theorem unaware_writeWidgetSetup (h : node.Short) :
    Unaware .previewing (writeWidgetSetup node) := by
  unfold writeWidgetSetup
  split
  · next className name _ _ _ image _ _ _ _ hbody =>
    have himage : ∀ name resource, image = some name → node.resource = some resource →
        resource.content.length ≤ Writer.previewLimit := by
      intro name resource himage hresource
      refine h.image name resource ?_
      rw [shown?, hbody, hresource, himage]
      rfl
    grind
  · exact .pure ()

theorem unaware_usesLocal (h : node.Short) : Unaware .previewing (usesLocal node) := by
  have hsetters := unaware_writeSetters h
  unfold usesLocal
  grind

theorem unaware_writeWidgetOpening (h : node.Short) :
    Unaware .previewing (writeWidgetOpening node) := by
  -- The statements are tried in a dry run before they are written.
  have hsetters := unaware_writeSetters h
  have hlocal := unaware_usesLocal h
  unfold writeWidgetOpening
  split
  · next className name label _ _ _ _ _ _ _ hbody =>
    have hlabel : ∀ text, label = some text → (utf8 text).length ≤ Writer.previewLimit := by
      simpa [hbody, ItemBody.label?] using h.label
    have hwritten := unaware_writeLabelOrNull hlabel node.labelNumber
    refine (Unaware.forSome fun name _ => ?_).bind fun _ => ?_
    · grind
    refine hlocal.bind fun _ => unaware_indent.bind fun _ => ?_
    grind
  · exact .pure ()

variable (node)

@[grind ←] theorem unaware_writeWidgetClosing :
    Unaware .previewing (writeWidgetClosing node) := by
  unfold writeWidgetClosing
  split <;> grind

@[grind ←] theorem unaware_writeComment (text : String) (inSource inHeader : Bool) :
    Unaware .previewing (writeComment text inSource inHeader) := by
  unfold writeComment
  grind

@[grind ←] theorem unaware_writeDeclaration (scope : NodeScope) (text : String)
    (visibility : Visibility) : Unaware .previewing (writeDeclaration scope text visibility) := by
  unfold writeDeclaration
  cases scope <;> grind

@[grind ←] theorem unaware_memberOf : Unaware .previewing (memberOf node) := by
  unfold memberOf
  grind

@[grind ←] theorem unaware_writeFunctionHead (name returnType : String)
    (visibility : Visibility) :
    Unaware .previewing (writeFunctionHead node name returnType visibility) := by
  unfold writeFunctionHead
  refine (unaware_memberOf node).bind fun owner => ?_
  cases owner <;> grind

@[grind ←] theorem unaware_writeFunctionOpening (name returnType : String)
    (visibility : Visibility) :
    Unaware .previewing (writeFunctionOpening node name returnType visibility) := by
  unfold writeFunctionOpening
  grind

@[grind ←] theorem unaware_writeClassOpening (name base : String) :
    Unaware .previewing (writeClassOpening node name base) := by
  unfold writeClassOpening
  grind

variable {node}

theorem unaware_writeMenuItem {label : String}
    (h : (utf8 label).length ≤ Writer.previewLimit) (shortcut : Option String) :
    Unaware .previewing (writeMenuItem node label shortcut) := by
  unfold writeMenuItem
  grind

theorem unaware_writeData (h : ∃ resource, node.resource = some resource ∧
      resource.content.length ≤ Writer.previewLimit) (name : String) (format : DataFormat)
    (visibility : Visibility) : Unaware .previewing (writeData node name format visibility) := by
  obtain ⟨resource, hresource, hshort⟩ := h
  have hquoted : Unaware .previewing (quoted (some resource.content)) :=
    unaware_quoted (Or.inr ⟨_, rfl, hshort⟩)
  have harray : Unaware .previewing (initializer (some resource.content)) :=
    unaware_initializer (Or.inr ⟨_, rfl, hshort⟩)
  unfold writeData writeDataValue
  rw [hresource]
  -- The declarator does not depend on the mode, and the literal is short in both formats.
  refine Unaware.bind ?_ fun _ => unaware_source _
  cases format with
  | binary =>
    refine (Unaware.onlyIf (unaware_header _) _).bind fun _ => ?_
    exact (unaware_source _).bind fun _ => harray
  | text =>
    refine (Unaware.onlyIf (unaware_header _) _).bind fun _ => ?_
    exact (unaware_source _).bind fun _ => hquoted

theorem unaware_writeSetup (h : node.Short) : Unaware .previewing (writeSetup node) := by
  have hwidget := unaware_writeWidgetSetup h
  unfold writeSetup
  split <;> grind

theorem unaware_writeOpening (h : node.Short) : Unaware .previewing (writeOpening node) := by
  have hwidget := unaware_writeWidgetOpening h
  unfold writeOpening
  cases hbody : node.body with
  | menuItem label shortcut =>
    exact unaware_writeMenuItem (h.label label (by rw [hbody]; rfl)) shortcut
  | data name resource format visibility =>
    exact unaware_writeData (h.data (by rw [kind, hbody]; rfl)) name format visibility
  | _ => grind

theorem unaware_writeClosing : Unaware .previewing (writeClosing node) := by
  unfold writeClosing
  cases node.body <;> grind

theorem unaware_writeNode (h : node.Short) (phase : Phase) :
    Unaware .previewing (Generation.writeNode phase node) := by
  cases phase with
  | setup => exact unaware_writeSetup h
  | opening | framing => exact unaware_writeOpening h
  | closing => exact unaware_writeClosing

end Node

namespace Prologue

/-! ## 2. The prologue -/

@[grind ←] theorem unaware_writeInclude (header : String) :
    Unaware .previewing (writeInclude header) := by
  unfold writeInclude
  grind

@[grind ←] theorem unaware_writeFallback (name definition : String) :
    Unaware .previewing (writeFallback name definition) := by
  unfold writeFallback
  grind

@[grind ←] theorem unaware_writeCatalog (settings : Settings) :
    Unaware .previewing (writeCatalog settings) := by
  unfold writeCatalog
  grind

@[grind ←] theorem unaware_openCondition (conditional : String) :
    Unaware .previewing (openCondition conditional) := by
  unfold openCondition
  grind

@[grind ←] theorem unaware_writeFallbacks (translation : Translation) :
    Unaware .previewing (writeFallbacks translation) := by
  unfold writeFallbacks
  cases translation.mode <;> grind

@[grind ←] theorem unaware_closeCondition (translation : Translation) :
    Unaware .previewing (closeCondition translation) := by
  unfold closeCondition
  grind

@[grind ←] theorem unaware_writeStaticFallback (function : String) :
    Unaware .previewing (writeStaticFallback function) := by
  unfold writeStaticFallback
  grind

@[grind ←] theorem unaware_writeTranslation (settings : Settings) :
    Unaware .previewing (writeTranslation settings) := by
  unfold writeTranslation
  grind

theorem unaware_write (headerName : String) (includeName : Option String) :
    Unaware .previewing (write headerName includeName) := by
  refine (unaware_ask fun _ => rfl).bind fun settings => ?_
  refine (unaware_header _).bind fun _ => (unaware_source _).bind fun _ => ?_
  refine (unaware_header _).bind fun _ => (unaware_header _).bind fun _ => ?_
  grind

end Prologue

namespace Generation

/-! ## 3. Runs -/

theorem unaware_stepCode (names : HeaderNames) {step : Step Node}
    (h : ∀ phase node, step = .write phase node → node.Short) :
    Unaware .previewing (stepCode names step) := by
  cases step with
  | write phase node => exact Node.unaware_writeNode (h phase node rfl) phase
  | prologue => exact Prologue.unaware_write names.file names.included
  | endClass => exact (unaware_header _).bind fun _ => unaware_leaveClass
  | endGuard => exact unaware_header _

end Generation

end FormWeave
