import FormWeave.Proofs.Frames

/-!
# What the code of a node leaves alone

The opening code of blocks and widgets indents by one level and their closing code goes back by one;
functions and classes indent to level 1 and go back to level 0. All other code ends at the
indentation it starts at. Only the opening code of a class enters a class.
-/

namespace FormWeave

open Emit

namespace Node

variable (node : Node)

/-! ## 1. Pieces of code -/

@[grind ←] theorem keeps_callbackName : (callbackName node).Keeps := by
  unfold callbackName
  split <;> exact keeps_uniqueId _ _ _ _

@[grind ←] theorem keeps_callbackExpression (callback : String) :
    (callbackExpression node callback).Keeps := by
  unfold callbackExpression
  grind

@[grind ←] theorem keeps_callbackOrNull : (callbackOrNull node).Keeps := by
  unfold callbackOrNull
  grind

@[grind ←] theorem keeps_imageVariable (image : String) : (imageVariable image).Keeps :=
  keeps_uniqueId _ _ _ _

@[grind ←] theorem keeps_writeCallbackFunction (callback target : String) (kind : TagKind) :
    (writeCallbackFunction node callback target kind).Keeps := by
  have hline : Silent ("extern void " ++ callback ++ "(" ++ target ++ "*, void*);") :=
    silent_append (by decide) _
  unfold writeCallbackFunction
  grind

@[grind ←] theorem keeps_writeLabel (text : String) (number : Nat) :
    (writeLabel text number).Keeps := by
  refine (keeps_ask (·.settings.translation)).bind fun translation => ?_
  cases translation.mode <;> grind

@[grind ←] theorem keeps_writeLabelOrNull (label : Option String) (number : Nat) :
    (writeLabelOrNull label number).Keeps := by
  cases label with
  | none => exact keeps_source _
  | some label => exact keeps_writeLabel label number

@[grind ←] theorem keeps_writeImage (image : String) (resource : Resource) :
    (writeImage image resource).Keeps := by
  have hline : Silent "#include <FL/Fl_PNG_Image.H>" := by decide
  unfold writeImage
  grind

@[grind ←] theorem keeps_writeSetters : (writeSetters node).Keeps := by
  unfold writeSetters
  split <;> grind

@[grind ←] theorem keeps_usesLocal : (usesLocal node).Keeps := by
  unfold usesLocal
  grind

theorem keeps_writeWidgetSetup : (writeWidgetSetup node).Keeps := by
  have hsilent : ∀ className name : String, Silent ("extern " ++ className ++ " *" ++ name ++ ";\n") :=
    fun _ _ => silent_append (by decide) _
  unfold writeWidgetSetup
  split <;> grind

theorem keeps_writeComment (text : String) (inSource inHeader : Bool) :
    (writeComment text inSource inHeader).Keeps := by
  refine .forM (fun line => ?_) _
  refine Keeps.bind (.onlyIf ?_ _) fun _ => .onlyIf (keeps_header ?_) _
  · exact keeps_indent.bind fun _ => keeps_source _
  · exact (Headed.append (.append (.append (by decide) _) _) _).silent

theorem keeps_writeDeclaration (scope : NodeScope) (text : String) (visibility : Visibility) :
    (writeDeclaration scope text visibility).Keeps := by
  unfold writeDeclaration
  dsimp only
  split
  · exact .pure _
  split
  · next hhash =>
    refine Keeps.bind (.discard ?_) fun _ => .pure _
    split
    · exact keeps_sourceOnce _
    · exact keeps_headerOnce (headed_of_hash hhash).silent
  cases scope with
  | member =>
    refine (keeps_access _).bind fun _ => keeps_header ?_
    exact (Headed.append (.append (.append (.append (by decide) _) _) _) _).silent
  | inner => exact keeps_indent.bind fun _ => keeps_sourceStatement _ _ _
  | file =>
    dsimp only
    split
    · exact keeps_sourceStatement _ _ _
    · refine Keeps.bind (keeps_header ?_) fun _ => keeps_sourceStatement _ _ _
      -- There is no indentation in front of the text.
      rw [Writer.statementLine, String.empty_append]
      exact (Headed.append (.append (.append (.append (by decide) _) _) _) _).silent

@[grind ←] theorem keeps_memberOf : (memberOf node).Keeps := by
  unfold memberOf
  grind

theorem keeps_writeFunctionHead (name returnType : String) (visibility : Visibility) :
    (writeFunctionHead node name returnType visibility).Keeps := by
  refine (keeps_memberOf node).bind fun owner => ?_
  cases owner with
  | some owner =>
    refine (keeps_access _).bind fun _ => (keeps_header ?_).bind fun _ => keeps_source _
    exact silent_append (by decide) _
  | none =>
    dsimp only
    split
    · exact keeps_source _
    · exact (keeps_header (silent_append (by decide) _)).bind fun _ => keeps_source _

theorem keeps_writeMenuItem (label : String) (shortcut : Option String) :
    (writeMenuItem node label shortcut).Keeps := by
  unfold writeMenuItem
  grind

theorem keeps_writeDataValue (name : String) (format : DataFormat) (shared : Bool)
    (content : Option Bytes) : (writeDataValue name format shared content).Keeps := by
  have hheader : ∀ front : String, (onlyIf shared (header (front ++ ";\n"))).Keeps :=
    fun _ => .onlyIf (keeps_header (silent_append (by decide) _)) _
  unfold writeDataValue
  cases format with
  | binary => exact (hheader _).bind fun _ => (keeps_source _).bind fun _ => keeps_initializer _
  | text => exact (hheader _).bind fun _ => (keeps_source _).bind fun _ => keeps_quoted _

theorem keeps_writeData (name : String) (format : DataFormat) (visibility : Visibility) :
    (writeData node name format visibility).Keeps :=
  (keeps_writeDataValue _ _ _ _).bind fun _ => keeps_source _

/-! ## 2. The three occasions -/

def shift (kind : NodeKind) : Phase → Int32 → Int32
  | .setup, depth => depth
  | .opening, depth | .framing, depth =>
    match kind with
    | .codeBlock | .widget => depth + 1
    | .function | .widgetClass => 1
    | .comment | .code | .declaration | .menuItem | .data => depth
  | .closing, depth =>
    match kind with
    | .codeBlock | .widget => depth - 1
    | .function | .widgetClass => 0
    | .comment | .code | .declaration | .menuItem | .data => depth

theorem keeps_writeSetup : (writeSetup node).Keeps := by
  unfold writeSetup
  split
  · exact keeps_writeWidgetSetup node
  · exact .forSome (fun _ => keeps_writeCallbackFunction node _ _ _) _
  · exact .pure _

/-- The opening code of a widget up to the setup statements. -/
def writeConstruction (node : Node) : Emit Unit := do
  let .widget className name label _ _ _ x y w h := node.body | return
  forSome (name.filter fun _ => node.scope == .member) fun name => do
    access .pub
    header (Writer.indentAt 1 ++ className ++ " *" ++ name ++ ";\n")
  let usesLocal ← usesLocal node
  source ((← indent) ++ "\x7b ")
  let declared := if usesLocal then className ++ "* o = " else ""
  source (declared ++ name.elim "" (· ++ " = ") ++ "new " ++ className ++ "(")
  source (toString x ++ ", " ++ toString y ++ ", " ++ toString w ++ ", " ++ toString h ++ ", ")
  writeLabelOrNull label node.labelNumber
  source ");\n"
  indentMore

theorem writeWidgetOpening_eq :
    writeWidgetOpening node = writeConstruction node >>= fun _ => writeSetters node := by
  unfold writeWidgetOpening writeConstruction
  cases hbody : node.body with
  | widget _ name =>
    simp only [bind_assoc]
    cases name <;> rfl
  | _ =>
    unfold writeSetters
    rw [hbody]
    rfl

theorem moves_writeConstruction (h : node.body.kind = .widget) :
    (writeConstruction node).Moves (· + 1) := by
  unfold writeConstruction
  split
  · refine (Keeps.forSome (fun name => ?_) _).then fun _ => ?_
    · exact (keeps_access _).bind fun _ => keeps_header (silent_append (by decide) _)
    refine (keeps_usesLocal node).then fun _ => keeps_indent.then fun _ => ?_
    refine (keeps_source _).then fun _ => (keeps_source _).then fun _ => ?_
    refine (keeps_source _).then fun _ => (keeps_writeLabelOrNull _ _).then fun _ => ?_
    exact (keeps_source _).then fun _ => moves_indentMore
  · next hother =>
    cases hbody : node.body with
    | widget => exact absurd hbody (hother _ _ _ _ _ _ _ _ _ _)
    | _ => rw [hbody] at h; cases h

theorem moves_writeWidgetOpening (h : node.body.kind = .widget) :
    (writeWidgetOpening node).Moves (· + 1) := by
  rw [writeWidgetOpening_eq]
  exact (moves_writeConstruction node h).bind fun _ => keeps_writeSetters node

theorem moves_writeWidgetClosing (h : node.body.kind = .widget) :
    (writeWidgetClosing node).Moves (· - 1) := by
  unfold writeWidgetClosing
  split
  · refine Keeps.then (.onlyIf (keeps_indent.bind fun _ => keeps_source _) _) fun _ => ?_
    exact moves_indentLess.bind fun _ => keeps_indent.bind fun _ => keeps_source _
  · next hother =>
    cases hbody : node.body with
    | widget => exact absurd hbody (hother _ _ _ _ _ _ _ _ _ _)
    | _ => rw [hbody] at h; cases h

theorem moves_writeOpening (h : node.kind ≠ .widgetClass) :
    (writeOpening node).Moves (shift node.kind .opening) := by
  unfold Node.kind at h ⊢
  unfold writeOpening
  cases hbody : node.body with
  | comment text inSource inHeader => exact keeps_writeComment _ _ _
  | code code =>
    exact (keeps_tag _ _).bind fun _ => (keeps_indented _ _ _).bind fun _ => keeps_tag _ _
  | codeBlock opening closing =>
    exact keeps_indent.then fun _ => (keeps_source _).then fun _ => moves_indentMore
  | declaration text visibility => exact keeps_writeDeclaration _ _ _
  | function name returnType visibility =>
    refine (keeps_writeFunctionHead node _ _ _).then fun _ => ?_
    exact (keeps_tag _ _).then fun _ => moves_setIndentation 1
  | widgetClass => rw [hbody] at h; exact absurd rfl h
  | widget => exact moves_writeWidgetOpening node (by rw [hbody]; rfl)
  | menuItem label shortcut callback => exact keeps_writeMenuItem node _ _
  | data name resource format visibility => exact keeps_writeData node _ _ _

theorem moves_writeClosing : (writeClosing node).Moves (shift node.kind .closing) := by
  unfold Node.kind writeClosing
  cases hbody : node.body with
  | codeBlock opening closing =>
    exact moves_indentLess.bind fun _ => keeps_indent.bind fun _ => keeps_source _
  | function =>
    refine (keeps_tag _ _).then fun _ => ?_
    exact (moves_setIndentation 0).bind fun _ => keeps_source _
  | widgetClass =>
    refine keeps_indent.then fun _ => (keeps_source _).then fun _ => (keeps_tag _ _).then fun _ => ?_
    exact (moves_setIndentation 0).bind fun _ => keeps_source _
  | widget => exact moves_writeWidgetClosing node (by rw [hbody]; rfl)
  | _ => exact Keeps.pure _

/-- Only the opening code of a class leaves the class that is being declared. -/
theorem moves_writeNode (phase : Phase)
    (h : node.kind = .widgetClass → phase = .setup ∨ phase = .closing) :
    (Generation.writeNode phase node).Moves (shift node.kind phase) := by
  cases phase with
  | setup => exact keeps_writeSetup node
  | opening => exact node.moves_writeOpening fun hclass => by cases h hclass <;> contradiction
  | closing => exact node.moves_writeClosing
  | framing => exact node.moves_writeOpening fun hclass => by cases h hclass <;> contradiction

def classHead (name base : String) : String :=
  "\nclass " ++ name ++ " : public " ++ base ++ " \x7b\n"

theorem silent_classHead (name base : String) : Silent (classHead name base) :=
  (Headed.append (.append (.append (.append (by decide) _) _) _) _).silent

/-- The opening code of a class enters it, with private access until a level is written. -/
theorem run_classOpening {name base : String} (h : node.body = .widgetClass name base) {w : Writer}
    {front : List Chunk} (hhead : w.Kept front (w.writeHeader (classHead name base))) :
    ∃ w' back, writeOpening node w = (.ok (), w') ∧ w.Wrote (front ++ back) w' ∧
      w'.indentation = 1 ∧
      w'.classScope = some (ClassScope.behind ⟨name, some .priv⟩ back) := by
  let inside : Emit Unit := do
    access .pub
    header (Writer.indentAt 1 ++ name ++ "(int X, int Y, int W, int H, const char *L = 0);\n")
    source ("\n" ++ name ++ "::" ++ name ++ "(int X, int Y, int W, int H, const char *L)\n")
    source (Writer.indentAt 1 ++ ": " ++ base ++ "(X, Y, W, H, L) \x7b\n")
    tag .generic node.id
    setIndentation 1
  have hinside : inside.Moves fun _ => 1 := by
    refine (keeps_access _).then fun _ => (keeps_header (silent_append (by decide) _)).then fun _ => ?_
    refine (keeps_source _).then fun _ => (keeps_source _).then fun _ => ?_
    exact (keeps_tag _ _).then fun _ => moves_setIndentation 1
  -- The class is entered right behind its head.
  obtain ⟨_, w', back, hrun, hmoved⟩ :=
    hinside ((w.writeHeader (classHead name base)).enterClass name (some .priv))
  refine ⟨w', back, ?_, hhead.toWrote.trans ?_, hmoved.indentation, hmoved.classScope⟩
  · unfold writeOpening
    rw [h]
    exact hrun
  · exact ⟨hmoved.settings, hmoved.preview, hmoved.dryRun, hmoved.identifiers, hmoved.output⟩

end Node

/-! ## 3. The prologue -/

namespace Prologue

@[grind ←] theorem keeps_writeInclude (header : String) : (writeInclude header).Keeps := by
  unfold writeInclude
  grind

@[grind ←] theorem keeps_writeFallback (name definition : String) :
    (writeFallback name definition).Keeps := by
  unfold writeFallback
  grind

@[grind ←] theorem keeps_writeCatalog (settings : Settings) : (writeCatalog settings).Keeps := by
  unfold writeCatalog
  grind

@[grind ←] theorem keeps_writeFallbacks (translation : Translation) :
    (writeFallbacks translation).Keeps := by
  unfold writeFallbacks
  cases translation.mode <;> grind

@[grind ←] theorem keeps_writeStaticFallback (function : String) :
    (writeStaticFallback function).Keeps := by
  unfold writeStaticFallback
  grind

/-- The condition on the macro is closed at the level it was opened at. -/
theorem keeps_writeTranslation (settings : Settings) : (writeTranslation settings).Keeps := by
  let inside : Emit Unit := do
    writeInclude settings.translation.header
    onlyIf (settings.translation.mode == .posix) (writeCatalog settings)
  have hinside : inside.Keeps := by grind
  have hclose : (closeCondition settings.translation).Moves (· - 1) := by
    refine (keeps_source _).then fun _ => (keeps_writeFallbacks _).then fun _ => ?_
    exact moves_indentLess.bind fun _ => keeps_source _
  have hopen : (openCondition settings.translation.conditional).Moves (· + 1) :=
    (keeps_source _).then fun _ => moves_indentMore
  unfold writeTranslation
  dsimp only
  split
  · exact .pure _
  cases !settings.translation.conditional.isEmpty with
  | false => grind [onlyIf]
  | true =>
    have hlevel : (fun depth : Int32 => depth + 1 - 1) = fun depth => depth := by
      funext depth
      exact Int32.add_sub_cancel depth 1
    have hguarded := hopen.bind fun _ => (keeps_writeInclude settings.translation.header).then
      fun _ => (Keeps.onlyIf (keeps_writeCatalog settings)
        (settings.translation.mode == .posix)).then fun _ => hclose.bind fun _ =>
          Keeps.onlyIf (keeps_writeStaticFallback settings.translation.gnuStaticFunction)
            (settings.translation.mode == .gnu && !settings.translation.gnuStaticFunction.isEmpty)
    rw [hlevel] at hguarded
    exact hguarded

theorem keeps_write (headerName : String) (includeName : Option String) :
    (write headerName includeName).Keeps := by
  refine (keeps_ask _).bind fun settings => ?_
  refine (keeps_header (Headed.append (.append (by decide) _) _).silent).bind fun _ => ?_
  refine (keeps_source _).bind fun _ => ?_
  refine (keeps_header (Headed.append (.append (by decide) _) _).silent).bind fun _ => ?_
  refine (keeps_header (Headed.append (.append (by decide) _) _).silent).bind fun _ => ?_
  refine Keeps.bind (.onlyIf (.discard (keeps_headerOnce ?_)) _) fun _ => ?_
  · exact (Headed.append (by decide) _).silent
  exact (Keeps.forSome (fun _ => keeps_source _) _).bind fun _ => keeps_writeTranslation settings

end Prologue

end FormWeave
