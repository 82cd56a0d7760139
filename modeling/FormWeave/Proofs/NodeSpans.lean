import FormWeave.Proofs.Spelling

/-!
# The source of widgets and menu items

The setup, opening and closing code of widgets and menu items, text by text, with the identifiers of
callback functions and images in their places. A callback is referred to by the name of the function
that its setup code defines, and an image by the name of the array with its data.
-/

namespace FormWeave

open Emit

namespace Node

variable (context : Context) (names : Names) (node : Node)

/-! ## 1. Names -/

def callbackHints : Option String × Option String :=
  match node.body with
  | .widget _ name label .. => (name, label)
  | .menuItem label .. => (none, some label)
  | _ => (none, none)

def callbackIn : String :=
  (names.allocate (.node node.id) "cb" node.callbackHints.1 node.callbackHints.2).1

def imageIn (image : String) : String :=
  (names.allocate (.resource image) "idata" (some image) none).1

/-- The callback of a node, if it is the code of a function. -/
def inlineCallback? : Option String := node.callback?.filter fun text => !isFunctionName text

theorem callbackName_eq : callbackName node =
    uniqueId (.node node.id) "cb" node.callbackHints.1 node.callbackHints.2 := by
  unfold callbackName callbackHints
  cases node.body <;> rfl

/-! ## 2. Parts of the code -/

def callbackTarget : String :=
  match node.body with
  | .widget className .. => className
  | _ => "Fl_Menu_"

def callbackTag : TagKind :=
  match node.body with
  | .widget .. => .widgetCallback
  | _ => .menuCallback

def callbackFunction (callback : String) : List Span :=
  spell ("\nstatic void " ++ node.callbackIn names ++ "(" ++ node.callbackTarget ++
    "* o, void* v) \x7b\n") ++ (context.tag .generic node.id ++
      (context.indented callback 1 (some '\n') ++
        (context.tag node.callbackTag node.id ++ spell "\x7d\n")))

/-- The setup code for a callback: nothing if it names a function that is defined elsewhere. -/
def callbackSetup (callback : String) : List Span :=
  if isFunctionName callback then [] else node.callbackFunction context names callback

def callbackReference (callback : String) : String :=
  if isFunctionName callback then callback else node.callbackIn names

def translated (text : String) (number : Nat) : List Span :=
  let translation := context.settings.translation
  match translation.mode with
  | .none => context.quoted text
  | .gnu => spell (translation.gnuFunction ++ "(") ++ (context.quoted text ++ spell ")")
  | .posix =>
    let catalog := if translation.posixFile.isEmpty then "_catalog" else translation.posixFile
    spell ("catgets(" ++ catalog ++ "," ++ translation.posixSet ++ "," ++ toString number ++ ",") ++
      (context.quoted text ++ spell ")")

def imageArray (image : String) (resource : Resource) : List Span :=
  spell ("static const unsigned char " ++ imageIn names image ++ "[] =\n") ++
    (context.initializer resource.content ++ spell ";\n")

def setters (tooltip : Option String) : List Span :=
  (optionally tooltip fun text => spell (context.indent ++ "o->tooltip(") ++
    (translated context text node.tooltipNumber ++ spell ");\n")) ++
  ((optionally node.shown? fun shown => spell (context.indent ++
    "o->image(new Fl_PNG_Image(\"" ++ shown.1 ++ "\", " ++ imageIn names shown.1 ++ ", " ++
      toString shown.2.content.length ++ "));\n")) ++
  optionally node.callback? fun callback => spell (context.indent ++
    "o->callback((Fl_Callback*)" ++ node.callbackReference names callback ++ ");\n"))

/-! ## 3. The code of widgets and menu items -/

/-- The setup code of a node. An image is there already if it is `present`. -/
def setupSpans (present : String → Bool) : List Span :=
  match node.body with
  | .widget className name .. =>
    (optionally (name.filter fun _ => node.scope != .member) fun name =>
      spell (className ++ " *" ++ name ++ "=(" ++ className ++ " *)0;\n")) ++
    ((optionally node.shown? fun shown =>
      if present shown.1 then [] else imageArray context names shown.1 shown.2) ++
    optionally node.callback? (node.callbackSetup context names))
  | .menuItem .. => optionally node.callback? (node.callbackSetup context names)
  | _ => []

def constructionSpans (declared : Bool) : List Span :=
  match node.body with
  | .widget className name label _ _ _ x y w h =>
    spell (context.indent ++ "\x7b ") ++
    (spell ((if declared then className ++ "* o = " else "") ++
      (name.elim "" (· ++ " = ")) ++ "new " ++ className ++ "(") ++
    (spell (toString x ++ ", " ++ toString y ++ ", " ++ toString w ++ ", " ++ toString h ++ ", ") ++
    (label.elim (spell "0") (translated context · node.labelNumber) ++ spell ");\n")))
  | _ => []

/-- The opening code of a node, with the local of a widget `declared` or not. -/
def openingSpans (declared : Bool) : List Span :=
  match node.body with
  | .widget className name label tooltip _ _ x y w h =>
    spell (context.indent ++ "\x7b ") ++
    (spell ((if declared then className ++ "* o = " else "") ++
      (name.elim "" (· ++ " = ")) ++ "new " ++ className ++ "(") ++
    (spell (toString x ++ ", " ++ toString y ++ ", " ++ toString w ++ ", " ++ toString h ++ ", ") ++
    (label.elim (spell "0") (translated context · node.labelNumber) ++
    (spell ");\n" ++ node.setters context.deeper names tooltip))))
  | .menuItem label shortcut _ =>
    spell (context.indent ++ "o->add(") ++ (translated context label node.labelNumber ++
      spell (", " ++ shortcut.getD "0" ++ ", (Fl_Callback*)" ++
        node.callback?.elim "0" (node.callbackReference names) ++ ");\n"))
  | _ => []

def closingSpans : List Span :=
  match node.body with
  | .widget className name .. =>
    (if node.hasChildWidgets then spell (context.indent ++ "o->end();\n") else []) ++
      spell (context.shallower.indent ++ "\x7d // " ++ className ++ "* " ++ name.getD "o" ++ "\n")
  | _ => []

def spansIn (phase : Phase) (present : String → Bool) (declared : Bool) : List Span :=
  match phase with
  | .setup => node.setupSpans context names present
  | .opening | .framing => node.openingSpans context names declared
  | .closing => node.closingSpans context

variable {context names node}

/-- The function of a callback ends the setup code. -/
theorem callbackFunction_suffix {callback : String} (h : node.inlineCallback? = some callback)
    (present : String → Bool) :
    node.callbackFunction context names callback <:+ node.setupSpans context names present := by
  obtain ⟨hcallback, hcode⟩ := Option.filter_eq_some_iff.1 h
  have hsetup : node.callbackSetup context names callback =
      node.callbackFunction context names callback := if_neg (by simpa using hcode)
  unfold setupSpans
  cases hbody : node.body with
  | widget =>
    simp only [hcallback, optionally_some, hsetup]
    exact (List.suffix_append _ _).trans (List.suffix_append _ _)
  | menuItem =>
    simp only [hcallback, optionally_some, hsetup]
    exact List.suffix_rfl
  | _ => simp [callback?, hbody, ItemBody.callback?] at hcallback

/-- The array of an image that is not present is a part of the setup code. -/
theorem imageArray_infix {image : String} {resource : Resource}
    (h : node.shown? = some (image, resource)) {present : String → Bool}
    (hnew : present image = false) :
    imageArray context names image resource <:+: node.setupSpans context names present := by
  have hshown := h
  unfold shown? at hshown
  unfold setupSpans
  cases hbody : node.body with
  | widget className name =>
    simp only [h, optionally_some, hnew, Bool.false_eq_true, if_false]
    exact ⟨_, _, List.append_assoc _ _ _⟩
  | _ => simp [hbody] at hshown

/-! ## 4. Spelling the parts -/

theorem spells_writeCallbackFunction (callback : String) :
    Spells context (writeCallbackFunction node callback node.callbackTarget node.callbackTag)
      fun names => node.callbackSetup context names callback := by
  unfold writeCallbackFunction callbackSetup
  split
  · exact spells_headerOnce _
  · rw [callbackName_eq]
    refine .name (fun name _ => spell ("\nstatic void " ++ name ++ "(" ++ node.callbackTarget ++
      "* o, void* v) \x7b\n") ++ (context.tag .generic node.id ++
        (context.indented callback 1 (some '\n') ++
          (context.tag node.callbackTag node.id ++ spell "\x7d\n")))) fun name => ?_
    refine .then (keeps_source _) (spells_source _) ?_
    refine .then (keeps_tag _ _) (spells_tag _ _) ?_
    refine .then (keeps_indented _ _ _) (spells_indented _ _ _) ?_
    exact .then (keeps_tag _ _) (spells_tag _ _) (spells_source _)

/-- The callback is the last part of the setup code. -/
theorem spells_callback :
    Spells context (forSome node.callback? fun callback =>
        writeCallbackFunction node callback node.callbackTarget node.callbackTag)
      fun names => optionally node.callback? (node.callbackSetup context names) :=
  .forSome fun callback _ => spells_writeCallbackFunction callback

theorem spells_writeLabel (text : String) (number : Nat) :
    Spells context (writeLabel text number) fun _ => translated context text number := by
  refine .ask context.settings.translation (fun w hw => by rw [hw.settings]) ?_
  unfold translated
  dsimp only
  cases context.settings.translation.mode with
  | none => exact spells_string text
  | gnu | posix =>
    refine .then (keeps_source _) (spells_source _) ?_
    exact .then (keeps_string _) (spells_string _) (spells_source _)

theorem spells_writeLabelOrNull (label : Option String) (number : Nat) :
    Spells context (writeLabelOrNull label number)
      fun _ => label.elim (spell "0") (translated context · number) := by
  cases label with
  | none => exact spells_source _
  | some text => exact spells_writeLabel text number

/-- Code that goes on with how a callback is referred to. -/
theorem spells_callbackExpression {callback : String} {next : String → Emit Unit}
    (text : String → List Span) (hnext : ∀ name, Spells context (next name) fun _ => text name) :
    Spells context (callbackExpression node callback >>= next)
      fun names => text (node.callbackReference names callback) := by
  unfold callbackExpression callbackReference
  split
  · exact hnext callback
  · rw [callbackName_eq]
    exact .name (fun name _ => text name) hnext

theorem spells_callbackOrNull {next : String → Emit Unit} (text : String → List Span)
    (hnext : ∀ name, Spells context (next name) fun _ => text name) :
    Spells context (callbackOrNull node >>= next)
      fun names => text (node.callback?.elim "0" (node.callbackReference names)) := by
  unfold callbackOrNull
  cases node.callback? with
  | none => exact hnext "0"
  | some callback =>
    dsimp only [Option.elim_some]
    exact spells_callbackExpression text hnext

/-- What is done for an image and a resource, if there are both, is done for a shown image. -/
theorem forSome_shown {className : String} {name label tooltip callback image : Option String}
    {x y w h : Int}
    (hbody : node.body = .widget className name label tooltip callback image x y w h)
    (emit : String → Resource → Emit Unit) :
    (forSome image fun image => forSome node.resource fun resource => emit image resource) =
      forSome node.shown? fun shown => emit shown.1 shown.2 := by
  rw [shown?, hbody]
  cases image with
  | none => rfl
  | some image => cases node.resource <;> rfl

theorem spells_writeSetters {className : String} {name label tooltip callback image : Option String}
    {x y w h : Int}
    (hbody : node.body = .widget className name label tooltip callback image x y w h) :
    Spells context (writeSetters node) fun names => node.setters context names tooltip := by
  unfold writeSetters
  rw [hbody]
  dsimp only
  rw [forSome_shown hbody]
  refine .then (.forSome (fun text => ?_) _) (.forSome fun text _ => ?_) ?_
  · exact keeps_indent.bind fun _ => (keeps_source _).bind fun _ =>
      (keeps_writeLabel _ _).bind fun _ => keeps_source _
  · refine .indent (.then (keeps_source _) (spells_source _) ?_)
    exact .then (keeps_writeLabel _ _) (spells_writeLabel _ _) (spells_source _)
  refine .then (.forSome (fun shown => ?_) _) (.forSome fun shown _ => ?_) ?_
  · exact (keeps_imageVariable _).bind fun _ => keeps_indent.bind fun _ => keeps_source _
  · exact .name (fun array _ => spell (context.indent ++
      "o->image(new Fl_PNG_Image(\"" ++ shown.1 ++ "\", " ++ array ++ ", " ++
        toString shown.2.content.length ++ "));\n")) fun array => .indent (spells_source _)
  refine .forSome fun callback _ => ?_
  exact spells_callbackExpression (fun expression => spell (context.indent ++
    "o->callback((Fl_Callback*)" ++ expression ++ ");\n")) fun expression =>
      .indent (spells_source _)

/-- The array is written unless the image was seen before. -/
theorem spells_writeImage {w : Writer} (hw : w.In context) {image : String} {present : Bool}
    (hpresent : ObjectId.resource image ∈ w.objects.members ↔ present = true)
    (resource : Resource) :
    SpellsAt w (writeImage image resource)
      fun names => if present then [] else imageArray context names image resource := by
  have hinclude : (discard (headerOnce "#include <FL/Fl_PNG_Image.H>") : Emit Unit).Keeps :=
    .discard (keeps_headerOnce (by decide))
  refine .skip hw hinclude (spells_headerOnce _ w hw) fun w' hrun hw' => ?_
  -- Neither the include line nor the name adds to the objects that were seen.
  have hseen : ((w'.uniqueId (.resource image) "idata" (some image) none).2.seen
      (.resource image)).1 = present := by
    have hobjects := (Composed.discard (composed_headerOnce
      "#include <FL/Fl_PNG_Image.H>")).objects_unseen w (.resource image)
    rw [hrun] at hobjects
    rw [Bool.eq_iff_iff, Writer.seen_fst, ← hpresent]
    exact hobjects
  refine .name (fun array names => if present then [] else spell ("static const unsigned char " ++
    array ++ "[] =\n") ++ (context.initializer resource.content ++ spell ";\n")) fun array => ?_
  refine .seen ?_
  rw [hseen]
  have hin : ((w'.uniqueId (.resource image) "idata" (some image) none).2.seen
      (.resource image)).2.In context :=
    ((Writer.kept_uniqueId ..).trans (Writer.kept_seen ..)).in hw'
  cases present with
  | true => exact Spells.pure _ hin
  | false =>
    refine Spells.then (keeps_source _) (spells_source _) ?_ _ hin
    exact .then (keeps_initializer _) (spells_initializer _) (spells_source _)

/-! ## 5. Spelling the code -/

theorem spells_writeSetup {w : Writer} (hw : w.In context) {present : String → Bool}
    (hpresent : ∀ image, ObjectId.resource image ∈ w.objects.members ↔ present image = true) :
    SpellsAt w (writeSetup node) fun names => node.setupSpans context names present := by
  have hcallback := @spells_callback context node
  unfold callbackTarget callbackTag at hcallback
  unfold writeSetup setupSpans
  cases hbody : node.body with
  | menuItem =>
    rw [hbody] at hcallback
    exact hcallback w hw
  | widget className name label tooltip callback image x y width height =>
    rw [hbody] at hcallback
    unfold writeWidgetSetup
    rw [hbody]
    dsimp only
    rw [forSome_shown hbody]
    let global? := name.filter fun _ => node.scope != .member
    let writeGlobal (name : String) : Emit Unit := do
      header ("extern " ++ className ++ " *" ++ name ++ ";\n")
      source (className ++ " *" ++ name ++ "=(" ++ className ++ " *)0;\n")
    have hkeeps : (forSome global? writeGlobal).Keeps :=
      .forSome (fun name => (keeps_header (silent_append (by decide) _)).bind fun _ =>
        keeps_source _) _
    have hcomposed : (forSome global? writeGlobal).Composed fun _ => False :=
      .forSome (fun name => (composed_header _).bind fun _ => composed_source _) _
    have hglobal : Spells context (forSome global? writeGlobal)
        fun _ => optionally global? fun name =>
          spell (className ++ " *" ++ name ++ "=(" ++ className ++ " *)0;\n") :=
      .forSome fun name _ => .skip (keeps_header (silent_append (by decide) _)) (spells_header _)
        (spells_source _)
    refine .then hw hkeeps (hglobal w hw) fun w' hrun hw' => ?_
    -- The variable says nothing of images.
    have hpresent' : ∀ image, ObjectId.resource image ∈ w'.objects.members ↔
        present image = true := fun image => by
      have hsame := hcomposed.objects_unseen w (.resource image)
      rw [hrun] at hsame
      exact hsame.trans (hpresent image)
    refine .then hw' (.forSome (fun shown => keeps_writeImage _ _) _) ?_ fun w'' _ hw'' => ?_
    · cases node.shown? with
      | none => exact Spells.pure w' hw'
      | some shown => exact spells_writeImage hw' (hpresent' _) _
    · exact hcallback w'' hw''
  | _ => exact Spells.pure w hw

/-- Trying the statements of a widget writes nothing. -/
theorem output_usesLocal (w : Writer) : (usesLocal node w).2.output = w.output := by
  unfold usesLocal
  split
  · rfl
  · have hcomposed : (writeSetters node).Composed fun _ => True := node.composed_writeSetters
    obtain ⟨a, ha⟩ := hcomposed.dryRun.bind_state (fun a => pure a.2) w
    rw [writesSource, map_eq_pure_bind, ha]
    exact (hcomposed.resetless.untouched rfl).output

/-- Code that writes nothing by itself may be followed by code that depends on its answer. -/
theorem spellsAt_known {α : Type} {emit : Emit α} {next : α → Emit Unit} {w : Writer} {a : α}
    (hanswer : (emit w).1 = .ok a) (hw : w.In context) (hkeeps : emit.Keeps)
    (hsilent : (emit w).2.output = w.output) {text : Names → List Span}
    (hnext : Spells context (next a) text) : SpellsAt w (emit >>= next) text := by
  obtain ⟨a', w', chunks, hrun, hkept⟩ := hkeeps w
  rw [hrun] at hanswer hsilent
  cases hanswer
  obtain ⟨w'', chunks', hrun', hwrote, htext⟩ := hnext w' (hkept.in hw)
  have hnone : chunks = [] := by
    have houtput := hkept.output
    rw [hsilent] at houtput
    exact List.append_cancel_left (houtput.symm.trans (List.append_nil _).symm)
  subst hnone
  exact ⟨w'', chunks', (bind_run hrun).trans hrun', hkept.toWrote.trans hwrote, htext⟩

/-- A member of a class is declared in the header. -/
theorem spells_member (member? : Option String) (className : String) :
    Spells context (forSome member? fun name => do
      access .pub
      header (Writer.indentAt 1 ++ className ++ " *" ++ name ++ ";\n")) fun _ => [] := by
  cases member? with
  | none => exact .pure
  | some name => exact .skip (keeps_access _) (spells_access _) (spells_header _)

/-- The text depends on what was found out about the local. -/
theorem spells_writeConstruction {className : String}
    {name label tooltip callback image : Option String} {x y width height : Int}
    (hbody : node.body = .widget className name label tooltip callback image x y width height)
    {w : Writer} (hw : w.In context) :
    ∃ declared tried, (usesLocal node tried).1 = .ok declared ∧
      SpellsAt w (writeConstruction node) fun _ => node.constructionSpans context declared := by
  have hmember : ∀ member? : Option String, (forSome member? fun name => do
      access .pub
      header (Writer.indentAt 1 ++ className ++ " *" ++ name ++ ";\n")).Keeps :=
    fun member? => .forSome (fun name => (keeps_access _).bind fun _ =>
      keeps_header (silent_append (by decide) _)) _
  have hend : Spells context (source ");\n" >>= fun _ => indentMore) fun _ => spell ");\n" :=
    .then (keeps_source _) (spells_source _) spells_indentMore
  unfold writeConstruction constructionSpans
  rw [hbody]
  obtain ⟨_, w', _, hrun, hkept⟩ := hmember (name.filter fun _ => node.scope == .member) w
  obtain ⟨declared, _, _, hanswer, -⟩ := keeps_usesLocal node w'
  have hdeclared : (usesLocal node w').1 = .ok declared := by rw [hanswer]
  refine ⟨declared, w', hdeclared, ?_⟩
  refine .skip hw (hmember _) (spells_member _ _ w hw) fun w'' hrun' hw'' => ?_
  rw [hrun] at hrun'
  cases hrun'
  refine spellsAt_known hdeclared hw'' (keeps_usesLocal node) (output_usesLocal w') ?_
  refine .indent (.then (keeps_source _) (spells_source _) ?_)
  refine .then (keeps_source _) (spells_source _) ?_
  refine .then (keeps_source _) (spells_source _) ?_
  exact .then (keeps_writeLabelOrNull _ _) (spells_writeLabelOrNull _ _) hend

theorem spells_writeWidgetOpening {className : String}
    {name label tooltip callback image : Option String} {x y width height : Int}
    (hbody : node.body = .widget className name label tooltip callback image x y width height)
    {w : Writer} (hw : w.In context) :
    ∃ declared, SpellsAt w (writeWidgetOpening node)
      fun names => node.openingSpans context names declared := by
  obtain ⟨declared, _, -, hconstruction⟩ := spells_writeConstruction hbody hw
  have hopening := hconstruction.bind hw (moves_writeConstruction node (by rw [hbody]; rfl))
    fun w' _ hw' => spells_writeSetters hbody w' hw'
  have hspans : (fun names => node.openingSpans context names declared) = fun names =>
      node.constructionSpans context declared ++ node.setters context.deeper names tooltip := by
    unfold constructionSpans openingSpans
    rw [hbody]
    simp only [List.append_assoc]
  refine ⟨declared, ?_⟩
  rw [writeWidgetOpening_eq, hspans]
  exact hopening

theorem spells_writeMenuItem {label : String} {shortcut callback : Option String}
    (hbody : node.body = .menuItem label shortcut callback) (declared : Bool) :
    Spells context (writeMenuItem node label shortcut)
      fun names => node.openingSpans context names declared := by
  unfold writeMenuItem openingSpans
  rw [hbody]
  refine .indent (.then (keeps_source _) (spells_source _) ?_)
  refine .then (keeps_writeLabel _ _) (spells_writeLabel _ _) ?_
  exact spells_callbackOrNull (fun expression => spell (", " ++ shortcut.getD "0" ++
    ", (Fl_Callback*)" ++ expression ++ ");\n")) fun expression => spells_source _

theorem spells_writeOpening {w : Writer} (hw : w.In context) (h : node.kind.hasCallback = true) :
    ∃ declared, SpellsAt w (writeOpening node)
      fun names => node.openingSpans context names declared := by
  unfold writeOpening
  cases hbody : node.body with
  | widget => exact spells_writeWidgetOpening hbody hw
  | menuItem => exact ⟨true, spells_writeMenuItem hbody true w hw⟩
  | _ => simp [Node.kind, hbody, ItemBody.kind, NodeKind.hasCallback] at h

theorem spells_writeClosing (h : node.kind.hasCallback = true) :
    Spells context (writeClosing node) fun _ => node.closingSpans context := by
  unfold writeClosing closingSpans
  cases hbody : node.body with
  | widget className name =>
    unfold writeWidgetClosing
    rw [hbody]
    refine .then (.onlyIf (keeps_indent.bind fun _ => keeps_source _) _)
      (.onlyIf (.indent (spells_source _))) ?_
    exact .skip moves_indentLess spells_indentLess (.indent (spells_source _))
  | menuItem => exact .pure
  | _ => simp [Node.kind, hbody, ItemBody.kind, NodeKind.hasCallback] at h

theorem spells_writeNode {w : Writer} (hw : w.In context) {present : String → Bool}
    (hpresent : ∀ image, ObjectId.resource image ∈ w.objects.members ↔ present image = true)
    (h : node.kind.hasCallback = true) (phase : Phase) :
    ∃ declared, SpellsAt w (Generation.writeNode phase node)
      fun names => node.spansIn context names phase present declared := by
  cases phase with
  | setup => exact ⟨false, spells_writeSetup hw hpresent⟩
  | opening | framing => exact spells_writeOpening hw h
  | closing => exact ⟨false, spells_writeClosing h w hw⟩

end Node

end FormWeave
