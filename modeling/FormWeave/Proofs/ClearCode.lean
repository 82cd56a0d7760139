import Mathlib.Data.List.ReduceOption
import FormWeave.Generation.Run
import FormWeave.Proofs.ClearEmission

/-!
# The code of nodes without markers

Nothing is escaped on the way into the source, so a marker in a text of the design is a marker of
the source. But that is the only way: behind every text of a node that goes into the source stands
a fixed text that starts with a byte of no marker, so nothing that stands side by side makes one.
-/

namespace FormWeave

/-! ## 1. The texts that go into the source -/

namespace Node

def declaredInSource (scope : NodeScope) (text : String) (visibility : Visibility) : Bool :=
  if (Text.trim text).toList.head? == some '#' then visibility == .priv else scope != .member

/-- The texts that the code of a node in the source is made of. -/
def codeTexts (node : Node) : List String :=
  match node.body with
  | .comment text inSource _ => if inSource then [text] else []
  | .code text => [text]
  | .codeBlock opening closing => [opening, closing]
  | .declaration text visibility =>
    if declaredInSource node.scope text visibility then [text] else []
  | .function name returnType _ => [name, returnType]
  | .widgetClass name base => [name, base]
  | .widget className name label tooltip callback image .. =>
    let image := image.filter fun _ => node.resource.isSome
    className :: [name, label, tooltip, callback, image].reduceOption
  | .menuItem label shortcut callback => label :: [shortcut, callback].reduceOption
  | .data name .. => [name]

def textData? (node : Node) : Option Bytes :=
  match node.body with
  | .data _ _ .text _ => node.resource.map Resource.content
  | _ => none

def sourceTexts (node : Node) : List Bytes := node.codeTexts.map utf8 ++ node.textData?.toList

/-- No text of the node that goes into the source has a marker. -/
def MarkerFree (node : Node) : Prop := ∀ text ∈ node.sourceTexts, ¬ Marked text

instance (node : Node) : Decidable node.MarkerFree := List.decidableBAll (¬ Marked ·) _

end Node

namespace Settings

def labelTexts (s : Settings) : List String :=
  match s.translation.mode with
  | .none => []
  | .gnu => [s.translation.gnuFunction]
  | .posix => [s.translation.posixFile, s.translation.posixSet]

def translationTexts (s : Settings) : List String :=
  let t := s.translation
  if t.mode == .none || t.header.isEmpty then []
  else
    t.header :: t.conditional ::
      (if t.mode == .gnu then [t.gnuStaticFunction]
      else if t.posixFile.isEmpty then [s.basename]
      else [])

def sourceTexts (s : Settings) : List String :=
  (if s.includeHeader then [s.includeName s.headerFile] else []) ++ s.translationTexts ++
    s.labelTexts

def MarkerFree (s : Settings) : Prop := ∀ text ∈ s.sourceTexts, ¬ Marked (utf8 text)

instance (s : Settings) : Decidable s.MarkerFree :=
  List.decidableBAll (fun text => ¬ Marked (utf8 text)) _

variable {settings : Settings} {text : String}

theorem MarkerFree.label (h : settings.MarkerFree) (htext : text ∈ settings.labelTexts) :
    ¬ Marked (utf8 text) := h text (List.mem_append_right _ htext)

theorem MarkerFree.translation (h : settings.MarkerFree)
    (htext : text ∈ settings.translationTexts) : ¬ Marked (utf8 text) :=
  h text (List.mem_append_left _ (List.mem_append_right _ htext))

theorem MarkerFree.included (h : settings.MarkerFree) (hinclude : settings.includeHeader = true) :
    ¬ Marked (utf8 (settings.includeName settings.headerFile)) :=
  h _ (by simp [sourceTexts, hinclude])

end Settings

namespace Node

open Emit

variable {settings : Settings} {node : Node}

theorem MarkerFree.text (h : node.MarkerFree) {text : String}
    (htext : text ∈ node.codeTexts) : ¬ Marked (utf8 text) :=
  h _ (List.mem_append_left _ (List.mem_map_of_mem htext))

theorem MarkerFree.callback (h : node.MarkerFree) {callback : String}
    (hcallback : callback ∈ node.callback?) : ¬ Marked (utf8 callback) := by
  have hbody : node.body.callback? = some callback := (Option.filter_eq_some_iff.1 hcallback).1
  refine h.text ?_
  unfold codeTexts
  generalize node.body = body at hbody
  cases body with
  | widget _ _ _ _ given =>
    obtain rfl : given = some callback := hbody
    simp [List.reduceOption_mem_iff]
  | menuItem _ _ given =>
    obtain rfl : given = some callback := hbody
    simp [List.reduceOption_mem_iff]
  | _ => cases hbody

/-! ## 2. Labels, images and callbacks -/

theorem yields_callbackName (node : Node) :
    (callbackName node).Yields settings fun name => Settled (utf8 name) := by
  unfold callbackName
  split
  · exact yields_uniqueId _ (by decide) _ _
  · exact yields_uniqueId _ (by decide) _ _
  · exact yields_uniqueId _ (by decide) _ _

theorem yields_callbackExpression {callback : String} (h : ¬ Marked (utf8 callback)) :
    (callbackExpression node callback).Yields settings fun text => ¬ Marked (utf8 text) := by
  unfold callbackExpression
  split
  · exact .pure h
  · exact (yields_callbackName node).mono fun _ hname => hname.unmarked

theorem yields_callbackOrNull (h : node.MarkerFree) :
    (callbackOrNull node).Yields settings fun text => ¬ Marked (utf8 text) := by
  unfold callbackOrNull
  split
  · next callback hcallback => exact yields_callbackExpression (h.callback hcallback)
  · exact .pure (by decide)

theorem yields_imageVariable (image : String) :
    (imageVariable image).Yields settings fun name => Settled (utf8 name) :=
  yields_uniqueId _ (by decide) _ _

theorem clears_writeLabel (hsettings : settings.MarkerFree) {text : String}
    (h : ¬ Marked (utf8 text)) (number : Nat) : (writeLabel text number).Clears settings := by
  have htranslation : (ask (·.settings.translation)).Yields settings
      fun translation => translation = settings.translation :=
    yields_ask fun w hw => by rw [hw.configured]
  refine htranslation.bind ?_
  rintro _ rfl
  have hcomma : Fence (utf8 ",") := by decide
  -- In each mode the label is a literal; what stands around it are texts of the translation.
  split
  · exact clears_string h
  · next hmode =>
    have hfunction : ¬ Marked (utf8 settings.translation.gnuFunction) :=
      hsettings.label (by simp [Settings.labelTexts, hmode])
    exact (clears_source (settled_leading hfunction (by decide))).seq fun _ =>
      (clears_string h).seq fun _ => clears_source (by decide)
  · next hmode =>
    have hset : ¬ Marked (utf8 settings.translation.posixSet) :=
      hsettings.label (by simp [Settings.labelTexts, hmode])
    have hcatalog : ¬ Marked (utf8 (if settings.translation.posixFile.isEmpty then "_catalog"
        else settings.translation.posixFile)) := by
      split
      · decide
      · exact hsettings.label (by simp [Settings.labelTexts, hmode])
    have hcall : Settled (utf8 "catgets(") := by decide
    have hopen := ((hcall.free hcatalog hcomma).free hset hcomma).fixed (settled_nat number)
    exact (clears_source (hopen.fixed hcomma.settled)).seq fun _ =>
      (clears_string h).seq fun _ => clears_source (by decide)

theorem clears_writeLabelOrNull (hsettings : settings.MarkerFree) {label : Option String}
    (h : ∀ text ∈ label, ¬ Marked (utf8 text)) (number : Nat) :
    (writeLabelOrNull label number).Clears settings := by
  cases label with
  | none => exact clears_source (by decide)
  | some label => exact clears_writeLabel hsettings (h label rfl) number

theorem clears_writeImage (image : String) (resource : Resource) :
    (writeImage image resource).Clears settings := by
  refine (clears_headerOnce _).discard.seq fun _ => ?_
  refine (yields_imageVariable image).bind fun array harray => (clears_seen _).seq fun known => ?_
  refine Clears.onlyIf fun _ => ?_
  have hdeclared : Settled (utf8 "static const unsigned char ") := by decide
  exact (clears_source ((hdeclared.fixed harray).fixed (by decide))).seq fun _ =>
    (clears_initializer _).seq fun _ => clears_source (by decide)

theorem clears_writeCallbackFunction (node : Node) {callback target : String}
    (hcallback : ¬ Marked (utf8 callback)) (htarget : ¬ Marked (utf8 target)) (kind : TagKind) :
    (writeCallbackFunction node callback target kind).Clears settings := by
  unfold writeCallbackFunction
  split
  · -- A callback that names a function is declared in the header only.
    exact (clears_headerOnce _).discard
  refine (yields_callbackName node).bind fun name hname => ?_
  have hhead : Settled (utf8 "\nstatic void ") := by decide
  have hopen := (hhead.fixed hname).fixed (show Settled (utf8 "(") by decide)
  refine (clears_source (hopen.free htarget (by decide))).seq fun _ => ?_
  refine (clears_tag .generic node.id).seq fun _ => ?_
  refine (clears_indented hcallback 1).seq fun _ => ?_
  exact (clears_tag kind node.id).seq fun _ => clears_source (by decide)

/-! ## 3. Widgets -/

/-- The texts of a widget besides its callback. -/
theorem MarkerFree.widget (h : node.MarkerFree) {className : String}
    {name label tooltip callback image : Option String} {x y w height : Int}
    (hbody : node.body = .widget className name label tooltip callback image x y w height) :
    ¬ Marked (utf8 className) ∧ (∀ text ∈ name, ¬ Marked (utf8 text)) ∧
      (∀ text ∈ label, ¬ Marked (utf8 text)) ∧ (∀ text ∈ tooltip, ¬ Marked (utf8 text)) ∧
      (node.resource.isSome = true → ∀ text ∈ image, ¬ Marked (utf8 text)) := by
  -- The callback is left out: it counts only if it is not blank.
  have htext : ∀ text, text = className ∨ some text = name ∨ some text = label ∨
      some text = tooltip ∨ some text = image.filter (fun _ => node.resource.isSome) →
      ¬ Marked (utf8 text) := by
    intro text hmem
    refine h.text ?_
    rw [codeTexts, hbody]
    simp only [List.mem_cons, List.reduceOption_mem_iff, List.not_mem_nil, or_false]
    tauto
  exact ⟨htext _ (by simp), fun text ht => htext text (by simp_all),
    fun text ht => htext text (by simp_all), fun text ht => htext text (by simp_all),
    fun hresource text ht => htext text
      (.inr (.inr (.inr (.inr (Option.filter_eq_some_iff.2 ⟨ht, hresource⟩).symm))))⟩

theorem clears_writeSetters (hsettings : settings.MarkerFree) (h : node.MarkerFree) :
    (writeSetters node).Clears settings := by
  unfold writeSetters
  split
  · next hbody =>
    obtain ⟨-, -, -, htooltip, himage⟩ := h.widget hbody
    refine Clears.seq (.forSome fun tooltip ht => ?_) fun _ => ?_
    · refine yields_indent.bind fun _ hindent => ?_
      refine (clears_source (hindent.fixed (by decide))).seq fun _ => ?_
      exact (clears_writeLabel hsettings (htooltip tooltip ht) _).seq fun _ =>
        clears_source (by decide)
    refine Clears.seq (.forSome fun image hi => .forSome fun resource hr => ?_) fun _ => ?_
    · have hmarked := himage (Option.isSome_of_mem hr) image hi
      refine (yields_imageVariable image).bind fun array harray => ?_
      refine yields_indent.bind fun _ hindent => clears_source ?_
      exact (((((hindent.fixed (by decide)).free hmarked (by decide)).fixed
        harray).fixed (by decide)).fixed (settled_nat _)).fixed (by decide)
    refine Clears.forSome fun callback hc => ?_
    refine (yields_callbackExpression (h.callback hc)).bind fun _ hexpression => ?_
    exact yields_indent.bind fun _ hindent =>
      clears_source ((hindent.fixed (by decide)).free hexpression (by decide))
  · exact .pure _

theorem clears_usesLocal (hsettings : settings.MarkerFree) (h : node.MarkerFree) :
    (usesLocal node).Clears settings := by
  unfold usesLocal
  split
  · exact .pure _
  · exact (clears_writeSetters hsettings h).writesSource

theorem clears_writeWidgetSetup (h : node.MarkerFree) :
    (writeWidgetSetup node).Clears settings := by
  unfold writeWidgetSetup
  split
  · next hbody =>
    obtain ⟨hclass, hname, -, -, -⟩ := h.widget hbody
    refine Clears.seq (.forSome fun name hn => ?_) fun _ => ?_
    · have hmarked := hname name (Option.filter_eq_some_iff.1 hn).1
      have hopen := (settled_leading hclass (show Fence (utf8 " *") by decide)).free hmarked
        (show Fence (utf8 "=(") by decide)
      exact (clears_header _).seq fun _ => clears_source (hopen.free hclass (by decide))
    refine Clears.seq (.forSome fun image _ => .forSome fun resource _ => ?_) fun _ => ?_
    · exact clears_writeImage image resource
    exact Clears.forSome fun callback hc =>
      clears_writeCallbackFunction node (h.callback hc) hclass .widgetCallback
  · exact .pure _

theorem clears_writeWidgetOpening (hsettings : settings.MarkerFree) (h : node.MarkerFree) :
    (writeWidgetOpening node).Clears settings := by
  unfold writeWidgetOpening
  split
  · next hbody =>
    obtain ⟨hclass, hname, hlabel, -, -⟩ := h.widget hbody
    refine Clears.seq (.forSome fun name _ => ?_) fun _ => ?_
    · exact (clears_access _).seq fun _ => clears_header _
    refine (clears_usesLocal hsettings h).seq fun usesLocal => ?_
    refine yields_indent.bind fun _ hindent => ?_
    refine (clears_source (hindent.fixed (by decide))).seq fun _ => ?_
    refine Clears.seq (clears_source ?_) fun _ => ?_
    · -- The declaration and the assignment may both be missing.
      refine ((Settled.fixed ?_ ?_).fixed (by decide)).free hclass (by decide)
      · split
        · exact settled_leading hclass (by decide)
        · decide
      · split
        · next name => exact settled_leading (hname name rfl) (by decide)
        · decide
    refine Clears.seq (clears_source ?_) fun _ => ?_
    · have hcomma : Settled (utf8 ", ") := by decide
      exact (((((((settled_int _).fixed hcomma).fixed (settled_int _)).fixed hcomma).fixed
        (settled_int _)).fixed hcomma).fixed (settled_int _)).fixed hcomma
    refine (clears_writeLabelOrNull hsettings hlabel _).seq fun _ => ?_
    refine (clears_source (by decide)).seq fun _ => clears_indentMore.seq fun _ => ?_
    exact clears_writeSetters hsettings h
  · exact .pure _

theorem clears_writeWidgetClosing (h : node.MarkerFree) :
    (writeWidgetClosing node).Clears settings := by
  unfold writeWidgetClosing
  split
  · next name _ _ _ _ _ _ _ _ hbody =>
    obtain ⟨hclass, hname, -, -, -⟩ := h.widget hbody
    have hlocal : ¬ Marked (utf8 (name.getD "o")) := by
      cases name with
      | none => decide
      | some name => exact hname name rfl
    refine Clears.seq (.onlyIf fun _ => ?_) fun _ => clears_indentLess.seq fun _ => ?_
    · exact yields_indent.bind fun _ hindent => clears_source (hindent.fixed (by decide))
    refine yields_indent.bind fun _ hindent => clears_source ?_
    exact ((hindent.fixed (by decide)).free hclass (by decide)).free hlocal (by decide)
  · exact .pure _

/-! ## 4. The other items -/

theorem clears_writeComment {text : String} {inSource : Bool}
    (h : inSource = true → ¬ Marked (utf8 text)) (inHeader : Bool) :
    (writeComment text inSource inHeader).Clears settings := by
  refine Clears.forM fun line hline => ?_
  refine Clears.seq (.onlyIf fun hsource => ?_) fun _ => Clears.onlyIf fun _ => clears_header _
  refine yields_indent.bind fun _ hindent => clears_source (hindent.fixed ?_)
  have hmarked := Text.not_marked_of_mem_lines (h hsource) hline
  -- Two slashes in front of a line would do for a marker to begin, were it not for the blank.
  split
  · next hempty =>
    rw [String.isEmpty_iff.1 hempty]
    decide
  · exact Settled.free (by decide) hmarked (by decide)

theorem clears_writeDeclaration {scope : NodeScope} {text : String} {visibility : Visibility}
    (h : declaredInSource scope text visibility = true → ¬ Marked (utf8 text)) :
    (writeDeclaration scope text visibility).Clears settings := by
  -- What is written are parts of the text, with fixed words in front of them.
  have htrimmed := fun hdeclared => Text.not_marked_trim (h hdeclared)
  have hstatic : Settled (utf8 "static ") := by decide
  unfold declaredInSource at htrimmed
  unfold writeDeclaration
  dsimp only
  split
  · exact .pure _
  split
  · next hinclude =>
    rw [if_pos hinclude] at htrimmed
    refine Clears.seq (.discard ?_) fun _ => Clears.pure _
    split
    · next hprivate => exact clears_sourceOnce (htrimmed hprivate)
    · exact clears_headerOnce _
  next hinclude =>
  rw [if_neg hinclude] at htrimmed
  cases scope with
  | member => exact (clears_access _).seq fun _ => clears_headerStatement _ _ _
  | inner =>
    exact yields_indent.bind fun _ hindent => clears_sourceStatement hindent (htrimmed rfl)
  | file =>
    have hmarked := htrimmed rfl
    dsimp only
    split
    · exact clears_sourceStatement settled_nil (hstatic.not_marked_behind hmarked)
    · exact (clears_headerStatement _ _ _).seq fun _ => clears_sourceStatement settled_nil hmarked

theorem yields_memberOf (node : Node) :
    (memberOf node).Yields settings fun owner => ∀ name ∈ owner, ¬ Marked (utf8 name) := by
  unfold memberOf
  split
  · exact yields_currentClass
  · exact .pure nofun

theorem clears_writeFunctionHead (node : Node) {name returnType : String}
    (hname : ¬ Marked (utf8 name)) (htype : ¬ Marked (utf8 returnType)) (visibility : Visibility) :
    (writeFunctionHead node name returnType visibility).Clears settings := by
  have hfeed : Settled (utf8 "\n") := by decide
  have hblank : Fence (utf8 " ") := by decide
  have hbrace : Fence (utf8 " \x7b\n") := by decide
  refine (yields_memberOf node).bind fun owner howner => ?_
  cases owner with
  | some owner =>
    refine (clears_access _).seq fun _ => (clears_header _).seq fun _ => clears_source ?_
    exact ((hfeed.free htype hblank).free (howner owner rfl) (by decide)).free hname hbrace
  | none =>
    dsimp only
    split
    · exact clears_source ((Settled.free (by decide) htype hblank).free hname hbrace)
    · exact (clears_header _).seq fun _ =>
        clears_source ((hfeed.free htype hblank).free hname hbrace)

theorem clears_writeFunctionOpening (node : Node) {name returnType : String}
    (hname : ¬ Marked (utf8 name)) (htype : ¬ Marked (utf8 returnType)) (visibility : Visibility) :
    (writeFunctionOpening node name returnType visibility).Clears settings := by
  have hresult : ¬ Marked (utf8 (if returnType.isEmpty then "void" else returnType)) := by
    split
    · decide
    · exact htype
  refine (clears_writeFunctionHead node hname hresult visibility).seq fun _ => ?_
  exact (clears_tag .generic node.id).seq fun _ => clears_setIndentation 1

theorem clears_writeClassOpening (node : Node) {name base : String}
    (hname : ¬ Marked (utf8 name)) (hbase : ¬ Marked (utf8 base)) :
    (writeClassOpening node name base).Clears settings := by
  refine (clears_header _).seq fun _ => (clears_enterClass hname _).seq fun _ => ?_
  refine (clears_access _).seq fun _ => (clears_header _).seq fun _ => ?_
  refine Clears.seq (clears_source ?_) fun _ => Clears.seq (clears_source ?_) fun _ => ?_
  · exact (Settled.free (by decide) hname (by decide)).free hname (by decide)
  · exact ((settled_indentAt 1).fixed (by decide)).free hbase (by decide)
  · exact (clears_tag .generic node.id).seq fun _ => clears_setIndentation 1

theorem clears_writeMenuItem (hsettings : settings.MarkerFree) (h : node.MarkerFree)
    {label : String} {shortcut : Option String} (hlabel : ¬ Marked (utf8 label))
    (hshortcut : ∀ text ∈ shortcut, ¬ Marked (utf8 text)) :
    (writeMenuItem node label shortcut).Clears settings := by
  refine yields_indent.bind fun _ hindent => ?_
  refine (clears_source (hindent.fixed (by decide))).seq fun _ => ?_
  refine (clears_writeLabel hsettings hlabel _).seq fun _ => ?_
  refine (yields_callbackOrNull h).bind fun callback hcallback => clears_source ?_
  have hkey : ¬ Marked (utf8 (shortcut.getD "0")) := by
    cases shortcut with
    | none => decide
    | some text => exact hshortcut text rfl
  exact (Settled.free (by decide) hkey (by decide)).free hcallback (by decide)

theorem clears_writeDataValue {name : String} (hname : ¬ Marked (utf8 name)) (format : DataFormat)
    (shared : Bool) {content : Option Bytes}
    (hcontent : format = .text → ∀ bytes ∈ content, ¬ Marked bytes) :
    (writeDataValue name format shared content).Clears settings := by
  have hstorage : Settled (utf8 (if shared then "" else "static ")) := by
    split <;> decide
  unfold writeDataValue
  cases format with
  | binary =>
    refine Clears.seq (.onlyIf fun _ => clears_header _) fun _ => ?_
    refine Clears.seq (clears_source ((hstorage.fixed ?_).fixed (by decide))) fun _ =>
      clears_initializer _
    refine ((Settled.free (by decide) hname (by decide)).fixed ?_).fixed (by decide)
    split
    · exact settled_nat _
    · decide
  | text =>
    refine Clears.seq (.onlyIf fun _ => clears_header _) fun _ => ?_
    exact (clears_source ((hstorage.fixed (by decide)).free hname (by decide))).seq fun _ =>
      clears_quoted (hcontent rfl)

/-! ## 5. The three occasions -/

theorem clears_writeSetup (h : node.MarkerFree) : (writeSetup node).Clears settings := by
  unfold writeSetup
  split
  · exact clears_writeWidgetSetup h
  · exact Clears.forSome fun callback hc =>
      clears_writeCallbackFunction node (h.callback hc) (by decide) .menuCallback
  · exact .pure _

theorem clears_writeOpening (hsettings : settings.MarkerFree) (h : node.MarkerFree) :
    (writeOpening node).Clears settings := by
  have htext : ∀ text ∈ node.codeTexts, ¬ Marked (utf8 text) := fun _ ht => h.text ht
  have hdata : ∀ bytes ∈ node.textData?, ¬ Marked bytes :=
    fun bytes hb => h bytes (List.mem_append_right _ (Option.mem_toList.2 hb))
  unfold codeTexts at htext
  unfold writeOpening
  cases hbody : node.body with
  | comment text inSource inHeader =>
    rw [hbody] at htext
    exact clears_writeComment (fun hsource => htext text (by simp [hsource])) _
  | code code =>
    rw [hbody] at htext
    exact (clears_tag .generic node.id).seq fun _ =>
      (clears_indented (htext code List.mem_cons_self) 0).seq fun _ => clears_tag .code node.id
  | codeBlock opening closing =>
    rw [hbody] at htext
    refine yields_indent.bind fun _ hindent => Clears.seq (clears_source ?_) fun _ => ?_
    · exact hindent.free (htext opening List.mem_cons_self) (by decide)
    · exact clears_indentMore
  | declaration text visibility =>
    rw [hbody] at htext
    exact clears_writeDeclaration fun hdeclared => htext text (by simp [hdeclared])
  | function name returnType visibility =>
    rw [hbody] at htext
    exact clears_writeFunctionOpening node (htext name (by simp)) (htext returnType (by simp)) _
  | widgetClass name base =>
    rw [hbody] at htext
    exact clears_writeClassOpening node (htext name (by simp)) (htext base (by simp))
  | widget => exact clears_writeWidgetOpening hsettings h
  | menuItem label shortcut callback =>
    rw [hbody] at htext
    refine clears_writeMenuItem hsettings h (htext label List.mem_cons_self) fun text ht => ?_
    exact htext text (by simp_all [List.reduceOption_mem_iff])
  | data name resource format visibility =>
    rw [hbody] at htext
    refine Clears.seq (clears_writeDataValue (htext name List.mem_cons_self) _ _ ?_) fun _ =>
      clears_source (by decide)
    -- Only as a string literal is the content copied.
    rintro rfl
    rwa [textData?, hbody] at hdata

theorem clears_writeClosing (h : node.MarkerFree) : (writeClosing node).Clears settings := by
  unfold writeClosing
  cases hbody : node.body with
  | codeBlock opening closing =>
    have hclosing : ¬ Marked (utf8 closing) := h.text (by simp [codeTexts, hbody])
    refine clears_indentLess.seq fun _ => yields_indent.bind fun _ hindent => clears_source ?_
    have hbrace := hindent.fixed (show Settled (utf8 "\x7d") by decide)
    refine hbrace.free ?_ (by decide)
    split
    · decide
    · exact Settled.not_marked_behind (by decide) hclosing
  | function =>
    exact (clears_tag .generic node.id).seq fun _ => (clears_setIndentation 0).seq fun _ =>
      clears_source (by decide)
  | widgetClass =>
    refine yields_indent.bind fun _ hindent => ?_
    exact (clears_source (hindent.fixed (by decide))).seq fun _ =>
      (clears_tag .generic node.id).seq fun _ => (clears_setIndentation 0).seq fun _ =>
        clears_source (by decide)
  | widget => exact clears_writeWidgetClosing h
  | _ => exact .pure _

theorem clears_writeNode (hsettings : settings.MarkerFree) (h : node.MarkerFree) (phase : Phase) :
    (Generation.writeNode phase node).Clears settings := by
  cases phase with
  | setup => exact clears_writeSetup h
  | opening => exact clears_writeOpening hsettings h
  | closing => exact clears_writeClosing h
  | framing => exact clears_writeOpening hsettings h

end Node

end FormWeave
