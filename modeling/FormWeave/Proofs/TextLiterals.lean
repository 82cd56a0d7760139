import FormWeave.Proofs.LiteralMeanings
import FormWeave.Proofs.PrologueSpans
import FormWeave.Proofs.Wiring

/-!
# Texts of a design in its code

Labels, tooltips and text data are written quoted, so their literals mean these texts whatever they
are. The name of an image and the name of the catalog are written bare, and mean what they are only if
there is nothing to escape in them.
-/

namespace FormWeave

open Emit

/-! ## 1. Code and literals -/

/-- Code as it is cut up by the literals of texts. -/
inductive Fragment
  | code (spans : List Span)
  | text (front : String) (literal : TextLiteral) (behind : String)

namespace Fragment

def quoted (content : Bytes) : Fragment := .text "" ⟨.quoted, content⟩ ""

def bare (front name behind : String) : Fragment := .text front ⟨.bare, utf8 name⟩ behind

def spans (utf8Source : Bool) : Fragment → List Span
  | code spans => spans
  | text front literal behind =>
    [.text (utf8 front ++ literal.written utf8Source ++ utf8 behind)]

def literal? : Fragment → Option TextLiteral
  | code _ => none
  | text _ literal _ => some literal

variable (utf8Source : Bool)

theorem spans_quoted (content : Bytes) :
    (quoted content).spans utf8Source = [.text (Literal.quoted content utf8Source)] := by
  have hempty : utf8 "" = [] := rfl
  simp only [quoted, spans, hempty, List.nil_append, List.append_nil]
  rfl

theorem spans_bare (front name behind : String) :
    (bare front name behind).spans utf8Source =
      spell (front ++ "\"" ++ name ++ "\"" ++ behind) := by
  have hquote : utf8 "\"" = [Literal.ascii '"'] := rfl
  simp [bare, spans, spell, TextLiteral.written, utf8_append, hquote]

end Fragment

namespace Context

variable (context : Context)

def spansOf (fragments : List Fragment) : List Span :=
  fragments.flatMap (Fragment.spans context.settings.utf8Source)

theorem spansOf_append (front back : List Fragment) :
    context.spansOf (front ++ back) = context.spansOf front ++ context.spansOf back :=
  List.flatMap_append

theorem spansOf_code (spans : List Span) (rest : List Fragment) :
    context.spansOf (.code spans :: rest) = spans ++ context.spansOf rest := rfl

theorem spansOf_nil : context.spansOf [] = [] := rfl

theorem spansOf_own (spans : List Span) : context.spansOf [.code spans] = spans :=
  List.append_nil _

variable {context}

/-- Outside of previews a text is written in full. -/
theorem spansOf_quoted (hpreview : context.preview = false) (text : String)
    (rest : List Fragment) :
    context.spansOf (.quoted (utf8 text) :: rest) = context.quoted text ++ context.spansOf rest := by
  have hfull : context.quoted text =
      [.text (Literal.quoted (utf8 text) context.settings.utf8Source)] := by
    rw [quoted, literal, hpreview]
    rfl
  rw [hfull, ← Fragment.spans_quoted]
  rfl

theorem spansOf_bare (front name behind : String) (rest : List Fragment) :
    context.spansOf (.bare front name behind :: rest) =
      spell (front ++ "\"" ++ name ++ "\"" ++ behind) ++ context.spansOf rest := by
  rw [← Fragment.spans_bare context.settings.utf8Source]
  rfl

end Context

/-! ## 2. The prologue -/

namespace Settings

def opensCatalog (settings : Settings) : Bool :=
  let translation := settings.translation
  translation.mode == .posix && !translation.header.isEmpty && translation.posixFile.isEmpty

def catalogLiterals (settings : Settings) : List TextLiteral :=
  if settings.opensCatalog then [⟨.bare, utf8 settings.basename⟩] else []

end Settings

namespace Prologue

variable (context : Context) (settings : Settings)

def catalogFragments : List Fragment :=
  if settings.translation.posixFile.isEmpty then
    [.code (localeSpans context),
      .bare "static nl_catd _catalog = catopen(" settings.basename ", 0);\n"]
  else [.code (catalogSpans context settings)]

def translationFragments : List Fragment :=
  let translation := settings.translation
  if translation.mode == .none || translation.header.isEmpty then []
  else
    .code (headerSpans context translation) ::
      ((if translation.mode == .posix then catalogFragments (inside context translation) settings
        else []) ++ [.code (fallbackPart context translation)])

def fragments (includeName : Option String) : List Fragment :=
  .code (bannerSpans context includeName) :: translationFragments context context.settings

theorem spansOf_inside (translation : Translation) :
    (inside context translation).spansOf = context.spansOf := by
  unfold inside
  split <;> rfl

theorem spans_catalogFragments :
    context.spansOf (catalogFragments context settings) = catalogSpans context settings := by
  unfold catalogFragments
  split
  · next hown =>
    rw [Context.spansOf_code, Context.spansOf_bare, Context.spansOf_nil, List.append_nil,
      catalogSpans, if_pos hown]
    -- The quotation marks of the literal belong to the texts around it.
    have hopening : utf8 "static nl_catd _catalog = catopen(\"" =
        utf8 "static nl_catd _catalog = catopen(" ++ utf8 "\"" := rfl
    have hclosing : utf8 "\", 0);\n" = utf8 "\"" ++ utf8 ", 0);\n" := rfl
    simp only [spell, utf8_append, hopening, hclosing, List.append_assoc]
  · exact Context.spansOf_own _ _

theorem spans_translationFragments :
    context.spansOf (translationFragments context settings) = translationSpans context settings := by
  unfold translationFragments translationSpans
  dsimp only
  split
  · rfl
  rw [Context.spansOf_code, Context.spansOf_append, Context.spansOf_own]
  split
  · -- The catalog may stand one level deeper, which makes no difference to its literal.
    rw [← spansOf_inside context settings.translation, spans_catalogFragments]
  · rfl

theorem spans_fragments (includeName : Option String) :
    context.spansOf (fragments context includeName) = sourceSpans context includeName := by
  rw [fragments, Context.spansOf_code, spans_translationFragments, sourceSpans]

theorem literals_catalogFragments :
    (catalogFragments context settings).filterMap Fragment.literal? =
      if settings.translation.posixFile.isEmpty then [⟨.bare, utf8 settings.basename⟩] else [] := by
  unfold catalogFragments
  split <;> rfl

theorem literals_fragments (includeName : Option String) :
    (fragments context includeName).filterMap Fragment.literal? =
      context.settings.catalogLiterals := by
  unfold fragments translationFragments Settings.catalogLiterals Settings.opensCatalog
  have hcode : ∀ spans, Fragment.literal? (.code spans) = none := fun _ => rfl
  cases hmode : context.settings.translation.mode <;>
    cases hheader : context.settings.translation.header.isEmpty <;>
      simp [hmode, hheader, hcode, literals_catalogFragments]

end Prologue

/-! ## 3. Nodes -/

namespace Node

variable (context : Context) (names : Names) (node : Node)

def literals : List TextLiteral :=
  match node.body with
  | .widget _ _ label tooltip .. =>
    (label.toList ++ tooltip.toList).map (⟨.quoted, utf8 ·⟩) ++
      node.shown?.toList.map fun shown => ⟨.bare, utf8 shown.1⟩
  | .menuItem label .. => [⟨.quoted, utf8 label⟩]
  | .data _ _ .text _ => node.resource.toList.map fun resource => ⟨.quoted, resource.content⟩
  | _ => []

def translatedFragments (text : String) (number : Nat) : List Fragment :=
  let translation := context.settings.translation
  match translation.mode with
  | .none => [.quoted (utf8 text)]
  | .gnu =>
    [.code (spell (translation.gnuFunction ++ "(")), .quoted (utf8 text), .code (spell ")")]
  | .posix =>
    let catalog := if translation.posixFile.isEmpty then "_catalog" else translation.posixFile
    [.code (spell ("catgets(" ++ catalog ++ "," ++ translation.posixSet ++ "," ++ toString number ++
      ",")), .quoted (utf8 text), .code (spell ")")]

def setterFragments (tooltip : Option String) : List Fragment :=
  (tooltip.elim [] fun text => .code (spell (context.indent ++ "o->tooltip(")) ::
    (translatedFragments context text node.tooltipNumber ++ [.code (spell ");\n")])) ++
  ((node.shown?.elim [] fun shown => [.bare (context.indent ++ "o->image(new Fl_PNG_Image(") shown.1
    (", " ++ imageIn names shown.1 ++ ", " ++ toString shown.2.content.length ++ "));\n")]) ++
  [.code (optionally node.callback? fun callback => spell (context.indent ++
    "o->callback((Fl_Callback*)" ++ node.callbackReference names callback ++ ");\n"))])

def dataFragments (name : String) (visibility : Visibility) : List Fragment :=
  let shared := visibility != .priv && node.scope == .file
  [.code (spell ((if shared then "" else "static ") ++ "const char *" ++ name ++ " =\n")),
    node.resource.elim (.code (spell "\n#error  string not found\n" ++
      spell "\" ... undefined size text... \"")) fun resource => .quoted resource.content,
    .code (spell ";\n")]

def openingFragments (declared : Bool) (own : List Span) : List Fragment :=
  match node.body with
  | .widget className name label tooltip _ _ x y w h =>
    .code (spell (context.indent ++ "\x7b ") ++
      (spell ((if declared then className ++ "* o = " else "") ++
        (name.elim "" (· ++ " = ")) ++ "new " ++ className ++ "(") ++
      spell (toString x ++ ", " ++ toString y ++ ", " ++ toString w ++ ", " ++ toString h ++
        ", "))) ::
      (label.elim [.code (spell "0")] (translatedFragments context · node.labelNumber) ++
      .code (spell ");\n") :: node.setterFragments context.deeper names tooltip)
  | .menuItem label shortcut _ =>
    .code (spell (context.indent ++ "o->add(")) ::
      (translatedFragments context label node.labelNumber ++
      [.code (spell (", " ++ shortcut.getD "0" ++ ", (Fl_Callback*)" ++
        node.callback?.elim "0" (node.callbackReference names) ++ ");\n"))])
  | .data name _ .text visibility => node.dataFragments name visibility
  | _ => [.code own]

variable {context names node}

theorem spans_translatedFragments (hpreview : context.preview = false) (text : String)
    (number : Nat) :
    context.spansOf (translatedFragments context text number) = translated context text number := by
  unfold translatedFragments translated
  dsimp only
  cases context.settings.translation.mode <;>
    simp only [Context.spansOf_code, Context.spansOf_quoted hpreview, Context.spansOf_nil,
      List.append_nil]

theorem spans_setterFragments (hpreview : context.preview = false) (tooltip : Option String) :
    context.spansOf (node.setterFragments context names tooltip) =
      node.setters context names tooltip := by
  unfold setterFragments setters
  rw [Context.spansOf_append, Context.spansOf_append]
  congr 1
  · cases tooltip with
    | none => rfl
    | some text =>
      rw [Option.elim_some, Context.spansOf_code, Context.spansOf_append,
        spans_translatedFragments hpreview, optionally_some]
      rfl
  congr 1
  · cases node.shown? with
    | none => rfl
    | some shown =>
      rw [Option.elim_some, Context.spansOf_bare, optionally_some, Context.spansOf_nil,
        List.append_nil]
      have hopening : utf8 "o->image(new Fl_PNG_Image(\"" =
          utf8 "o->image(new Fl_PNG_Image(" ++ utf8 "\"" := rfl
      have hclosing : utf8 "\", " = utf8 "\"" ++ utf8 ", " := rfl
      simp only [spell, utf8_append, hopening, hclosing, List.append_assoc]
  · exact Context.spansOf_own _ _

theorem spans_openingFragments (hpreview : context.preview = false) (declared : Bool)
    (own : List Span) (h : node.kind.hasCallback = true) :
    context.spansOf (node.openingFragments context names declared own) =
      node.openingSpans context names declared := by
  -- How deep the setters are indented makes no difference to their literals.
  have hsetters := @spans_setterFragments context.deeper names node hpreview
  have hdeeper : context.deeper.spansOf = context.spansOf := rfl
  rw [hdeeper] at hsetters
  unfold openingFragments openingSpans
  cases hbody : node.body with
  | widget className name label tooltip =>
    have hlabel : context.spansOf
        (label.elim [.code (spell "0")] (translatedFragments context · node.labelNumber)) =
          label.elim (spell "0") (translated context · node.labelNumber) := by
      cases label with
      | none => rfl
      | some text => exact spans_translatedFragments hpreview text node.labelNumber
    dsimp only
    rw [Context.spansOf_code, Context.spansOf_append, Context.spansOf_code, hsetters, hlabel,
      List.append_assoc, List.append_assoc]
  | menuItem label =>
    dsimp only
    rw [Context.spansOf_code, Context.spansOf_append, spans_translatedFragments hpreview]
    rfl
  | _ => simp [Node.kind, hbody, ItemBody.kind, NodeKind.hasCallback] at h

theorem literals_translatedFragments (text : String) (number : Nat) :
    (translatedFragments context text number).filterMap Fragment.literal? =
      [⟨.quoted, utf8 text⟩] := by
  unfold translatedFragments
  dsimp only
  split <;> rfl

theorem literals_openingFragments (declared : Bool) (own : List Span) :
    (node.openingFragments context names declared own).filterMap Fragment.literal? =
      node.literals := by
  have hcode : ∀ spans, Fragment.literal? (.code spans) = none := fun _ => rfl
  unfold openingFragments setterFragments dataFragments literals
  cases node.body with
  | widget className name label tooltip =>
    -- A label, a tooltip and an image, each of which may be missing.
    cases label <;> cases tooltip <;> cases node.shown? <;>
      simp [hcode, literals_translatedFragments] <;> rfl
  | menuItem label => simp [hcode, literals_translatedFragments]
  | data name resource format =>
    cases format with
    | binary => rfl
    | text => cases node.resource <;> rfl
  | _ => rfl

/-! ## 4. Text data -/

/-- The content of text data, or what stands for it if it is missing. -/
theorem spells_quoted (hpreview : context.preview = false) (content? : Option Bytes) :
    Spells context (quoted content?) fun _ =>
      context.spansOf [content?.elim (.code (spell "\n#error  string not found\n" ++
        spell "\" ... undefined size text... \"")) Fragment.quoted] := by
  refine spells_update fun w hw => ?_
  rw [Writer.writeQuoted, hw.settings]
  cases content? with
  | none =>
    rw [Writer.writeLiteral, Writer.unlessDry, hw.live, if_neg Bool.false_ne_true]
    dsimp only
    rw [hw.preview, hpreview, if_neg Bool.false_ne_true]
    exact ⟨_, ((w.kept_putSource _).trans (Writer.kept_putSource _ _)).toWrote, rfl⟩
  | some content =>
    have hfull : context.literal content
        (fun size => "\" ... " ++ toString size ++ " bytes of text... \"")
        (Literal.quoted content context.settings.utf8Source) =
          [.text (Literal.quoted content context.settings.utf8Source)] := by
      rw [Context.literal, hpreview]
      rfl
    rw [Option.elim_some, Context.spansOf, List.flatMap_singleton, Fragment.spans_quoted, ← hfull]
    exact wrote_literal hw ..

/-- The declarator and the content. Shared data is declared in the header. -/
theorem spells_textValue (hpreview : context.preview = false) (name : String) (shared : Bool)
    (content? : Option Bytes) :
    Spells context (writeDataValue name .text shared content?) fun _ =>
      spell ((if shared then "" else "static ") ++ "const char *" ++ name ++ " =\n") ++
        context.spansOf [content?.elim (.code (spell "\n#error  string not found\n" ++
          spell "\" ... undefined size text... \"")) Fragment.quoted] := by
  have hkeeps : (onlyIf shared (header ("extern const char *" ++ name ++ ";\n"))).Keeps :=
    .onlyIf (keeps_header (silent_append (by decide) _)) _
  have hheader : Spells context (onlyIf shared (header ("extern const char *" ++ name ++ ";\n")))
      fun _ => [] := by
    cases shared with
    | false => exact .pure
    | true => exact spells_header _
  exact .skip hkeeps hheader (.then (keeps_source _) (spells_source _) (spells_quoted hpreview _))

theorem spells_textData (hpreview : context.preview = false) (name : String)
    (visibility : Visibility) :
    Spells context (writeData node name .text visibility)
      fun _ => context.spansOf (node.dataFragments name visibility) := by
  have hdata := Spells.then (keeps_writeDataValue _ _ _ _)
    (spells_textValue hpreview name (visibility != .priv && node.scope == .file)
      (node.resource.map Resource.content)) (spells_source ";\n")
  have hcontent : ∀ missing : Fragment,
      (node.resource.map Resource.content).elim missing Fragment.quoted =
        node.resource.elim missing fun resource => .quoted resource.content :=
    fun _ => by cases node.resource <;> rfl
  rw [hcontent] at hdata
  unfold dataFragments
  simp only [Context.spansOf, List.flatMap_cons, List.flatMap_nil, List.append_assoc,
    List.append_nil, Fragment.spans] at hdata ⊢
  exact hdata

end Node

/-! ## 5. The literals of a design -/

namespace Generation

def literals (settings : Settings) : Step Node → List TextLiteral
  | .prologue => settings.catalogLiterals
  | .write .opening node | .write .framing node => node.literals
  | _ => []

def Piece.fragments (context : Context) (names : Names) (included : Option String)
    (declared : Bool) (piece : Piece) : List Fragment :=
  match piece.step with
  | .prologue => Prologue.fragments context included
  | .write .opening node | .write .framing node =>
    node.openingFragments context names declared (spans piece.chunks)
  | _ => [.code (spans piece.chunks)]

theorem literals_fragments (context : Context) (names : Names) (included : Option String)
    (declared : Bool) (piece : Piece) :
    (piece.fragments context names included declared).filterMap Fragment.literal? =
      literals context.settings piece.step := by
  unfold Piece.fragments
  cases piece.step with
  | prologue => exact Prologue.literals_fragments context included
  | write phase node =>
    cases phase with
    | opening | framing => exact Node.literals_openingFragments ..
    | setup | closing => rfl
  | endClass | endGuard => rfl

variable (design : Design) (settings : Settings) (options : RunOptions)

/-- What a step spells in every writer, its piece spells. -/
theorem spans_of_spells {piece : Piece} (hpiece : piece ∈ written design settings options)
    (text : Context → List Span)
    (h : ∀ depth, Spells ⟨settings, options.preview, depth⟩
      (stepCode (configuredNames settings) piece.step)
      fun _ => text ⟨settings, options.preview, depth⟩) :
    ∃ depth, spans piece.chunks = text ⟨settings, options.preview, depth⟩ := by
  obtain ⟨before, behind, hsplit⟩ := List.append_of_mem hpiece
  have hspells := h _ _ (in_advance settings options (before.map Piece.step))
  exact ⟨_, spans_of_spellsAt design settings options hsplit hspells⟩

/-- The opening code of a node, wherever it stands. -/
theorem spans_opening (hpreview : options.preview = false) {piece : Piece} {phase : Phase}
    {node : Node} (hpiece : piece ∈ written design settings options)
    (hstep : piece.step = .write phase node) (hphase : phase = .opening ∨ phase = .framing) :
    ∃ depth declared,
      let context : Context := ⟨settings, options.preview, depth⟩
      spans piece.chunks = context.spansOf (node.openingFragments context
        (finalNames design settings options) declared (spans piece.chunks)) := by
  by_cases hkind : node.kind.hasCallback = true
  · obtain ⟨before, behind, hsplit⟩ := List.append_of_mem hpiece
    obtain ⟨depth, declared, hspans⟩ := spans_written design settings options hsplit hstep hkind
    refine ⟨depth, declared, ?_⟩
    dsimp only
    rw [Node.spans_openingFragments hpreview declared _ hkind]
    rcases hphase with rfl | rfl <;> exact hspans
  -- Without a callback the node may be text data; the code of any other is not cut up.
  have hown := Context.spansOf_own ⟨settings, options.preview, 0⟩ (spans piece.chunks)
  unfold Node.openingFragments
  cases hbody : node.body with
  | widget | menuItem => simp [Node.kind, hbody, ItemBody.kind, NodeKind.hasCallback] at hkind
  | data name resource format visibility =>
    cases format with
    | binary => exact ⟨0, false, hown.symm⟩
    | text =>
      have hcode : stepCode (configuredNames settings) piece.step =
          Node.writeData node name .text visibility := by
        rw [hstep]
        rcases hphase with rfl | rfl <;> simp only [stepCode, writeNode, Node.writeOpening, hbody]
      obtain ⟨depth, hspans⟩ := spans_of_spells design settings options hpiece
        (fun context => context.spansOf (node.dataFragments name visibility))
        fun depth => hcode ▸ Node.spells_textData hpreview name visibility
      exact ⟨depth, false, hspans⟩
  | _ => exact ⟨0, false, hown.symm⟩

/-- The code of a step, wherever it stands. -/
theorem spans_fragments (hpreview : options.preview = false) {piece : Piece}
    (hpiece : piece ∈ written design settings options) :
    ∃ depth declared,
      let context : Context := ⟨settings, options.preview, depth⟩
      spans piece.chunks = context.spansOf (piece.fragments context
        (finalNames design settings options) (configuredNames settings).included declared) := by
  have hown := Context.spansOf_own ⟨settings, options.preview, 0⟩ (spans piece.chunks)
  unfold Piece.fragments
  cases hstep : piece.step with
  | prologue =>
    obtain ⟨depth, hspans⟩ := spans_of_spells design settings options hpiece
      (fun context => Prologue.sourceSpans context (configuredNames settings).included)
      fun depth => by rw [hstep]; exact Prologue.spells_write _ _
    exact ⟨depth, false, hspans.trans (Prologue.spans_fragments _ _).symm⟩
  | write phase node =>
    cases phase with
    | opening => exact spans_opening design settings options hpreview hpiece hstep (.inl rfl)
    | framing => exact spans_opening design settings options hpreview hpiece hstep (.inr rfl)
    | setup | closing => exact ⟨0, false, hown.symm⟩
  | endClass | endGuard => exact ⟨0, false, hown.symm⟩

theorem infix_flatMap {α β : Type} {f : α → List β} {a : α} {as : List α} (h : a ∈ as) :
    f a <:+: as.flatMap f :=
  List.infix_of_mem_flatten (List.mem_map_of_mem h)

/-- The literals of a step stand in the source. -/
theorem literal_infix (hpreview : options.preview = false) {step : Step Node}
    (hstep : step ∈ plan design.nodes) {literal : TextLiteral}
    (hliteral : literal ∈ literals settings step) :
    literal.written settings.utf8Source <:+:
      (written design settings options).flatMap Piece.source := by
  rw [← map_step_written design settings options] at hstep
  obtain ⟨piece, hpiece, rfl⟩ := List.mem_map.1 hstep
  obtain ⟨depth, declared, hspans⟩ := spans_fragments design settings options hpreview hpiece
  rw [← literals_fragments ⟨settings, options.preview, depth⟩
    (finalNames design settings options) (configuredNames settings).included declared] at hliteral
  obtain ⟨fragment, hfragment, hfound⟩ := List.mem_filterMap.1 hliteral
  cases fragment with
  | code => cases hfound
  | text front found behind =>
    cases hfound
    -- The literal is a part of a text, the text of a piece, and the piece of the source.
    have hspan : .text (utf8 front ++ literal.written settings.utf8Source ++ utf8 behind) ∈
        spans piece.chunks := by
      rw [hspans]
      exact List.mem_flatMap.2 ⟨_, hfragment, List.mem_singleton_self _⟩
    obtain ⟨chunk, hchunk, htext⟩ := List.mem_filterMap.1 hspan
    cases chunk with
    | source bytes =>
      cases htext
      have hchunk' : utf8 front ++ literal.written settings.utf8Source ++ utf8 behind <:+:
          piece.source := infix_flatMap (f := Chunk.sourceBytes) hchunk
      have hpart : literal.written settings.utf8Source <:+: piece.source :=
        (List.infix_append _ _ _).trans hchunk'
      exact hpart.trans (infix_flatMap hpiece)
    | tag | header => cases htext

/-- The literals of a design stand in its code as its steps say, and those that are written quoted
mean their texts. A bare one does if it has nothing to escape. -/
theorem literals_written (trackRanges : Bool) :
    ∃ generated names, generate design settings { trackRanges } = .ok generated ∧
      generated.source = (written design settings { trackRanges }).flatMap Piece.source ∧
      ∀ piece ∈ written design settings { trackRanges },
        (∃ depth declared,
          let context : Context := ⟨settings, false, depth⟩
          let fragments :=
            piece.fragments context names (configuredNames settings).included declared
          spans piece.chunks = context.spansOf fragments ∧
          fragments.filterMap Fragment.literal? = literals settings piece.step) ∧
        ∀ literal ∈ literals settings piece.step,
          CString.decode? (literal.written settings.utf8Source) = some literal.text ↔
            literal.style = .quoted ∨ ∀ byte ∈ literal.text, CString.IsPlain byte := by
  obtain ⟨generated, hgenerated, hsource, -⟩ := generate_written design settings { trackRanges }
  refine ⟨generated, finalNames design settings { trackRanges }, hgenerated, hsource,
    fun piece hpiece => ⟨?_, fun literal _ => literal.decode?_written_iff settings.utf8Source⟩⟩
  obtain ⟨depth, declared, hspans⟩ :=
    spans_fragments design settings { trackRanges } rfl hpiece
  exact ⟨depth, declared, hspans, literals_fragments _ _ _ _ _⟩

def pathSettings : Settings where
  basename? := some "my\\new"
  translation := { mode := .posix }

def pathDocument : Document where
  resources := { entries := [("img\\new.png", .bytes [1, 2])] }
  items := [.mk (some ⟨1⟩)
    (.widget "Fl_Box" none (some "A\"b") none none (some "img\\new.png") 0 0 10 10) []]

def pathBox : Node where
  id := ⟨1⟩
  depth := 0
  scope := .file
  hasChildren := false
  hasChildWidgets := false
  body := .widget "Fl_Box" none (some "A\"b") none none (some "img\\new.png") 0 0 10 10
  resource := some (.bytes [1, 2])
  labelNumber := 1
  tooltipNumber := 0

def pathDesign : Design where
  nodes := [pathBox]
  resources := { entries := [("img\\new.png", .bytes [1, 2])] }

/-- The names of a catalog and of an image turn into others: a backslash starts an escape. -/
theorem bare_names_misread :
    Design.ofDocument pathDocument = .ok pathDesign ∧
      pathSettings.catalogLiterals = [⟨.bare, utf8 "my\\new"⟩] ∧
      pathBox.literals = [⟨.quoted, utf8 "A\"b"⟩, ⟨.bare, utf8 "img\\new.png"⟩] ∧
      ∃ generated, generate pathDesign pathSettings {} = .ok generated ∧
        utf8 "\"my\\new\"" <:+: generated.source ∧
        CString.decode? (utf8 "\"my\\new\"") = some (utf8 "my\new") ∧
        utf8 "\"img\\new.png\"" <:+: generated.source ∧
        CString.decode? (utf8 "\"img\\new.png\"") = some (utf8 "img\new.png") := by
  have hdocument : Design.ofDocument pathDocument = .ok pathDesign :=
    Design.ofDocument_of_given [⟨1⟩] #[pathBox] rfl (by simp [Design.firstRepeated?])
      (by decide) rfl
  have hplan : plan pathDesign.nodes = Forest.plan pathDesign.nodes := Plan.plan_eq_forest _
  have hcatalog : pathSettings.catalogLiterals = [⟨.bare, utf8 "my\\new"⟩] := by decide +kernel
  have hbox : pathBox.literals = [⟨.quoted, utf8 "A\"b"⟩, ⟨.bare, utf8 "img\\new.png"⟩] := rfl
  obtain ⟨generated, hgenerated, hsource, -⟩ := generate_written pathDesign pathSettings {}
  refine ⟨hdocument, hcatalog, hbox, generated, hgenerated, ?_, by decide +kernel, ?_,
    by decide +kernel⟩
  · have hstep : .prologue ∈ plan pathDesign.nodes := by
      rw [hplan]
      decide +kernel
    rw [hsource]
    exact literal_infix pathDesign pathSettings {} rfl hstep (hcatalog ▸ List.mem_singleton_self _)
  · have hstep : .write .opening pathBox ∈ plan pathDesign.nodes := by
      rw [hplan]
      decide +kernel
    have hliteral := List.mem_cons_of_mem ⟨.quoted, utf8 "A\"b"⟩
      (List.mem_singleton_self (⟨.bare, utf8 "img\\new.png"⟩ : TextLiteral))
    rw [hsource]
    exact literal_infix pathDesign pathSettings {} rfl hstep (hbox ▸ hliteral)

end Generation

end FormWeave
