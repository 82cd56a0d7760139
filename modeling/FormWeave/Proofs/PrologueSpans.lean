import FormWeave.Proofs.Spelling

/-!
# The source of the prologue

The prologue of the source, text by text: the banner, the include of the header, and what the
translation needs. If a macro guards the header of the translation, all of this stands one level
deeper, with fallbacks behind it.
-/

namespace FormWeave

namespace Emit

variable {context : Context} {back : Names → List Span}

theorem Spells.indentPlus {offset : Int32} {next : String → Emit Unit}
    (hnext : Spells context (next (Writer.indentAt (context.depth + offset))) back) :
    Spells context (indentPlus offset >>= next) back :=
  .ask _ (fun w hw => by rw [Writer.indentPlus, hw.indentation]) hnext

end Emit

namespace Prologue

open Emit

variable (context : Context)

/-! ## 1. Parts -/

def includeSpans (header : String) : List Span :=
  let quoted := header.toList.head? == some '<' || header.toList.head? == some '"'
  spell ("#" ++ context.indent ++ "include " ++ (if quoted then header else "\"" ++ header ++ "\"") ++
    "\n")

def fallbackSpans (name definition : String) : List Span :=
  spell ("#" ++ context.indent ++ "ifndef " ++ name ++ "\n") ++
    (spell ("#" ++ context.deeper.indent ++ "define " ++ definition ++ " text\n") ++
      spell ("#" ++ context.indent ++ "endif\n"))

def localeSpans : List Span :=
  spell "// Initialize I18N stuff now for menus...\n" ++
    (spell ("#" ++ context.indent ++ "include <locale.h>\n") ++
      spell "static char *_locale = setlocale(LC_MESSAGES, \"\");\n")

def catalogSpans (settings : Settings) : List Span :=
  let file := settings.translation.posixFile
  if file.isEmpty then
    localeSpans context ++
      spell ("static nl_catd _catalog = catopen(\"" ++ settings.basename ++ "\", 0);\n")
  else spell ("extern nl_catd " ++ file ++ ";\n")

def fallbacksSpans (translation : Translation) : List Span :=
  match translation.mode with
  | .gnu =>
    if !translation.gnuFunction.isEmpty then
      fallbackSpans context translation.gnuFunction (translation.gnuFunction ++ "(text)")
    else []
  | .posix => fallbackSpans context "catgets" "catgets(catalog, set, msgid, text)"
  | .none => []

def closeSpans (translation : Translation) : List Span :=
  spell "#else\n" ++ (fallbacksSpans context translation ++ spell "#endif\n")

def staticFallbackSpans (function : String) : List Span :=
  spell ("#ifndef " ++ function ++ "\n") ++
    (spell ("#" ++ context.deeper.indent ++ "define " ++ function ++ "(text) text\n") ++
      spell "#endif\n")

def inside (translation : Translation) : Context :=
  if translation.conditional.isEmpty then context else context.deeper

def headerSpans (translation : Translation) : List Span :=
  (if !translation.conditional.isEmpty then spell ("#ifdef " ++ translation.conditional ++ "\n")
    else []) ++ includeSpans (inside context translation) translation.header

def fallbackPart (translation : Translation) : List Span :=
  (if !translation.conditional.isEmpty then closeSpans (inside context translation) translation
    else []) ++
  (if translation.mode == .gnu && !translation.gnuStaticFunction.isEmpty then
    staticFallbackSpans context translation.gnuStaticFunction
  else [])

def translationSpans (settings : Settings) : List Span :=
  let translation := settings.translation
  if translation.mode == .none || translation.header.isEmpty then []
  else
    headerSpans context translation ++
      ((if translation.mode == .posix then catalogSpans (inside context translation) settings
        else []) ++ fallbackPart context translation)

def bannerSpans (includeName : Option String) : List Span :=
  spell ("// " ++ banner ++ "\n\n") ++
    (optionally (includeName.filter fun _ => context.settings.includeHeader) fun name =>
      spell ("#include \"" ++ name ++ "\"\n"))

/-- The source in front of the code of the nodes. -/
def sourceSpans (includeName : Option String) : List Span :=
  bannerSpans context includeName ++ translationSpans context context.settings

/-! ## 2. Spelling the parts -/

variable {context}

theorem spells_writeInclude (header : String) :
    Spells context (writeInclude header) fun _ => includeSpans context header :=
  .indent (spells_source _)

theorem spells_writeFallback (name definition : String) :
    Spells context (writeFallback name definition) fun _ => fallbackSpans context name definition := by
  refine .indent (.then (keeps_source _) (spells_source _) ?_)
  exact .indentPlus (.then (keeps_source _) (spells_source _) (.indent (spells_source _)))

theorem spells_writeCatalog (settings : Settings) :
    Spells context (writeCatalog settings) fun _ => catalogSpans context settings := by
  unfold writeCatalog catalogSpans localeSpans
  dsimp only
  split
  · simp only [List.append_assoc]
    refine .then (keeps_source _) (spells_source _) (.indent ?_)
    refine .then (keeps_source _) (spells_source _) ?_
    exact .then (keeps_source _) (spells_source _) (spells_source _)
  · exact spells_source _

theorem spells_writeFallbacks (translation : Translation) :
    Spells context (writeFallbacks translation) fun _ => fallbacksSpans context translation := by
  unfold writeFallbacks fallbacksSpans
  cases translation.mode with
  | none => exact .pure
  | gnu => exact .onlyIf (spells_writeFallback _ _)
  | posix => exact spells_writeFallback _ _

theorem spells_closeCondition (translation : Translation) :
    Spells context (closeCondition translation) fun _ => closeSpans context translation := by
  refine .then (keeps_source _) (spells_source _) ?_
  refine .then (keeps_writeFallbacks _) (spells_writeFallbacks _) ?_
  exact .skip moves_indentLess spells_indentLess (spells_source _)

theorem moves_closeCondition (translation : Translation) :
    (closeCondition translation).Moves (· - 1) :=
  (keeps_source _).then fun _ => (keeps_writeFallbacks _).then fun _ =>
    moves_indentLess.bind fun _ => keeps_source _

theorem spells_openCondition (conditional : String) :
    Spells context (openCondition conditional) fun _ => spell ("#ifdef " ++ conditional ++ "\n") := by
  have h : Spells context (openCondition conditional)
      fun _ => spell ("#ifdef " ++ conditional ++ "\n") ++ [] :=
    .then (keeps_source _) (spells_source _) spells_indentMore
  simpa only [List.append_nil] using h

theorem moves_openCondition (conditional : String) : (openCondition conditional).Moves (· + 1) :=
  (keeps_source _).then fun _ => moves_indentMore

theorem spells_writeStaticFallback (function : String) :
    Spells context (writeStaticFallback function) fun _ => staticFallbackSpans context function := by
  refine .then (keeps_source _) (spells_source _) ?_
  exact .indentPlus (.then (keeps_source _) (spells_source _) (spells_source _))

/-- One level deeper and back is where the code was. -/
theorem deeper_shallower :
    { context.deeper with depth := context.deeper.depth - 1 } = context := by
  have hdepth : context.depth + 1 - 1 = context.depth := Int32.add_sub_cancel _ _
  show { context with depth := context.depth + 1 - 1 } = context
  rw [hdepth]

theorem spells_writeTranslation (settings : Settings) :
    Spells context (writeTranslation settings) fun _ => translationSpans context settings := by
  unfold writeTranslation translationSpans headerSpans fallbackPart inside
  dsimp only
  split
  · exact .pure
  simp only [List.append_assoc]
  cases settings.translation.conditional.isEmpty with
  | true =>
    refine .then (.pure ()) .pure ?_
    refine .then (keeps_writeInclude _) (spells_writeInclude _) ?_
    refine .then (.onlyIf (keeps_writeCatalog _) _) (.onlyIf (spells_writeCatalog _)) ?_
    exact .then (.pure ()) .pure (.onlyIf (spells_writeStaticFallback _))
  | false =>
    -- The header and the catalog stand one level deeper, and the fallbacks lead back.
    refine .bind (moves_openCondition _) (spells_openCondition _) ?_
    refine .then (keeps_writeInclude _) (spells_writeInclude _) ?_
    refine .then (.onlyIf (keeps_writeCatalog _) _) (.onlyIf (spells_writeCatalog _)) ?_
    refine .bind (moves_closeCondition _) (spells_closeCondition _) ?_
    have hback := @deeper_shallower context
    unfold Context.deeper at hback
    dsimp only at hback ⊢
    rw [hback]
    exact .onlyIf (spells_writeStaticFallback _)

theorem spells_write (headerName : String) (includeName : Option String) :
    Spells context (write headerName includeName) fun _ => sourceSpans context includeName := by
  unfold sourceSpans bannerSpans
  simp only [List.append_assoc]
  refine .ask context.settings (fun w hw => hw.settings) ?_
  refine .skip (keeps_header (Headed.append (.append (by decide) _) _).silent) (spells_header _) ?_
  refine .then (keeps_source _) (spells_source _) ?_
  refine .skip (keeps_header (Headed.append (.append (by decide) _) _).silent) (spells_header _) ?_
  refine .skip (keeps_header (Headed.append (.append (by decide) _) _).silent) (spells_header _) ?_
  -- The guard and the toolkit include go to the header.
  have hinclude : (discard (headerOnce ("#include " ++ context.settings.toolkitInclude)) :
      Emit Unit).Keeps := .discard (keeps_headerOnce (Headed.append (by decide) _).silent)
  refine .skip (Keeps.onlyIf hinclude _) ?_ ?_
  · cases !context.settings.avoidEarlyIncludes with
    | false => exact .pure
    | true => exact spells_headerOnce _
  exact .then (.forSome (fun _ => keeps_source _) _) (.forSome fun _ _ => spells_source _)
    (spells_writeTranslation _)

end Prologue

end FormWeave
