import FormWeave.Writer.Emit

/-!
# The prologue

What stands above the code of the nodes: the banner of both files, the include guard and the
toolkit include of the header, and in the source the include of the header and whatever the
translation needs.
-/

namespace FormWeave

def generatorVersion : String := "0.3.0"

def banner : String := "generated by formgen version " ++ generatorVersion

/-- The macro that guards a header: each character of its name that is no ASCII letter or digit
becomes an underscore, and one is put in front unless the name starts with a letter. -/
def includeGuard (name : String) : String :=
  let cs := name.toList.map fun c => if c.isAlphanum then c else '_'
  let leads := name.toList.head?.any Char.isAlpha
  String.ofList (if leads then cs else '_' :: cs)

namespace Prologue

open Emit

/-- An include line of the source, with quotation marks unless the name has its own. -/
def writeInclude (header : String) : Emit Unit := do
  let quoted := header.toList.head? == some '<' || header.toList.head? == some '"'
  let name := if quoted then header else "\"" ++ header ++ "\""
  source ("#" ++ (← indent) ++ "include " ++ name ++ "\n")

def writeFallback (name definition : String) : Emit Unit := do
  source ("#" ++ (← indent) ++ "ifndef " ++ name ++ "\n")
  source ("#" ++ (← indentPlus 1) ++ "define " ++ definition ++ " text\n")
  source ("#" ++ (← indent) ++ "endif\n")

def writeCatalog (settings : Settings) : Emit Unit := do
  let file := settings.translation.posixFile
  if file.isEmpty then
    source "// Initialize I18N stuff now for menus...\n"
    source ("#" ++ (← indent) ++ "include <locale.h>\n")
    source "static char *_locale = setlocale(LC_MESSAGES, \"\");\n"
    source ("static nl_catd _catalog = catopen(\"" ++ settings.basename ++ "\", 0);\n")
  else source ("extern nl_catd " ++ file ++ ";\n")

def openCondition (conditional : String) : Emit Unit := do
  source ("#ifdef " ++ conditional ++ "\n")
  indentMore

def writeFallbacks (translation : Translation) : Emit Unit :=
  match translation.mode with
  | .gnu =>
    onlyIf (!translation.gnuFunction.isEmpty)
      (writeFallback translation.gnuFunction (translation.gnuFunction ++ "(text)"))
  | .posix => writeFallback "catgets" "catgets(catalog, set, msgid, text)"
  | .none => return

def closeCondition (translation : Translation) : Emit Unit := do
  source "#else\n"
  writeFallbacks translation
  indentLess
  source "#endif\n"

def writeStaticFallback (function : String) : Emit Unit := do
  source ("#ifndef " ++ function ++ "\n")
  source ("#" ++ (← indentPlus 1) ++ "define " ++ function ++ "(text) text\n")
  source "#endif\n"

def writeTranslation (settings : Settings) : Emit Unit := do
  let translation := settings.translation
  if translation.mode == .none || translation.header.isEmpty then return
  let guarded := !translation.conditional.isEmpty
  onlyIf guarded (openCondition translation.conditional)
  writeInclude translation.header
  onlyIf (translation.mode == .posix) (writeCatalog settings)
  onlyIf guarded (closeCondition translation)
  onlyIf (translation.mode == .gnu && !translation.gnuStaticFunction.isEmpty)
    (writeStaticFallback translation.gnuStaticFunction)

def write (headerName : String) (includeName : Option String) : Emit Unit := do
  let settings ← ask Writer.settings
  header ("// " ++ banner ++ "\n\n")
  source ("// " ++ banner ++ "\n\n")
  let guardName := includeGuard headerName
  header ("#ifndef " ++ guardName ++ "\n")
  header ("#define " ++ guardName ++ "\n")
  onlyIf (!settings.avoidEarlyIncludes)
    (discard <| headerOnce ("#include " ++ settings.toolkitInclude))
  forSome (includeName.filter fun _ => settings.includeHeader) fun name =>
    source ("#include \"" ++ name ++ "\"\n")
  writeTranslation settings

end Prologue

end FormWeave
