import FormWeave.Path

/-!
# Project settings

What a project can configure, the defaults, and the names of the generated files that follow from
the settings.
-/

namespace FormWeave

inductive TranslationMode
  | none
  | gnu
  /-- Labels are looked up in a message catalog by number. -/
  | posix
  deriving DecidableEq, Repr, Inhabited

structure Translation where
  mode : TranslationMode := .none
  gnuInclude : String := "<libintl.h>"
  /-- A macro that guards the gettext include, if not empty. -/
  gnuConditional : String := ""
  gnuFunction : String := "gettext"
  gnuStaticFunction : String := "gettext_noop"
  posixInclude : String := "<nl_types.h>"
  posixConditional : String := ""
  /-- The catalog opened elsewhere; if empty, the generated code opens its own. -/
  posixFile : String := ""
  posixSet : String := "1"
  deriving DecidableEq, Repr, Inhabited

namespace Translation

def header (t : Translation) : String :=
  match t.mode with
  | .gnu => t.gnuInclude
  | .none | .posix => t.posixInclude

def conditional (t : Translation) : String :=
  match t.mode with
  | .gnu => t.gnuConditional
  | .none | .posix => t.posixConditional

end Translation

structure Settings where
  design : String := "design.json"
  /-- What the generated files and the catalog are named after; the design if missing. -/
  basename? : Option String := none
  /-- The source file; a name that starts with a dot is an extension. -/
  sourceName : String := ".cxx"
  headerName : String := ".h"
  includeHeader : Bool := true
  /-- Whether the header leaves out the toolkit include. -/
  avoidEarlyIncludes : Bool := false
  toolkitInclude : String := "<FL/Fl.H>"
  /-- Whether generated blocks are closed by tags, so that edits can be merged back. -/
  mergeTags : Bool := false
  utf8Source : Bool := false
  translation : Translation := {}
  deriving DecidableEq, Repr, Inhabited

namespace Settings

def basename (s : Settings) : String :=
  match s.basename? with
  | some name => if name.isEmpty then fromDesign else name
  | none => fromDesign
where
  fromDesign := (Path.fileStem? s.design).getD "design"

def isExtension (name : String) : Bool :=
  name.toList.head? == some '.' && !name.toList.contains '/'

def fileName (s : Settings) (name : String) : String :=
  if isExtension name then s.basename ++ name else name

def sourceFile (s : Settings) : String := s.fileName s.sourceName

def headerFile (s : Settings) : String := s.fileName s.headerName

/-- The name by which the source includes a header file called `header`: that name if only an
extension is configured, else the name as configured. -/
def includeName (s : Settings) (header : String) : String :=
  if isExtension s.headerName then header else s.headerName

end Settings

end FormWeave
