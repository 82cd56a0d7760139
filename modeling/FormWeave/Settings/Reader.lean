import FormWeave.Format.Error
import FormWeave.Settings.Basic
import FormWeave.Toml.Parser

/-!
# Reading settings

Settings are a TOML table. Every key has a default, and values are never converted. Unknown keys are
skipped, as long as the numbers below them can be read.
-/

namespace FormWeave.Settings.Reader

open Toml

def text : Value → Except FormatError String
  | .string t => .ok t
  | _ => .error (.expected "a string")

def bool : Value → Except FormatError Bool
  | .bool b => .ok b
  | _ => .error (.expected "a boolean")

def modeOfName (name : String) : Except FormatError TranslationMode :=
  match name with
  | "none" => .ok .none
  | "gnu" => .ok .gnu
  | "posix" => .ok .posix
  | _ => .error (.unknownName name)

/-- A translation mode: its name, or a table with the name as its only key and nothing in it. -/
def mode : Value → Except FormatError TranslationMode
  | .string name => modeOfName name
  | .table _ [(name, .table _ [])] | .table _ [(name, .array [])] => modeOfName name
  | _ => .error (.expected "a translation mode")

def get {α : Type} (entries : Entries) (key : String) (read : Value → Except FormatError α)
    (default : α) : Except FormatError α :=
  match entries.lookup key with
  | some value => read value
  | none => .ok default

def skipUnknown (known : List String) (entries : Entries) : Except FormatError Unit :=
  if entries.all fun (key, value) => known.contains key || value.isReadable then .ok ()
  else .error .numberOutOfRange

def translationKeys : List String :=
  ["mode", "gnu_include", "gnu_conditional", "gnu_function", "gnu_static_function",
    "posix_include", "posix_conditional", "posix_file", "posix_set"]

def translationOf (entries : Entries) : Except FormatError Translation := do
  skipUnknown translationKeys entries
  let defaults : Translation := {}
  return {
    mode := ← get entries "mode" mode defaults.mode
    gnuInclude := ← get entries "gnu_include" text defaults.gnuInclude
    gnuConditional := ← get entries "gnu_conditional" text defaults.gnuConditional
    gnuFunction := ← get entries "gnu_function" text defaults.gnuFunction
    gnuStaticFunction := ← get entries "gnu_static_function" text defaults.gnuStaticFunction
    posixInclude := ← get entries "posix_include" text defaults.posixInclude
    posixConditional := ← get entries "posix_conditional" text defaults.posixConditional
    posixFile := ← get entries "posix_file" text defaults.posixFile
    posixSet := ← get entries "posix_set" text defaults.posixSet }

/-- The translation settings: a table, or an array with the values of its keys in order. What such
an array holds behind those is not looked at. A date or a time is read as a table without any of
the keys. -/
def translation : Value → Except FormatError Translation
  | .table _ entries => translationOf entries
  | .array items => translationOf (translationKeys.zip items)
  | .tables last earlier =>
    translationOf (translationKeys.zip ((last :: earlier).reverse.map (.table .header)))
  | .datetime => translationOf []
  | _ => .error (.expected "a table")

def settingsKeys : List String :=
  ["design", "basename", "source_file_name", "header_file_name", "include_header_from_source",
    "avoid_early_includes", "toolkit_include", "write_mergeback_data", "utf8_in_source", "i18n"]

def settings (entries : Entries) : Except FormatError Settings := do
  skipUnknown settingsKeys entries
  let defaults : Settings := {}
  return {
    design := ← get entries "design" text defaults.design
    basename? := ← get entries "basename" (fun v => some <$> text v) none
    sourceName := ← get entries "source_file_name" text defaults.sourceName
    headerName := ← get entries "header_file_name" text defaults.headerName
    includeHeader := ← get entries "include_header_from_source" bool defaults.includeHeader
    avoidEarlyIncludes := ← get entries "avoid_early_includes" bool defaults.avoidEarlyIncludes
    toolkitInclude := ← get entries "toolkit_include" text defaults.toolkitInclude
    mergeTags := ← get entries "write_mergeback_data" bool defaults.mergeTags
    utf8Source := ← get entries "utf8_in_source" bool defaults.utf8Source
    translation := ← get entries "i18n" translation defaults.translation }

end FormWeave.Settings.Reader

namespace FormWeave.Settings

def parse (text : String) : Except FormatError Settings :=
  match Toml.parse? text with
  | some entries => Reader.settings entries
  | none => .error .malformed

end FormWeave.Settings
