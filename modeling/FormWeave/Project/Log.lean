import FormWeave.Text.Digits
import FormWeave.Text.Printable

/-!
# Log lines

An event of a run is logged on one line: its level, a message, and fields with values. Texts are
quoted; paths, ids and numbers stand as they are.
-/

namespace FormWeave

inductive LogLevel
  | debug | info | warn
  deriving DecidableEq, Repr

inductive LogValue
  | plain (text : String)
  | quoted (text : String)
  | optional (text : Option String)
  deriving DecidableEq, Repr

structure LogEvent where
  level : LogLevel
  message : String
  fields : List (String × LogValue) := []
  deriving DecidableEq, Repr

namespace Log

def levelName : LogLevel → String
  | .debug => "DEBUG"
  | .info => " INFO"
  | .warn => " WARN"

def levelColour : LogLevel → String
  | .debug => "34"
  | .info => "32"
  | .warn => "33"

def quoteChar (c : Char) : String :=
  if c = '"' then "\\\""
  else if c = '\\' then "\\\\"
  else if c = '\n' then "\\n"
  else if c = '\r' then "\\r"
  else if c = '\t' then "\\t"
  else if c = '\x00' then "\\0"
  else if Text.isPrintable c then String.singleton c
  else "\\u\x7b" ++ Text.hex 1 c.toNat ++ "\x7d"

def quote (text : String) : String :=
  "\"" ++ String.join (text.toList.map quoteChar) ++ "\""

def renderValue : LogValue → String
  | .plain text => text
  | .quoted text => quote text
  | .optional none => "None"
  | .optional (some text) => "Some(" ++ quote text ++ ")"

def styled (code text : String) : String := "\x1b[" ++ code ++ "m" ++ text ++ "\x1b[0m"

def renderField (colour : Bool) (field : String × LogValue) : String :=
  if colour then styled "3" field.1 ++ styled "2" "=" ++ renderValue field.2
  else field.1 ++ "=" ++ renderValue field.2

def render (colour : Bool) (event : LogEvent) : String :=
  let level := levelName event.level
  let level := if colour then styled (levelColour event.level) level else level
  String.intercalate " " (level :: event.message :: event.fields.map (renderField colour)) ++ "\n"

end Log

end FormWeave
