import FormWeave.Design.Basic
import FormWeave.Generation.Prologue
import FormWeave.Text.Digits

/-!
# Translation catalogs

Every label and tooltip of a design in the form the translation mode asks for: one text per line,
pairs for gettext, or the numbered messages of a message catalog. Every byte outside printable ASCII
and the quotation mark is written as an octal escape of three digits.
-/

namespace FormWeave

namespace Literal

def messageByte (byte : UInt8) : String :=
  if byte < 32 || byte > 126 || byte == 34 then "\\" ++ Text.octal 3 byte.toNat
  else String.singleton (Char.ofNat byte.toNat)

def message (text : String) : String := String.join ((utf8 text).map messageByte)

end Literal

structure Catalog where
  count : Nat
  content : String
  deriving DecidableEq, Repr

namespace Catalog

def texts {ν : Type} [DesignNode ν] (nodes : List ν) : List String :=
  (nodes.filter fun node => (DesignNode.kind node).isWidget).flatMap fun node =>
    (DesignNode.label node).toList ++ (DesignNode.tooltip node).toList

def head (translation : Translation) : String :=
  match translation.mode with
  | .none | .gnu => "# " ++ banner ++ "\n"
  | .posix => "$ " ++ banner ++ "\n$set " ++ translation.posixSet ++ "\n$quote \"\n"

def entry (mode : TranslationMode) (number : Nat) (text : String) : String :=
  let message := Literal.message text
  match mode with
  | .none => message ++ "\n"
  | .gnu => "msgid \"" ++ message ++ "\"\nmsgstr \"" ++ message ++ "\"\n"
  | .posix => toString number ++ " \"" ++ message ++ "\"\n"

def entries (mode : TranslationMode) : (number : Nat) → List String → List String
  | _, [] => []
  | number, text :: rest => entry mode number text :: entries mode (number + 1) rest

def ofNodes {ν : Type} [DesignNode ν] (nodes : List ν) (translation : Translation) : Catalog :=
  let found := texts nodes
  { count := found.length
    content := head translation ++ String.join (entries translation.mode 1 found) }

end Catalog

end FormWeave
