import FormWeave.Design.Basic
import FormWeave.Writer.Emit
import FormWeave.Text.Blank

/-!
# The code of a node

Every node writes code at three points of a run: its setup code before the structure, its opening
code in front of its children, and its closing code behind them. Code that the user may edit stands
between a generic tag and a tag of its own, so that edits to it can be told from edits to the
structure around it.
-/

namespace FormWeave.Node

open Emit

/-- A callback that is just the name of a function is used as it is; any other is the body of a
generated function. -/
def isFunctionName (callback : String) : Bool :=
  match utf8 (Text.trim callback) with
  | [] => false
  | first :: rest =>
    !(0x30 ≤ first && first ≤ 0x39) && (first :: rest).all Identifier.isIdentByte

def callback? (node : Node) : Option String :=
  node.body.callback?.filter fun text => !Text.allBlank text

def callbackName (node : Node) : Emit String :=
  match node.body with
  | .widget _ name label .. => uniqueId (.node node.id) "cb" name label
  | .menuItem label .. => uniqueId (.node node.id) "cb" none (some label)
  | _ => uniqueId (.node node.id) "cb" none none

def writeCallbackFunction (node : Node) (callback target : String) (kind : TagKind) :
    Emit Unit := do
  if isFunctionName callback then
    discard <| headerOnce ("extern void " ++ callback ++ "(" ++ target ++ "*, void*);")
  else
    let name ← callbackName node
    source ("\nstatic void " ++ name ++ "(" ++ target ++ "* o, void* v) \x7b\n")
    tag .generic node.id
    indented callback 1 (some '\n')
    tag kind node.id
    source "\x7d\n"

def callbackExpression (node : Node) (callback : String) : Emit String :=
  if isFunctionName callback then return callback else callbackName node

def writeLabel (text : String) (number : Nat) : Emit Unit := do
  let translation ← ask (·.settings.translation)
  match translation.mode with
  | .none => string text
  | .gnu =>
    source (translation.gnuFunction ++ "(")
    string text
    source ")"
  | .posix =>
    let catalog := if translation.posixFile.isEmpty then "_catalog" else translation.posixFile
    source ("catgets(" ++ catalog ++ "," ++ translation.posixSet ++ "," ++ toString number ++ ",")
    string text
    source ")"

def imageVariable (image : String) : Emit String :=
  uniqueId (.resource image) "idata" (some image) none

/-- The statements that set up a widget behind its construction. They all use the local `o`. -/
def writeSetters (node : Node) : Emit Unit := do
  let .widget _ _ _ tooltip _ image .. := node.body | return
  forSome tooltip fun tooltip => do
    source ((← indent) ++ "o->tooltip(")
    writeLabel tooltip node.tooltipNumber
    source ");\n"
  forSome image fun image => forSome node.resource fun resource => do
    let array ← imageVariable image
    source ((← indent) ++ "o->image(new Fl_PNG_Image(\"" ++ image ++ "\", " ++ array ++ ", " ++
      toString resource.content.length ++ "));\n")
  forSome node.callback? fun callback => do
    let expression ← callbackExpression node callback
    source ((← indent) ++ "o->callback((Fl_Callback*)" ++ expression ++ ");\n")

def writeImage (image : String) (resource : Resource) : Emit Unit := do
  discard <| headerOnce "#include <FL/Fl_PNG_Image.H>"
  let array ← imageVariable image
  -- The widgets that show an image share one array.
  let known ← seen (.resource image)
  onlyIf (!known) do
    source ("static const unsigned char " ++ array ++ "[] =\n")
    initializer (some resource.content)
    source ";\n"

def writeWidgetSetup (node : Node) : Emit Unit := do
  let .widget className name _ _ _ image .. := node.body | return
  -- The variable of a widget in a class is a member, which the opening code declares.
  forSome (name.filter fun _ => node.scope != .member) fun name => do
    header ("extern " ++ className ++ " *" ++ name ++ ";\n")
    source (className ++ " *" ++ name ++ "=(" ++ className ++ " *)0;\n")
  forSome image fun image => forSome node.resource fun resource => writeImage image resource
  forSome node.callback? fun callback =>
    writeCallbackFunction node callback className .widgetCallback

/-- Whether the code of a widget uses the local `o`. The statements are tried first: a local that
nothing uses would be a compiler warning. -/
def usesLocal (node : Node) : Emit Bool :=
  if node.hasChildren then return true else writesSource (writeSetters node)

def writeLabelOrNull (label : Option String) (number : Nat) : Emit Unit :=
  match label with
  | some label => writeLabel label number
  | none => source "0"

def writeWidgetOpening (node : Node) : Emit Unit := do
  let .widget className name label _ _ _ x y w h := node.body | return
  forSome (name.filter fun _ => node.scope == .member) fun name => do
    access .pub
    header (Writer.indentAt 1 ++ className ++ " *" ++ name ++ ";\n")
  let usesLocal ← usesLocal node
  source ((← indent) ++ "\x7b ")
  let declared := if usesLocal then className ++ "* o = " else ""
  let assigned := match name with
    | some name => name ++ " = "
    | none => ""
  source (declared ++ assigned ++ "new " ++ className ++ "(")
  source (toString x ++ ", " ++ toString y ++ ", " ++ toString w ++ ", " ++ toString h ++ ", ")
  writeLabelOrNull label node.labelNumber
  source ");\n"
  indentMore
  writeSetters node

def writeWidgetClosing (node : Node) : Emit Unit := do
  let .widget className name .. := node.body | return
  onlyIf node.hasChildWidgets do source ((← indent) ++ "o->end();\n")
  indentLess
  source ((← indent) ++ "\x7d // " ++ className ++ "* " ++ name.getD "o" ++ "\n")

def writeComment (text : String) (inSource inHeader : Bool) : Emit Unit :=
  (Text.lines text).forM fun line => do
    let comment := "//" ++ (if line.isEmpty then "" else " ") ++ line ++ "\n"
    onlyIf inSource do source ((← indent) ++ comment)
    onlyIf inHeader (header comment)

def writeDeclaration (scope : NodeScope) (text : String) (visibility : Visibility) :
    Emit Unit := do
  let text := Text.trim text
  if text.isEmpty then return
  -- Include lines stand once in their file.
  if text.toList.head? == some '#' then
    discard <| if visibility == .priv then sourceOnce text else headerOnce text
    return
  match scope with
  | .member =>
    access visibility
    headerStatement (Writer.indentAt 1) text ""
  | .inner => sourceStatement (← indent) text ""
  | .file =>
    -- What others may use is declared in the header and defined in the source.
    if visibility == .priv then sourceStatement "" ("static " ++ text) ""
    else
      headerStatement "" ("extern " ++ text) ""
      sourceStatement "" text ""

def memberOf (node : Node) : Emit (Option String) :=
  if node.scope == .member then currentClass else return none

def writeFunctionHead (node : Node) (name returnType : String) (visibility : Visibility) :
    Emit Unit := do
  match ← memberOf node with
  | some owner =>
    access visibility
    header (Writer.indentAt 1 ++ returnType ++ " " ++ name ++ ";\n")
    source ("\n" ++ returnType ++ " " ++ owner ++ "::" ++ name ++ " \x7b\n")
  | none =>
    if visibility == .priv then source ("\nstatic " ++ returnType ++ " " ++ name ++ " \x7b\n")
    else
      header (returnType ++ " " ++ name ++ ";\n")
      source ("\n" ++ returnType ++ " " ++ name ++ " \x7b\n")

def writeFunctionOpening (node : Node) (name returnType : String) (visibility : Visibility) :
    Emit Unit := do
  writeFunctionHead node name (if returnType.isEmpty then "void" else returnType) visibility
  tag .generic node.id
  setIndentation 1

def writeClassOpening (node : Node) (name base : String) : Emit Unit := do
  header ("\nclass " ++ name ++ " : public " ++ base ++ " \x7b\n")
  enterClass name (some .priv)
  access .pub
  header (Writer.indentAt 1 ++ name ++ "(int X, int Y, int W, int H, const char *L = 0);\n")
  -- The widgets of the class are made in its constructor.
  source ("\n" ++ name ++ "::" ++ name ++ "(int X, int Y, int W, int H, const char *L)\n")
  source (Writer.indentAt 1 ++ ": " ++ base ++ "(X, Y, W, H, L) \x7b\n")
  tag .generic node.id
  setIndentation 1

def callbackOrNull (node : Node) : Emit String :=
  match node.callback? with
  | some callback => callbackExpression node callback
  | none => return "0"

def writeMenuItem (node : Node) (label : String) (shortcut : Option String) : Emit Unit := do
  source ((← indent) ++ "o->add(")
  writeLabel label node.labelNumber
  let callback ← callbackOrNull node
  source (", " ++ shortcut.getD "0" ++ ", (Fl_Callback*)" ++ callback ++ ");\n")

def writeDataValue (name : String) (format : DataFormat) (shared : Bool)
    (content : Option Bytes) : Emit Unit := do
  let storage := if shared then "" else "static "
  match format with
  | .binary =>
    let size := match content with
      | some bytes => toString bytes.length
      | none => ""
    let declarator := "const unsigned char " ++ name ++ "[" ++ size ++ "]"
    onlyIf shared (header ("extern " ++ declarator ++ ";\n"))
    source (storage ++ declarator ++ " =\n")
    initializer content
  | .text =>
    onlyIf shared (header ("extern const char *" ++ name ++ ";\n"))
    source (storage ++ "const char *" ++ name ++ " =\n")
    quoted content

def writeData (node : Node) (name : String) (format : DataFormat) (visibility : Visibility) :
    Emit Unit := do
  let shared := visibility != .priv && node.scope == .file
  writeDataValue name format shared (node.resource.map Resource.content)
  source ";\n"

def writeSetup (node : Node) : Emit Unit :=
  match node.body with
  | .widget .. => writeWidgetSetup node
  | .menuItem .. =>
    forSome node.callback? fun callback =>
      writeCallbackFunction node callback "Fl_Menu_" .menuCallback
  | _ => return

def writeOpening (node : Node) : Emit Unit := do
  match node.body with
  | .comment text inSource inHeader => writeComment text inSource inHeader
  | .code code =>
    tag .generic node.id
    indented code 0 (some '\n')
    tag .code node.id
  | .codeBlock opening _ =>
    source ((← indent) ++ opening ++ " \x7b\n")
    indentMore
  | .declaration text visibility => writeDeclaration node.scope text visibility
  | .function name returnType visibility => writeFunctionOpening node name returnType visibility
  | .widgetClass name base => writeClassOpening node name base
  | .widget .. => writeWidgetOpening node
  | .menuItem label shortcut _ => writeMenuItem node label shortcut
  | .data name _ format visibility => writeData node name format visibility

def writeClosing (node : Node) : Emit Unit := do
  match node.body with
  | .codeBlock _ closing =>
    indentLess
    source ((← indent) ++ "\x7d" ++ (if closing.isEmpty then "" else " " ++ closing) ++ "\n")
  | .function .. =>
    tag .generic node.id
    setIndentation 0
    source "\x7d\n"
  | .widgetClass .. =>
    source ((← indent) ++ "end();\n")
    tag .generic node.id
    setIndentation 0
    source "\x7d\n"
  | .widget .. => writeWidgetClosing node
  | _ => return

end FormWeave.Node
