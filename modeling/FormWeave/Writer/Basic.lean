import FormWeave.Checksum.Running
import FormWeave.Literal.Initializer
import FormWeave.Literal.Quoted
import FormWeave.Once
import FormWeave.Settings.Basic
import FormWeave.Text.Split

/-!
# The code writer

A `Writer` is the state of a generation run: what was written so far, chunk by chunk in order, the
checksum of the open block, and the tables that keep identifiers and one-time code apart. All text
of the source goes through `Writer.putSource`, which also feeds the checksum; tags go around it.

During a dry run nothing is written. It only finds out whether anything would be written to the
source.
-/

namespace FormWeave

inductive Visibility
  | priv | pub | prot
  deriving DecidableEq, Repr, Inhabited

def Visibility.keyword : Visibility → String
  | .priv => "private"
  | .pub => "public"
  | .prot => "protected"

structure ClassScope where
  name : String
  access : Option Visibility
  deriving DecidableEq, Repr

inductive Chunk
  | source (bytes : Bytes)
  | tag (tag : Tag)
  | header (bytes : Bytes)
  deriving DecidableEq, Repr

namespace Chunk

def sourceBytes : Chunk → Bytes
  | source bytes => bytes
  | tag t => t.line
  | header _ => []

def headerBytes : Chunk → Bytes
  | header bytes => bytes
  | source _ | tag _ => []

def untagged : Chunk → Bytes
  | source bytes => bytes
  | tag _ | header _ => []

def tag? : Chunk → Option Tag
  | tag t => some t
  | source _ | header _ => none

end Chunk

structure Writer where
  settings : Settings
  preview : Bool := false
  output : Array Chunk := #[]
  sourcePosition : Nat := 0
  headerPosition : Nat := 0
  identifiers : Identifiers ObjectId := {}
  declarations : Declarations := {}
  objects : Objects := {}
  checksum : Checksum.Running := {}
  /-- The depth of the indentation. It wraps around. -/
  indentation : Int32 := 0
  dryRun : Bool := false
  /-- Whether the dry run came to something that is written to the source. -/
  sourceUsed : Bool := false
  classScope : Option ClassScope := none

namespace Writer

def previewLimit : Nat := 300

def maxIndent : Nat := 32

def indentAt (depth : Int32) : String :=
  String.ofList (List.replicate (min (2 * depth.toInt).toNat maxIndent) ' ')

def source (w : Writer) : Bytes := w.output.toList.flatMap Chunk.sourceBytes

def header (w : Writer) : Bytes := w.output.toList.flatMap Chunk.headerBytes

def untaggedSource (w : Writer) : Bytes := w.output.toList.flatMap Chunk.untagged

def tags (w : Writer) : List Tag := w.output.toList.filterMap Chunk.tag?

def blockChecksum (w : Writer) : UInt32 := w.checksum.value

def indent (w : Writer) : String := indentAt w.indentation

def indentPlus (w : Writer) (offset : Int32) : String := indentAt (w.indentation + offset)

def putSource (w : Writer) (bytes : Bytes) : Writer :=
  { w with
    output := w.output.push (.source bytes)
    sourcePosition := w.sourcePosition + bytes.length
    checksum := if w.settings.mergeTags then w.checksum.add bytes else w.checksum }

def putHeader (w : Writer) (bytes : Bytes) : Writer :=
  { w with
    output := w.output.push (.header bytes)
    headerPosition := w.headerPosition + bytes.length }

def putTag (w : Writer) (tag : Tag) : Writer :=
  -- A tag belongs to no block, so no checksum has it.
  { w with
    output := w.output.push (.tag tag)
    sourcePosition := w.sourcePosition + tag.line.length }

def markUsed (w : Writer) : Writer := { w with sourceUsed := true }

/-- Does `write`, or just notes the use in a dry run. -/
def unlessDry (w : Writer) (write : Writer → Writer) : Writer :=
  if w.dryRun then w.markUsed else write w

def writeSource (w : Writer) (text : String) : Writer := w.unlessDry (·.putSource (utf8 text))

def writeHeader (w : Writer) (text : String) : Writer :=
  if w.dryRun then w else w.putHeader (utf8 text)

/-- One statement on a line: `;` is added unless the code ends in `;` or a closing brace, and a
comment follows if there is one. -/
def statementLine (indent code comment : String) : String :=
  let closed := code.toList.getLast? == some ';' || code.toList.getLast? == some '\x7d'
  indent ++ code ++ (if closed then "" else ";") ++
    (if comment.isEmpty then "" else " " ++ comment) ++ "\n"

def writeSourceStatement (w : Writer) (indent code comment : String) : Writer :=
  w.writeSource (statementLine indent code comment)

def writeHeaderStatement (w : Writer) (indent code comment : String) : Writer :=
  w.writeHeader (statementLine indent code comment)

def indentedLine (indent : String) (line : List Char) : List String :=
  if line.isEmpty then []
  -- A preprocessor line stands at the margin.
  else if line.head? == some '#' then [String.ofList line]
  else [indent ++ String.ofList line]

/-- The pieces in which lines of code are written: line feeds stand between lines, and `trail`
behind the last one. -/
def indentedPieces (indent : String) (trail : Option Char) : List (List Char) → List String
  | [] => []
  | [line] => indentedLine indent line ++ (trail.map String.singleton).toList
  | line :: lines => indentedLine indent line ++ "\n" :: indentedPieces indent trail lines

def writeIndented (w : Writer) (text : String) (extra : Int32) (trail : Option Char) : Writer :=
  (indentedPieces (w.indentPlus extra) trail (Text.split '\n' text.toList)).foldl writeSource w

/-- Writes the literal for `data`, if known. In a preview, unknown and long data is replaced by a
placeholder; in a real run, unknown data becomes an error for the compiler. -/
def writeLiteral (w : Writer) (data : Option Bytes) (unknownPreview : String)
    (longPreview : Nat → String) (unknown unknownLiteral : String) (literal : Bytes → Bytes) :
    Writer :=
  w.unlessDry fun w =>
    match data with
    | none =>
      if w.preview then w.putSource (utf8 unknownPreview)
      else (w.putSource (utf8 unknown)).putSource (utf8 unknownLiteral)
    | some bytes =>
      if w.preview && bytes.length > previewLimit then w.putSource (utf8 (longPreview bytes.length))
      else w.putSource (literal bytes)

def writeQuoted (w : Writer) (text : Option Bytes) : Writer :=
  w.writeLiteral text "\" ... text... \""
    (fun size => "\" ... " ++ toString size ++ " bytes of text... \"")
    "\n#error  string not found\n" "\" ... undefined size text... \""
    (Literal.quoted · w.settings.utf8Source)

def writeInitializer (w : Writer) (data : Option Bytes) : Writer :=
  w.writeLiteral data "\x7b /* ... binary data... */ \x7d"
    (fun size => "\x7b /* ... " ++ toString size ++ " bytes of binary data... */ \x7d")
    "\n#error  data not found\n" "\x7b /* ... undefined size binary data... */ \x7d"
    (fun bytes => utf8 (Literal.initializer bytes))

/-- Closes the open block: writes a tag with its checksum if blocks are tagged, and starts the next
block. -/
def writeTag (w : Writer) (kind : TagKind) (id : NodeId) : Writer :=
  if w.dryRun then w
  else
    let tagged :=
      if w.settings.mergeTags then w.putTag { kind, nodeId := id, checksum := w.blockChecksum }
      else w
    -- The next block starts here, tagged or not.
    { tagged with checksum := {} }

def writeHeaderOnce (w : Writer) (line : String) : Bool × Writer :=
  if w.dryRun then (false, w)
  else
    let (isNew, declarations) := w.declarations.claim .header line
    let w := { w with declarations }
    if isNew then (true, (w.putHeader (utf8 line)).putHeader (utf8 "\n")) else (false, w)

/-- Writes a line to the source unless it stands there or in the header. Says whether it was
written. -/
def writeSourceOnce (w : Writer) (line : String) : Bool × Writer :=
  if w.dryRun then (false, w.markUsed)
  else
    let (isNew, declarations) := w.declarations.claim .source line
    let w := { w with declarations }
    if isNew then (true, (w.putSource (utf8 line)).putSource (utf8 "\n")) else (false, w)

def uniqueId (w : Writer) (owner : ObjectId) (word : String) (name label : Option String) :
    String × Writer :=
  let (text, identifiers) := w.identifiers.allocate owner word name label
  (text, { w with identifiers })

def seen (w : Writer) (object : ObjectId) : Bool × Writer :=
  let (known, objects) := w.objects.see object
  (known, { w with objects })

def indentMore (w : Writer) : Writer := { w with indentation := w.indentation + 1 }

def indentLess (w : Writer) : Writer := { w with indentation := w.indentation - 1 }

def setIndentation (w : Writer) (depth : Int32) : Writer := { w with indentation := depth }

def enterClass (w : Writer) (name : String) (access : Option Visibility) : Writer :=
  { w with classScope := some { name, access } }

def leaveClass (w : Writer) : Writer := { w with classScope := none }

def currentClass (w : Writer) : Option String := w.classScope.map (·.name)

def writeAccess (w : Writer) (access : Visibility) : Writer :=
  if w.dryRun then w
  else
    match w.classScope with
    | none => w
    | some scope =>
      -- A level stays in force up to the next one.
      if scope.access = some access then w
      else
        ({ w with classScope := some { scope with access := some access } }).writeHeader
          (access.keyword ++ ":\n")

def reset (w : Writer) : Writer :=
  -- What was written stays.
  { w with
    identifiers := {}, declarations := {}, objects := {}, checksum := {}, indentation := 0
    classScope := none }

end Writer

end FormWeave
