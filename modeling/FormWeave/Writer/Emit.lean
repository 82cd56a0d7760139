import FormWeave.Writer.Basic

/-!
# Emission

`Emit α` is a computation that writes code: it runs on a `Writer`, and it may fail in the middle,
with what it has written so far staying written. The operations are those of the writer.
-/

namespace FormWeave

inductive FileFault
  | notFound
  | isDirectory
  | notDirectory
  | busy
  | nameTooLong
  /-- The path holds a character that no path can hold, or what it leads to is not made for the
  operation. -/
  | invalid
  | noSpace
  | invalidData
  | other
  deriving DecidableEq, Repr, Inhabited

def FileFault.message : FileFault → String
  | notFound => "No such file or directory"
  | isDirectory => "Is a directory"
  | notDirectory => "Not a directory"
  | busy => "Device or resource busy"
  | nameTooLong => "File name too long"
  | invalid => "Invalid argument"
  | noSpace => "No space left on device"
  | invalidData => "the content is not valid UTF-8"
  | other => "the operation failed"

abbrev Emit := ExceptT FileFault (StateM Writer)

namespace Emit

def update (f : Writer → Writer) : Emit Unit := modify f

def ask {α : Type} (f : Writer → α) : Emit α := do return f (← get)

def step {α : Type} (f : Writer → α × Writer) : Emit α := modifyGet f

def onlyIf (condition : Bool) (emit : Emit Unit) : Emit Unit := if condition then emit else return

def forSome {α : Type} (value? : Option α) (emit : α → Emit Unit) : Emit Unit :=
  match value? with
  | some value => emit value
  | none => return

def source (text : String) : Emit Unit := update (·.writeSource text)

def header (text : String) : Emit Unit := update (·.writeHeader text)

def sourceStatement (indent code comment : String) : Emit Unit :=
  update (·.writeSourceStatement indent code comment)

def headerStatement (indent code comment : String) : Emit Unit :=
  update (·.writeHeaderStatement indent code comment)

def indented (text : String) (extra : Int32) (trail : Option Char) : Emit Unit :=
  update (·.writeIndented text extra trail)

def quoted (text : Option Bytes) : Emit Unit := update (·.writeQuoted text)

def string (text : String) : Emit Unit := quoted (some (utf8 text))

def initializer (data : Option Bytes) : Emit Unit := update (·.writeInitializer data)

def tag (kind : TagKind) (id : NodeId) : Emit Unit := update (·.writeTag kind id)

def headerOnce (line : String) : Emit Bool := step (·.writeHeaderOnce line)

def sourceOnce (line : String) : Emit Bool := step (·.writeSourceOnce line)

def uniqueId (owner : ObjectId) (word : String) (name label : Option String) : Emit String :=
  step (·.uniqueId owner word name label)

def seen (object : ObjectId) : Emit Bool := step (·.seen object)

def indent : Emit String := ask Writer.indent

def indentPlus (offset : Int32) : Emit String := ask (·.indentPlus offset)

def indentMore : Emit Unit := update Writer.indentMore

def indentLess : Emit Unit := update Writer.indentLess

def setIndentation (depth : Int32) : Emit Unit := update (·.setIndentation depth)

def enterClass (name : String) (access : Option Visibility) : Emit Unit :=
  update (·.enterClass name access)

def leaveClass : Emit Unit := update Writer.leaveClass

def currentClass : Emit (Option String) := ask Writer.currentClass

def access (level : Visibility) : Emit Unit := update (·.writeAccess level)

def reset : Emit Unit := update Writer.reset

/-- Runs `emit` without writing anything. Besides its result, says whether it would write to the
source. The state of an enclosing dry run is taken up again, also if `emit` fails. -/
def dryRun {α : Type} (emit : Emit α) : Emit (α × Bool) := fun outer =>
  let (result, inner) := emit { outer with dryRun := true, sourceUsed := false }
  (result.map fun value => (value, inner.sourceUsed),
    { inner with dryRun := outer.dryRun, sourceUsed := outer.sourceUsed })

def writesSource (emit : Emit Unit) : Emit Bool := Prod.snd <$> dryRun emit

end Emit

end FormWeave
