import FormWeave.Generation.Run

/-!
# Scripts

A call of a writer as data, with its reply. A scripted node is a node of a design tree whose code
is written by lists of calls; a run over scripted nodes keeps record of the replies.
-/

namespace FormWeave

inductive Call
  | source (text : String)
  | header (text : String)
  | sourceStatement (indent code comment : String)
  | headerStatement (indent code comment : String)
  | indented (text : String) (extra : Int32) (trail : Option Char)
  | quoted (text : Option Bytes)
  | initializer (data : Option Bytes)
  | tag (kind : TagKind) (id : NodeId)
  | headerOnce (line : String)
  | sourceOnce (line : String)
  | uniqueId (owner : ObjectId) (word : String) (name label : Option String)
  | seen (object : ObjectId)
  | indentMore
  | indentLess
  | setIndentation (depth : Int32)
  | indent
  | indentPlus (offset : Int32)
  | enterClass (name : String) (access : Option Visibility)
  | leaveClass
  | currentClass
  | access (level : Visibility)
  | dryRun (calls : List Call)
  | flags
  | reset
  | fail
  deriving Repr, Inhabited

inductive Reply
  | nothing
  | flag (value : Bool)
  | text (value : String)
  | optionalText (value : Option String)
  | dryRun (used : Bool) (replies : List Reply)
  | flags (preview mergeTags dryRun : Bool) (basename : String)
  deriving Repr, Inhabited

mutual
def Call.run : Call → Emit Reply
  | .source text => do Emit.source text; return .nothing
  | .header text => do Emit.header text; return .nothing
  | .sourceStatement lead code comment => do
    Emit.sourceStatement lead code comment
    return .nothing
  | .headerStatement lead code comment => do
    Emit.headerStatement lead code comment
    return .nothing
  | .indented text extra trail => do Emit.indented text extra trail; return .nothing
  | .quoted text => do Emit.quoted text; return .nothing
  | .initializer data => do Emit.initializer data; return .nothing
  | .tag kind id => do Emit.tag kind id; return .nothing
  | .headerOnce line => Reply.flag <$> Emit.headerOnce line
  | .sourceOnce line => Reply.flag <$> Emit.sourceOnce line
  | .uniqueId owner word name label => Reply.text <$> Emit.uniqueId owner word name label
  | .seen object => Reply.flag <$> Emit.seen object
  | .indentMore => do Emit.indentMore; return .nothing
  | .indentLess => do Emit.indentLess; return .nothing
  | .setIndentation depth => do Emit.setIndentation depth; return .nothing
  | .indent => Reply.text <$> Emit.indent
  | .indentPlus offset => Reply.text <$> Emit.indentPlus offset
  | .enterClass name level => do Emit.enterClass name level; return .nothing
  | .leaveClass => do Emit.leaveClass; return .nothing
  | .currentClass => Reply.optionalText <$> Emit.currentClass
  | .access level => do Emit.access level; return .nothing
  | .dryRun calls => do
    let (replies, used) ← Emit.dryRun (runAll calls)
    return .dryRun used replies
  | .flags => Emit.ask fun w =>
    .flags w.preview w.settings.mergeTags w.dryRun w.settings.basename
  | .reset => do Emit.reset; return .nothing
  | .fail => throw .other

def Call.runAll : List Call → Emit (List Reply)
  | [] => return []
  | call :: rest => do return (← call.run) :: (← runAll rest)
end

structure ScriptedNode where
  id : NodeId
  depth : Nat
  kind : NodeKind
  label : Option String := none
  tooltip : Option String := none
  takesCode : Bool := false
  takesCallback : Bool := false
  setup : List Call := []
  opening : List Call := []
  closing : List Call := []
  code : Option String := none
  callback : Option String := none
  deriving Repr, Inhabited

instance : DesignNode ScriptedNode where
  id := ScriptedNode.id
  depth := ScriptedNode.depth
  kind := ScriptedNode.kind
  label := ScriptedNode.label
  tooltip := ScriptedNode.tooltip
  setCode? node text := if node.takesCode then some { node with code := some text } else none
  setCallback? node text :=
    if node.takesCallback then some { node with callback := some text } else none

namespace ScriptedNode

def calls (node : ScriptedNode) : Phase → List Call
  | .setup => node.setup
  | .opening | .framing => node.opening
  | .closing => node.closing

structure Entry where
  node : NodeId
  phase : Phase
  reply : Reply

abbrev Recorded := ExceptT FileFault (StateM (Writer × List Entry))

instance : MonadLift Emit Recorded where
  monadLift emit := fun (writer, record) =>
    let (result, writer) := emit writer
    (result, writer, record)

def note (entry : Entry) : Recorded Unit := fun (writer, record) =>
  (.ok (), writer, entry :: record)

def write (phase : Phase) (node : ScriptedNode) : Recorded Unit :=
  (node.calls phase).forM fun call => do
    let reply ← call.run
    note { node := node.id, phase, reply }

/-- Generates the code of scripted nodes. The replies are listed also if a call fails. -/
def generate (nodes : List ScriptedNode) (settings : Settings) (options : RunOptions) :
    Except FileFault Generated × List Entry :=
  let run : Recorded Report :=
    Generation.run (Generation.configuredNames settings) options.trackRanges write nodes
  let (result, writer, record) := run (Generation.start settings options, [])
  (result.map (Generated.ofWriter writer), record.reverse)

end ScriptedNode

end FormWeave
