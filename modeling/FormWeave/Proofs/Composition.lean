import FormWeave.Generation.Run
import FormWeave.Proofs.Emission

/-!
# Code is composed of operations

The code of nodes and the prologue are composed of a few operations of the writer, some of them
within dry runs. `Emit.Composed sees` says so of a computation that asks for the one-time code of
objects among those it `sees`. Such a computation does not fail, and two writers that no operation
can tell apart are not told apart by it.
-/

namespace FormWeave

namespace Emit

variable {α β : Type} {sees : ObjectId → Prop}

/-! ## 1. Operations -/

/-- The operations of a writer that code is composed of; none of them resets it. What code gets to
know of the settings does not depend on whether blocks are tagged. The objects whose one-time code
is asked for are among those that the code `sees`. -/
inductive Operation (sees : ObjectId → Prop) : {α : Type} → (Writer → α × Writer) → Prop
  | source (text : String) : Operation sees fun w => ((), w.writeSource text)
  | header (text : String) : Operation sees fun w => ((), w.writeHeader text)
  | indented (text : String) (extra : Int32) (trail : Option Char) :
    Operation sees fun w => ((), w.writeIndented text extra trail)
  | quoted (data : Option Bytes) : Operation sees fun w => ((), w.writeQuoted data)
  | initializer (data : Option Bytes) : Operation sees fun w => ((), w.writeInitializer data)
  | tag (kind : TagKind) (id : NodeId) : Operation sees fun w => ((), w.writeTag kind id)
  | headerOnce (line : String) : Operation sees fun w => w.writeHeaderOnce line
  | sourceOnce (line : String) : Operation sees fun w => w.writeSourceOnce line
  | uniqueId (owner : ObjectId) (word : String) (name label : Option String) :
    Operation sees fun w => w.uniqueId owner word name label
  | seen (object : ObjectId) (h : sees object) : Operation sees fun w => w.seen object
  | indent : Operation sees fun w => (w.indent, w)
  | indentPlus (offset : Int32) : Operation sees fun w => (w.indentPlus offset, w)
  | indentMore : Operation sees fun w => ((), w.indentMore)
  | indentLess : Operation sees fun w => ((), w.indentLess)
  | setIndentation (depth : Int32) : Operation sees fun w => ((), w.setIndentation depth)
  | enterClass (name : String) (access : Option Visibility) :
    Operation sees fun w => ((), w.enterClass name access)
  | leaveClass : Operation sees fun w => ((), w.leaveClass)
  | currentClass : Operation sees fun w => (w.currentClass, w)
  | access (level : Visibility) : Operation sees fun w => ((), w.writeAccess level)
  | configured {α : Type} (f : Settings → α) (h : ∀ s, f { s with mergeTags := false } = f s) :
    Operation sees fun w => (f w.settings, w)

inductive Composed (sees : ObjectId → Prop) : {α : Type} → Emit α → Prop
  | pure {α : Type} (a : α) : Composed sees (Pure.pure a : Emit α)
  | bind {α β : Type} {emit : Emit α} {next : α → Emit β} (h : Composed sees emit)
    (hnext : ∀ a, Composed sees (next a)) : Composed sees (emit >>= next)
  | step {α : Type} {f : Writer → α × Writer} (h : Operation sees f) : Composed sees (Emit.step f)
  | dryRun {α : Type} {emit : Emit α} (h : Composed sees emit) : Composed sees (Emit.dryRun emit)

def inDryRun (w : Writer) : Writer := { w with dryRun := true, sourceUsed := false }

def behindDryRun (outer inner : Writer) : Writer :=
  { inner with dryRun := outer.dryRun, sourceUsed := outer.sourceUsed }

theorem dryRun_apply (emit : Emit α) (w : Writer) :
    dryRun emit w =
      ((emit (inDryRun w)).1.map fun a => (a, (emit (inDryRun w)).2.sourceUsed),
        behindDryRun w (emit (inDryRun w)).2) := rfl

/-- What is composed of operations does not fail. -/
theorem Composed.run {emit : Emit α} (h : emit.Composed sees) :
    ∀ w, ∃ a, emit w = (.ok a, (emit w).2) := by
  induction h with
  | pure a => exact fun w => ⟨a, rfl⟩
  | bind _ _ ih ihnext =>
    intro w
    obtain ⟨a, ha⟩ := ih w
    rw [bind_run ha]
    exact ihnext a _
  | @step _ f => exact fun w => ⟨(f w).1, rfl⟩
  | dryRun _ ih =>
    intro w
    obtain ⟨a, ha⟩ := ih (inDryRun w)
    rw [dryRun_apply, ha]
    exact ⟨_, rfl⟩

theorem Composed.bind_state {emit : Emit α} (h : emit.Composed sees) (next : α → Emit β)
    (w : Writer) :
    ∃ a, (emit >>= next) w = next a (emit w).2 := by
  obtain ⟨a, ha⟩ := h.run w
  exact ⟨a, bind_run ha⟩

theorem Composed.mono {sees' : ObjectId → Prop} {emit : Emit α} (h : emit.Composed sees)
    (hsees : ∀ object, sees object → sees' object) : emit.Composed sees' := by
  induction h with
  | pure a => exact .pure a
  | bind _ _ ih ihnext => exact .bind ih ihnext
  | step hf =>
    refine .step ?_
    cases hf with
    | seen object h => exact .seen object (hsees object h)
    | source text => exact .source text
    | header text => exact .header text
    | indented text extra trail => exact .indented text extra trail
    | quoted data => exact .quoted data
    | initializer data => exact .initializer data
    | tag kind id => exact .tag kind id
    | headerOnce line => exact .headerOnce line
    | sourceOnce line => exact .sourceOnce line
    | uniqueId owner word name label => exact .uniqueId owner word name label
    | indent => exact .indent
    | indentPlus offset => exact .indentPlus offset
    | indentMore => exact .indentMore
    | indentLess => exact .indentLess
    | setIndentation depth => exact .setIndentation depth
    | enterClass name access => exact .enterClass name access
    | leaveClass => exact .leaveClass
    | currentClass => exact .currentClass
    | access level => exact .access level
    | configured f h => exact .configured f h
  | dryRun _ ih => exact .dryRun ih

/-! ## 2. Writers that cannot be told apart -/

/-- A relation of writers that every operation keeps, with the same answer from both, and that dry
runs may be entered and left with. -/
structure Simulation (R : Writer → Writer → Prop) : Prop where
  operation : ∀ {sees : ObjectId → Prop} {α : Type} {f : Writer → α × Writer}, Operation sees f →
    ∀ {w w' : Writer}, R w w' →
    (f w).1 = (f w').1 ∧ R (f w).2 (f w').2
  enter : ∀ {w w' : Writer}, R w w' → R (inDryRun w) (inDryRun w')
  leave : ∀ {outer outer' inner inner' : Writer}, R outer outer' → R inner inner' →
    inner.sourceUsed = inner'.sourceUsed ∧
      R (behindDryRun outer inner) (behindDryRun outer' inner')

theorem Composed.simulates {R : Writer → Writer → Prop} (hR : Simulation R) {emit : Emit α}
    (h : emit.Composed sees) :
    ∀ {w w' : Writer}, R w w' → (emit w).1 = (emit w').1 ∧ R (emit w).2 (emit w').2 := by
  induction h with
  | pure a => exact fun hw => ⟨rfl, hw⟩
  | bind hfirst _ ih ihnext =>
    intro w w' hw
    obtain ⟨hresult, hstate⟩ := ih hw
    obtain ⟨a, ha⟩ := hfirst.run w
    obtain ⟨a', ha'⟩ := hfirst.run w'
    -- Both go on with the same result.
    rw [ha, ha'] at hresult
    cases hresult
    rw [bind_run ha, bind_run ha']
    exact ihnext a hstate
  | step hf =>
    intro w w' hw
    obtain ⟨hanswer, hstate⟩ := hR.operation hf hw
    exact ⟨congrArg Except.ok hanswer, hstate⟩
  | dryRun _ ih =>
    intro w w' hw
    obtain ⟨hresult, hstate⟩ := ih (hR.enter hw)
    obtain ⟨hused, houter⟩ := hR.leave hw hstate
    rw [dryRun_apply, dryRun_apply, hresult, hused]
    exact ⟨rfl, houter⟩

/-! ## 3. Rules -/

attribute [grind ←] Composed.pure Composed.bind

@[grind ←] theorem Composed.discard {emit : Emit α} (h : emit.Composed sees) :
    (discard emit : Emit Unit).Composed sees := h.bind fun _ => .pure ()

@[grind ←] theorem Composed.onlyIf {emit : Emit Unit} (h : emit.Composed sees) (condition : Bool) :
    (onlyIf condition emit).Composed sees := by
  cases condition with
  | false => exact .pure ()
  | true => exact h

@[grind ←]
theorem Composed.forSome {emit : α → Emit Unit} (h : ∀ a, (emit a).Composed sees)
    (value? : Option α) : (forSome value? emit).Composed sees := by
  cases value? with
  | none => exact .pure ()
  | some a => exact h a

@[grind ←]
theorem Composed.forM {emit : α → Emit Unit} (h : ∀ a, (emit a).Composed sees) (list : List α) :
    (list.forM emit).Composed sees := by
  induction list with
  | nil => exact .pure ()
  | cons a rest ih => exact (h a).bind fun _ => ih

@[grind ←] theorem Composed.writesSource {emit : Emit Unit} (h : emit.Composed sees) :
    (writesSource emit).Composed sees := by
  rw [Emit.writesSource, map_eq_pure_bind]
  exact h.dryRun.bind fun _ => .pure _

@[grind ←] theorem composed_source (text : String) : (source text).Composed sees :=
  .step (.source text)

@[grind ←] theorem composed_header (text : String) : (header text).Composed sees :=
  .step (.header text)

@[grind ←] theorem composed_sourceStatement (indent code comment : String) :
    (sourceStatement indent code comment).Composed sees := composed_source _

@[grind ←] theorem composed_headerStatement (indent code comment : String) :
    (headerStatement indent code comment).Composed sees := composed_header _

@[grind ←] theorem composed_indented (text : String) (extra : Int32) (trail : Option Char) :
    (indented text extra trail).Composed sees := .step (.indented text extra trail)

@[grind ←]
theorem composed_quoted (data : Option Bytes) : (quoted data).Composed sees := .step (.quoted data)

@[grind ←] theorem composed_string (text : String) : (string text).Composed sees :=
  composed_quoted _

@[grind ←] theorem composed_initializer (data : Option Bytes) : (initializer data).Composed sees :=
  .step (.initializer data)

@[grind ←]
theorem composed_tag (kind : TagKind) (id : NodeId) : (tag kind id).Composed sees :=
  .step (.tag kind id)

@[grind ←]
theorem composed_headerOnce (line : String) : (headerOnce line).Composed sees :=
  .step (.headerOnce line)

@[grind ←]
theorem composed_sourceOnce (line : String) : (sourceOnce line).Composed sees :=
  .step (.sourceOnce line)

@[grind ←]
theorem composed_uniqueId (owner : ObjectId) (word : String) (name label : Option String) :
    (uniqueId owner word name label).Composed sees := .step (.uniqueId owner word name label)

@[grind ←] theorem composed_seen {object : ObjectId} (h : sees object) :
    (seen object).Composed sees := .step (.seen object h)

@[grind ←] theorem composed_indent : indent.Composed sees := .step .indent

@[grind ←] theorem composed_indentPlus (offset : Int32) : (indentPlus offset).Composed sees :=
  .step (.indentPlus offset)

@[grind ←] theorem composed_indentMore : indentMore.Composed sees := .step .indentMore

@[grind ←] theorem composed_indentLess : indentLess.Composed sees := .step .indentLess

@[grind ←] theorem composed_setIndentation (depth : Int32) : (setIndentation depth).Composed sees :=
  .step (.setIndentation depth)

@[grind ←] theorem composed_enterClass (name : String) (access : Option Visibility) :
    (enterClass name access).Composed sees := .step (.enterClass name access)

@[grind ←] theorem composed_leaveClass : leaveClass.Composed sees := .step .leaveClass

@[grind ←] theorem composed_currentClass : currentClass.Composed sees := .step .currentClass

@[grind ←]
theorem composed_access (level : Visibility) : (access level).Composed sees := .step (.access level)

theorem composed_configured (f : Settings → α) (h : ∀ s, f { s with mergeTags := false } = f s) :
    (ask fun w => f w.settings).Composed sees := .step (.configured f h)

/-- Settings may be asked for as a whole where it makes no difference whether blocks are tagged. -/
theorem Composed.settings {next : Settings → Emit α} (h : ∀ s, (next s).Composed sees)
    (hnext : ∀ s, next { s with mergeTags := false } = next s) :
    (ask Writer.settings >>= next).Composed sees := by
  have hask : (ask Writer.settings >>= next) =
      (ask fun w => ({ w.settings with mergeTags := false } : Settings)) >>= next := by
    funext w
    show next w.settings w = next { w.settings with mergeTags := false } w
    rw [hnext]
  -- What is asked for is now blind to the setting.
  rw [hask]
  exact (composed_configured (fun s => { s with mergeTags := false }) fun _ => rfl).bind h

end Emit

namespace Node

open Emit

variable (node : Node) {sees : ObjectId → Prop}

/-! ## 4. The code of nodes -/

/-- The image of a widget and its data, if there is a resource of that name. -/
def shown? : Option (String × Resource) :=
  match node.body with
  | .widget _ _ _ _ _ image .. => image.bind fun name => node.resource.map (name, ·)
  | _ => none

def SeesImage (sees : ObjectId → Prop) : Prop :=
  ∀ image resource, node.shown? = some (image, resource) → sees (.resource image)

@[grind ←] theorem composed_callbackName : (callbackName node).Composed sees := by
  unfold callbackName
  split <;> exact composed_uniqueId _ _ _ _

@[grind ←] theorem composed_callbackExpression (callback : String) :
    (callbackExpression node callback).Composed sees := by
  unfold callbackExpression
  grind

@[grind ←] theorem composed_callbackOrNull : (callbackOrNull node).Composed sees := by
  unfold callbackOrNull
  grind

@[grind ←] theorem composed_imageVariable (image : String) : (imageVariable image).Composed sees :=
  composed_uniqueId _ _ _ _

@[grind ←] theorem composed_writeCallbackFunction (callback target : String) (kind : TagKind) :
    (writeCallbackFunction node callback target kind).Composed sees := by
  unfold writeCallbackFunction
  grind

@[grind ←] theorem composed_writeLabel (text : String) (number : Nat) :
    (writeLabel text number).Composed sees := by
  refine (composed_configured Settings.translation fun _ => rfl).bind fun translation => ?_
  cases translation.mode <;> grind

@[grind ←] theorem composed_writeLabelOrNull (label : Option String) (number : Nat) :
    (writeLabelOrNull label number).Composed sees := by
  cases label with
  | none => exact composed_source _
  | some label => exact composed_writeLabel label number

@[grind ←] theorem composed_writeImage {image : String} (h : sees (.resource image))
    (resource : Resource) : (writeImage image resource).Composed sees := by
  unfold writeImage
  grind

@[grind ←] theorem composed_writeSetters : (writeSetters node).Composed sees := by
  unfold writeSetters
  split <;> grind

@[grind ←] theorem composed_writeWidgetSetup (h : node.SeesImage sees) :
    (writeWidgetSetup node).Composed sees := by
  unfold writeWidgetSetup
  split
  · next className name _ _ _ image _ _ _ _ hbody =>
    have himage : (forSome image fun image => forSome node.resource fun resource =>
        writeImage image resource).Composed sees := by
      cases image with
      | none => exact .pure ()
      | some image =>
        cases hresource : node.resource with
        | none => exact .pure ()
        | some resource =>
          refine composed_writeImage (h image resource ?_) resource
          rw [shown?, hbody, hresource]
          rfl
    refine (Composed.forSome (fun name => ?_) _).bind fun _ => himage.bind fun _ => ?_
    · grind
    · grind
  · exact .pure ()

@[grind ←] theorem composed_usesLocal : (usesLocal node).Composed sees := by
  unfold usesLocal
  grind

@[grind ←] theorem composed_writeWidgetOpening : (writeWidgetOpening node).Composed sees := by
  unfold writeWidgetOpening
  split
  · refine (Composed.forSome (fun name => ?_) _).bind fun _ => ?_
    · grind
    refine (composed_usesLocal node).bind fun _ => composed_indent.bind fun _ => ?_
    grind
  · exact .pure ()

@[grind ←] theorem composed_writeWidgetClosing : (writeWidgetClosing node).Composed sees := by
  unfold writeWidgetClosing
  split <;> grind

@[grind ←] theorem composed_writeComment (text : String) (inSource inHeader : Bool) :
    (writeComment text inSource inHeader).Composed sees := by
  unfold writeComment
  grind

@[grind ←] theorem composed_writeDeclaration (scope : NodeScope) (text : String)
    (visibility : Visibility) : (writeDeclaration scope text visibility).Composed sees := by
  unfold writeDeclaration
  cases scope <;> grind

@[grind ←] theorem composed_memberOf : (memberOf node).Composed sees := by
  unfold memberOf
  grind

@[grind ←] theorem composed_writeFunctionHead (name returnType : String)
    (visibility : Visibility) :
    (writeFunctionHead node name returnType visibility).Composed sees := by
  unfold writeFunctionHead
  refine (composed_memberOf node).bind fun owner => ?_
  cases owner <;> grind

@[grind ←] theorem composed_writeFunctionOpening (name returnType : String)
    (visibility : Visibility) :
    (writeFunctionOpening node name returnType visibility).Composed sees := by
  unfold writeFunctionOpening
  grind

@[grind ←] theorem composed_writeClassOpening (name base : String) :
    (writeClassOpening node name base).Composed sees := by
  unfold writeClassOpening
  grind

@[grind ←] theorem composed_writeMenuItem (label : String) (shortcut : Option String) :
    (writeMenuItem node label shortcut).Composed sees := by
  unfold writeMenuItem
  grind

@[grind ←] theorem composed_writeDataValue (name : String) (format : DataFormat) (shared : Bool)
    (content : Option Bytes) : (writeDataValue name format shared content).Composed sees := by
  unfold writeDataValue
  cases format <;> grind

@[grind ←] theorem composed_writeData (name : String) (format : DataFormat)
    (visibility : Visibility) : (writeData node name format visibility).Composed sees := by
  unfold writeData
  grind

theorem composed_writeSetup (h : node.SeesImage sees) : (writeSetup node).Composed sees := by
  unfold writeSetup
  split <;> grind

theorem composed_writeOpening : (writeOpening node).Composed sees := by
  unfold writeOpening
  cases node.body <;> grind

theorem composed_writeClosing : (writeClosing node).Composed sees := by
  unfold writeClosing
  cases node.body <;> grind

/-- On every occasion, what a node writes is composed of operations. -/
theorem composed_writeNode (phase : Phase) (h : phase = .setup → node.SeesImage sees) :
    (Generation.writeNode phase node).Composed sees := by
  cases phase with
  | setup => exact composed_writeSetup node (h rfl)
  | opening | framing => exact composed_writeOpening node
  | closing => exact composed_writeClosing node

end Node

namespace Prologue

open Emit

variable {sees : ObjectId → Prop}

/-! ## 5. The prologue -/

@[grind ←] theorem composed_writeInclude (header : String) :
    (writeInclude header).Composed sees := by
  unfold writeInclude
  grind

@[grind ←] theorem composed_writeFallback (name definition : String) :
    (writeFallback name definition).Composed sees := by
  unfold writeFallback
  grind

@[grind ←] theorem composed_writeCatalog (settings : Settings) :
    (writeCatalog settings).Composed sees := by
  unfold writeCatalog
  grind

@[grind ←] theorem composed_openCondition (conditional : String) :
    (openCondition conditional).Composed sees := by
  unfold openCondition
  grind

@[grind ←] theorem composed_writeFallbacks (translation : Translation) :
    (writeFallbacks translation).Composed sees := by
  unfold writeFallbacks
  cases translation.mode <;> grind

@[grind ←] theorem composed_closeCondition (translation : Translation) :
    (closeCondition translation).Composed sees := by
  unfold closeCondition
  grind

@[grind ←] theorem composed_writeStaticFallback (function : String) :
    (writeStaticFallback function).Composed sees := by
  unfold writeStaticFallback
  grind

@[grind ←] theorem composed_writeTranslation (settings : Settings) :
    (writeTranslation settings).Composed sees := by
  unfold writeTranslation
  grind

theorem composed_write (headerName : String) (includeName : Option String) :
    (write headerName includeName).Composed sees := by
  refine Composed.settings (fun settings => ?_) fun _ => rfl
  refine (composed_header _).bind fun _ => (composed_source _).bind fun _ => ?_
  refine (composed_header _).bind fun _ => (composed_header _).bind fun _ => ?_
  grind

end Prologue

namespace Generation

open Emit

/-! ## 6. Runs -/

def stepCode (names : HeaderNames) : Step Node → Emit Unit
  | .write phase node => writeNode phase node
  | .prologue => Prologue.write names.file names.included
  | .endClass => do
    header "\x7d;\n"
    leaveClass
  | .endGuard => header "#endif\n"

def runCode (names : HeaderNames) (nodes : List Node) : Emit Unit := do
  reset
  (plan nodes).forM (stepCode names)

def stepSees (step : Step Node) (object : ObjectId) : Prop :=
  ∃ node image resource, step = .write .setup node ∧ node.shown? = some (image, resource) ∧
    object = .resource image

theorem composed_stepCode (names : HeaderNames) (step : Step Node) :
    (stepCode names step).Composed (stepSees step) := by
  cases step with
  | write phase node =>
    refine node.composed_writeNode phase fun hsetup image resource hshown => ?_
    exact ⟨node, image, resource, by rw [hsetup], hshown, rfl⟩
  | prologue => exact Prologue.composed_write names.file names.included
  | endClass => exact (composed_header _).bind fun _ => composed_leaveClass
  | endGuard => exact composed_header _

theorem composed_steps (names : HeaderNames) (steps : List (Step Node)) :
    (steps.forM (stepCode names)).Composed fun _ => True :=
  .forM (fun step => (composed_stepCode names step).mono fun _ _ => trivial) _

/-- A run takes the steps of the plan from a writer that is reset. -/
theorem runCode_eq (names : HeaderNames) (nodes : List Node) (w : Writer) :
    runCode names nodes w = ((plan nodes).forM (stepCode names)) w.reset := by
  have hreset : reset w = (.ok (), w.reset) := rfl
  exact bind_run hreset

/-- Whether ranges are kept track of or not, a step takes the writer to the same state. -/
theorem take_run (names : HeaderNames) (track : Bool) (table : RangeTable) (step : Step Node)
    (w : Writer) : ∃ ranges, take names track writeNode table step w =
      (.ok ranges, (stepCode names step w).2) := by
  cases step with
  | write phase node =>
    have hpositions : ∀ w : Writer,
        positions w = (.ok (w.sourcePosition, w.headerPosition), w) := fun _ => rfl
    obtain ⟨a, hwrite⟩ := (composed_stepCode names (.write phase node)).run w
    -- Asking for positions leaves the writer as it is.
    have hrun : take names track writeNode table (.write phase node) w = _ :=
      (bind_run (hpositions w)).trans ((bind_run hwrite).trans (bind_run (hpositions _)))
    rw [hrun]
    split
    · exact ⟨_, rfl⟩
    · exact ⟨_, rfl⟩
  | prologue =>
    obtain ⟨a, hwrite⟩ := (composed_stepCode names .prologue).run w
    exact ⟨table, bind_run hwrite⟩
  | endClass => exact ⟨table, rfl⟩
  | endGuard => exact ⟨table, rfl⟩

theorem steps_run (names : HeaderNames) (track : Bool) (steps : List (Step Node)) :
    ∀ (table : RangeTable) (w : Writer),
      ∃ ranges, (steps.foldlM (take names track writeNode) table) w =
        (.ok ranges, ((steps.forM (stepCode names)) w).2) := by
  induction steps with
  | nil => exact fun table w => ⟨table, rfl⟩
  | cons step rest ih =>
    intro table w
    -- The tables go their own way; the states stay the same.
    obtain ⟨ranges, htake⟩ := take_run names track table step w
    obtain ⟨a, hcode⟩ := (composed_stepCode names step).bind_state
      (fun _ => rest.forM (stepCode names)) w
    have hforM : ((step :: rest).forM (stepCode names)) w =
        (rest.forM (stepCode names)) (stepCode names step w).2 := hcode
    rw [List.foldlM_cons, bind_run htake, hforM]
    exact ih ranges _

/-- A run does not fail. What it writes has nothing to do with the ranges, and it counts the nodes
whose structure is in the plan. -/
theorem runDesign_run (names : HeaderNames) (options : RunOptions) (nodes : List Node)
    (w : Writer) : ∃ ranges, runDesign names options nodes w =
      (.ok { ranges, nodesWritten := (plan nodes).countP endsNode },
        (runCode names nodes w).2) := by
  have hreset : reset w = (.ok (), w.reset) := rfl
  obtain ⟨ranges, hsteps⟩ := steps_run names options.trackRanges (plan nodes) {} w.reset
  refine ⟨ranges, ?_⟩
  rw [runCode_eq]
  exact (bind_run hreset).trans (bind_run hsteps)

end Generation

end FormWeave
