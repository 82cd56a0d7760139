import FormWeave.Proofs.Composition

/-!
# Code that is unaware of a change

Only literals depend on whether a preview is written, and only identifiers and one-time code on
the tables. All other operations read and write other parts of a writer, so they come to the same
if the mode or the tables are changed behind their back: it makes no difference whether the writer
is changed in front of them or behind them. `Emit.Unaware` says so of code.
-/

namespace FormWeave

/-- A change of the mode and the tables of a writer. -/
structure Override where
  preview : Bool → Bool := id
  identifiers : Identifiers ObjectId → Identifiers ObjectId := id
  objects : Objects → Objects := id

namespace Writer

variable (w : Writer) (change : Override)

def override : Writer :=
  { w with
    preview := change.preview w.preview
    identifiers := change.identifiers w.identifiers
    objects := change.objects w.objects }

/-! ## 1. Operations on a changed writer -/

theorem unlessDry_override {write : Writer → Writer}
    (h : (write (w.override change)) = (write w).override change) :
    (w.override change).unlessDry write = (w.unlessDry write).override change := by
  unfold unlessDry
  rw [h, show (w.override change).dryRun = w.dryRun from rfl]
  split <;> rfl

theorem writeSource_override (text : String) :
    (w.override change).writeSource text = (w.writeSource text).override change :=
  w.unlessDry_override change rfl

theorem writeHeader_override (text : String) :
    (w.override change).writeHeader text = (w.writeHeader text).override change := by
  unfold writeHeader
  rw [show (w.override change).dryRun = w.dryRun from rfl]
  split <;> rfl

theorem writeIndented_override (text : String) (extra : Int32) (trail : Option Char) :
    (w.override change).writeIndented text extra trail =
      (w.writeIndented text extra trail).override change := by
  have hindent : (w.override change).indentPlus extra = w.indentPlus extra := rfl
  rw [writeIndented, writeIndented, hindent]
  generalize indentedPieces (w.indentPlus extra) trail (Text.split '\n' text.toList) = pieces
  induction pieces generalizing w with
  | nil => rfl
  | cons piece rest ih => rw [List.foldl_cons, List.foldl_cons, writeSource_override, ih _ rfl]

/-- Unless the mode stays as it is, a literal must be written in full in both. -/
theorem writeLiteral_override (data : Option Bytes) (unknownPreview : String)
    (longPreview : Nat → String) (unknown unknownLiteral : String) (literal : Bytes → Bytes)
    (h : change.preview = id ∨ ∃ bytes, data = some bytes ∧ bytes.length ≤ previewLimit) :
    (w.override change).writeLiteral data unknownPreview longPreview unknown unknownLiteral
        literal =
      (w.writeLiteral data unknownPreview longPreview unknown unknownLiteral literal).override
        change := by
  refine w.unlessDry_override change ?_
  rcases h with hsame | ⟨bytes, rfl, hshort⟩
  · have hpreview : (w.override change).preview = w.preview := congrFun hsame w.preview
    rw [hpreview]
    cases data with
    | none => dsimp only; split <;> rfl
    | some bytes => dsimp only; split <;> rfl
  · -- Short data is written in full in a preview, too.
    have hfull : ∀ preview : Bool, (preview && bytes.length > previewLimit) = false := by
      intro preview
      rw [Bool.and_eq_false_iff, decide_eq_false_iff_not]
      exact Or.inr (by omega)
    simp only [hfull]
    rfl

theorem writeTag_override (kind : TagKind) (id : NodeId) :
    (w.override change).writeTag kind id = (w.writeTag kind id).override change := by
  unfold writeTag
  rw [show (w.override change).dryRun = w.dryRun from rfl,
    show (w.override change).settings = w.settings from rfl]
  split
  · rfl
  · split <;> rfl

theorem writeHeaderOnce_override (line : String) :
    (w.override change).writeHeaderOnce line =
      ((w.writeHeaderOnce line).1, (w.writeHeaderOnce line).2.override change) := by
  unfold writeHeaderOnce
  rw [show (w.override change).dryRun = w.dryRun from rfl,
    show (w.override change).declarations = w.declarations from rfl]
  split
  · rfl
  · dsimp only
    split <;> rfl

theorem writeSourceOnce_override (line : String) :
    (w.override change).writeSourceOnce line =
      ((w.writeSourceOnce line).1, (w.writeSourceOnce line).2.override change) := by
  unfold writeSourceOnce
  rw [show (w.override change).dryRun = w.dryRun from rfl,
    show (w.override change).declarations = w.declarations from rfl]
  split
  · rfl
  · dsimp only
    split <;> rfl

theorem writeAccess_override (level : Visibility) :
    (w.override change).writeAccess level = (w.writeAccess level).override change := by
  unfold writeAccess
  rw [show (w.override change).dryRun = w.dryRun from rfl,
    show (w.override change).classScope = w.classScope from rfl]
  split
  · rfl
  cases w.classScope with
  | none => rfl
  | some scope =>
    dsimp only
    split
    · rfl
    · let scope' : Option ClassScope := some { scope with access := some level }
      exact writeHeader_override { w with classScope := scope' } change _

end Writer

namespace Emit

variable {α β : Type} {change : Override}

/-! ## 2. Code on a changed writer -/

/-- The code comes to the same result on a changed writer, and leaves it changed in the same way. -/
def Unaware (change : Override) (emit : Emit α) : Prop :=
  ∀ w, emit (w.override change) = ((emit w).1, (emit w).2.override change)

@[grind ←] theorem Unaware.pure (a : α) : Unaware change (pure a : Emit α) := fun _ => rfl

@[grind ←] theorem Unaware.bind {emit : Emit α} {next : α → Emit β} (h : Unaware change emit)
    (hnext : ∀ a, Unaware change (next a)) : Unaware change (emit >>= next) := by
  intro w
  rw [bind_apply, bind_apply, h w]
  cases emit w with
  | mk result inner =>
    cases result with
    | ok a => exact hnext a inner
    | error fault => rfl

theorem Unaware.dryRun {emit : Emit α} (h : Unaware change emit) :
    Unaware change (dryRun emit) := by
  intro w
  have hinner : inDryRun (w.override change) = (inDryRun w).override change := rfl
  rw [dryRun_apply, dryRun_apply, hinner, h]
  rfl

@[grind ←] theorem Unaware.writesSource {emit : Emit Unit} (h : Unaware change emit) :
    Unaware change (writesSource emit) := by
  rw [Emit.writesSource, map_eq_pure_bind]
  exact h.dryRun.bind fun _ => .pure _

@[grind ←] theorem Unaware.discard {emit : Emit α} (h : Unaware change emit) :
    Unaware change (discard emit : Emit Unit) := h.bind fun _ => .pure ()

@[grind ←] theorem Unaware.onlyIf {emit : Emit Unit} (h : Unaware change emit)
    (condition : Bool) : Unaware change (onlyIf condition emit) := by
  cases condition with
  | false => exact .pure ()
  | true => exact h

@[grind ←] theorem Unaware.forSome {emit : α → Emit Unit} {value? : Option α}
    (h : ∀ a, value? = some a → Unaware change (emit a)) :
    Unaware change (forSome value? emit) := by
  cases value? with
  | none => exact .pure ()
  | some a => exact h a rfl

@[grind ←] theorem Unaware.forM {emit : α → Emit Unit} {list : List α}
    (h : ∀ a ∈ list, Unaware change (emit a)) : Unaware change (list.forM emit) := by
  induction list with
  | nil => exact .pure ()
  | cons a rest ih =>
    rw [List.forall_mem_cons] at h
    exact h.1.bind fun _ => ih h.2

/-! ## 3. Operations -/

theorem unaware_ask {f : Writer → α} (h : ∀ w : Writer, f (w.override change) = f w) :
    Unaware change (ask f) :=
  fun w => congrArg (fun a : α => (Except.ok a, w.override change)) (h w)

theorem unaware_update {f : Writer → Writer}
    (h : ∀ w : Writer, f (w.override change) = (f w).override change) :
    Unaware change (update f) := 
  fun w => congrArg (fun inner : Writer => (Except.ok (), inner)) (h w)

theorem unaware_step {f : Writer → α × Writer}
    (h : ∀ w : Writer, f (w.override change) = ((f w).1, (f w).2.override change)) :
    Unaware change (step f) :=
  fun w => congrArg (fun pair : α × Writer => (Except.ok pair.1, pair.2)) (h w)

@[grind ←] theorem unaware_source (text : String) : Unaware change (source text) :=
  unaware_update fun w => w.writeSource_override change text

@[grind ←] theorem unaware_header (text : String) : Unaware change (header text) :=
  unaware_update fun w => w.writeHeader_override change text

@[grind ←] theorem unaware_sourceStatement (indent code comment : String) :
    Unaware change (sourceStatement indent code comment) := unaware_source _

@[grind ←] theorem unaware_headerStatement (indent code comment : String) :
    Unaware change (headerStatement indent code comment) := unaware_header _

@[grind ←] theorem unaware_indented (text : String) (extra : Int32) (trail : Option Char) :
    Unaware change (indented text extra trail) :=
  unaware_update fun w => w.writeIndented_override change text extra trail

theorem unaware_quoted {data : Option Bytes}
    (h : change.preview = id ∨ ∃ bytes, data = some bytes ∧ bytes.length ≤ Writer.previewLimit) :
    Unaware change (quoted data) :=
  unaware_update fun w => w.writeLiteral_override change data _ _ _ _ _ h

theorem unaware_initializer {data : Option Bytes}
    (h : change.preview = id ∨ ∃ bytes, data = some bytes ∧ bytes.length ≤ Writer.previewLimit) :
    Unaware change (initializer data) :=
  unaware_update fun w => w.writeLiteral_override change data _ _ _ _ _ h

@[grind ←] theorem unaware_tag (kind : TagKind) (id : NodeId) : Unaware change (tag kind id) :=
  unaware_update fun w => w.writeTag_override change kind id

@[grind ←] theorem unaware_headerOnce (line : String) : Unaware change (headerOnce line) :=
  unaware_step fun w => w.writeHeaderOnce_override change line

@[grind ←] theorem unaware_sourceOnce (line : String) : Unaware change (sourceOnce line) :=
  unaware_step fun w => w.writeSourceOnce_override change line

@[grind ←] theorem unaware_access (level : Visibility) : Unaware change (access level) :=
  unaware_update fun w => w.writeAccess_override change level

@[grind ←] theorem unaware_indent : Unaware change indent := unaware_ask fun _ => rfl

@[grind ←] theorem unaware_indentPlus (offset : Int32) : Unaware change (indentPlus offset) :=
  unaware_ask fun _ => rfl

@[grind ←] theorem unaware_indentMore : Unaware change indentMore := unaware_update fun _ => rfl

@[grind ←] theorem unaware_indentLess : Unaware change indentLess := unaware_update fun _ => rfl

@[grind ←] theorem unaware_setIndentation (depth : Int32) :
    Unaware change (setIndentation depth) := unaware_update fun _ => rfl

@[grind ←] theorem unaware_enterClass (name : String) (level : Option Visibility) :
    Unaware change (enterClass name level) := unaware_update fun _ => rfl

@[grind ←] theorem unaware_leaveClass : Unaware change leaveClass := unaware_update fun _ => rfl

@[grind ←] theorem unaware_currentClass : Unaware change currentClass := unaware_ask fun _ => rfl

theorem unaware_configured (f : Settings → α) : Unaware change (ask fun w => f w.settings) :=
  unaware_ask fun _ => rfl

/-- Identifiers are given out alike if the table stays as it is. -/
theorem unaware_uniqueId (h : change.identifiers = id) (owner : ObjectId) (word : String)
    (name label : Option String) : Unaware change (uniqueId owner word name label) := by
  refine unaware_step fun w => ?_
  have htable : (w.override change).identifiers = w.identifiers := congrFun h w.identifiers
  have hkept (ids : Identifiers ObjectId) : change.identifiers ids = ids := congrFun h ids
  simp only [Writer.uniqueId, htable]
  simp only [Writer.override, hkept]

theorem unaware_seen (h : change.objects = id) (object : ObjectId) :
    Unaware change (seen object) := by
  refine unaware_step fun w => ?_
  have htable : (w.override change).objects = w.objects := congrFun h w.objects
  have hkept (known : Objects) : change.objects known = known := congrFun h known
  simp only [Writer.seen, htable]
  simp only [Writer.override, hkept]

end Emit

end FormWeave
