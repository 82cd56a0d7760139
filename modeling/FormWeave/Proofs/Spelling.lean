import FormWeave.Proofs.NodeFrames

/-!
# What code writes to the source

`Emit.Spells` says exactly which texts and tags a computation writes to the source. These may hold
identifiers: an owner has one identifier in a run, so they are read off any table of identifiers
that is as far as the one behind the code, and may be read off the last table of all.
-/

namespace FormWeave

/-! ## 1. Spans -/

/-- A text of the source, or a tag with whatever checksum. -/
inductive Span
  | text (bytes : Bytes)
  | tag (kind : TagKind) (id : NodeId)
  deriving DecidableEq

def Chunk.span? : Chunk → Option Span
  | .source bytes => some (.text bytes)
  | .tag t => some (.tag t.kind t.nodeId)
  | .header _ => none

def spans (chunks : List Chunk) : List Span := chunks.filterMap Chunk.span?

theorem spans_append (front back : List Chunk) : spans (front ++ back) = spans front ++ spans back :=
  List.filterMap_append

def spell (text : String) : List Span := [.text (utf8 text)]

abbrev Names := Identifiers ObjectId

/-- What the text of code depends on besides identifiers. -/
structure Context where
  settings : Settings
  preview : Bool
  depth : Int32

namespace Context

variable (context : Context)

def indent : String := Writer.indentAt context.depth

def deeper : Context := { context with depth := context.depth + 1 }

def shallower : Context := { context with depth := context.depth - 1 }

def tag (kind : TagKind) (id : NodeId) : List Span :=
  if context.settings.mergeTags then [.tag kind id] else []

def indented (code : String) (extra : Int32) (trail : Option Char) : List Span :=
  (Writer.indentedPieces (Writer.indentAt (context.depth + extra)) trail
    (Text.split '\n' code.toList)).flatMap spell

def literal (data : Bytes) (placeholder : Nat → String) (literal : Bytes) : List Span :=
  if context.preview && data.length > Writer.previewLimit then spell (placeholder data.length)
  else [.text literal]

def quoted (text : String) : List Span :=
  context.literal (utf8 text) (fun size => "\" ... " ++ toString size ++ " bytes of text... \"")
    (Literal.quoted (utf8 text) context.settings.utf8Source)

def initializer (data : Bytes) : List Span :=
  context.literal data
    (fun size => "\x7b /* ... " ++ toString size ++ " bytes of binary data... */ \x7d")
    (utf8 (Literal.initializer data))

end Context

def optionally {α : Type} (value? : Option α) (part : α → List Span) : List Span :=
  value?.elim [] part

theorem optionally_some {α : Type} (value : α) (part : α → List Span) :
    optionally (some value) part = part value := rfl

structure Writer.In (w : Writer) (context : Context) : Prop where
  settings : w.settings = context.settings
  preview : w.preview = context.preview
  indentation : w.indentation = context.depth
  live : w.dryRun = false

theorem Writer.Moved.in {w w' : Writer} {chunks : List Chunk} {shift : Int32 → Int32}
    {context : Context} (h : w.Moved shift chunks w') (hw : w.In context) :
    w'.In { context with depth := shift context.depth } where
  settings := h.settings.trans hw.settings
  preview := h.preview.trans hw.preview
  indentation := by rw [h.indentation, hw.indentation]
  live := h.dryRun.trans hw.live

namespace Emit

variable {α : Type} {context : Context} {emit next : Emit Unit} {front back : Names → List Span}

/-! ## 2. Spelling -/

/-- In `w`, `emit` writes exactly `text` to the source, for every table of names that goes on from the
identifiers behind it. -/
def SpellsAt (w : Writer) (emit : Emit Unit) (text : Names → List Span) : Prop :=
  ∃ w' chunks, emit w = (.ok (), w') ∧ w.Wrote chunks w' ∧
    ∀ names, w'.identifiers.Within names → spans chunks = text names

def Spells (context : Context) (emit : Emit Unit) (text : Names → List Span) : Prop :=
  ∀ w : Writer, w.In context → SpellsAt w emit text

variable {w : Writer} {owner : ObjectId} {word : String} {name? label : Option String}

/-- Behind code that moves the indentation, the text goes on in the new context. -/
theorem SpellsAt.bind {shift : Int32 → Int32} (hw : w.In context) (hmoves : emit.Moves shift)
    (h : SpellsAt w emit front)
    (hnext : ∀ w', emit w = (.ok (), w') → w'.In { context with depth := shift context.depth } →
      SpellsAt w' next back) :
    SpellsAt w (emit >>= fun _ => next) fun names => front names ++ back names := by
  obtain ⟨w', chunks, hrun, hwrote, hfront⟩ := h
  obtain ⟨_, _, _, hsame, hmoved⟩ := hmoves w
  rw [hrun] at hsame
  cases hsame
  obtain ⟨w'', chunks', hrun', hwrote', hback⟩ := hnext w' hrun (hmoved.in hw)
  refine ⟨w'', chunks ++ chunks', (bind_run hrun).trans hrun', hwrote.trans hwrote', ?_⟩
  intro names hnames
  dsimp only
  rw [spans_append, hfront names (hwrote'.identifiers.trans hnames), hback names hnames]

/-- The rule for a first part that leaves the indentation alone. -/
theorem SpellsAt.then (hw : w.In context) (hkeeps : emit.Keeps) (h : SpellsAt w emit front)
    (hnext : ∀ w', emit w = (.ok (), w') → w'.In context → SpellsAt w' next back) :
    SpellsAt w (emit >>= fun _ => next) fun names => front names ++ back names :=
  h.bind hw hkeeps hnext

/-- The rule for a first part that writes nothing. -/
theorem SpellsAt.skip {shift : Int32 → Int32} (hw : w.In context) (hmoves : emit.Moves shift)
    (h : SpellsAt w emit fun _ => [])
    (hnext : ∀ w', emit w = (.ok (), w') → w'.In { context with depth := shift context.depth } →
      SpellsAt w' next back) : SpellsAt w (emit >>= fun _ => next) back :=
  h.bind hw hmoves hnext

/-- An identifier is what a later table gives to its owner. -/
theorem SpellsAt.name {next : String → Emit Unit} (text : String → Names → List Span)
    (hnext : ∀ name, SpellsAt (w.uniqueId owner word name? label).2 (next name) (text name)) :
    SpellsAt w (uniqueId owner word name? label >>= next)
      fun names => text (names.allocate owner word name? label).1 names := by
  have hkept := w.kept_uniqueId owner word name? label
  obtain ⟨w', chunks, hrun, hwrote, htext⟩ := hnext _
  refine ⟨w', chunks, hrun, hkept.toWrote.trans hwrote, fun names hnames => ?_⟩
  -- The later table grew out of this one, so the owner gets the same identifier from it.
  have hsame : (w.uniqueId owner word name? label).1 =
      (names.allocate owner word name? label).1 :=
    Identifiers.allocate_eq_of_within (hwrote.identifiers.trans hnames)
  dsimp only
  rw [← hsame]
  exact htext names hnames

theorem SpellsAt.seen {object : ObjectId} {next : Bool → Emit Unit}
    (hnext : SpellsAt (w.seen object).2 (next (w.seen object).1) back) :
    SpellsAt w (seen object >>= next) back := by
  obtain ⟨w', chunks, hrun, hwrote, htext⟩ := hnext
  exact ⟨w', chunks, hrun, (w.kept_seen object).toWrote.trans hwrote, htext⟩

theorem Spells.pure : Spells context (pure ()) fun _ => [] :=
  fun w _ => ⟨w, [], rfl, .refl w, fun _ _ => rfl⟩

theorem Spells.bind {shift : Int32 → Int32} (hmoves : emit.Moves shift)
    (h : Spells context emit front)
    (hnext : Spells { context with depth := shift context.depth } next back) :
    Spells context (emit >>= fun _ => next) fun names => front names ++ back names :=
  fun w hw => (h w hw).bind hw hmoves fun w' _ hw' => hnext w' hw'

theorem Spells.then (hkeeps : emit.Keeps) (h : Spells context emit front)
    (hnext : Spells context next back) :
    Spells context (emit >>= fun _ => next) fun names => front names ++ back names :=
  h.bind hkeeps hnext

theorem Spells.skip {shift : Int32 → Int32} (hmoves : emit.Moves shift)
    (h : Spells context emit fun _ => [])
    (hnext : Spells { context with depth := shift context.depth } next back) :
    Spells context (emit >>= fun _ => next) back :=
  fun w hw => (h w hw).skip hw hmoves fun w' _ hw' => hnext w' hw'

/-- What is read off the writer is read off the context. -/
theorem Spells.ask {f : Writer → α} (value : α) {next : α → Emit Unit}
    (hvalue : ∀ w : Writer, w.In context → f w = value) (hnext : Spells context (next value) back) :
    Spells context (ask f >>= next) back := by
  intro w hw
  have hask : (Emit.ask f >>= next) w = next (f w) w := rfl
  rw [SpellsAt, hask, hvalue w hw]
  exact hnext w hw

theorem Spells.indent {next : String → Emit Unit}
    (hnext : Spells context (next context.indent) back) : Spells context (indent >>= next) back :=
  .ask _ (fun w hw => by rw [Writer.indent, hw.indentation]; rfl) hnext

theorem Spells.name {next : String → Emit Unit} (text : String → Names → List Span)
    (hnext : ∀ name, Spells context (next name) (text name)) :
    Spells context (uniqueId owner word name? label >>= next)
      fun names => text (names.allocate owner word name? label).1 names :=
  fun w hw => .name text fun name => hnext name _ ((w.kept_uniqueId owner word name? label).in hw)

theorem Spells.forSome {value? : Option α} {emit : α → Emit Unit} {text : α → Names → List Span}
    (h : ∀ a, value? = some a → Spells context (emit a) (text a)) :
    Spells context (forSome value? emit) fun names => optionally value? fun a => text a names := by
  cases value? with
  | none => exact .pure
  | some a => exact h a rfl

theorem Spells.onlyIf {condition : Bool} (h : Spells context emit front) :
    Spells context (onlyIf condition emit) fun names => if condition then front names else [] := by
  cases condition with
  | false => exact .pure
  | true => exact h

/-! ## 3. The operations -/

/-- What writes the same in every writer of a context. -/
theorem spells_update {f : Writer → Writer} {text : List Span}
    (h : ∀ w : Writer, w.In context → ∃ chunks, w.Wrote chunks (f w) ∧ spans chunks = text) :
    Spells context (update f) fun _ => text := by
  intro w hw
  obtain ⟨chunks, hwrote, hspans⟩ := h w hw
  exact ⟨f w, chunks, rfl, hwrote, fun _ _ => hspans⟩

theorem spells_source (text : String) : Spells context (source text) fun _ => spell text :=
  spells_update fun _ hw => ⟨_, (Writer.live_writeSource hw.live text).toWrote, rfl⟩

theorem spells_header (text : String) : Spells context (header text) fun _ => [] :=
  spells_update fun _ hw => ⟨_, Writer.live_writeHeader hw.live text, rfl⟩

theorem spells_indentMore : Spells context indentMore fun _ => [] :=
  spells_update fun _ _ => ⟨[], ⟨rfl, rfl, rfl, .refl _, (List.append_nil _).symm⟩, rfl⟩

theorem spells_indentLess : Spells context indentLess fun _ => [] :=
  spells_update fun _ _ => ⟨[], ⟨rfl, rfl, rfl, .refl _, (List.append_nil _).symm⟩, rfl⟩

theorem spells_access (level : Visibility) : Spells context (access level) fun _ => [] := by
  refine spells_update fun w hw => ?_
  -- In a class the header gets a line at most, and outside of classes it gets none.
  cases hscope : w.classScope with
  | none =>
    rw [Writer.writeAccess, hw.live, if_neg Bool.false_ne_true, hscope]
    exact ⟨[], .refl w, rfl⟩
  | some scope =>
    obtain ⟨chunks, hkept, hchunks, -⟩ := Writer.writeAccess_in_class hw.live hscope level
    refine ⟨chunks, hkept.toWrote, ?_⟩
    rcases hchunks with rfl | rfl <;> rfl

theorem spells_headerOnce (line : String) :
    Spells context (discard (headerOnce line) : Emit Unit) fun _ => [] := by
  intro w _
  obtain ⟨texts, hwrote⟩ := w.wrote_writeHeaderOnce line
  refine ⟨_, _, rfl, hwrote, fun _ _ => ?_⟩
  rw [spans, List.filterMap_map]
  exact List.filterMap_eq_nil_iff.2 fun _ _ => rfl

theorem spells_tag (kind : TagKind) (id : NodeId) :
    Spells context (tag kind id) fun _ => context.tag kind id := by
  refine spells_update fun w hw => ?_
  rw [Writer.writeTag, hw.live, if_neg Bool.false_ne_true, Context.tag, ← hw.settings]
  split
  · exact ⟨_, (w.kept_putTag _ _).toWrote, rfl⟩
  · exact ⟨[], ⟨rfl, rfl, rfl, .refl _, (List.append_nil _).symm⟩, rfl⟩

theorem wrote_sources (pieces : List String) :
    ∀ {w : Writer}, w.dryRun = false →
      ∃ chunks, w.Wrote chunks (pieces.foldl Writer.writeSource w) ∧
        spans chunks = pieces.flatMap spell := by
  induction pieces with
  | nil => exact fun _ => ⟨[], .refl _, rfl⟩
  | cons piece rest ih =>
    intro w hlive
    have hpiece := Writer.live_writeSource hlive piece
    obtain ⟨chunks, hwrote, hspans⟩ := ih (hpiece.dryRun.trans hlive)
    refine ⟨_, hpiece.toWrote.trans hwrote, ?_⟩
    rw [spans_append, hspans]
    rfl

theorem spells_indented (code : String) (extra : Int32) (trail : Option Char) :
    Spells context (indented code extra trail) fun _ => context.indented code extra trail := by
  refine spells_update fun w hw => ?_
  rw [Writer.writeIndented, Writer.indentPlus, hw.indentation]
  exact wrote_sources _ hw.live

/-- A literal of known data. -/
theorem wrote_literal {w : Writer} (hw : w.In context) (data : Bytes) (unknownPreview : String)
    (longPreview : Nat → String) (unknown unknownLiteral : String) (literal : Bytes → Bytes) :
    ∃ chunks, w.Wrote chunks
        (w.writeLiteral (some data) unknownPreview longPreview unknown unknownLiteral literal) ∧
      spans chunks = context.literal data longPreview (literal data) := by
  rw [Writer.writeLiteral, Writer.unlessDry, hw.live, if_neg Bool.false_ne_true, Context.literal,
    ← hw.preview]
  dsimp only
  split
  · exact ⟨_, (w.kept_putSource _).toWrote, rfl⟩
  · exact ⟨_, (w.kept_putSource _).toWrote, rfl⟩

theorem spells_string (text : String) :
    Spells context (string text) fun _ => context.quoted text := by
  refine spells_update fun w hw => ?_
  rw [Writer.writeQuoted, hw.settings]
  exact wrote_literal hw ..

theorem spells_initializer (data : Bytes) :
    Spells context (initializer (some data)) fun _ => context.initializer data := by
  refine spells_update fun w hw => ?_
  rw [Writer.writeInitializer]
  exact wrote_literal hw ..

end Emit

end FormWeave
