import FormWeave.Proofs.DryRuns
import FormWeave.Proofs.IdentifierTable

/-!
# What code leaves alone

Code adds to what was written and to the identifiers, and leaves the settings and the mode of the
writer alone. Most code also ends at the indentation it started at and within the class that was
being declared. `Emit.Moves` says so, with what becomes of the indentation, and with the access
level that is in force: it is the last one that was written to the header.
-/

namespace FormWeave

/-! ## 1. Access levels in the header -/

def Visibility.line (level : Visibility) : String := level.keyword ++ ":\n"

def Chunk.access? : Chunk → Option Visibility
  | .header bytes => [.priv, .pub, .prot].find? fun level => bytes = utf8 level.line
  | .source _ | .tag _ => none

def lastAccess (chunks : List Chunk) : Option Visibility :=
  (chunks.filterMap Chunk.access?).getLast?

theorem lastAccess_append (front back : List Chunk) :
    lastAccess (front ++ back) = (lastAccess back).or (lastAccess front) := by
  rw [lastAccess, List.filterMap_append, List.getLast?_append]
  rfl

/-- A text that is no access line, as a piece of the header. -/
def Silent (text : String) : Prop := (Chunk.header (utf8 text)).access? = none

instance (text : String) : Decidable (Silent text) := inferInstanceAs (Decidable (_ = _))

theorem lastAccess_silent {text : String} (h : Silent text) :
    lastAccess [.header (utf8 text)] = none := by
  rw [lastAccess, List.filterMap_cons_none h]
  rfl

theorem silent_of_ne {text : String} (h : ∀ level : Visibility, utf8 text ≠ utf8 level.line) :
    Silent text := by
  rw [Silent, Chunk.access?, List.find?_eq_none]
  intro level _
  simpa using h level

def Headed (text : String) : Prop := (utf8 text).head?.any (· != 0x70) = true

instance (text : String) : Decidable (Headed text) := inferInstanceAs (Decidable (_ = _))

theorem Headed.append {text : String} (h : Headed text) (back : String) :
    Headed (text ++ back) := by
  rw [Headed, utf8_append, List.head?_append]
  unfold Headed at h
  cases hhead : (utf8 text).head? with
  | none =>
    rw [hhead] at h
    cases h
  | some byte =>
    rw [hhead] at h
    exact h

theorem Headed.silent {text : String} (h : Headed text) : Silent text := by
  refine silent_of_ne fun level heq => ?_
  rw [Headed, heq] at h
  -- All access lines start with a `p`.
  cases level <;> exact absurd h (by decide)

/-- An access line ends in a colon, so a text that ends otherwise is none. -/
theorem silent_append {back : String}
    (h : (utf8 back).reverse[1]?.any (· != 0x3a) = true) (front : String) :
    Silent (front ++ back) := by
  refine silent_of_ne fun level heq => ?_
  -- The byte in front of the last one tells them apart.
  have hback : (utf8 back).reverse[1]? = (utf8 level.line).reverse[1]? := by
    rw [← heq, utf8_append, List.reverse_append, List.getElem?_append_left]
    by_contra hshort
    rw [List.getElem?_eq_none (Nat.le_of_not_lt hshort)] at h
    cases h
  rw [hback] at h
  cases level <;> exact absurd h (by decide)

theorem headed_of_hash {text : String} (h : (text.toList.head? == some '#') = true) :
    Headed text := by
  have hhead := beq_iff_eq.1 h
  rw [Headed, utf8]
  cases hlist : text.toList with
  | nil =>
    rw [hlist] at hhead
    cases hhead
  | cons c rest =>
    rw [hlist] at hhead
    cases hhead
    have hbyte : (String.utf8EncodeChar '#').head? = some 0x23 := by decide
    rw [List.flatMap_cons, List.head?_append, hbyte]
    rfl

def ClassScope.behind (scope : ClassScope) (chunks : List Chunk) : ClassScope :=
  { scope with access := (lastAccess chunks).or scope.access }

theorem ClassScope.behind_append (scope : ClassScope) (front back : List Chunk) :
    scope.behind (front ++ back) = (scope.behind front).behind back := by
  rw [behind, behind, behind, lastAccess_append, Option.or_assoc]

theorem ClassScope.behind_silent {chunks : List Chunk} (h : lastAccess chunks = none)
    (scope : ClassScope) : scope.behind chunks = scope := by
  rw [behind, h]
  rfl

namespace Writer

/-! ## 2. What writing adds -/

/-- `w'` has written `chunks` more than `w`, and has given out more identifiers. -/
structure Wrote (w : Writer) (chunks : List Chunk) (w' : Writer) : Prop where
  settings : w'.settings = w.settings
  preview : w'.preview = w.preview
  dryRun : w'.dryRun = w.dryRun
  identifiers : w.identifiers.Within w'.identifiers
  output : w'.output.toList = w.output.toList ++ chunks

/-- `w'` goes on from `w` within the same class, with the indentation moved by `shift`. -/
structure Moved (shift : Int32 → Int32) (w : Writer) (chunks : List Chunk) (w' : Writer) : Prop
    extends w.Wrote chunks w' where
  indentation : w'.indentation = shift w.indentation
  classScope : w'.classScope = w.classScope.map (·.behind chunks)

abbrev Kept (w : Writer) (chunks : List Chunk) (w' : Writer) : Prop := w.Moved (fun k => k) chunks w'

variable {w w' w'' : Writer} {chunks front back : List Chunk} {shift shift' : Int32 → Int32}

theorem Wrote.trans (h : w.Wrote front w') (h' : w'.Wrote back w'') :
    w.Wrote (front ++ back) w'' where
  settings := h'.settings.trans h.settings
  preview := h'.preview.trans h.preview
  dryRun := h'.dryRun.trans h.dryRun
  identifiers := h.identifiers.trans h'.identifiers
  output := by rw [h'.output, h.output, List.append_assoc]

theorem Moved.trans (h : w.Moved shift front w') (h' : w'.Moved shift' back w'') :
    w.Moved (fun k => shift' (shift k)) (front ++ back) w'' where
  toWrote := h.toWrote.trans h'.toWrote
  indentation := by rw [h'.indentation, h.indentation]
  classScope := by
    rw [h'.classScope, h.classScope, Option.map_map]
    congr 1
    funext scope
    exact (scope.behind_append front back).symm

theorem Wrote.refl (w : Writer) : w.Wrote [] w :=
  ⟨rfl, rfl, rfl, .refl _, (List.append_nil _).symm⟩

theorem Wrote.kept (h : w.Wrote chunks w') (hindentation : w'.indentation = w.indentation)
    (hscope : w'.classScope = w.classScope) (hsilent : lastAccess chunks = none) :
    w.Kept chunks w' where
  toWrote := h
  indentation := hindentation
  classScope := by
    have hid : (·.behind chunks) = (id : ClassScope → ClassScope) :=
      funext (ClassScope.behind_silent hsilent)
    rw [hscope, hid, Option.map_id]
    rfl

theorem Moved.refl (w : Writer) : w.Kept [] w := (Wrote.refl w).kept rfl rfl rfl

theorem wrote_push {w' : Writer} (chunk : Chunk) (hsettings : w'.settings = w.settings)
    (hpreview : w'.preview = w.preview) (hdry : w'.dryRun = w.dryRun)
    (hids : w'.identifiers = w.identifiers) (houtput : w'.output = w.output.push chunk) :
    w.Wrote [chunk] w' :=
  ⟨hsettings, hpreview, hdry, hids ▸ .refl _, by rw [houtput, Array.toList_push]⟩

/-- What has nothing to do with the output may change. -/
theorem kept_change {w' : Writer} (hsettings : w'.settings = w.settings)
    (hpreview : w'.preview = w.preview) (hdry : w'.dryRun = w.dryRun)
    (hids : w'.identifiers = w.identifiers) (houtput : w'.output = w.output)
    (hindentation : w'.indentation = w.indentation) (hscope : w'.classScope = w.classScope) :
    w.Kept [] w' :=
  Wrote.kept ⟨hsettings, hpreview, hdry, hids ▸ .refl _, by rw [houtput, List.append_nil]⟩
    hindentation hscope rfl

theorem kept_putSource (w : Writer) (bytes : Bytes) :
    w.Kept [.source bytes] (w.putSource bytes) := by
  have hwrote : w.Wrote [.source bytes] (w.putSource bytes) := wrote_push _ rfl rfl rfl rfl rfl
  exact hwrote.kept rfl rfl rfl

theorem wrote_putHeader (w : Writer) (bytes : Bytes) :
    w.Wrote [.header bytes] (w.putHeader bytes) := wrote_push (.header bytes) rfl rfl rfl rfl rfl

theorem kept_putHeader (w : Writer) {text : String} (h : Silent text) :
    w.Kept [.header (utf8 text)] (w.putHeader (utf8 text)) :=
  (w.wrote_putHeader _).kept rfl rfl (lastAccess_silent h)

theorem live_writeSource {w : Writer} (h : w.dryRun = false) (text : String) :
    w.Kept [.source (utf8 text)] (w.writeSource text) := by
  rw [writeSource, unlessDry, h, if_neg Bool.false_ne_true]
  exact w.kept_putSource _

theorem live_writeHeader {w : Writer} (h : w.dryRun = false) (text : String) :
    w.Wrote [.header (utf8 text)] (w.writeHeader text) := by
  rw [writeHeader, h, if_neg Bool.false_ne_true]
  exact w.wrote_putHeader _

theorem live_writeHeader_silent {w : Writer} (h : w.dryRun = false) {text : String}
    (hsilent : Silent text) : w.Kept [.header (utf8 text)] (w.writeHeader text) := by
  rw [writeHeader, h, if_neg Bool.false_ne_true]
  exact w.kept_putHeader hsilent

theorem kept_markUsed (w : Writer) : w.Kept [] w.markUsed :=
  kept_change rfl rfl rfl rfl rfl rfl rfl

theorem kept_unlessDry {write : Writer → Writer} (h : ∃ chunks, w.Kept chunks (write w)) :
    ∃ chunks, w.Kept chunks (w.unlessDry write) := by
  unfold unlessDry
  split
  · exact ⟨[], w.kept_markUsed⟩
  · exact h

theorem kept_writeSource (w : Writer) (text : String) :
    ∃ chunks, w.Kept chunks (w.writeSource text) := kept_unlessDry ⟨_, w.kept_putSource _⟩

theorem kept_writeSources (pieces : List String) :
    ∀ w : Writer, ∃ chunks, w.Kept chunks (pieces.foldl writeSource w) := by
  induction pieces with
  | nil => exact fun w => ⟨[], .refl w⟩
  | cons piece rest ih =>
    intro w
    obtain ⟨front, hfront⟩ := w.kept_writeSource piece
    obtain ⟨back, hback⟩ := ih (w.writeSource piece)
    exact ⟨_, hfront.trans hback⟩

theorem wrote_writeHeader (w : Writer) (text : String) :
    ∃ chunks, w.Wrote chunks (w.writeHeader text) := by
  unfold writeHeader
  split
  · exact ⟨[], .refl w⟩
  · exact ⟨_, w.wrote_putHeader _⟩

theorem kept_writeHeader (w : Writer) {text : String} (h : Silent text) :
    ∃ chunks, w.Kept chunks (w.writeHeader text) := by
  unfold writeHeader
  split
  · exact ⟨[], .refl w⟩
  · exact ⟨_, w.kept_putHeader h⟩

theorem kept_writeLiteral (w : Writer) (data : Option Bytes) (unknownPreview : String)
    (longPreview : Nat → String) (unknown unknownLiteral : String) (literal : Bytes → Bytes) :
    ∃ chunks, w.Kept chunks
      (w.writeLiteral data unknownPreview longPreview unknown unknownLiteral literal) := by
  refine kept_unlessDry ?_
  cases data with
  | none =>
    dsimp only
    split
    · exact ⟨_, w.kept_putSource _⟩
    · exact ⟨_, (w.kept_putSource _).trans (kept_putSource _ _)⟩
  | some bytes =>
    dsimp only
    split
    · exact ⟨_, w.kept_putSource _⟩
    · exact ⟨_, w.kept_putSource _⟩

theorem kept_writeQuoted (w : Writer) (data : Option Bytes) :
    ∃ chunks, w.Kept chunks (w.writeQuoted data) := by
  rw [writeQuoted]
  exact w.kept_writeLiteral ..

theorem kept_writeInitializer (w : Writer) (data : Option Bytes) :
    ∃ chunks, w.Kept chunks (w.writeInitializer data) := by
  rw [writeInitializer]
  exact w.kept_writeLiteral ..

theorem kept_putTag (w : Writer) (tag : Tag) (checksum : Checksum.Running) :
    w.Kept [.tag tag] { w.putTag tag with checksum } := by
  have hwrote : w.Wrote [.tag tag] { w.putTag tag with checksum } :=
    wrote_push _ rfl rfl rfl rfl rfl
  exact hwrote.kept rfl rfl rfl

theorem kept_writeTag (w : Writer) (kind : TagKind) (id : NodeId) :
    ∃ tags : List Tag, w.Kept (tags.map .tag) (w.writeTag kind id) := by
  unfold writeTag
  split
  · exact ⟨[], .refl w⟩
  dsimp only
  split
  · exact ⟨[_], w.kept_putTag _ _⟩
  · exact ⟨[], kept_change rfl rfl rfl rfl rfl rfl rfl⟩

theorem kept_declarations (w : Writer) (declarations : Declarations) :
    w.Kept [] { w with declarations } := kept_change rfl rfl rfl rfl rfl rfl rfl

theorem wrote_writeHeaderOnce (w : Writer) (line : String) :
    ∃ texts : List Bytes, w.Wrote (texts.map .header) (w.writeHeaderOnce line).2 := by
  unfold writeHeaderOnce
  split
  · exact ⟨[], .refl w⟩
  dsimp only
  split
  · exact ⟨[_, _], (w.kept_declarations _).toWrote.trans
      ((wrote_putHeader _ _).trans (wrote_putHeader _ _))⟩
  · exact ⟨[], (w.kept_declarations _).toWrote⟩

theorem kept_writeHeaderOnce (w : Writer) {line : String} (h : Silent line) :
    ∃ chunks, w.Kept chunks (w.writeHeaderOnce line).2 := by
  have hfeed : Silent "\n" := by decide
  unfold writeHeaderOnce
  split
  · exact ⟨[], .refl w⟩
  dsimp only
  split
  · exact ⟨_, (w.kept_declarations _).trans ((kept_putHeader _ h).trans (kept_putHeader _ hfeed))⟩
  · exact ⟨[], w.kept_declarations _⟩

theorem kept_writeSourceOnce (w : Writer) (line : String) :
    ∃ chunks, w.Kept chunks (w.writeSourceOnce line).2 := by
  unfold writeSourceOnce
  split
  · exact ⟨[], w.kept_markUsed⟩
  dsimp only
  split
  · exact ⟨_, (w.kept_declarations _).trans ((kept_putSource _ _).trans (kept_putSource _ _))⟩
  · exact ⟨[], w.kept_declarations _⟩

theorem kept_uniqueId (w : Writer) (owner : ObjectId) (word : String) (name label : Option String) :
    w.Kept [] (w.uniqueId owner word name label).2 :=
  Wrote.kept ⟨rfl, rfl, rfl, w.identifiers.within_allocate owner word name label,
    (List.append_nil _).symm⟩ rfl rfl rfl

theorem kept_seen (w : Writer) (object : ObjectId) : w.Kept [] (w.seen object).2 :=
  kept_change rfl rfl rfl rfl rfl rfl rfl

/-- An access line is written exactly if it changes the level in force. -/
theorem writeAccess_in_class {w : Writer} {scope : ClassScope} (hlive : w.dryRun = false)
    (hscope : w.classScope = some scope) (level : Visibility) :
    ∃ chunks, w.Kept chunks (w.writeAccess level) ∧
      (chunks = [] ∨ chunks = [.header (utf8 level.line)]) ∧
      (scope.behind chunks).access = some level := by
  have hline : scope.behind [.header (utf8 level.line)] = { scope with access := some level } := by
    have hlast : lastAccess [.header (utf8 level.line)] = some level := by
      cases level <;> decide
    rw [ClassScope.behind, hlast]
    rfl
  have hwrite : ¬ w.dryRun = true := by rw [hlive]; exact Bool.false_ne_true
  unfold writeAccess
  rw [if_neg hwrite, hscope]
  dsimp only
  split
  · next hsame => exact ⟨[], .refl w, .inl rfl, hsame⟩
  · rw [writeHeader, if_neg hwrite]
    refine ⟨[.header (utf8 level.line)], ⟨wrote_push _ rfl rfl rfl rfl rfl, rfl, ?_⟩, .inr rfl, ?_⟩
    · rw [hscope, Option.map_some, hline]
      rfl
    · rw [hline]

theorem kept_writeAccess (w : Writer) (level : Visibility) :
    ∃ chunks, w.Kept chunks (w.writeAccess level) := by
  cases hlive : w.dryRun with
  | true =>
    rw [writeAccess, hlive, if_pos rfl]
    exact ⟨[], .refl w⟩
  | false =>
    cases hscope : w.classScope with
    | none =>
      rw [writeAccess, hlive, if_neg Bool.false_ne_true, hscope]
      exact ⟨[], .refl w⟩
    | some scope => exact (writeAccess_in_class hlive hscope level).imp fun _ h => h.1

/-- The state behind a dry run goes on from the state in front of it. -/
theorem Moved.behindDryRun {inner : Writer} (h : (Emit.inDryRun w).Moved shift chunks inner) :
    w.Moved shift chunks (Emit.behindDryRun w inner) where
  settings := h.settings
  preview := h.preview
  dryRun := rfl
  identifiers := h.identifiers
  output := h.output
  indentation := h.indentation
  classScope := h.classScope

variable {α : Type} {sees : ObjectId → Prop} {f : Writer → α × Writer}

theorem wrote_operation (w : Writer) (h : Emit.Operation sees f) :
    ∃ chunks, w.Wrote chunks (f w).2 := by
  have hsame : ∀ {w' : Writer}, w'.settings = w.settings → w'.preview = w.preview →
      w'.dryRun = w.dryRun → w'.identifiers = w.identifiers → w'.output = w.output →
      ∃ chunks, w.Wrote chunks w' := fun hsettings hpreview hdry hids houtput =>
    ⟨[], hsettings, hpreview, hdry, hids ▸ .refl _, by rw [houtput, List.append_nil]⟩
  cases h with
  | source text => exact (w.kept_writeSource text).imp fun _ h => h.toWrote
  | header text => exact w.wrote_writeHeader text
  | indented text extra trail => exact (kept_writeSources _ w).imp fun _ h => h.toWrote
  | quoted data => exact (w.kept_writeQuoted data).imp fun _ h => h.toWrote
  | initializer data => exact (w.kept_writeInitializer data).imp fun _ h => h.toWrote
  | tag kind id => exact (w.kept_writeTag kind id).elim fun _ h => ⟨_, h.toWrote⟩
  | headerOnce line => exact (w.wrote_writeHeaderOnce line).elim fun _ h => ⟨_, h⟩
  | sourceOnce line => exact (w.kept_writeSourceOnce line).imp fun _ h => h.toWrote
  | uniqueId owner word name label => exact ⟨[], (w.kept_uniqueId owner word name label).toWrote⟩
  | access level => exact (w.kept_writeAccess level).imp fun _ h => h.toWrote
  | seen | indent | indentPlus | indentMore | indentLess | setIndentation | enterClass
  | leaveClass | currentClass | configured => exact hsame rfl rfl rfl rfl rfl

/-! ## 3. Objects -/

theorem objects_unlessDry {w : Writer} {write : Writer → Writer}
    (h : (write w).objects = w.objects) : (w.unlessDry write).objects = w.objects := by
  unfold unlessDry
  split
  · rfl
  · exact h

theorem objects_writeLiteral (w : Writer) (data : Option Bytes) (unknownPreview : String)
    (longPreview : Nat → String) (unknown unknownLiteral : String) (literal : Bytes → Bytes) :
    (w.writeLiteral data unknownPreview longPreview unknown unknownLiteral literal).objects =
      w.objects := by
  refine objects_unlessDry ?_
  cases data with
  | none => dsimp only; split <;> rfl
  | some bytes => dsimp only; split <;> rfl

/-- Only asking for an object adds one to those that were seen. -/
theorem objects_operation (w : Writer) (h : Emit.Operation sees f) :
    (f w).2.objects = w.objects ∨ ∃ object, sees object ∧ (f w).2 = (w.seen object).2 := by
  cases h with
  | seen object hsees => exact .inr ⟨object, hsees, rfl⟩
  | source text => exact .inl (objects_unlessDry rfl)
  | header text =>
    left
    show (w.writeHeader text).objects = _
    unfold writeHeader
    split <;> rfl
  | indented text extra trail =>
    left
    show (List.foldl writeSource w _).objects = _
    generalize indentedPieces _ _ _ = pieces
    induction pieces generalizing w with
    | nil => rfl
    | cons piece rest ih => exact (ih _).trans (objects_unlessDry rfl)
  | quoted data =>
    left
    show (w.writeQuoted data).objects = _
    rw [writeQuoted, objects_writeLiteral]
  | initializer data =>
    left
    show (w.writeInitializer data).objects = _
    rw [writeInitializer, objects_writeLiteral]
  | tag kind id =>
    left
    show (w.writeTag kind id).objects = _
    unfold writeTag
    split
    · rfl
    · dsimp only; split <;> rfl
  | headerOnce line =>
    left
    show (w.writeHeaderOnce line).2.objects = _
    unfold writeHeaderOnce
    split
    · rfl
    · dsimp only; split <;> rfl
  | sourceOnce line =>
    left
    show (w.writeSourceOnce line).2.objects = _
    unfold writeSourceOnce
    split
    · rfl
    · dsimp only; split <;> rfl
  | access level =>
    left
    show (w.writeAccess level).objects = _
    unfold writeAccess writeHeader
    split
    · rfl
    · split
      · rfl
      · split <;> rfl
  | uniqueId | indent | indentPlus | indentMore | indentLess | setIndentation | enterClass
  | leaveClass | currentClass | configured => exact .inl rfl

theorem seen_fst (w : Writer) (object : ObjectId) :
    (w.seen object).1 = true ↔ object ∈ w.objects.members := by
  show (w.objects.see object).1 = true ↔ _
  rw [← List.contains_iff_mem]
  unfold Objects.see
  split
  · next hknown => exact ⟨fun _ => hknown, fun _ => rfl⟩
  · next hnew => exact ⟨nofun, fun hknown => absurd hknown hnew⟩

theorem mem_objects_seen (w : Writer) (object other : ObjectId) :
    other ∈ (w.seen object).2.objects.members ↔ other ∈ w.objects.members ∨ other = object := by
  show other ∈ (w.objects.see object).2.members ↔ _
  unfold Objects.see
  split
  · next hknown =>
    have hmem := List.contains_iff_mem.1 hknown
    exact ⟨.inl, fun h => h.elim id fun heq => heq ▸ hmem⟩
  · rw [List.mem_cons]
    exact or_comm

end Writer

namespace Emit

variable {α β : Type} {shift shift' : Int32 → Int32} {sees : ObjectId → Prop}

/-- Whatever is composed of operations only adds to what was written and to the identifiers. -/
theorem Composed.wrote {emit : Emit α} (h : emit.Composed sees) :
    ∀ w : Writer, ∃ chunks, w.Wrote chunks (emit w).2 := by
  induction h with
  | pure a => exact fun w => ⟨[], .refl w⟩
  | bind hfirst _ ih ihnext =>
    intro w
    obtain ⟨a, ha⟩ := hfirst.bind_state _ w
    obtain ⟨front, hfront⟩ := ih w
    obtain ⟨back, hback⟩ := ihnext a _
    rw [ha]
    exact ⟨_, hfront.trans hback⟩
  | @step _ f hf =>
    intro w
    show ∃ chunks, w.Wrote chunks (f w).2
    exact w.wrote_operation hf
  | dryRun _ ih =>
    intro w
    obtain ⟨chunks, h⟩ := ih (inDryRun w)
    rw [dryRun_apply]
    exact ⟨chunks, h.settings, h.preview, rfl, h.identifiers, h.output⟩

/-- Objects that were seen stay so, and new ones are among those that the code sees. -/
theorem Composed.objects {emit : Emit α} (h : emit.Composed sees) :
    ∀ (w : Writer) (object : ObjectId),
      (object ∈ w.objects.members → object ∈ (emit w).2.objects.members) ∧
      (object ∈ (emit w).2.objects.members → object ∈ w.objects.members ∨ sees object) := by
  induction h with
  | pure a => exact fun w object => ⟨id, .inl⟩
  | bind hfirst _ ih ihnext =>
    intro w object
    obtain ⟨a, ha⟩ := hfirst.bind_state _ w
    obtain ⟨hkeep, hnew⟩ := ih w object
    rw [ha]
    exact ⟨fun h => (ihnext a _ object).1 (hkeep h),
      fun h => ((ihnext a _ object).2 h).elim hnew .inr⟩
  | @step _ f hf =>
    intro w object
    show (_ → object ∈ (f w).2.objects.members) ∧ (object ∈ (f w).2.objects.members → _)
    rcases w.objects_operation hf with hsame | ⟨asked, hsees, hstate⟩
    · rw [hsame]
      exact ⟨id, .inl⟩
    · rw [hstate, w.mem_objects_seen]
      exact ⟨.inl, fun h => h.imp id fun heq => by rw [heq]; exact hsees⟩
  | dryRun _ ih =>
    intro w object
    rw [dryRun_apply]
    exact ih (inDryRun w) object

theorem Composed.objects_unseen {emit : Emit α} (h : emit.Composed fun _ => False) (w : Writer)
    (object : ObjectId) : object ∈ (emit w).2.objects.members ↔ object ∈ w.objects.members :=
  ⟨fun hmem => ((h.objects w object).2 hmem).elim id False.elim, (h.objects w object).1⟩

/-! ## 4. Code that stays in its class -/

/-- Code that goes on within the class being declared and moves the indentation by `shift`. -/
def Moves (shift : Int32 → Int32) (emit : Emit α) : Prop :=
  ∀ w : Writer, ∃ a w' chunks, emit w = (.ok a, w') ∧ w.Moved shift chunks w'

def Keeps (emit : Emit α) : Prop := emit.Moves fun k => k

theorem Moves.bind {emit : Emit α} {next : α → Emit β} (h : emit.Moves shift)
    (hnext : ∀ a, (next a).Moves shift') : (emit >>= next).Moves fun k => shift' (shift k) := by
  intro w
  obtain ⟨a, w', front, hrun, hfront⟩ := h w
  obtain ⟨b, w'', back, hrun', hback⟩ := hnext a w'
  exact ⟨b, w'', _, (bind_run hrun).trans hrun', hfront.trans hback⟩

/-- The rule for a first part that leaves the indentation alone. -/
theorem Keeps.then {emit : Emit α} {next : α → Emit β} (h : emit.Keeps)
    (hnext : ∀ a, (next a).Moves shift) : (emit >>= next).Moves shift := Moves.bind h hnext

@[grind ←] theorem Keeps.bind {emit : Emit α} {next : α → Emit β} (h : emit.Keeps)
    (hnext : ∀ a, (next a).Keeps) : (emit >>= next).Keeps := Moves.bind h hnext

@[grind ←] theorem Keeps.pure (a : α) : (pure a : Emit α).Keeps :=
  fun w => ⟨a, w, [], rfl, .refl w⟩

@[grind ←] theorem Keeps.discard {emit : Emit α} (h : emit.Keeps) :
    (discard emit : Emit Unit).Keeps := h.bind fun _ => .pure ()

@[grind ←] theorem Keeps.onlyIf {emit : Emit Unit} (h : emit.Keeps) (condition : Bool) :
    (onlyIf condition emit).Keeps := by
  cases condition with
  | false => exact .pure ()
  | true => exact h

@[grind ←]
theorem Keeps.forSome {emit : α → Emit Unit} (h : ∀ a, (emit a).Keeps) (value? : Option α) :
    (forSome value? emit).Keeps := by
  cases value? with
  | none => exact .pure ()
  | some a => exact h a

@[grind ←]
theorem Keeps.forM {emit : α → Emit Unit} (h : ∀ a, (emit a).Keeps) (list : List α) :
    (list.forM emit).Keeps := by
  induction list with
  | nil => exact .pure ()
  | cons a rest ih => exact (h a).bind fun _ => ih

/-- A dry run writes nothing and leaves the mode as it was. -/
@[grind ←] theorem Keeps.writesSource {emit : Emit Unit} (h : emit.Keeps) :
    (writesSource emit).Keeps := by
  rw [Emit.writesSource, map_eq_pure_bind]
  refine Keeps.bind (fun w => ?_) fun _ => .pure _
  obtain ⟨a, inner, chunks, hrun, hkept⟩ := h (inDryRun w)
  refine ⟨(a, inner.sourceUsed), _, chunks, ?_, hkept.behindDryRun⟩
  rw [dryRun_apply, hrun]
  rfl

/-! ## 5. The operations -/

theorem keeps_update {f : Writer → Writer} (h : ∀ w : Writer, ∃ chunks, w.Kept chunks (f w)) :
    (update f).Keeps := by
  intro w
  obtain ⟨chunks, hkept⟩ := h w
  exact ⟨(), f w, chunks, rfl, hkept⟩

theorem keeps_step {f : Writer → α × Writer} (h : ∀ w : Writer, ∃ chunks, w.Kept chunks (f w).2) :
    (step f).Keeps := by
  intro w
  obtain ⟨chunks, hkept⟩ := h w
  exact ⟨(f w).1, (f w).2, chunks, rfl, hkept⟩

@[grind ←] theorem keeps_ask (f : Writer → α) : (ask f).Keeps :=
  fun w => ⟨f w, w, [], rfl, .refl w⟩

@[grind ←] theorem keeps_source (text : String) : (source text).Keeps :=
  keeps_update fun w => w.kept_writeSource text

@[grind ←] theorem keeps_header {text : String} (h : Silent text) : (header text).Keeps :=
  keeps_update fun w => w.kept_writeHeader h

@[grind ←] theorem keeps_sourceStatement (indent code comment : String) :
    (sourceStatement indent code comment).Keeps := keeps_source _

@[grind ←] theorem keeps_indented (text : String) (extra : Int32) (trail : Option Char) :
    (indented text extra trail).Keeps := keeps_update fun w => Writer.kept_writeSources _ w

@[grind ←] theorem keeps_quoted (data : Option Bytes) : (quoted data).Keeps :=
  keeps_update fun w => w.kept_writeQuoted data

@[grind ←] theorem keeps_string (text : String) : (string text).Keeps := keeps_quoted _

@[grind ←] theorem keeps_initializer (data : Option Bytes) : (initializer data).Keeps :=
  keeps_update fun w => w.kept_writeInitializer data

@[grind ←] theorem keeps_tag (kind : TagKind) (id : NodeId) : (tag kind id).Keeps :=
  keeps_update fun w => (w.kept_writeTag kind id).elim fun _ h => ⟨_, h⟩

@[grind ←] theorem keeps_headerOnce {line : String} (h : Silent line) : (headerOnce line).Keeps :=
  keeps_step fun w => w.kept_writeHeaderOnce h

@[grind ←] theorem keeps_sourceOnce (line : String) : (sourceOnce line).Keeps :=
  keeps_step fun w => w.kept_writeSourceOnce line

@[grind ←]
theorem keeps_uniqueId (owner : ObjectId) (word : String) (name label : Option String) :
    (uniqueId owner word name label).Keeps :=
  keeps_step fun w => ⟨[], w.kept_uniqueId owner word name label⟩

@[grind ←] theorem keeps_seen (object : ObjectId) : (seen object).Keeps :=
  keeps_step fun w => ⟨[], w.kept_seen object⟩

@[grind ←] theorem keeps_indent : indent.Keeps := keeps_ask _

@[grind ←] theorem keeps_indentPlus (offset : Int32) : (indentPlus offset).Keeps := keeps_ask _

@[grind ←] theorem keeps_currentClass : currentClass.Keeps := keeps_ask _

@[grind ←] theorem keeps_access (level : Visibility) : (access level).Keeps :=
  keeps_update fun w => w.kept_writeAccess level

/-- The rule for an operation that changes nothing but the indentation. -/
theorem moves_indentation (shift : Int32 → Int32) :
    (update fun w => { w with indentation := shift w.indentation }).Moves shift := fun w =>
  ⟨(), _, [], rfl, ⟨rfl, rfl, rfl, .refl _, (List.append_nil _).symm⟩, rfl,
    (Writer.Moved.refl w).classScope⟩

theorem moves_indentMore : indentMore.Moves (· + 1) := moves_indentation (· + 1)

theorem moves_indentLess : indentLess.Moves (· - 1) := moves_indentation (· - 1)

theorem moves_setIndentation (depth : Int32) : (setIndentation depth).Moves fun _ => depth :=
  moves_indentation fun _ => depth

end Emit

end FormWeave
