import FormWeave.Proofs.Layout
import FormWeave.Writer.Emit

/-!
# What writing code does to a tracked source

`Writer.Tracked` is the invariant of a run that tags blocks: every section is sealed, and the
running checksum is that of the text behind the last tag. `Emit.Closes` says of a computation that
it keeps the invariant, which sections it closes, and where it leaves the source. A tag may only be
written where a line starts, so that is what has to be known in front of it.
-/

namespace FormWeave

/-- What is known of the place at which a source goes on. -/
inductive Cursor
  | anywhere | lineStart
  deriving DecidableEq, Repr

namespace Writer

/-! ## 1. The invariant -/

/-- A run that tags blocks, with all sections sealed. The source goes on at `place`. -/
structure Tracked (w : Writer) (names : List SectionName) (place : Cursor) : Prop where
  live : w.dryRun = false
  tagging : w.settings.mergeTags = true
  checksum : w.checksum = ({} : Checksum.Running).add w.layout.tail
  sealed : ∀ s ∈ w.layout.sections, s.Sealed
  names : w.layout.sections.map Section.name = names
  place : place = .lineStart → Text.Complete w.layout.tail

structure SameOutput (w w' : Writer) : Prop where
  output : w'.output = w.output
  checksum : w'.checksum = w.checksum
  settings : w'.settings = w.settings
  dryRun : w'.dryRun = w.dryRun

theorem SameOutput.refl (w : Writer) : w.SameOutput w := ⟨rfl, rfl, rfl, rfl⟩

theorem SameOutput.trans {w w' w'' : Writer} (h : w.SameOutput w') (h' : w'.SameOutput w'') :
    w.SameOutput w'' :=
  ⟨h'.output.trans h.output, h'.checksum.trans h.checksum, h'.settings.trans h.settings,
    h'.dryRun.trans h.dryRun⟩

theorem SameOutput.layout {w w' : Writer} (h : w.SameOutput w') : w'.layout = w.layout := by
  rw [Writer.layout, h.output]
  rfl

variable {w w' : Writer} {names : List SectionName} {place : Cursor}

theorem Tracked.of_sameOutput (h : w.Tracked names place) (hw : w.SameOutput w') :
    w'.Tracked names place where
  live := hw.dryRun.trans h.live
  tagging := by rw [hw.settings]; exact h.tagging
  checksum := by rw [hw.checksum, hw.layout]; exact h.checksum
  sealed := by rw [hw.layout]; exact h.sealed
  names := by rw [hw.layout]; exact h.names
  place := by rw [hw.layout]; exact h.place

theorem Tracked.not_dryRun (h : w.Tracked names place) : ¬ w.dryRun = true := by
  rw [h.live]
  decide

theorem Tracked.anywhere (h : w.Tracked names place) : w.Tracked names .anywhere :=
  { h with place := nofun }

/-! ## 2. The writing operations -/

theorem layout_push (w : Writer) (chunk : Chunk) :
    Layout.ofChunks (w.output.push chunk).toList = w.layout.add chunk := by
  rw [Array.toList_push, Layout.ofChunks_append]
  rfl

theorem layout_putSource (w : Writer) (bytes : Bytes) :
    (w.putSource bytes).layout = { w.layout with tail := w.layout.tail ++ bytes } :=
  w.layout_push (.source bytes)

theorem layout_putHeader (w : Writer) (bytes : Bytes) : (w.putHeader bytes).layout = w.layout :=
  w.layout_push (.header bytes)

theorem layout_putTag (w : Writer) (tag : Tag) :
    (w.putTag tag).layout = { sections := w.layout.sections ++ [⟨w.layout.tail, tag⟩] } :=
  w.layout_push (.tag tag)

theorem Tracked.putSource (h : w.Tracked names place) (bytes : Bytes) :
    (w.putSource bytes).Tracked names .anywhere where
  live := h.live
  tagging := h.tagging
  -- The checksum goes on over the bytes just as the tail does.
  checksum := by
    have hput : (w.putSource bytes).checksum = w.checksum.add bytes := if_pos h.tagging
    rw [hput, h.checksum, layout_putSource, Checksum.Running.add_append]
  sealed := by rw [layout_putSource]; exact h.sealed
  names := by rw [layout_putSource]; exact h.names
  place := nofun

/-- Behind a text that ends a line, the next line starts. -/
theorem Tracked.putSource_endsLine (h : w.Tracked names place) {text : String}
    (htext : EndsLine text) : (w.putSource (utf8 text)).Tracked names .lineStart where
  __ := h.putSource (utf8 text)
  place _ := by
    rw [layout_putSource]
    exact Text.Complete.append_of_endsLine _ htext

theorem Tracked.putHeader (h : w.Tracked names place) (bytes : Bytes) :
    (w.putHeader bytes).Tracked names place where
  live := h.live
  tagging := h.tagging
  checksum := by rw [layout_putHeader]; exact h.checksum
  sealed := by rw [layout_putHeader]; exact h.sealed
  names := by rw [layout_putHeader]; exact h.names
  place := by rw [layout_putHeader]; exact h.place

theorem Tracked.writeTag_eq (h : w.Tracked names place) (kind : TagKind) (id : NodeId) :
    w.writeTag kind id =
      { w.putTag { kind, nodeId := id, checksum := w.blockChecksum } with checksum := {} } := by
  rw [Writer.writeTag, h.live, h.tagging]
  rfl

/-- A tag seals the text in front of it. -/
theorem Tracked.writeTag (h : w.Tracked names .lineStart) (kind : TagKind) (id : NodeId) :
    (w.writeTag kind id).Tracked (names ++ [(kind, id)]) .lineStart := by
  have hlayout : (w.writeTag kind id).layout =
      { sections := w.layout.sections ++ [⟨w.layout.tail, ⟨kind, id, w.blockChecksum⟩⟩] } := by
    rw [h.writeTag_eq]
    exact layout_putTag w _
  refine ⟨?_, ?_, ?_, ?_, ?_, ?_⟩
  · rw [h.writeTag_eq]; exact h.live
  · rw [h.writeTag_eq]; exact h.tagging
  · rw [hlayout, h.writeTag_eq]; rfl
  · rw [hlayout]
    intro s hs
    rcases List.mem_append.1 hs with hs | hs
    · exact h.sealed s hs
    · rw [List.mem_singleton.1 hs]
      -- The tail becomes the block; it is complete since the tag starts a line.
      exact ⟨h.place rfl, congrArg Checksum.Running.value h.checksum⟩
  · rw [hlayout, List.map_append, h.names]
    rfl
  · rw [hlayout]
    exact fun _ => Text.complete_nil

theorem Tracked.writeSource (h : w.Tracked names place) (text : String) :
    (w.writeSource text).Tracked names .anywhere := by
  rw [Writer.writeSource, unlessDry, h.live]
  exact h.putSource _

theorem Tracked.writeSource_endsLine (h : w.Tracked names place) {text : String}
    (htext : EndsLine text) : (w.writeSource text).Tracked names .lineStart := by
  rw [Writer.writeSource, unlessDry, h.live]
  exact h.putSource_endsLine htext

theorem Tracked.writeHeader (h : w.Tracked names place) (text : String) :
    (w.writeHeader text).Tracked names place := by
  rw [Writer.writeHeader, h.live]
  exact h.putHeader _

theorem Tracked.writeLiteral (h : w.Tracked names place) (data : Option Bytes)
    (unknownPreview : String) (longPreview : Nat → String) (unknown unknownLiteral : String)
    (literal : Bytes → Bytes) :
    (w.writeLiteral data unknownPreview longPreview unknown unknownLiteral literal).Tracked names
      .anywhere := by
  rw [Writer.writeLiteral, unlessDry, if_neg h.not_dryRun]
  cases data with
  | none =>
    dsimp only
    split
    · exact h.putSource _
    · exact (h.putSource _).putSource _
  | some bytes =>
    dsimp only
    split
    · exact h.putSource _
    · exact h.putSource _

theorem Tracked.writeSources (h : w.Tracked names place) (pieces : List String) :
    (pieces.foldl Writer.writeSource w).Tracked names .anywhere := by
  induction pieces generalizing w place with
  | nil => exact h.anywhere
  | cons piece rest ih => exact ih (h.writeSource piece)

/-- The trail is the last piece. -/
theorem indentedPieces_trail (indent : String) (trail : Char) {lines : List (List Char)}
    (h : lines ≠ []) : ∃ front, indentedPieces indent (some trail) lines =
      front ++ [String.singleton trail] := by
  induction lines with
  | nil => exact absurd rfl h
  | cons line rest ih =>
    cases rest with
    | nil => exact ⟨indentedLine indent line, rfl⟩
    | cons next rest =>
      obtain ⟨front, hfront⟩ := ih (by simp)
      exact ⟨indentedLine indent line ++ "\n" :: front, by simp [indentedPieces, hfront]⟩

theorem Tracked.writeIndented (h : w.Tracked names place) (text : String) (extra : Int32) :
    (w.writeIndented text extra (some '\n')).Tracked names .lineStart := by
  obtain ⟨front, hfront⟩ := indentedPieces_trail (w.indentPlus extra) '\n'
    (Text.split_ne_nil '\n' text.toList)
  -- Whatever the lines hold, the line feed at their end is written last.
  have hend : EndsLine (String.singleton '\n') := by decide
  rw [Writer.writeIndented, hfront, List.foldl_append]
  exact (h.writeSources front).writeSource_endsLine hend

/-- In a dry run nothing is written. -/
theorem sameOutput_writeSource (h : w.dryRun = true) (text : String) :
    w.SameOutput (w.writeSource text) := by
  rw [Writer.writeSource, unlessDry, h]
  exact ⟨rfl, rfl, rfl, rfl⟩

end Writer

namespace Emit

variable {α β : Type} {before middle after : Cursor} {front back names : List SectionName}

/-! ## 3. Three properties of a computation

All of them say that the computation does not fail. -/

/-- Whatever the mode, nothing is written. -/
def Idle (emit : Emit α) : Prop :=
  ∀ w : Writer, ∃ a w', emit w = (.ok a, w') ∧ w.SameOutput w'

/-- In a dry run nothing is written. -/
def Quiet (emit : Emit α) : Prop :=
  ∀ w : Writer, w.dryRun = true → ∃ a w', emit w = (.ok a, w') ∧ w.SameOutput w'

/-- From a tracked source that stands at `before`, sections named `names` are closed, and the
tracked source stands at `after`. -/
def Closes (before after : Cursor) (names : List SectionName) (emit : Emit α) : Prop :=
  ∀ (w : Writer) (known : List SectionName), w.Tracked known before →
    ∃ a w', emit w = (.ok a, w') ∧ w'.Tracked (known ++ names) after

theorem bind_apply (emit : Emit α) (next : α → Emit β) (w : Writer) :
    (emit >>= next) w =
      match emit w with
      | (.ok a, w') => next a w'
      | (.error fault, w') => (.error fault, w') := by
  simp only [bind, ExceptT.bind, ExceptT.mk, StateT.bind]
  cases emit w with
  | mk result w' => cases result <;> rfl

theorem bind_run {emit : Emit α} {next : α → Emit β} {w w' : Writer} {a : α}
    (h : emit w = (.ok a, w')) : (emit >>= next) w = next a w' := by
  rw [bind_apply, h]

theorem Idle.quiet {emit : Emit α} (h : emit.Idle) : emit.Quiet := fun w _ => h w

theorem Idle.closes {emit : Emit α} (h : emit.Idle) (place : Cursor) :
    emit.Closes place place [] := by
  intro w known hw
  obtain ⟨a, w', hrun, hsame⟩ := h w
  exact ⟨a, w', hrun, by simpa using hw.of_sameOutput hsame⟩

/-! ## 4. Rules -/

theorem Idle.pure (a : α) : (pure a : Emit α).Idle := fun w => ⟨a, w, rfl, .refl w⟩

theorem Quiet.bind {emit : Emit α} {next : α → Emit β} (h : emit.Quiet)
    (hnext : ∀ a, (next a).Quiet) : (emit >>= next).Quiet := by
  intro w hdry
  obtain ⟨a, w', hrun, hw⟩ := h w hdry
  obtain ⟨b, w'', hrun', hw'⟩ := hnext a w' (hw.dryRun.trans hdry)
  exact ⟨b, w'', (bind_run hrun).trans hrun', hw.trans hw'⟩

theorem Closes.bind {emit : Emit α} {next : α → Emit β} (h : emit.Closes before middle front)
    (hnext : ∀ a, (next a).Closes middle after back) :
    (emit >>= next).Closes before after (front ++ back) := by
  intro w known hw
  obtain ⟨a, w', hrun, hw'⟩ := h w known hw
  obtain ⟨b, w'', hrun', hw''⟩ := hnext a w' _ hw'
  exact ⟨b, w'', (bind_run hrun).trans hrun', by rwa [List.append_assoc] at hw''⟩

/-- The rule for a first part that closes nothing. -/
theorem Closes.seq {emit : Emit α} {next : α → Emit β} (h : emit.Closes before middle [])
    (hnext : ∀ a, (next a).Closes middle after names) :
    (emit >>= next).Closes before after names := h.bind hnext

theorem Idle.seq {emit : Emit α} {next : α → Emit β} (h : emit.Idle)
    (hnext : ∀ a, (next a).Closes before after names) :
    (emit >>= next).Closes before after names := (h.closes before).seq hnext

theorem Closes.discard {emit : Emit α} (h : emit.Closes before after names) :
    (discard emit : Emit Unit).Closes before after names := by
  intro w known hw
  obtain ⟨a, w', hrun, hw'⟩ := h w known hw
  exact ⟨(), w', bind_run hrun, hw'⟩

theorem Closes.onlyIf {emit : Emit Unit} (h : emit.Closes before before []) (condition : Bool) :
    (onlyIf condition emit).Closes before before [] := by
  cases condition with
  | false => exact (Idle.pure ()).closes _
  | true => exact h

theorem Closes.forSome {emit : α → Emit Unit} (h : ∀ a, (emit a).Closes before before [])
    (value? : Option α) : (forSome value? emit).Closes before before [] := by
  cases value? with
  | none => exact (Idle.pure ()).closes _
  | some a => exact h a

theorem Quiet.forSome {emit : α → Emit Unit} (h : ∀ a, (emit a).Quiet) (value? : Option α) :
    (forSome value? emit).Quiet := by
  cases value? with
  | none => exact (Idle.pure ()).quiet
  | some a => exact h a

theorem Closes.forM {emit : α → Emit Unit} (h : ∀ a, (emit a).Closes before before [])
    (list : List α) : (list.forM emit).Closes before before [] := by
  induction list with
  | nil => exact (Idle.pure ()).closes _
  | cons a rest ih => exact (h a).seq fun _ => ih

/-! ## 5. The operations -/

section

variable (text : String) (place : Cursor)

theorem idle_ask (f : Writer → α) : (ask f).Idle := fun w => ⟨f w, w, rfl, .refl w⟩

theorem idle_update {f : Writer → Writer} (h : ∀ w : Writer, w.SameOutput (f w)) : (update f).Idle :=
  fun w => ⟨(), f w, rfl, h w⟩

theorem idle_step {f : Writer → α × Writer} (h : ∀ w : Writer, w.SameOutput (f w).2) : (step f).Idle :=
  fun w => ⟨(f w).1, (f w).2, rfl, h w⟩

theorem idle_uniqueId (owner : ObjectId) (word : String) (name label : Option String) :
    (uniqueId owner word name label).Idle := idle_step fun _ => ⟨rfl, rfl, rfl, rfl⟩

theorem idle_seen (object : ObjectId) : (seen object).Idle :=
  idle_step fun _ => ⟨rfl, rfl, rfl, rfl⟩

theorem idle_indent : indent.Idle := idle_ask _

theorem idle_indentPlus (offset : Int32) : (indentPlus offset).Idle := idle_ask _

theorem idle_indentMore : indentMore.Idle := idle_update fun _ => ⟨rfl, rfl, rfl, rfl⟩

theorem idle_indentLess : indentLess.Idle := idle_update fun _ => ⟨rfl, rfl, rfl, rfl⟩

theorem idle_setIndentation (depth : Int32) : (setIndentation depth).Idle :=
  idle_update fun _ => ⟨rfl, rfl, rfl, rfl⟩

theorem idle_enterClass (name : String) (access : Option Visibility) :
    (enterClass name access).Idle := idle_update fun _ => ⟨rfl, rfl, rfl, rfl⟩

theorem idle_leaveClass : leaveClass.Idle := idle_update fun _ => ⟨rfl, rfl, rfl, rfl⟩

theorem idle_currentClass : currentClass.Idle := idle_ask _

/-- The rule for an operation that closes nothing. -/
theorem closes_update {f : Writer → Writer}
    (h : ∀ (w : Writer) known, w.Tracked known before → (f w).Tracked known after) :
    (update f).Closes before after [] :=
  fun w known hw => ⟨(), f w, rfl, by rw [List.append_nil]; exact h w known hw⟩

theorem closes_step {f : Writer → α × Writer}
    (h : ∀ (w : Writer) known, w.Tracked known before → (f w).2.Tracked known after) :
    (step f).Closes before after [] :=
  fun w known hw => ⟨(f w).1, (f w).2, rfl, by rw [List.append_nil]; exact h w known hw⟩

theorem closes_source : (source text).Closes place .anywhere [] :=
  closes_update fun _ _ hw => hw.writeSource text

variable {text} in
theorem closes_line (h : EndsLine text) : (source text).Closes place .lineStart [] :=
  closes_update fun _ _ hw => hw.writeSource_endsLine h

theorem quiet_source : (source text).Quiet := fun w hdry =>
  ⟨(), w.writeSource text, rfl, Writer.sameOutput_writeSource hdry text⟩

theorem closes_header : (header text).Closes place place [] :=
  closes_update fun _ _ hw => hw.writeHeader text

theorem closes_tag (kind : TagKind) (id : NodeId) :
    (tag kind id).Closes .lineStart .lineStart [(kind, id)] :=
  fun w _ hw => ⟨(), w.writeTag kind id, rfl, hw.writeTag kind id⟩

theorem endsLine_statementLine (indent code comment : String) :
    EndsLine (Writer.statementLine indent code comment) := by
  have h : EndsLine "\n" := by decide
  exact h.append _

theorem closes_sourceStatement (indent code comment : String) :
    (sourceStatement indent code comment).Closes place .lineStart [] :=
  closes_line place (endsLine_statementLine indent code comment)

theorem closes_headerStatement (indent code comment : String) :
    (headerStatement indent code comment).Closes place place [] := closes_header _ place

theorem closes_indented (extra : Int32) :
    (indented text extra (some '\n')).Closes place .lineStart [] :=
  closes_update fun _ _ hw => hw.writeIndented text extra

theorem closes_quoted (data : Option Bytes) : (quoted data).Closes place .anywhere [] :=
  closes_update fun _ _ hw => hw.writeLiteral data ..

theorem closes_initializer (data : Option Bytes) : (initializer data).Closes place .anywhere [] :=
  closes_update fun _ _ hw => hw.writeLiteral data ..

theorem quiet_quoted (data : Option Bytes) : (quoted data).Quiet := by
  intro w hdry
  refine ⟨(), w.writeQuoted data, rfl, ?_⟩
  rw [Writer.writeQuoted, Writer.writeLiteral, Writer.unlessDry, if_pos hdry]
  exact ⟨rfl, rfl, rfl, rfl⟩

/-- What a dry run finds out leaves no trace in the output. -/
theorem Quiet.idle_writesSource {emit : Emit Unit} (h : emit.Quiet) : (writesSource emit).Idle := by
  intro w
  -- The flags are put back, so only the tables of the writer may be others.
  obtain ⟨a, inner, hrun, hsame⟩ := h { w with dryRun := true, sourceUsed := false } rfl
  refine ⟨inner.sourceUsed, { inner with dryRun := w.dryRun, sourceUsed := w.sourceUsed }, ?_,
    hsame.output, hsame.checksum, hsame.settings, rfl⟩
  have hdry : dryRun emit w = (.ok (a, inner.sourceUsed),
      { inner with dryRun := w.dryRun, sourceUsed := w.sourceUsed }) := by
    unfold dryRun
    simp only [hrun]
    rfl
  exact bind_run hdry

theorem closes_access (level : Visibility) : (access level).Closes place place [] := by
  refine closes_update fun w known hw => ?_
  rw [Writer.writeAccess, if_neg hw.not_dryRun]
  split
  · exact hw
  · split
    · exact hw
    · exact (hw.of_sameOutput (by exact ⟨rfl, rfl, rfl, rfl⟩)).writeHeader _

theorem closes_headerOnce : (headerOnce text).Closes place place [] := by
  refine closes_step fun w known hw => ?_
  -- The table of declarations has nothing to do with the output.
  have hclaim : ∀ d, ({ w with declarations := d } : Writer).Tracked known place :=
    fun d => hw.of_sameOutput ⟨rfl, rfl, rfl, rfl⟩
  rw [Writer.writeHeaderOnce, if_neg hw.not_dryRun]
  dsimp only
  split
  · exact ((hclaim _).putHeader _).putHeader _
  · exact hclaim _

theorem closes_sourceOnce : (sourceOnce text).Closes .lineStart .lineStart [] := by
  refine closes_step fun w known hw => ?_
  have hclaim : ∀ d, ({ w with declarations := d } : Writer).Tracked known .lineStart :=
    fun d => hw.of_sameOutput ⟨rfl, rfl, rfl, rfl⟩
  have hend : EndsLine "\n" := by decide
  rw [Writer.writeSourceOnce, if_neg hw.not_dryRun]
  dsimp only
  split
  · exact ((hclaim _).putSource _).putSource_endsLine hend
  · exact hclaim _

end

end Emit

end FormWeave
