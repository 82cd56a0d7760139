import FormWeave.Proofs.LockstepRuns
import FormWeave.Proofs.RoundTrip

/-!
# Runs without tags

Whether blocks are tagged makes no difference to a run but for the tag lines. `Writer.Untagged`
relates the writers of two runs of which only one tags blocks, and no operation can tell them apart.
In the end the source of the one run is that of the other without the lines at which tags start.
-/

namespace FormWeave

namespace Writer

/-! ## 1. Writers that differ in tags -/

def withoutTags (w : Writer) (output : Array Chunk) (checksum : Checksum.Running)
    (position : Nat) : Writer :=
  { w with
    settings := { w.settings with mergeTags := false }
    output, checksum, sourcePosition := position }

/-- `w'` is as `w` would be if blocks were not tagged: it wrote the same but for the tags. Its
checksum is that of no block, and so the source is at another place. -/
def Untagged (w w' : Writer) : Prop :=
  ∃ output checksum position, output.toList = w.output.toList.filter (·.tag?.isNone) ∧
    w' = w.withoutTags output checksum position

variable {w w' : Writer}

/-! ## 2. The operations -/

theorem Untagged.putSource (h : w.Untagged w') (bytes : Bytes) :
    (w.putSource bytes).Untagged (w'.putSource bytes) := by
  obtain ⟨output, checksum, position, houtput, rfl⟩ := h
  refine ⟨output.push (.source bytes), _, _, ?_, rfl⟩
  rw [Writer.putSource, Array.toList_push, Array.toList_push, List.filter_append, houtput]
  rfl

theorem Untagged.putHeader (h : w.Untagged w') (bytes : Bytes) :
    (w.putHeader bytes).Untagged (w'.putHeader bytes) := by
  obtain ⟨output, checksum, position, houtput, rfl⟩ := h
  refine ⟨output.push (.header bytes), _, _, ?_, rfl⟩
  rw [Writer.putHeader, Array.toList_push, Array.toList_push, List.filter_append, houtput]
  rfl

theorem Untagged.modes (h : w.Untagged w') (hlive : w.dryRun = false) :
    w'.settings.utf8Source = w.settings.utf8Source ∧ w'.preview = w.preview ∧
      w'.dryRun = false := by
  obtain ⟨output, checksum, position, -, rfl⟩ := h
  exact ⟨rfl, rfl, hlive⟩

/-- Where the one writer writes a tag, the other writes nothing. -/
theorem Untagged.writeTag (h : w.Untagged w') (hlive : w.dryRun = false) (kind : TagKind)
    (id : NodeId) : (w.writeTag kind id).Untagged (w'.writeTag kind id) := by
  obtain ⟨output, checksum, position, houtput, rfl⟩ := h
  -- Both go on with a new checksum, and the tag is the one chunk that the filter drops.
  refine ⟨output, {}, position, ?_, ?_⟩
  · by_cases htags : w.settings.mergeTags = true
    · simp [Writer.writeTag, hlive, htags, putTag, houtput, Chunk.tag?]
    · simp [Writer.writeTag, hlive, htags, houtput]
  · by_cases htags : w.settings.mergeTags = true
    · simp [Writer.writeTag, hlive, htags, putTag, withoutTags]
    · simp [Writer.writeTag, hlive, htags, withoutTags]

/-- Writers of a run go in lockstep with those of the run without tags. -/
theorem lockstep_untagged : Emit.Lockstep Untagged where
  course := by
    rintro w w' ⟨output, checksum, position, -, rfl⟩
    rfl
  settings := by
    rintro w w' ⟨output, checksum, position, -, rfl⟩
    rfl
  onCourse := by
    rintro w w' ⟨output, checksum, position, houtput, rfl⟩ course
    exact ⟨output, checksum, position, houtput, rfl⟩
  putSource := Untagged.putSource
  putHeader := Untagged.putHeader
  quoted := by
    intro w w' h hlive data
    obtain ⟨hutf8, hpreview, hlive'⟩ := h.modes hlive
    rw [writeQuoted, writeQuoted, hutf8]
    exact Emit.Lockstep.writeLiteral_of_putSource Untagged.putSource h hlive hlive' hpreview ..
  initializer := by
    intro w w' h hlive data
    obtain ⟨-, hpreview, hlive'⟩ := h.modes hlive
    exact Emit.Lockstep.writeLiteral_of_putSource Untagged.putSource h hlive hlive' hpreview ..
  tag := Untagged.writeTag

/-- Chunks may be put together without the tags where tags add nothing. -/
theorem flatMap_untagged {f g : Chunk → Bytes}
    (hkept : ∀ chunk, chunk.tag? = none → f chunk = g chunk)
    (htag : ∀ tag, g (.tag tag) = []) (chunks : List Chunk) :
    (chunks.filter (·.tag?.isNone)).flatMap f = chunks.flatMap g := by
  induction chunks with
  | nil => rfl
  | cons chunk rest ih =>
    rw [List.flatMap_cons, ← ih]
    cases hchunk : chunk.tag? with
    | none =>
      rw [List.filter_cons_of_pos (by rw [hchunk]; rfl), List.flatMap_cons, hkept chunk hchunk]
    | some tag =>
      cases chunk with
      | tag =>
        rw [htag]
        rfl
      | source | header => cases hchunk

theorem Untagged.header (h : w.Untagged w') : w'.header = w.header := by
  obtain ⟨output, checksum, position, houtput, rfl⟩ := h
  show output.toList.flatMap Chunk.headerBytes = w.output.toList.flatMap Chunk.headerBytes
  rw [houtput]
  exact flatMap_untagged (fun _ _ => rfl) (fun _ => rfl) _

theorem Untagged.source (h : w.Untagged w') : w'.source = w.untaggedSource := by
  obtain ⟨output, checksum, position, houtput, rfl⟩ := h
  show output.toList.flatMap Chunk.sourceBytes = w.output.toList.flatMap Chunk.untagged
  rw [houtput]
  refine flatMap_untagged (fun chunk hchunk => ?_) (fun _ => rfl) _
  cases chunk with
  | tag => cases hchunk
  | source | header => rfl

end Writer

/-! ## 3. The lines that are tags -/

def Section.kindLines (s : Section) : List (Bytes × Bool) :=
  (Text.splitInclusive 0x0a s.block).map (·, false) ++ [(s.tag.line, true)]

namespace Layout

def kindLines (l : Layout) : List (Bytes × Bool) :=
  l.sections.flatMap Section.kindLines ++ (Text.splitInclusive 0x0a l.tail).map (·, false)

def untagged (l : Layout) : Bytes := l.sections.flatMap Section.block ++ l.tail

theorem map_kindLines {l : Layout} (h : ∀ s ∈ l.sections, Text.Complete s.block) :
    l.kindLines.map Prod.fst = Text.splitInclusive 0x0a l.render := by
  have hsection : ∀ s : Section, s.kindLines.map Prod.fst = s.lines := by
    intro s
    simp [Section.kindLines, Section.lines, Function.comp_def]
  rw [splitInclusive_render h, kindLines, List.map_append, List.map_flatMap]
  simp [hsection, Function.comp_def]

theorem tags_kindLines (l : Layout) :
    (l.kindLines.filter (·.2)).map Prod.fst = (l.sections.map Section.tag).map Tag.line := by
  have hcode : ∀ lines : List Bytes,
      (lines.map fun line => (line, false)).filter (fun line => line.2) = [] := by
    simp [List.filter_map, Function.comp_def]
  rw [kindLines, List.filter_append, hcode, List.append_nil]
  induction l.sections with
  | nil => rfl
  | cons s rest ih =>
    rw [List.flatMap_cons, List.filter_append, List.map_append, ih, Section.kindLines,
      List.filter_append, hcode, List.filter_cons_of_pos rfl]
    simp

theorem code_kindLines (l : Layout) :
    ((l.kindLines.filter fun line => !line.2).map Prod.fst).flatten = l.untagged := by
  have hcode : ∀ bytes : Bytes,
      ((((Text.splitInclusive 0x0a bytes).map fun line => (line, false)).filter
        fun line => !line.2).map Prod.fst).flatten = bytes := by
    intro bytes
    simp [List.filter_map, Function.comp_def]
  rw [kindLines, List.filter_append, List.map_append, List.flatten_append, hcode, untagged]
  congr 1
  induction l.sections with
  | nil => rfl
  | cons s rest ih =>
    rw [List.flatMap_cons, List.filter_append, List.map_append, List.flatten_append, ih,
      Section.kindLines, List.filter_append, List.map_append, List.flatten_append, hcode]
    simp

theorem starts_code (lines : List Bytes) (position : Nat) :
    (placed Prod.fst position (lines.map fun line => (line, false))).filter (fun line => line.2.2) =
      [] := by
  rw [placed_map, List.filter_eq_nil_iff]
  simp

/-- A tag line starts behind the block that the tag closes. -/
theorem starts_kindLines (l : Layout) :
    ((placed Prod.fst 0 l.kindLines).filter fun line => line.2.2).map Prod.fst =
      (placed Section.bytes 0 l.sections).map fun part => part.1 + part.2.block.length := by
  rw [kindLines, placed_append, List.filter_append, starts_code, List.append_nil]
  -- The sections behind the first one start further on.
  generalize 0 = position
  induction l.sections generalizing position with
  | nil => rfl
  | cons s rest ih =>
    have hblock : ((Text.splitInclusive 0x0a s.block).map fun line => (line, false)).flatMap
        Prod.fst = s.block := by
      rw [List.flatMap_map, List.flatMap_id', Text.flatten_splitInclusive]
    have hbytes : s.kindLines.flatMap Prod.fst = s.bytes := by
      rw [Section.kindLines, List.flatMap_append, hblock, Section.bytes, List.flatMap_singleton]
    rw [List.flatMap_cons, placed_append, List.filter_append, List.map_append, hbytes, ih,
      Section.kindLines, placed_append, List.filter_append, starts_code, hblock]
    rfl

end Layout

namespace Writer

variable {w : Writer} {names : List SectionName} {place : Cursor}

theorem untaggedSource_eq (w : Writer) : w.untaggedSource = w.layout.untagged := by
  unfold untaggedSource layout
  induction w.output.toList using List.reverseRecOn with
  | nil => rfl
  | append_singleton front chunk ih =>
    rw [List.flatMap_append, ih, Layout.ofChunks_append]
    cases chunk with
    | source bytes => simp [Chunk.untagged, Layout.add, Layout.untagged]
    | header bytes => simp [Chunk.untagged, Layout.add, Layout.untagged]
    | tag tag => simp [Chunk.untagged, Layout.add, Layout.untagged]

def tagLines (w : Writer) : List Bytes :=
  (w.placedLines.filter fun line => line.1 ∈ w.tagStarts).map Prod.snd

def codeLines (w : Writer) : List Bytes :=
  (w.placedLines.filter fun line => line.1 ∉ w.tagStarts).map Prod.snd

theorem kindLines_ne_nil (h : w.Tracked names place) :
    ∀ line ∈ w.layout.kindLines, line.1 ≠ [] := by
  intro line hline
  have hmem : line.1 ∈ Text.splitInclusive 0x0a w.layout.render := by
    rw [← Layout.map_kindLines h.complete]
    exact List.mem_map_of_mem hline
  exact (Text.areLines_splitInclusive _).ne_nil _ hmem

/-- Whether a line is a tag line can be told by the place at which it starts. -/
theorem Tracked.filter_placedLines (h : w.Tracked names place) (test : Bool → Bool) :
    (w.placedLines.filter fun line => test (decide (line.1 ∈ w.tagStarts))).map Prod.snd =
      (w.layout.kindLines.filter fun line => test line.2).map Prod.fst := by
  let placedKinds := placed Prod.fst 0 w.layout.kindLines
  have hplaced : w.placedLines = placedKinds.map fun line => (line.1, line.2.1) := by
    rw [placedLines, source_eq_render, ← Layout.map_kindLines h.complete, placed_map]
    rfl
  have hstarts := mem_starts_iff (kindLines_ne_nil h) (fun line => line.2) 0
  rw [Layout.starts_kindLines, ← tagStarts_eq] at hstarts
  -- No line is empty, so a line that starts where a tag does is the line of the tag.
  have hsame : ∀ line ∈ placedKinds,
      test (decide (line.1 ∈ w.tagStarts)) = test line.2.2 := by
    intro line hline
    rw [show decide (line.1 ∈ w.tagStarts) = line.2.2 from
      Bool.eq_iff_iff.2 (decide_eq_true_iff.trans (hstarts line hline))]
  calc (w.placedLines.filter fun line => test (decide (line.1 ∈ w.tagStarts))).map Prod.snd
      = (placedKinds.filter fun line => test (decide (line.1 ∈ w.tagStarts))).map
          fun line => line.2.1 := by
        rw [hplaced, List.filter_map, List.map_map]
        rfl
    _ = (placedKinds.filter fun line => test line.2.2).map fun line => line.2.1 := by
        rw [List.filter_congr hsame]
    _ = ((placedKinds.filter fun line => test line.2.2).map Prod.snd).map Prod.fst := by
        rw [List.map_map]
        rfl
    _ = (w.layout.kindLines.filter fun line => test line.2).map Prod.fst := by
        rw [filter_placed Prod.fst (fun line => test line.2)]

/-- Every tag makes up a line of its own. -/
theorem Tracked.tagLines_eq (h : w.Tracked names place) : w.tagLines = w.tags.map Tag.line := by
  rw [tags_eq, ← Layout.tags_kindLines]
  exact h.filter_placedLines fun kind => kind

/-- The other lines are what is written besides tags. -/
theorem Tracked.flatten_codeLines (h : w.Tracked names place) :
    w.codeLines.flatten = w.untaggedSource := by
  have hfilter := h.filter_placedLines fun kind => !kind
  simp only [codeLines, decide_not]
  rw [hfilter, Layout.code_kindLines, untaggedSource_eq]

end Writer

namespace Generation

/-! ## 4. Two runs -/

theorem untagged_finalWriter (design : Design) (settings : Settings) (options : RunOptions) :
    (finalWriter design { settings with mergeTags := true } options).Untagged
      (finalWriter design { settings with mergeTags := false } options) := by
  let names := configuredNames settings
  have hstart : (start { settings with mergeTags := true } options).reset.Untagged
      (start { settings with mergeTags := false } options).reset := ⟨#[], {}, 0, rfl, rfl⟩
  have hcode := (composed_steps names (plan design.nodes)).simulates Writer.lockstep_untagged.simulation
    hstart
  -- Both runs write the same code, whatever ranges they keep.
  have hfinal : ∀ tags : Bool, finalWriter design { settings with mergeTags := tags } options =
      (runCode names design.nodes (start { settings with mergeTags := tags } options)).2 := by
    intro tags
    obtain ⟨ranges, hrun⟩ := runDesign_run names options design.nodes
      (start { settings with mergeTags := tags } options)
    exact congrArg Prod.snd hrun
  rw [hfinal, hfinal, runCode_eq, runCode_eq]
  exact hcode.2

/-- Generation does not fail, and how many nodes it counts does not depend on the settings. -/
theorem generate_run (design : Design) (settings : Settings) (options : RunOptions) :
    ∃ ranges, generate design settings options =
      .ok (.ofWriter (finalWriter design settings options)
        { ranges, nodesWritten := (plan design.nodes).countP endsNode }) := by
  obtain ⟨ranges, hrun⟩ := runDesign_run (configuredNames settings) options design.nodes
    (start settings options)
  refine ⟨ranges, ?_⟩
  rw [generate, finalWriter]
  simp only [hrun]
  rfl

/-- Generating a design with tags and without. The headers are the same, the same nodes are counted,
and the source without tags is what is left of the other one when the lines at which tags were
written are taken out; these lines consist of the tags. -/
theorem generate_untagged (design : Design) (settings : Settings) (options : RunOptions) :
    let w := finalWriter design { settings with mergeTags := true } options
    ∃ tagged untagged,
      generate design { settings with mergeTags := true } options = .ok tagged ∧
      generate design { settings with mergeTags := false } options = .ok untagged ∧
      untagged.header = tagged.header ∧
      untagged.report.nodesWritten = tagged.report.nodesWritten ∧
      tagged.source = w.source ∧ w.tagLines = w.tags.map Tag.line ∧
      untagged.source = w.codeLines.flatten := by
  intro w
  obtain ⟨ranges, htagged⟩ := generate_run design { settings with mergeTags := true } options
  obtain ⟨ranges', huntagged⟩ := generate_run design { settings with mergeTags := false } options
  obtain ⟨-, -, htracked⟩ := run_tracked design { settings with mergeTags := true } options rfl
  have hpair := untagged_finalWriter design settings options
  refine ⟨_, _, htagged, huntagged, hpair.header, rfl, rfl, htracked.tagLines_eq, ?_⟩
  rw [htracked.flatten_codeLines]
  exact hpair.source

end Generation

end FormWeave
