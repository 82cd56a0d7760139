import FormWeave.Proofs.ClearCode
import FormWeave.Proofs.Plans
import FormWeave.Proofs.RoundTrip

/-!
# Generated source without foreign markers

If no text that goes into the source has a marker, then every line of the source with a marker is
the line of a tag, and a scan reads the source as it was written.
-/

namespace FormWeave

open Emit

/-! ## 1. The prologue -/

namespace Prologue

variable {settings : Settings}

/-- A line of the preprocessor that ends in free text. -/
theorem settled_directive {indent word text back : String} (hindent : Settled (utf8 indent))
    (hword : Settled (utf8 word)) (htext : ¬ Marked (utf8 text)) (hback : Fence (utf8 back)) :
    Settled (utf8 ("#" ++ indent ++ word ++ text ++ back)) := by
  have hmark : Settled (utf8 "#") := by decide
  exact ((hmark.fixed hindent).fixed hword).free htext hback

theorem clears_writeInclude {header : String} (h : ¬ Marked (utf8 header)) :
    (writeInclude header).Clears settings := by
  refine yields_indent.bind fun _ hindent => clears_source ?_
  refine settled_directive hindent (by decide) ?_ (by decide)
  split
  · exact h
  · exact (Settled.free (by decide) h (by decide)).unmarked

theorem clears_writeFallback {name definition : String} (hname : ¬ Marked (utf8 name))
    (hdefinition : ¬ Marked (utf8 definition)) :
    (writeFallback name definition).Clears settings := by
  have hmark : Settled (utf8 "#") := by decide
  refine yields_indent.bind fun _ hindent => ?_
  refine (clears_source (settled_directive hindent (by decide) hname (by decide))).seq fun _ => ?_
  refine (yields_indentPlus 1).bind fun _ hindent => ?_
  refine (clears_source (settled_directive hindent (by decide) hdefinition (by decide))).seq
    fun _ => ?_
  exact yields_indent.bind fun _ hindent =>
    clears_source ((hmark.fixed hindent).fixed (by decide))

theorem clears_writeCatalog (hfile : ¬ Marked (utf8 settings.translation.posixFile))
    (hname : settings.translation.posixFile.isEmpty = true → ¬ Marked (utf8 settings.basename)) :
    (writeCatalog settings).Clears settings := by
  unfold writeCatalog
  dsimp only
  split
  · next hempty =>
    have hmark : Settled (utf8 "#") := by decide
    refine (clears_source (by decide)).seq fun _ => yields_indent.bind fun _ hindent => ?_
    refine (clears_source ((hmark.fixed hindent).fixed (by decide))).seq fun _ => ?_
    exact (clears_source (by decide)).seq fun _ =>
      clears_source (Settled.free (by decide) (hname hempty) (by decide))
  · exact clears_source (Settled.free (by decide) hfile (by decide))

theorem clears_openCondition {conditional : String} (h : ¬ Marked (utf8 conditional)) :
    (openCondition conditional).Clears settings :=
  (clears_source (Settled.free (by decide) h (by decide))).seq fun _ => clears_indentMore

theorem clears_writeFallbacks (hsettings : settings.MarkerFree) :
    (writeFallbacks settings.translation).Clears settings := by
  unfold writeFallbacks
  split
  · next hmode =>
    have hfunction : ¬ Marked (utf8 settings.translation.gnuFunction) :=
      hsettings.label (by simp [Settings.labelTexts, hmode])
    -- The macro is defined as a call of the function, so its definition starts with free text.
    exact Clears.onlyIf fun _ =>
      clears_writeFallback hfunction (settled_leading hfunction (by decide)).unmarked
  · exact clears_writeFallback (by decide) (by decide)
  · exact .pure _

theorem clears_closeCondition (hsettings : settings.MarkerFree) :
    (closeCondition settings.translation).Clears settings :=
  (clears_source (by decide)).seq fun _ => (clears_writeFallbacks hsettings).seq fun _ =>
    clears_indentLess.seq fun _ => clears_source (by decide)

theorem clears_writeStaticFallback {function : String} (h : ¬ Marked (utf8 function)) :
    (writeStaticFallback function).Clears settings := by
  refine (clears_source (Settled.free (by decide) h (by decide))).seq fun _ => ?_
  refine (yields_indentPlus 1).bind fun _ hindent => ?_
  exact (clears_source (settled_directive hindent (by decide) h (by decide))).seq fun _ =>
    clears_source (by decide)

theorem clears_writeTranslation (hsettings : settings.MarkerFree) :
    (writeTranslation settings).Clears settings := by
  unfold writeTranslation
  dsimp only
  split
  · exact Clears.pure _
  next hused =>
  have htranslation : ∀ text ∈ settings.translationTexts, ¬ Marked (utf8 text) :=
    fun _ htext => hsettings.translation htext
  -- The translation is used, so these are its texts.
  unfold Settings.translationTexts at htranslation
  dsimp only at htranslation
  rw [if_neg hused, List.forall_mem_cons, List.forall_mem_cons] at htranslation
  obtain ⟨hheader, hconditional, hrest⟩ := htranslation
  refine Clears.seq (.onlyIf fun _ => clears_openCondition hconditional) fun _ => ?_
  refine (clears_writeInclude hheader).seq fun _ => ?_
  refine Clears.seq (.onlyIf fun hposix => ?_) fun _ => ?_
  · have hmode : settings.translation.mode = .posix := beq_iff_eq.1 hposix
    refine clears_writeCatalog (hsettings.label (by simp [Settings.labelTexts, hmode])) ?_
    exact fun hempty => hrest _ (by simp [hmode, hempty])
  refine Clears.seq (.onlyIf fun _ => clears_closeCondition hsettings) fun _ => ?_
  refine Clears.onlyIf fun hgnu => clears_writeStaticFallback (hrest _ ?_)
  simp [(Bool.and_eq_true_iff.1 hgnu).1]

theorem clears_write (hsettings : settings.MarkerFree) (headerName : String)
    {includeName : Option String}
    (hinclude : settings.includeHeader = true → ∀ name ∈ includeName, ¬ Marked (utf8 name)) :
    (write headerName includeName).Clears settings := by
  have hask : (ask Writer.settings).Yields settings fun current => current = settings :=
    yields_ask fun w hw => hw.configured
  refine hask.bind ?_
  rintro _ rfl
  refine (clears_header _).seq fun _ => (clears_source (by decide)).seq fun _ => ?_
  refine (clears_header _).seq fun _ => (clears_header _).seq fun _ => ?_
  refine Clears.seq (.onlyIf fun _ => (clears_headerOnce _).discard) fun _ => ?_
  refine Clears.seq (.forSome fun name hname => clears_source ?_) fun _ =>
    clears_writeTranslation hsettings
  obtain ⟨hname, hwanted⟩ := Option.filter_eq_some_iff.1 hname
  exact Settled.free (by decide) (hinclude hwanted name hname) (by decide)

end Prologue

/-! ## 2. Steps and plans -/

namespace Generation

variable {settings : Settings}

def StepMarkerFree : Step Node → Prop
  | .write _ node => node.MarkerFree
  | .prologue | .endClass | .endGuard => True

theorem clears_positions : positions.Clears settings := yields_ask fun _ _ => trivial

theorem clears_tracked (hsettings : settings.MarkerFree) (track : Bool) (table : RangeTable)
    (phase : Phase) {node : Node} (h : node.MarkerFree) :
    (tracked track table phase node (writeNode phase node)).Clears settings := by
  refine clears_positions.seq fun start => (Node.clears_writeNode hsettings h phase).seq fun _ => ?_
  refine clears_positions.seq fun stop => ?_
  split
  · exact Clears.pure _
  · exact Clears.pure _

theorem clears_take (hsettings : settings.MarkerFree) (track : Bool) (table : RangeTable)
    {step : Step Node} (h : StepMarkerFree step) :
    (take (configuredNames settings) track writeNode table step).Clears settings := by
  cases step with
  | write phase node => exact clears_tracked hsettings track table phase h
  | prologue =>
    refine Clears.seq (Prologue.clears_write hsettings _ fun hinclude name hname => ?_) fun _ =>
      Clears.pure table
    cases hname
    exact hsettings.included hinclude
  | endClass =>
    exact (clears_header _).seq fun _ => clears_leaveClass.seq fun _ => Clears.pure table
  | endGuard => exact (clears_header _).seq fun _ => Clears.pure table

theorem clears_steps (hsettings : settings.MarkerFree) (track : Bool) {steps : List (Step Node)}
    (h : ∀ step ∈ steps, StepMarkerFree step) : ∀ table : RangeTable,
    (steps.foldlM (take (configuredNames settings) track writeNode) table).Clears settings := by
  induction steps with
  | nil => exact fun table => Clears.pure table
  | cons step rest ih =>
    intro table
    rw [List.foldlM_cons]
    exact (clears_take hsettings track table (h step List.mem_cons_self)).seq
      (ih fun s hs => h s (List.mem_cons_of_mem _ hs))

/-! ## 3. Runs -/

variable (design : Design) (options : RunOptions)

theorem clear_start : (start settings options).Clear settings where
  configured := rfl
  blocks := by simp [Writer.layout, Layout.ofChunks, start]
  tail := settled_nil
  owner := nofun

theorem clears_runDesign (hsettings : settings.MarkerFree)
    (hdesign : ∀ node ∈ design.nodes, node.MarkerFree) :
    (runDesign (configuredNames settings) options design.nodes).Clears settings := by
  have hsteps : ∀ step ∈ plan design.nodes, StepMarkerFree step :=
    Plan.forall_plan trivial trivial trivial design.nodes (fun node hnode _ _ => hdesign node hnode)
      fun node hnode _ => hdesign node hnode
  exact clears_reset.seq fun _ =>
    Clears.seq (clears_steps hsettings options.trackRanges hsteps {}) fun _ => Clears.pure _

theorem clear_finalWriter (hsettings : settings.MarkerFree)
    (hdesign : ∀ node ∈ design.nodes, node.MarkerFree) :
    (finalWriter design settings options).Clear settings :=
  (clears_runDesign design options hsettings hdesign _ (clear_start options)).1

end Generation

/-! ## 4. The marked lines of a source -/

namespace Writer

theorem filter_unmarked {bytes : Bytes} (h : Unmarked bytes) :
    (Text.splitInclusive 0x0a bytes).filter (fun line => Marked line) = [] :=
  List.filter_eq_nil_iff.2 fun line hline => by simpa using h line hline

theorem filter_lines {sections : List Section} (h : ∀ s ∈ sections, Unmarked s.block) :
    (sections.flatMap Section.lines).filter (fun line => Marked line) =
      sections.map (Tag.line ∘ Section.tag) := by
  induction sections with
  | nil => rfl
  | cons s rest ih =>
    have hs := h s List.mem_cons_self
    have hrest := ih fun t ht => h t (List.mem_cons_of_mem _ ht)
    -- Of the lines of a section only the last one is marked.
    rw [List.flatMap_cons, List.filter_append, hrest, Section.lines, List.filter_append,
      filter_unmarked hs]
    simp [s.tag.marked_line]

/-- If only tags are marked, the marked lines of the source are the lines of its tags. -/
theorem Tracked.marked_lines {w : Writer} {names : List SectionName} {place : Cursor}
    (h : w.Tracked names place) (hmarked : w.OnlyTagsMarked) :
    (Text.splitInclusive 0x0a w.source).filter (fun line => Marked line) =
      w.tags.map Tag.line := by
  rw [source_eq_render, Layout.splitInclusive_render h.complete, List.filter_append,
    filter_lines (hmarked.unmarked_block h.complete),
    filter_unmarked (hmarked.unmarked_tail h.complete), tags_eq, List.map_map, List.append_nil]

end Writer

namespace Generation

/-- If no text that goes into the source has a marker, the marked lines of the source are the lines
of the tags that were written, and a scan reads them as such: it does not fail and finds no edit. -/
theorem marked_lines_are_tags (design : Design) (settings : Settings) (options : RunOptions)
    (htags : settings.mergeTags = true) (hsettings : settings.MarkerFree)
    (hdesign : ∀ node ∈ design.nodes, node.MarkerFree) {ν : Type} [DesignNode ν] (nodes : List ν) :
    ∃ generated, generate design settings options = .ok generated ∧
      (finalWriter design settings options).OnlyTagsMarked ∧
      (Text.splitInclusive 0x0a generated.source).filter (fun line => Marked line) =
        (finalWriter design settings options).tags.map Tag.line ∧
      Merge.scan generated.source nodes = .ok {} := by
  obtain ⟨-, -, htracked⟩ := run_tracked design settings options htags
  obtain ⟨generated, hgenerate, hsource⟩ := generate_ok design settings options htags
  have hclear := clear_finalWriter design options hsettings hdesign
  have hmarked : (finalWriter design settings options).OnlyTagsMarked :=
    (Writer.onlyTagsMarked_iff htracked.complete).2
      ⟨fun s hs => unmarked_of_not_marked (hclear.blocks s hs),
        unmarked_of_not_marked hclear.tail.unmarked⟩
  refine ⟨generated, hgenerate, hmarked, ?_, ?_⟩
  · rw [hsource]
    exact htracked.marked_lines hmarked
  · rw [hsource]
    exact htracked.scan_source hmarked nodes

theorem marked_lines_are_tags_sample :
    Settings.MarkerFree { mergeTags := true } ∧
      (∀ node ∈ Design.sample.nodes, node.MarkerFree) ∧
      ∃ generated, generate Design.sample { mergeTags := true } {} = .ok generated ∧
        (Text.splitInclusive 0x0a generated.source).filter (fun line => Marked line) =
          (finalWriter Design.sample { mergeTags := true } {}).tags.map Tag.line ∧
        Merge.scan generated.source Design.sample.nodes = .ok {} := by
  have hsettings : Settings.MarkerFree { mergeTags := true } := by decide
  have hdesign : ∀ node ∈ Design.sample.nodes, node.MarkerFree := by decide
  obtain ⟨generated, hgenerate, -, hlines, hscan⟩ :=
    marked_lines_are_tags Design.sample { mergeTags := true } {} rfl hsettings hdesign
      Design.sample.nodes
  exact ⟨hsettings, hdesign, generated, hgenerate, hlines, hscan⟩

def markerDesign : Design where
  nodes :=
    [{ id := ⟨1⟩, depth := 0, scope := .file, hasChildren := false, hasChildWidgets := false
       body := .code Tag.marker, resource := none, labelNumber := 0, tooltipNumber := 0 }]

set_option maxRecDepth 10000 in
/-- A marker in a text is not escaped, so that a scan stops at its line. -/
theorem marker_in_code_sample :
    ¬ (finalWriter markerDesign { mergeTags := true } {}).OnlyTagsMarked ∧
      Merge.scan (finalWriter markerDesign { mergeTags := true } {}).source markerDesign.nodes =
        .error (.malformedTag 5 Tag.marker (.invalidField .kind)) := by
  -- A plan is made by well-founded recursion, so it is unfolded before the run is computed.
  have hplan : plan markerDesign.nodes =
      [.prologue, .write .setup markerDesign.nodes[0], .write .opening markerDesign.nodes[0],
        .write .closing markerDesign.nodes[0], .endGuard] := by
    simp [plan, Plan.steps, Plan.trees, Plan.walk, Plan.subtreeSize, markerDesign, DesignNode.kind,
      Node.kind, ItemBody.kind]
  obtain ⟨-, -, htracked⟩ := run_tracked markerDesign { mergeTags := true } {} rfl
  rw [Writer.onlyTagsMarked_iff htracked.complete]
  unfold finalWriter runDesign run
  rw [hplan]
  decide +kernel

end Generation

end FormWeave
