import FormWeave.Proofs.NodeCode

/-!
# A whole run leaves a sealed source

Every step of a plan closes the sections of its node and leaves the source at the start of a line,
so a run does not fail, and the sections of its source are those of the steps, in their order.
-/

namespace FormWeave

open Emit

/-! ## 1. The prologue -/

namespace Prologue

theorem closes_writeInclude (header : String) :
    (writeInclude header).Closes .lineStart .lineStart [] :=
  idle_indent.seq fun _ => closes_line _ (.append (by decide) _)

theorem closes_writeFallback (name definition : String) :
    (writeFallback name definition).Closes .lineStart .lineStart [] := by
  refine idle_indent.seq fun _ => (closes_line _ (.append (by decide) _)).seq fun _ => ?_
  refine (idle_indentPlus 1).seq fun _ => (closes_line _ (.append (by decide) _)).seq fun _ => ?_
  exact idle_indent.seq fun _ => closes_line _ (.append (by decide) _)

theorem closes_writeCatalog (settings : Settings) :
    (writeCatalog settings).Closes .lineStart .lineStart [] := by
  unfold writeCatalog
  dsimp only
  split
  · refine (closes_line _ (by decide)).seq fun _ => idle_indent.seq fun _ => ?_
    refine (closes_line _ (.append (by decide) _)).seq fun _ => ?_
    refine (closes_line _ (by decide)).seq fun _ => ?_
    exact closes_line _ (.append (by decide) _)
  · exact closes_line _ (.append (by decide) _)

theorem closes_openCondition (conditional : String) :
    (openCondition conditional).Closes .lineStart .lineStart [] :=
  (closes_line _ (.append (by decide) _)).seq fun _ => idle_indentMore.closes _

theorem closes_writeFallbacks (translation : Translation) :
    (writeFallbacks translation).Closes .lineStart .lineStart [] := by
  unfold writeFallbacks
  cases translation.mode with
  | none => exact (Idle.pure _).closes _
  | gnu => exact .onlyIf (closes_writeFallback _ _) _
  | posix => exact closes_writeFallback _ _

theorem closes_closeCondition (translation : Translation) :
    (closeCondition translation).Closes .lineStart .lineStart [] := by
  refine (closes_line _ (by decide)).seq fun _ => ?_
  refine (closes_writeFallbacks translation).seq fun _ => ?_
  exact idle_indentLess.seq fun _ => closes_line _ (by decide)

theorem closes_writeStaticFallback (function : String) :
    (writeStaticFallback function).Closes .lineStart .lineStart [] := by
  refine (closes_line _ (.append (by decide) _)).seq fun _ => (idle_indentPlus 1).seq fun _ => ?_
  exact (closes_line _ (.append (by decide) _)).seq fun _ => closes_line _ (by decide)

theorem closes_writeTranslation (settings : Settings) :
    (writeTranslation settings).Closes .lineStart .lineStart [] := by
  unfold writeTranslation
  dsimp only
  split
  · exact (Idle.pure _).closes _
  · refine (Closes.onlyIf (closes_openCondition _) _).seq fun _ => ?_
    refine (closes_writeInclude _).seq fun _ => ?_
    refine (Closes.onlyIf (closes_writeCatalog _) _).seq fun _ => ?_
    refine (Closes.onlyIf (closes_closeCondition _) _).seq fun _ => ?_
    exact .onlyIf (closes_writeStaticFallback _) _

theorem closes_write (headerName : String) (includeName : Option String) :
    (write headerName includeName).Closes .lineStart .lineStart [] := by
  refine (idle_ask _).seq fun settings => (closes_header _ _).seq fun _ => ?_
  refine (closes_line _ (.append (by decide) _)).seq fun _ => ?_
  refine (closes_header _ _).seq fun _ => (closes_header _ _).seq fun _ => ?_
  refine (Closes.onlyIf (closes_headerOnce _ _).discard _).seq fun _ => ?_
  refine (Closes.forSome (fun name => ?_) _).seq fun _ => closes_writeTranslation settings
  exact closes_line _ (.append (by decide) _)

end Prologue

/-! ## 2. Steps and plans -/

namespace Generation

def stepSections : Step Node → List SectionName
  | .write phase node => node.sectionNames phase
  | .prologue | .endClass | .endGuard => []

def sectionNames (nodes : List Node) : List SectionName := (plan nodes).flatMap stepSections

theorem idle_positions : positions.Idle := idle_ask _

theorem closes_tracked (track : Bool) (table : RangeTable) (phase : Phase) (node : Node) :
    (tracked track table phase node (writeNode phase node)).Closes .lineStart .lineStart
      (node.sectionNames phase) := by
  -- Asking for positions writes nothing, so tracking makes no difference.
  refine idle_positions.seq fun start => ?_
  rw [← List.append_nil (node.sectionNames phase)]
  refine (node.closes_writeNode phase).bind fun _ => idle_positions.seq fun stop => ?_
  split
  · exact (Idle.pure _).closes _
  · exact (Idle.pure _).closes _

theorem closes_take (names : HeaderNames) (track : Bool) (table : RangeTable) (step : Step Node) :
    (take names track writeNode table step).Closes .lineStart .lineStart (stepSections step) := by
  cases step with
  | write phase node => exact closes_tracked track table phase node
  | prologue =>
    exact (Prologue.closes_write _ _).seq fun _ => (Idle.pure table).closes _
  | endClass =>
    exact (closes_header _ _).seq fun _ => idle_leaveClass.seq fun _ => (Idle.pure table).closes _
  | endGuard => exact (closes_header _ _).seq fun _ => (Idle.pure table).closes _

theorem closes_steps (names : HeaderNames) (track : Bool) (steps : List (Step Node)) :
    ∀ table : RangeTable, (steps.foldlM (take names track writeNode) table).Closes .lineStart
      .lineStart (steps.flatMap stepSections) := by
  induction steps with
  | nil => exact fun table => (Idle.pure table).closes _
  | cons step rest ih =>
    intro table
    rw [List.foldlM_cons, List.flatMap_cons]
    exact (closes_take names track table step).bind ih

/-! ## 3. Runs -/

variable (design : Design) (settings : Settings) (options : RunOptions)

def finalWriter : Writer :=
  (runDesign (configuredNames settings) options design.nodes (start settings options)).2

theorem tracked_start (h : settings.mergeTags = true) :
    (start settings options).reset.Tracked [] .lineStart where
  live := rfl
  tagging := h
  checksum := rfl
  sealed := by simp [Writer.layout, Layout.ofChunks, start, Writer.reset]
  names := rfl
  place _ := Text.complete_nil

/-- A run that tags blocks does not fail, and its source consists of the sealed sections of the
steps of the plan. -/
theorem run_tracked (h : settings.mergeTags = true) :
    ∃ report, runDesign (configuredNames settings) options design.nodes (start settings options) =
        (.ok report, finalWriter design settings options) ∧
      (finalWriter design settings options).Tracked (sectionNames design.nodes) .lineStart := by
  obtain ⟨ranges, w, hrun, hw⟩ := closes_steps (configuredNames settings) options.trackRanges
    (plan design.nodes) {} _ _ (tracked_start settings options h)
  let report : Report := { ranges, nodesWritten := (plan design.nodes).countP endsNode }
  have hdesign : runDesign (configuredNames settings) options design.nodes
      (start settings options) = (.ok report, w) := by
    -- A run starts by resetting a writer that is fresh anyhow.
    have hreset : Emit.reset (start settings options) = (.ok (), (start settings options).reset) :=
      rfl
    exact (bind_run hreset).trans (bind_run hrun)
  have hfinal : finalWriter design settings options = w := by
    rw [finalWriter, hdesign]
  exact ⟨report, by rw [hdesign, hfinal], by rw [hfinal]; exact hw⟩

/-- Generation does not fail, and the source is what the final writer wrote. -/
theorem generate_ok (h : settings.mergeTags = true) :
    ∃ generated, generate design settings options = .ok generated ∧
      generated.source = (finalWriter design settings options).source := by
  obtain ⟨report, hrun, -⟩ := run_tracked design settings options h
  refine ⟨Generated.ofWriter (finalWriter design settings options) report, ?_, rfl⟩
  rw [generate]
  simp only [hrun]
  rfl

end Generation

end FormWeave
