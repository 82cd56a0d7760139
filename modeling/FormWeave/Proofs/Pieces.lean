import FormWeave.Proofs.NodeFrames
import FormWeave.Proofs.UntaggedRuns

/-!
# What each step writes

A run takes its steps one after the other, and what it writes is what the steps write, piece by
piece. The source and the header of a design are made up of these pieces.
-/

namespace FormWeave.Generation

/-! ## 1. Steps and pieces -/

/-- A step with what it wrote. -/
structure Piece where
  step : Step Node
  chunks : List Chunk
  deriving DecidableEq

namespace Piece

def source (piece : Piece) : Bytes := piece.chunks.flatMap Chunk.sourceBytes

def header (piece : Piece) : Bytes := piece.chunks.flatMap Chunk.headerBytes

end Piece

variable (names : HeaderNames)

def advance (w : Writer) (steps : List (Step Node)) : Writer :=
  steps.foldl (fun w step => (stepCode names step w).2) w

def pieces (w : Writer) : List (Step Node) → List Piece
  | [] => []
  | step :: rest =>
    let next := (stepCode names step w).2
    ⟨step, next.output.toList.drop w.output.size⟩ :: pieces next rest

theorem advance_cons (w : Writer) (step : Step Node) (rest : List (Step Node)) :
    advance names w (step :: rest) = advance names (stepCode names step w).2 rest := rfl

theorem advance_append (w : Writer) (front back : List (Step Node)) :
    advance names w (front ++ back) = advance names (advance names w front) back :=
  List.foldl_append

theorem pieces_append (w : Writer) (front back : List (Step Node)) :
    pieces names w (front ++ back) =
      pieces names w front ++ pieces names (advance names w front) back := by
  induction front generalizing w with
  | nil => rfl
  | cons step rest ih =>
    rw [List.cons_append, pieces, ih]
    rfl

theorem map_step_pieces (w : Writer) (steps : List (Step Node)) :
    (pieces names w steps).map Piece.step = steps := by
  induction steps generalizing w with
  | nil => rfl
  | cons step rest ih => rw [pieces, List.map_cons, ih]

theorem forM_stepCode (w : Writer) (steps : List (Step Node)) :
    (steps.forM (stepCode names) w).2 = advance names w steps := by
  induction steps generalizing w with
  | nil => rfl
  | cons step rest ih =>
    obtain ⟨a, hcode⟩ := (composed_stepCode names step).bind_state
      (fun _ => rest.forM (stepCode names)) w
    rw [advance_cons, ← ih]
    exact congrArg Prod.snd hcode

/-- What stands at a place among the pieces is what the step there writes. -/
theorem split_pieces {w : Writer} {steps : List (Step Node)} {before behind : List Piece}
    {piece : Piece} (h : pieces names w steps = before ++ piece :: behind) :
    steps = before.map Piece.step ++ piece.step :: behind.map Piece.step ∧
      pieces names (advance names w (before.map Piece.step)) [piece.step] = [piece] := by
  have hsteps := map_step_pieces names w steps
  rw [h, List.map_append, List.map_cons] at hsteps
  refine ⟨hsteps.symm, ?_⟩
  rw [← hsteps, pieces_append, pieces] at h
  -- There are as many pieces as steps, so both lists are cut at the same place.
  have hlength : (pieces names w (before.map Piece.step)).length = before.length := by
    rw [← List.length_map Piece.step, map_step_pieces, List.length_map]
  obtain ⟨-, hback⟩ := List.append_inj h hlength
  obtain ⟨hpiece, -⟩ := List.cons.inj hback
  rw [pieces, hpiece]
  rfl

/-- What a step is known to write is its piece. -/
theorem pieces_cons {w : Writer} {step : Step Node} {chunks : List Chunk}
    (h : w.Wrote chunks (stepCode names step w).2) (rest : List (Step Node)) :
    pieces names w (step :: rest) = ⟨step, chunks⟩ :: pieces names (stepCode names step w).2 rest := by
  rw [pieces, h.output, List.drop_left' Array.length_toList]

theorem wrote_advance (w : Writer) (steps : List (Step Node)) :
    w.Wrote ((pieces names w steps).flatMap Piece.chunks) (advance names w steps) := by
  induction steps generalizing w with
  | nil => exact .refl w
  | cons step rest ih =>
    obtain ⟨chunks, hstep⟩ := (composed_stepCode names step).wrote w
    rw [pieces_cons names hstep, List.flatMap_cons, advance_cons]
    exact hstep.trans (ih _)

/-! ## 2. The pieces of a design -/

variable (design : Design) (settings : Settings) (options : RunOptions)

/-- What is written for a design, step by step. -/
def written : List Piece :=
  pieces (configuredNames settings) (start settings options).reset (plan design.nodes)

theorem finalWriter_eq : finalWriter design settings options =
    advance (configuredNames settings) (start settings options).reset (plan design.nodes) := by
  obtain ⟨ranges, hrun⟩ := runDesign_run (configuredNames settings) options design.nodes
    (start settings options)
  rw [finalWriter, hrun, runCode_eq, forM_stepCode]

theorem output_finalWriter :
    (finalWriter design settings options).output.toList =
      (written design settings options).flatMap Piece.chunks := by
  rw [finalWriter_eq, (wrote_advance _ _ _).output]
  rfl

/-- Generation does not fail, and both files are made up of the pieces. -/
theorem generate_written : ∃ generated, generate design settings options = .ok generated ∧
    generated.source = (written design settings options).flatMap Piece.source ∧
    generated.header = (written design settings options).flatMap Piece.header := by
  obtain ⟨ranges, hrun⟩ := generate_run design settings options
  have houtput := output_finalWriter design settings options
  refine ⟨_, hrun, ?_, ?_⟩
  · show Writer.source _ = _
    rw [Writer.source, houtput, List.flatMap_assoc]
    rfl
  · show Writer.header _ = _
    rw [Writer.header, houtput, List.flatMap_assoc]
    rfl

theorem map_step_written : (written design settings options).map Piece.step = plan design.nodes :=
  map_step_pieces _ _ _

/-- The pieces of a design are split as its steps are. -/
theorem split_written {front back : List (Step Node)} {step : Step Node}
    (h : plan design.nodes = front ++ step :: back) :
    ∃ before piece behind, written design settings options = before ++ piece :: behind ∧
      before.map Piece.step = front ∧ piece.step = step ∧ behind.map Piece.step = back := by
  have hsteps := map_step_written design settings options
  rw [h] at hsteps
  obtain ⟨before, rest, hwritten, hfront, hrest⟩ := List.map_eq_append_iff.1 hsteps
  obtain ⟨piece, behind, rfl, hpiece, hback⟩ := List.map_eq_cons_iff.1 hrest
  exact ⟨before, piece, behind, hwritten, hfront, hpiece, hback⟩

end FormWeave.Generation
