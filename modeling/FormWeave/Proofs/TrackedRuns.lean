import FormWeave.Proofs.DesignIds
import FormWeave.Proofs.Layout
import FormWeave.Proofs.Pieces

/-!
# Runs that keep track of ranges

The positions of a writer are the lengths of what it wrote. So a run that keeps track of ranges enters
each piece of a node at its place in the two files, and goes on as a run that does not.
-/

namespace FormWeave

/-! ## 1. Positions are lengths -/

namespace Writer

structure Located (w : Writer) : Prop where
  source : w.sourcePosition = w.source.length
  header : w.headerPosition = w.header.length

variable {w : Writer}

/-- Nothing but the output and the positions counts. -/
theorem Located.same {w' : Writer} (h : w.Located) (houtput : w'.output = w.output)
    (hsource : w'.sourcePosition = w.sourcePosition)
    (hheader : w'.headerPosition = w.headerPosition) : w'.Located where
  source := by rw [hsource, h.source, Writer.source, Writer.source, houtput]
  header := by rw [hheader, h.header, Writer.header, Writer.header, houtput]

theorem Located.putSource (h : w.Located) (bytes : Bytes) : (w.putSource bytes).Located where
  source := by simp [Writer.putSource, Writer.source, h.source, Chunk.sourceBytes]
  header := by simp [Writer.putSource, Writer.header, h.header, Chunk.headerBytes]

theorem Located.putHeader (h : w.Located) (bytes : Bytes) : (w.putHeader bytes).Located where
  source := by simp [Writer.putHeader, Writer.source, h.source, Chunk.sourceBytes]
  header := by simp [Writer.putHeader, Writer.header, h.header, Chunk.headerBytes]

theorem Located.writeTag (h : w.Located) (hlive : w.dryRun = false) (kind : TagKind)
    (id : NodeId) : (w.writeTag kind id).Located := by
  unfold Writer.writeTag
  rw [if_neg (Bool.eq_false_iff.1 hlive)]
  dsimp only
  split
  · refine ⟨?_, ?_⟩
    · simp [Writer.putTag, Writer.source, h.source, Chunk.sourceBytes]
    · simp [Writer.putTag, Writer.header, h.header, Chunk.headerBytes]
  · exact h.same rfl rfl rfl

/-- A writer stays located whatever is written. -/
theorem invariant_located : Emit.Invariant Located where
  onCourse h _ := h.same rfl rfl rfl
  putSource := Located.putSource
  putHeader := Located.putHeader
  tag := Located.writeTag

theorem Wrote.source {w' : Writer} {chunks : List Chunk} (h : w.Wrote chunks w') :
    w'.source = w.source ++ chunks.flatMap Chunk.sourceBytes := by
  rw [Writer.source, h.output, List.flatMap_append]
  rfl

theorem Wrote.header {w' : Writer} {chunks : List Chunk} (h : w.Wrote chunks w') :
    w'.header = w.header ++ chunks.flatMap Chunk.headerBytes := by
  rw [Writer.header, h.output, List.flatMap_append]
  rfl

end Writer

namespace RangeTable

open Generation

/-! ## 2. Tables of ranges -/

def enter (table : RangeTable) (place : Piece × RangePair) : RangeTable :=
  match place.1.step with
  | .write phase node => table.update node.id (·.set place.2 phase)
  | .prologue | .endClass | .endGuard => table

theorem lookup_updateEntry (id other : NodeId) (f : NodeRanges → NodeRanges)
    (entries : List (NodeId × NodeRanges)) :
    (updateEntry id f entries).lookup other =
      if other = id then some (f ((entries.lookup id).getD {})) else entries.lookup other := by
  induction entries with
  | nil =>
    by_cases hid : other = id
    · simp [updateEntry, hid]
    · simp [updateEntry, hid, List.lookup_cons, beq_eq_false_iff_ne.2 hid]
  | cons entry rest ih =>
    obtain ⟨first, ranges⟩ := entry
    rw [updateEntry]
    by_cases hfirst : first = id
    · subst hfirst
      by_cases hid : other = first
      · simp [hid]
      · simp [hid, List.lookup_cons, beq_eq_false_iff_ne.2 hid]
    · rw [if_neg hfirst, List.lookup_cons, ih, List.lookup_cons, List.lookup_cons,
        beq_eq_false_iff_ne.2 (Ne.symm hfirst)]
      by_cases hother : other = first
      · simp [hother, hfirst]
      · simp [beq_eq_false_iff_ne.2 hother]

theorem find?_update (table : RangeTable) (id other : NodeId) (f : NodeRanges → NodeRanges) :
    (table.update id f).find? other =
      if other = id then some (f ((table.find? id).getD {})) else table.find? other :=
  lookup_updateEntry id other f table.entries

/-- An update keeps the entries apart: the one it changes keeps its place, and a new one comes to the
end. -/
theorem map_fst_updateEntry (id : NodeId) (f : NodeRanges → NodeRanges)
    (entries : List (NodeId × NodeRanges)) :
    (updateEntry id f entries).map Prod.fst =
      if id ∈ entries.map Prod.fst then entries.map Prod.fst
      else entries.map Prod.fst ++ [id] := by
  induction entries with
  | nil => rfl
  | cons entry rest ih =>
    obtain ⟨first, ranges⟩ := entry
    rw [updateEntry]
    by_cases hfirst : first = id
    · simp [hfirst]
    · rw [if_neg hfirst, List.map_cons, ih]
      by_cases hmem : id ∈ rest.map Prod.fst
      · have hthere : id ∈ ((first, ranges) :: rest).map Prod.fst := List.mem_cons_of_mem _ hmem
        rw [if_pos hmem, if_pos hthere]
        rfl
      · have hnew : id ∉ ((first, ranges) :: rest).map Prod.fst :=
          List.not_mem_cons_of_ne_of_not_mem (Ne.symm hfirst) hmem
        rw [if_neg hmem, if_neg hnew]
        rfl

def ids (table : RangeTable) : List NodeId := table.entries.map Prod.fst

theorem ids_update (table : RangeTable) (id : NodeId) (f : NodeRanges → NodeRanges) :
    (table.update id f).ids = if id ∈ table.ids then table.ids else table.ids ++ [id] :=
  map_fst_updateEntry id f table.entries

theorem nodup_ids_enter {table : RangeTable} (h : table.ids.Nodup) (place : Piece × RangePair) :
    (table.enter place).ids.Nodup := by
  unfold enter
  split
  · rw [ids_update]
    split
    · exact h
    · next hnew =>
      refine List.nodup_append.2 ⟨h, List.nodup_singleton _, fun id hid other hother heq => ?_⟩
      exact hnew (List.mem_singleton.1 hother ▸ heq ▸ hid)
  all_goals exact h

theorem nodup_ids_foldl (places : List (Piece × RangePair)) :
    ∀ {table : RangeTable}, table.ids.Nodup → (places.foldl enter table).ids.Nodup := by
  induction places with
  | nil => exact id
  | cons place rest ih => exact fun h => ih (nodup_ids_enter h place)

theorem mem_ids_enter {table : RangeTable} {place : Piece × RangePair} {id : NodeId} :
    id ∈ (table.enter place).ids ↔
      id ∈ table.ids ∨ ∃ phase node, place.1.step = .write phase node ∧ node.id = id := by
  unfold enter
  split
  · next phase node hstep =>
    rw [ids_update, hstep]
    have hnode : (∃ phase' node', Step.write phase node = .write phase' node' ∧ node'.id = id) ↔
        id = node.id := by
      constructor
      · rintro ⟨_, _, heq, rfl⟩
        cases heq
        rfl
      · rintro rfl
        exact ⟨phase, node, rfl, rfl⟩
    rw [hnode]
    split
    · next hmem =>
      exact ⟨.inl, fun h => h.elim (fun h => h) fun heq => heq ▸ hmem⟩
    · rw [List.mem_append, List.mem_singleton]
  all_goals next hstep => simp [hstep]

theorem mem_ids_foldl {places : List (Piece × RangePair)} {id : NodeId} :
    ∀ {table : RangeTable}, id ∈ (places.foldl enter table).ids ↔
      id ∈ table.ids ∨ ∃ place ∈ places, ∃ phase node,
        place.1.step = .write phase node ∧ node.id = id := by
  induction places with
  | nil => simp
  | cons place rest ih =>
    intro table
    rw [List.foldl_cons, ih, mem_ids_enter, or_assoc, List.exists_mem_cons_iff]

end RangeTable

namespace Generation

open Emit (bind_run)

/-! ## 3. Pieces at their places -/

/-- Pieces with their places in the two files, where the first one starts at the given positions. -/
def places (source header : Nat) : List Piece → List (Piece × RangePair)
  | [] => []
  | piece :: rest =>
    (piece, ⟨⟨source, source + piece.source.length⟩, ⟨header, header + piece.header.length⟩⟩) ::
      places (source + piece.source.length) (header + piece.header.length) rest

theorem map_fst_places (source header : Nat) (pieces : List Piece) :
    (places source header pieces).map Prod.fst = pieces := by
  induction pieces generalizing source header with
  | nil => rfl
  | cons piece rest ih => exact congrArg (piece :: ·) (ih _ _)

variable (names : HeaderNames)

theorem located_stepCode (step : Step Node) {w : Writer} (hw : w.Located) :
    (stepCode names step w).2.Located := (composed_stepCode names step).keeps Writer.invariant_located hw

/-- Taking a step with track kept of ranges enters its piece at the place where it lands. -/
theorem take_tracked (table : RangeTable) (step : Step Node) {w : Writer} (hw : w.Located) :
    take names true writeNode table step w =
      (.ok ((places w.source.length w.header.length (pieces names w [step])).foldl
        RangeTable.enter table), (stepCode names step w).2) := by
  obtain ⟨a, hrun⟩ := (composed_stepCode names step).run w
  cases step with
  | prologue => exact bind_run hrun
  | endClass => rfl
  | endGuard => rfl
  | write phase node =>
    obtain ⟨chunks, hwrote⟩ := (composed_stepCode names (.write phase node)).wrote w
    have hpositions : ∀ {w : Writer}, w.Located →
        positions w = (.ok (w.source.length, w.header.length), w) := fun h => by
      rw [← h.source, ← h.header]
      rfl
    have htake : take names true writeNode table (.write phase node) w = _ :=
      (bind_run (hpositions hw)).trans ((bind_run hrun).trans
        (bind_run (hpositions (located_stepCode names (.write phase node) hw))))
    -- The writer behind the step stands at the end of the piece.
    rw [htake, pieces_cons names hwrote, hwrote.source, hwrote.header, List.length_append,
      List.length_append]
    rfl

/-- So do all steps of a run. -/
theorem steps_tracked (steps : List (Step Node)) :
    ∀ (table : RangeTable) {w : Writer}, w.Located →
      (steps.foldlM (take names true writeNode) table) w =
        (.ok ((places w.source.length w.header.length (pieces names w steps)).foldl
          RangeTable.enter table), advance names w steps) := by
  induction steps with
  | nil => exact fun table w _ => rfl
  | cons step rest ih =>
    intro table w hw
    obtain ⟨chunks, hwrote⟩ := (composed_stepCode names step).wrote w
    rw [List.foldlM_cons, bind_run (take_tracked names table step hw),
      ih _ (located_stepCode names step hw), pieces_cons names hwrote, pieces_cons names hwrote,
      hwrote.source, hwrote.header, List.length_append, List.length_append]
    rfl

variable (design : Design) (settings : Settings) (preview : Bool)

def placedPieces : List (Piece × RangePair) := places 0 0 (written design settings { preview })

/-- Keeping track of ranges makes no difference to the files and to the number of nodes, and the table
that it gives has the pieces of the nodes at their places. -/
theorem generate_tracked :
    ∃ plain tracked, generate design settings { preview } = .ok plain ∧
      generate design settings { preview, trackRanges := true } = .ok tracked ∧
      tracked.source = plain.source ∧ tracked.header = plain.header ∧
      tracked.report.nodesWritten = plain.report.nodesWritten ∧
      tracked.report.ranges = (placedPieces design settings preview).foldl RangeTable.enter {} := by
  obtain ⟨ranges, hplain⟩ := generate_run design settings { preview }
  have hreset : Emit.reset (start settings { preview }) =
      (.ok (), (start settings { preview }).reset) := rfl
  have hlocated : (start settings { preview }).reset.Located := ⟨rfl, rfl⟩
  have hrun : runDesign (configuredNames settings) { preview, trackRanges := true } design.nodes
      (start settings { preview, trackRanges := true }) = _ :=
    (bind_run hreset).trans (bind_run (steps_tracked (configuredNames settings) (plan design.nodes)
      {} hlocated))
  refine ⟨_, Generated.ofWriter (finalWriter design settings { preview })
    { ranges := (placedPieces design settings preview).foldl RangeTable.enter {}
      nodesWritten := (plan design.nodes).countP endsNode }, hplain, ?_, rfl, rfl, rfl, rfl⟩
  rw [generate]
  simp only [hrun, finalWriter_eq]
  rfl

end Generation

end FormWeave
