import FormWeave.Proofs.DesignIds
import FormWeave.Proofs.Runs
import FormWeave.Proofs.Scanning

/-!
# A generated source has no edits

All sections of a generated source are sealed, so a scan of it finds nothing, provided that no
generated line looks like a tag.
-/

namespace FormWeave

namespace Writer.Tracked

variable {w : Writer} {names : List SectionName} {cursor : Cursor}

theorem complete (h : w.Tracked names cursor) :
    ∀ s ∈ w.layout.sections, Text.Complete s.block :=
  fun s hs => (h.sealed s hs).complete

theorem plain (h : w.Tracked names cursor) (hmarked : w.OnlyTagsMarked) :
    ∀ s ∈ w.layout.sections, s.Plain :=
  fun s hs => ⟨h.complete s hs, hmarked.unmarked_block h.complete s hs⟩

/-- Scanning what a tracked writer wrote finds no edits. -/
theorem scan_source (h : w.Tracked names cursor) (hmarked : w.OnlyTagsMarked) {ν : Type}
    [DesignNode ν] (nodes : List ν) : Merge.scan w.source nodes = .ok {} := by
  have hscan := Merge.scan_render nodes (h.plain hmarked) (hmarked.unmarked_tail h.complete)
  rw [Writer.source_eq_render, hscan, changedBlocks_sealed nodes h.sealed]
  rfl

end Writer.Tracked

namespace Generation

/-- Generating a design and scanning the source, against any nodes. Generation succeeds, every tag
starts a line and has the checksum of the block in front of it, and if no other line is marked, the
scan finds no edits. -/
theorem generate_scan_clean (design : Design) (settings : Settings) (options : RunOptions)
    (htags : settings.mergeTags = true) {ν : Type} [DesignNode ν] (nodes : List ν) :
    ∃ generated, generate design settings options = .ok generated ∧
      generated.source = (finalWriter design settings options).layout.render ∧
      (∀ start ∈ (finalWriter design settings options).tagStarts,
        start = 0 ∨ generated.source[start - 1]? = some 0x0a) ∧
      (∀ s ∈ (finalWriter design settings options).layout.sections,
        s.tag.checksum = Checksum.ofBlock s.block) ∧
      ((finalWriter design settings options).OnlyTagsMarked →
        Merge.scan generated.source nodes = .ok {}) := by
  obtain ⟨-, -, htracked⟩ := run_tracked design settings options htags
  obtain ⟨generated, hgenerate, hsource⟩ := generate_ok design settings options htags
  refine ⟨generated, hgenerate, ?_, ?_, ?_, ?_⟩
  · rw [hsource, Writer.source_eq_render]
  · intro start hstart
    rw [hsource]
    exact Writer.lineStart_of_mem_tagStarts htracked.complete hstart
  · exact fun s hs => (htracked.sealed s hs).checksum
  · intro hmarked
    rw [hsource]
    exact htracked.scan_source hmarked nodes

theorem plan_sample :
    plan Design.sample.nodes =
      [.prologue, .write .setup Design.sample.nodes[0], .write .setup Design.sample.nodes[1],
        .write .opening Design.sample.nodes[0], .write .opening Design.sample.nodes[1],
        .write .closing Design.sample.nodes[1], .write .closing Design.sample.nodes[0],
        .endGuard] := by
  simp [plan, Plan.steps, Plan.trees, Plan.walk, Plan.subtreeSize, Design.sample, DesignNode.kind,
    Node.kind, ItemBody.kind, DesignNode.below, DesignNode.depth]

theorem onlyTagsMarked_sample :
    (finalWriter Design.sample { mergeTags := true } {}).OnlyTagsMarked := by
  obtain ⟨-, -, htracked⟩ := run_tracked Design.sample { mergeTags := true } {} rfl
  refine (Writer.onlyTagsMarked_iff htracked.complete).2 ?_
  unfold finalWriter runDesign run
  rw [plan_sample]
  decide +kernel

theorem generate_scan_clean_sample :
    (finalWriter Design.sample { mergeTags := true } {}).tagStarts ≠ [] ∧
      ∃ generated, generate Design.sample { mergeTags := true } {} = .ok generated ∧
        Merge.scan generated.source Design.sample.nodes = .ok {} := by
  obtain ⟨generated, hgenerate, -, -, -, hscan⟩ :=
    generate_scan_clean Design.sample { mergeTags := true } {} rfl Design.sample.nodes
  refine ⟨?_, generated, hgenerate, hscan onlyTagsMarked_sample⟩
  unfold finalWriter runDesign run
  rw [plan_sample]
  decide +kernel

end Generation

end FormWeave
