import FormWeave.Proofs.EditableSections
import FormWeave.Proofs.RoundTrip

/-!
# Edits reach the nodes they were made to

Where the user replaces the text of code and callback sections of a generated source, a scan finds
exactly the replaced texts, and a merge puts each of them into the node its tag names.
-/

namespace FormWeave

/-! ## 1. Edited sections -/

/-- A section with other text in front of its tag. Only code and callbacks are edited; the new text is
made of complete lines and holds no marker. -/
structure Section.Edited (old new : Section) : Prop where
  tag : new.tag = old.tag
  block : new.block = old.block ∨
    old.tag.kind.isMergeable = true ∧ Text.Complete new.block ∧ ¬ Marked new.block

def replacedSections (old new : List Section) : List (Section × Section) :=
  (old.zip new).filter fun pair =>
    Checksum.ofBlock pair.2.block != Checksum.ofBlock pair.1.block

theorem replacedSections_cons (s s' : Section) (old new : List Section) :
    replacedSections (s :: old) (s' :: new) =
      if Checksum.ofBlock s'.block != Checksum.ofBlock s.block then
        (s, s') :: replacedSections old new
      else replacedSections old new := by
  rw [replacedSections, List.zip_cons_cons, List.filter_cons]
  rfl

variable {ν : Type} [DesignNode ν] (nodes : List ν)

theorem Section.Edited.plain {old new : Section} (h : Edited old new) (hold : old.Plain) :
    new.Plain := by
  obtain ⟨-, hsame | ⟨-, hcomplete, hmarked⟩⟩ := h
  · exact ⟨hsame ▸ hold.complete, hsame ▸ hold.unmarked⟩
  · exact ⟨hcomplete, unmarked_of_not_marked hmarked⟩

theorem plain_edited {old new : List Section} (h : List.Forall₂ Section.Edited old new)
    (hold : ∀ s ∈ old, s.Plain) : ∀ s ∈ new, s.Plain := by
  induction h with
  | nil => exact hold
  | @cons s s' old new hs _ ih =>
    rintro t (_ | ⟨_, ht⟩)
    · exact hs.plain (hold s List.mem_cons_self)
    · exact ih (fun t ht => hold t (List.mem_cons_of_mem _ ht)) t ht

/-- A sealed section that was edited has an edited block exactly if its checksum is another one. -/
theorem Section.Edited.changed?_eq {old new : Section} (h : Edited old new) (hold : old.Sealed)
    (line : Nat) :
    new.changed? nodes line =
      if Checksum.ofBlock new.block != Checksum.ofBlock old.block then
        some
          { kind := old.tag.kind
            nodeId := old.tag.nodeId
            line
            text := Merge.unindent new.block
            resolved := old.tag.kind == .generic ||
              Merge.accepts nodes old.tag.nodeId old.tag.kind }
      else none := by
  rw [changed?, h.tag, hold.checksum]
  by_cases hsum : Checksum.ofBlock new.block = Checksum.ofBlock old.block
  · rw [if_pos hsum, if_neg (by rw [bne_iff_ne]; exact not_not.2 hsum)]
  · rw [if_neg hsum, if_pos (bne_iff_ne.2 hsum)]

/-- The blocks a scan finds in edited sections are the replaced ones, in the order of the file. -/
theorem changedBlocks_edited {old new : List Section} (h : List.Forall₂ Section.Edited old new)
    (hold : ∀ s ∈ old, s.Sealed) :
    ∀ lines, (changedBlocks nodes lines new).map (fun b => (b.kind, b.nodeId, b.text)) =
      (replacedSections old new).map fun pair =>
        (pair.1.tag.kind, pair.1.tag.nodeId, Merge.unindent pair.2.block) := by
  induction h with
  | nil => exact fun _ => rfl
  | @cons s s' old new hs _ ih =>
    intro lines
    have hrest := ih fun t ht => hold t (List.mem_cons_of_mem _ ht)
    -- Both lists take the section exactly if the checksum is another one.
    rw [changedBlocks, hs.changed?_eq nodes (hold s List.mem_cons_self), List.map_append, hrest,
      replacedSections_cons]
    split <;> rfl

/-- Every edited block stands in a section of code or of a callback. -/
theorem changedBlocks_names {old new : List Section} (h : List.Forall₂ Section.Edited old new)
    (hold : ∀ s ∈ old, s.Sealed) :
    ∀ lines, (∀ b ∈ changedBlocks nodes lines new, b.kind.isMergeable = true ∧
        b.resolved = (b.kind == .generic || Merge.accepts nodes b.nodeId b.kind)) ∧
      List.Sublist ((changedBlocks nodes lines new).map fun b => (b.kind, b.nodeId))
        (old.map Section.name) := by
  induction h with
  | nil => exact fun _ => ⟨by simp [changedBlocks], List.Sublist.refl _⟩
  | @cons s s' old new hs _ ih =>
    intro lines
    have hsealed := hold s List.mem_cons_self
    obtain ⟨hkinds, hnames⟩ :=
      ih (fun t ht => hold t (List.mem_cons_of_mem _ ht)) (lines + s'.lines.length)
    rw [changedBlocks, hs.changed?_eq nodes hsealed]
    split
    · next hsum =>
      -- A section that was left alone still has its checksum, so this one was edited.
      have hmergeable : s.tag.kind.isMergeable = true := by
        rcases hs.block with hsame | ⟨hkind, -⟩
        · rw [hsame, bne_self_eq_false] at hsum
          cases hsum
        · exact hkind
      refine ⟨?_, hnames.cons_cons (s.tag.kind, s.tag.nodeId)⟩
      rintro b (_ | ⟨_, hb⟩)
      · exact ⟨hmergeable, rfl⟩
      · exact hkinds b hb
    · exact ⟨hkinds, hnames.cons _⟩

/-! ## 2. Blocks that name different nodes -/

theorem lastText?_of_nodup {blocks : List ChangedBlock} {node : Node}
    (hids : (blocks.map (·.nodeId)).Nodup)
    (htakes : ∀ b ∈ blocks, b.nodeId = node.id → node.kind.takes b.kind = true) :
    node.lastText? blocks = (blocks.find? (·.nodeId == node.id)).map (·.text) := by
  have hnamed : blocks.filter node.isNamedBy = blocks.filter (·.nodeId == node.id) := by
    refine List.filter_congr fun b hb => ?_
    rw [Node.isNamedBy]
    cases hid : b.nodeId == node.id with
    | false => rfl
    | true => rw [htakes b hb (beq_iff_eq.1 hid), Bool.true_and]
  rw [Node.lastText?, hnamed]
  clear hnamed htakes
  induction blocks with
  | nil => rfl
  | cons b rest ih =>
    rw [List.map_cons, List.nodup_cons] at hids
    rw [List.filter_cons, List.find?_cons]
    cases hid : b.nodeId == node.id with
    | false => exact ih hids.2
    | true =>
      -- No later block names the node.
      have hrest : rest.filter (·.nodeId == node.id) = [] := by
        rw [List.filter_eq_nil_iff]
        intro other hother hsame
        have heq : other.nodeId = b.nodeId :=
          (beq_iff_eq.1 hsame).trans (beq_iff_eq.1 hid).symm
        exact hids.1 (heq ▸ List.mem_map_of_mem hother)
      rw [if_pos rfl, hrest]
      rfl

namespace Merge

/-- Blocks that a merge copies into different nodes, each into one that takes it. -/
structure Spread (nodes : List Node) (blocks : List ChangedBlock) : Prop where
  mergeable : ∀ b ∈ blocks, b.kind.isMergeable = true
  resolved : ∀ b ∈ blocks, b.resolved = true
  taken : ∀ b ∈ blocks, ∃ node ∈ nodes, node.id = b.nodeId ∧ node.kind.takes b.kind = true
  nodup : (blocks.map (·.nodeId)).Nodup

theorem accepts_of_mem {nodes : List Node} (hids : (nodes.map Node.id).Nodup) {node : Node}
    (hnode : node ∈ nodes) {kind : TagKind} (htakes : node.kind.takes kind = true) :
    accepts nodes node.id kind = true := by
  rw [accepts]
  cases hfind : DesignNode.find? nodes node.id with
  | none =>
    have hne := List.find?_eq_none.1 hfind node hnode
    exact absurd (beq_iff_eq.2 rfl) hne
  | some found =>
    obtain ⟨hfound, hid⟩ := find?_eq_some hfind
    rw [eq_of_same_id hids hfound hnode hid]
    exact htakes

namespace Spread

variable {nodes : List Node} {blocks : List ChangedBlock}

theorem structuralChanges (h : Spread nodes blocks) :
    (MergeSummary.ofBlocks blocks).structuralChanges = 0 := by
  show blocks.countP (·.kind == .generic) = 0
  exact countP_eq_zero_of_false fun b hb => not_generic_of_isMergeable (h.mergeable b hb)

theorem unresolvedIds (h : Spread nodes blocks) :
    (MergeSummary.ofBlocks blocks).unresolvedIds = 0 := by
  show blocks.countP (!·.resolved) = 0
  apply countP_eq_zero_of_false
  intro b hb
  rw [h.resolved b hb, Bool.not_true]

theorem settle_eq (h : Spread nodes blocks) (hids : (nodes.map Node.id).Nodup) {node : Node}
    (hnode : node ∈ nodes) :
    node.settle blocks =
      match blocks.find? (·.nodeId == node.id) with
      | some block => node.withText block.text
      | none => node := by
  have htakes : ∀ b ∈ blocks, b.nodeId = node.id → node.kind.takes b.kind = true := by
    intro b hb hid
    obtain ⟨other, hother, hid', htake⟩ := h.taken b hb
    rwa [eq_of_same_id hids hother hnode (hid'.trans hid)] at htake
  rw [Node.settle, lastText?_of_nodup h.nodup htakes]
  cases blocks.find? (·.nodeId == node.id) <;> rfl

/-- Every block reaches its node, and the other nodes stay. -/
theorem ending_eq (h : Spread nodes blocks) (hids : (nodes.map Node.id).Nodup) :
    ending nodes (.ofBlocks blocks) (.ok ()) =
      (.ok (if blocks.isEmpty then .noChanges else .merged (.ofBlocks blocks)),
        nodes.map fun node =>
          match blocks.find? (·.nodeId == node.id) with
          | some block => node.withText block.text
          | none => node) := by
  have hright : ∀ b ∈ (MergeSummary.ofBlocks blocks).blocks, RightlyResolved nodes b := by
    intro b hb
    obtain ⟨node, hnode, hid, htake⟩ := h.taken b hb
    rw [RightlyResolved, h.resolved b hb, ← hid, accepts_of_mem hids hnode htake, Bool.or_true]
  have hmergeable : Merge.mergeable (.ofBlocks blocks) = blocks :=
    List.filter_eq_self.2 h.mergeable
  have hany : blocks.any (·.resolved) = !blocks.isEmpty := by
    cases blocks with
    | nil => rfl
    | cons b rest => rw [List.any_cons, h.resolved b List.mem_cons_self]; rfl
  rw [ending_ok hids hright, hmergeable, hany]
  refine Prod.ext ?_ (List.map_congr_left fun node hnode => h.settle_eq hids hnode)
  show Except.ok (if (!blocks.isEmpty) = true then _ else _) =
    Except.ok (if blocks.isEmpty = true then _ else _)
  cases blocks.isEmpty <;> rfl

end Spread

end Merge

/-! ## 3. Edits of a generated source -/

namespace Generation

theorem editableIds_of_isMergeable {blocks : List ChangedBlock}
    (h : ∀ b ∈ blocks, b.kind.isMergeable = true) :
    editableIds (blocks.map fun b => (b.kind, b.nodeId)) = blocks.map (·.nodeId) := by
  have hself : (blocks.map fun b => (b.kind, b.nodeId)).filter (·.1.isMergeable) =
      blocks.map fun b => (b.kind, b.nodeId) := by
    rw [List.filter_eq_self]
    intro name hname
    obtain ⟨b, hb, rfl⟩ := List.mem_map.1 hname
    exact h b hb
  rw [editableIds, hself, List.map_map]
  rfl

/-- Edits of a generated source belong to different nodes of the design it was generated from. -/
theorem spread_changedBlocks {nodes : List Node} (hids : (nodes.map Node.id).Nodup)
    {old new : List Section} (hnames : old.map Section.name = sectionNames nodes)
    (hsealed : ∀ s ∈ old, s.Sealed) (h : List.Forall₂ Section.Edited old new) :
    Merge.Spread nodes (changedBlocks nodes 0 new) := by
  obtain ⟨hkinds, hsub⟩ := changedBlocks_names nodes h hsealed 0
  rw [hnames] at hsub
  have htaken : ∀ b ∈ changedBlocks nodes 0 new, ∃ node ∈ nodes, node.id = b.nodeId ∧
      node.kind.takes b.kind = true := fun b hb =>
    exists_node_of_mem_sectionNames (hsub.subset (List.mem_map_of_mem hb)) (hkinds b hb).1
  refine ⟨fun b hb => (hkinds b hb).1, fun b hb => ?_, htaken, ?_⟩
  · obtain ⟨node, hnode, hid, htake⟩ := htaken b hb
    rw [(hkinds b hb).2, ← hid, Merge.accepts_of_mem hids hnode htake, Bool.or_true]
  · -- No node has two editable sections, and the edits stand in the order of the sections.
    rw [← editableIds_of_isMergeable fun b hb => (hkinds b hb).1]
    exact (editableIds_sublist hsub).nodup (nodup_editableIds hids)

/-- In a generated source the user edits code and callbacks: any number of the texts that stand between
a generic tag and the tag of code or of a callback behind it are replaced by complete lines without a
marker. A scan finds no edits of structure and none without a node, and its blocks are the replaced
texts whose checksum is another one. A merge puts each of them into its own node and changes nothing
else. -/
theorem scan_merge_edited (design : Design) (settings : Settings) (options : RunOptions)
    (htags : settings.mergeTags = true) (hids : design.DistinctIds)
    (hmarked : (finalWriter design settings options).OnlyTagsMarked) {edited : List Section}
    (hedited : List.Forall₂ Section.Edited
      (finalWriter design settings options).layout.sections edited) :
    let original := (finalWriter design settings options).layout
    let source := Layout.render { sections := edited, tail := original.tail }
    (∃ generated, generate design settings options = .ok generated ∧
      generated.source = original.render) ∧
    Led (original.sections.map Section.name) ∧
    ∃ summary, Merge.scan source design.nodes = .ok summary ∧
      summary.structuralChanges = 0 ∧ summary.unresolvedIds = 0 ∧
      (summary.blocks.map fun b => (b.kind, b.nodeId, b.text)) =
        ((replacedSections original.sections edited).map fun pair =>
          (pair.1.tag.kind, pair.1.tag.nodeId, Merge.unindent pair.2.block)) ∧
      (summary.blocks.map (·.nodeId)).Nodup ∧
      ∀ {σ : Type} (host : MergeHost (StateM σ)) (s : σ), (host.checkpoint s).1 = .ok () →
        (Merge.run settings .go host (.ok source) design.nodes s).1 =
          (.ok (if summary.blocks.isEmpty then .noChanges else .merged summary),
            design.nodes.map fun node =>
              match summary.blocks.find? (·.nodeId == node.id) with
              | some block => node.withText block.text
              | none => node) := by
  intro original source
  obtain ⟨-, -, htracked⟩ := run_tracked design settings options htags
  obtain ⟨generated, hgenerate, hsource⟩ := generate_ok design settings options htags
  have hplain := plain_edited hedited (htracked.plain hmarked)
  have hscan : Merge.scan source design.nodes =
      .ok (.ofBlocks (changedBlocks design.nodes 0 edited)) :=
    Merge.scan_render design.nodes hplain (hmarked.unmarked_tail htracked.complete)
  have htexts := changedBlocks_edited design.nodes hedited htracked.sealed 0
  -- Each node has one section that is merged at most, so the edits go to different nodes.
  have hspread := spread_changedBlocks hids htracked.names htracked.sealed hedited
  refine ⟨⟨generated, hgenerate, ?_⟩, ?_, _, hscan, hspread.structuralChanges,
    hspread.unresolvedIds, htexts, hspread.nodup, ?_⟩
  · rw [hsource, Writer.source_eq_render]
  · rw [htracked.names]
    exact led_sectionNames design.nodes
  · intro σ host s hcheckpoint
    rw [Merge.run_go htags hscan, hcheckpoint]
    exact hspread.ending_eq hids

def sampleReplace (s : Section) : Section :=
  if s.tag.kind = .code then { s with block := utf8 "  return 1;\n" } else s

theorem edited_sampleReplace (s : Section) : s.Edited (sampleReplace s) := by
  have hcomplete : Text.Complete (utf8 "  return 1;\n") := by decide +kernel
  have hmarked : ¬ Marked (utf8 "  return 1;\n") := by decide +kernel
  unfold sampleReplace
  split
  · next hcode => exact ⟨rfl, .inr ⟨by rw [hcode]; rfl, hcomplete, hmarked⟩⟩
  · exact ⟨rfl, .inl rfl⟩

theorem scan_merge_edited_sample :
    let original := (finalWriter Design.sample { mergeTags := true } {}).layout
    original.sections.map Section.name =
        [(.generic, ⟨1⟩), (.generic, ⟨2⟩), (.code, ⟨2⟩), (.generic, ⟨1⟩)] ∧
      ∃ summary, Merge.scan (Layout.render
          { sections := original.sections.map sampleReplace, tail := original.tail })
            Design.sample.nodes = .ok summary ∧
        summary.structuralChanges = 0 ∧ summary.unresolvedIds = 0 := by
  intro original
  have hedited : List.Forall₂ Section.Edited original.sections
      (original.sections.map sampleReplace) :=
    List.forall₂_map_right_iff.2 (List.forall₂_same.2 fun s _ => edited_sampleReplace s)
  obtain ⟨-, -, summary, hscan, hstructural, hunresolved, -⟩ :=
    scan_merge_edited Design.sample { mergeTags := true } {} rfl Design.distinctIds_sample
      onlyTagsMarked_sample hedited
  refine ⟨?_, summary, hscan, hstructural, hunresolved⟩
  unfold original finalWriter runDesign run
  rw [plan_sample]
  decide +kernel

end Generation

end FormWeave
