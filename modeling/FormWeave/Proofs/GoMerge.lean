import FormWeave.Proofs.DesignIds
import FormWeave.Proofs.MergeProtocol
import FormWeave.Proofs.NodeTexts

/-!
# What a merge leaves in a design

Merging all that can be merged settles every node with the edited blocks: it has the text of the
last block that names it. As many setters take their text as edits were found to have a node, and
merging the same source again changes nothing.
-/

namespace FormWeave.Merge

variable {nodes : List Node}

/-! ## 1. Copying one block -/

theorem eq_of_same_id (hids : (nodes.map Node.id).Nodup) {a b : Node} (ha : a ∈ nodes)
    (hb : b ∈ nodes) (h : a.id = b.id) : a = b :=
  List.inj_on_of_nodup_map hids ha hb h

theorem find?_eq_some {id : NodeId} {node : Node} (h : DesignNode.find? nodes id = some node) :
    node ∈ nodes ∧ node.id = id := by
  rw [DesignNode.find?] at h
  have hid := List.find?_some h
  rw [beq_iff_eq] at hid
  exact ⟨List.mem_of_find?_eq_some h, hid⟩

theorem applyBlock_note {block : ChangedBlock} (hkind : block.kind.isMergeable = true) :
    (applyBlock nodes block).2.isMerged = accepts nodes block.nodeId block.kind := by
  unfold applyBlock accepts
  cases hfind : DesignNode.find? nodes block.nodeId with
  | none => rfl
  | some node =>
    rw [Option.any_some]
    show _ = node.kind.takes block.kind
    simp only [patched?_eq block node hkind]
    cases node.kind.takes block.kind <;> rfl

theorem applyBlock_nodes (hids : (nodes.map Node.id).Nodup) {block : ChangedBlock}
    (hkind : block.kind.isMergeable = true) :
    (applyBlock nodes block).1 =
      nodes.map fun node => if node.isNamedBy block then node.withText block.text else node := by
  have hsame : (∀ node ∈ nodes, node.isNamedBy block = false) → nodes =
      nodes.map fun node => if node.isNamedBy block then node.withText block.text else node := by
    intro hnone
    refine (List.map_id nodes).symm.trans (List.map_congr_left fun node hnode => ?_)
    rw [hnone node hnode]
    rfl
  unfold applyBlock
  cases hfind : DesignNode.find? nodes block.nodeId with
  | none =>
    -- No node has the id, so none is named.
    refine hsame fun node hnode => ?_
    have hne := List.find?_eq_none.1 hfind node hnode
    have hid : (block.nodeId == node.id) = false := by
      rw [beq_eq_false_iff_ne]
      exact fun h => hne (beq_iff_eq.2 h.symm)
    rw [Node.isNamedBy, hid, Bool.false_and]
  | some found =>
    obtain ⟨hfound, hid⟩ := find?_eq_some hfind
    simp only [patched?_eq block found hkind]
    cases htakes : found.kind.takes block.kind with
    | false =>
      -- The one node with the id does not take the block.
      refine hsame fun node hnode => ?_
      by_cases h : node.id = block.nodeId
      · have heq : node = found := eq_of_same_id hids hnode hfound (h.trans hid.symm)
        rw [Node.isNamedBy, heq, htakes, Bool.and_false]
      · have hne : (block.nodeId == node.id) = false := beq_eq_false_iff_ne.2 (Ne.symm h)
        rw [Node.isNamedBy, hne, Bool.false_and]
    | true =>
      -- The first node with the id is the only one.
      show DesignNode.replaceFirst _ _ nodes = _
      rw [DesignNode.replaceFirst_eq_map _ _ hids]
      refine List.map_congr_left fun node hnode => ?_
      show (if node.id = block.nodeId then _ else node) = _
      by_cases h : node.id = block.nodeId
      · have heq : node = found := eq_of_same_id hids hnode hfound (h.trans hid.symm)
        have hnamed : found.isNamedBy block = true := by
          rw [Node.isNamedBy, htakes, hid, beq_self_eq_true, Bool.and_true]
        rw [if_pos h, heq, hnamed]
        rfl
      · have hne : (block.nodeId == node.id) = false := beq_eq_false_iff_ne.2 (Ne.symm h)
        rw [if_neg h, Node.isNamedBy, hne, Bool.false_and]
        rfl

/-! ## 2. Copying all blocks -/

/-- A change of the nodes that a scan does not see. -/
structure KeepsNames (change : Node → Node) : Prop where
  id : ∀ node, (change node).id = node.id
  kind : ∀ node, (change node).kind = node.kind

theorem keepsNames_settle (blocks : List ChangedBlock) : KeepsNames (Node.settle blocks) :=
  ⟨Node.id_settle blocks, Node.kind_settle blocks⟩

theorem keepsNames_copy (block : ChangedBlock) :
    KeepsNames fun node => if node.isNamedBy block then node.withText block.text else node := by
  constructor
  · intro node
    split <;> rfl
  · intro node
    split
    · exact Node.kind_withText node _
    · rfl

variable {change : Node → Node}

theorem KeepsNames.map_id (h : KeepsNames change) (nodes : List Node) :
    (nodes.map change).map Node.id = nodes.map Node.id := by
  rw [List.map_map]
  exact List.map_congr_left fun node _ => h.id node

theorem KeepsNames.accepts (h : KeepsNames change) (nodes : List Node) (id : NodeId)
    (kind : TagKind) : accepts (nodes.map change) id kind = accepts nodes id kind := by
  have hid : (fun node : Node => DesignNode.id node == id) ∘ change =
      fun node => DesignNode.id node == id := by
    funext node
    exact congrArg (· == id) (h.id node)
  rw [Merge.accepts, Merge.accepts, DesignNode.find?, List.find?_map, hid, ← DesignNode.find?]
  cases DesignNode.find? nodes id with
  | none => rfl
  | some node => exact congrArg (NodeKind.takes · kind) (h.kind node)

/-- A scan sees nothing of nodes but their ids and kinds. -/
theorem KeepsNames.scan (h : KeepsNames change) (source : Bytes) (nodes : List Node) :
    scan source (nodes.map change) = scan source nodes := by
  have hline : scanLine (nodes.map change) = scanLine nodes := by
    funext state line
    simp only [scanLine, h.accepts]
  rw [Merge.scan, Merge.scan, hline]

theorem applyBlocks_nodes {blocks : List ChangedBlock}
    (hkinds : ∀ block ∈ blocks, block.kind.isMergeable = true) :
    ∀ {nodes : List Node}, (nodes.map Node.id).Nodup →
      (applyBlocks nodes blocks).1 = nodes.map (Node.settle blocks) := by
  induction blocks with
  | nil => exact fun _ => (List.map_id _).symm
  | cons block rest ih =>
    intro nodes hids
    -- The ids stay, so the blocks behind find the same nodes.
    have hfirst := applyBlock_nodes hids (hkinds block List.mem_cons_self)
    have hnodup := hids
    rw [← (keepsNames_copy block).map_id nodes, ← hfirst] at hnodup
    rw [applyBlocks_cons]
    dsimp only
    rw [ih (fun b hb => hkinds b (List.mem_cons_of_mem _ hb)) hnodup, hfirst, List.map_map]
    exact List.map_congr_left fun node _ => (Node.settle_cons block rest node).symm

theorem countP_applyBlocks {blocks : List ChangedBlock}
    (hkinds : ∀ block ∈ blocks, block.kind.isMergeable = true) :
    ∀ {nodes : List Node}, (nodes.map Node.id).Nodup →
      (applyBlocks nodes blocks).2.countP MergeNote.isMerged =
        blocks.countP fun block => accepts nodes block.nodeId block.kind := by
  induction blocks with
  | nil => exact fun _ => rfl
  | cons block rest ih =>
    intro nodes hids
    have hkind := hkinds block List.mem_cons_self
    have hfirst := applyBlock_nodes hids hkind
    have hnodup := hids
    rw [← (keepsNames_copy block).map_id nodes, ← hfirst] at hnodup
    have hrest := ih (fun b hb => hkinds b (List.mem_cons_of_mem _ hb)) hnodup
    -- A node takes after the first block what it took before.
    have haccepts : ∀ id kind, accepts (applyBlock nodes block).1 id kind = accepts nodes id kind := by
      intro id kind
      rw [hfirst]
      exact (keepsNames_copy block).accepts nodes id kind
    simp only [haccepts] at hrest
    rw [applyBlocks_cons]
    dsimp only
    rw [List.countP_cons, List.countP_cons, hrest, applyBlock_note hkind]

/-! ## 3. Merging all that can be merged -/

variable {summary : MergeSummary}

theorem mergeable_kinds (summary : MergeSummary) :
    ∀ block ∈ mergeable summary, block.kind.isMergeable = true :=
  fun _ hblock => (List.mem_filter.1 hblock).2

/-- Structure names no node, so the other blocks decide. -/
theorem settle_mergeable (summary : MergeSummary) :
    Node.settle (mergeable summary) = Node.settle summary.blocks := by
  funext node
  have hnamed : (mergeable summary).filter node.isNamedBy =
      summary.blocks.filter node.isNamedBy := by
    rw [mergeable, List.filter_filter]
    refine List.filter_congr fun block _ => ?_
    cases hkind : block.kind with
    | generic => simp [Node.isNamedBy, hkind, NodeKind.takes]
    | _ => simp [TagKind.isMergeable]
  rw [Node.settle, Node.settle, Node.lastText?, Node.lastText?, hnamed]

/-- The blocks that a node takes and those without one make up all edits of code and callbacks. -/
theorem countP_mergeable (hsum : summary = .ofBlocks summary.blocks)
    (hright : ∀ block ∈ summary.blocks, RightlyResolved nodes block) :
    (mergeable summary).countP (·.resolved) + summary.unresolvedIds =
      summary.codeChanges + summary.callbackChanges := by
  rw [hsum, mergeable, List.countP_filter]
  simp only [MergeSummary.ofBlocks]
  generalize summary.blocks = blocks at hright
  induction blocks with
  | nil => rfl
  | cons block rest ih =>
    have hrest := ih fun b hb => hright b (List.mem_cons_of_mem _ hb)
    -- Structure always counts as resolved, so it counts on neither side.
    have hone : (if (block.resolved && block.kind.isMergeable) = true then 1 else 0) +
        (if (!block.resolved) = true then 1 else 0) =
        (if (block.kind == .code) = true then 1 else 0) +
          if block.kind.isCallback = true then 1 else 0 := by
      have hblock := hright block List.mem_cons_self
      rw [RightlyResolved] at hblock
      cases hkind : block.kind with
      | generic =>
        rw [hkind] at hblock
        rw [show block.resolved = true from hblock]
        rfl
      | _ => cases block.resolved <;> rfl
    simp only [List.countP_cons]
    omega

theorem countP_taken (hids : (nodes.map Node.id).Nodup)
    (hright : ∀ block ∈ summary.blocks, RightlyResolved nodes block) :
    (applyBlocks nodes (mergeable summary)).2.countP MergeNote.isMerged =
      (mergeable summary).countP (·.resolved) := by
  rw [countP_applyBlocks (mergeable_kinds summary) hids]
  refine List.countP_congr fun block hblock => ?_
  rw [(hright block (List.mem_of_mem_filter hblock)).accepts_eq nodes
    (mergeable_kinds summary block hblock)]

theorem any_eq_decide_countP {α : Type} (p : α → Bool) (list : List α) :
    list.any p = decide (0 < list.countP p) := by
  rw [Bool.eq_iff_iff, decide_eq_true_eq, List.countP_pos_iff, List.any_eq_true]

/-- A merge whose checkpoint succeeds settles all nodes. It ends with `noChanges` only if no node
takes any block. -/
theorem ending_ok (hids : (nodes.map Node.id).Nodup)
    (hright : ∀ block ∈ summary.blocks, RightlyResolved nodes block) :
    ending nodes summary (.ok ()) =
      (.ok (if (mergeable summary).any (·.resolved) then .merged summary else .noChanges),
        nodes.map (Node.settle summary.blocks)) := by
  have hnodes : (applyBlocks nodes (mergeable summary)).1 =
      nodes.map (Node.settle summary.blocks) := by
    rw [applyBlocks_nodes (mergeable_kinds summary) hids, settle_mergeable]
  have hnotes : (applyBlocks nodes (mergeable summary)).2.any MergeNote.isMerged =
      (mergeable summary).any (·.resolved) := by
    rw [any_eq_decide_countP, any_eq_decide_countP, countP_taken hids hright]
  unfold ending
  cases hlands : (mergeable summary).any (·.resolved) with
  | false =>
    -- Nothing is copied, and nothing would have been taken.
    have hstay := applyBlocks_of_none_merged (hnotes.trans hlands)
    rw [← hnodes, hstay]
    rfl
  | true =>
    simp only [if_true, hnotes, hlands, hnodes]

/-- Nodes that are settled stay, whatever the checkpoint answers. -/
theorem ending_settled
    (hids : ((nodes.map (Node.settle summary.blocks)).map Node.id).Nodup)
    (hright : ∀ block ∈ summary.blocks,
      RightlyResolved (nodes.map (Node.settle summary.blocks)) block)
    (answer : Except Error Unit) :
    (ending (nodes.map (Node.settle summary.blocks)) summary answer).2 =
      nodes.map (Node.settle summary.blocks) := by
  rcases answer with error | ⟨⟩
  · unfold ending
    split <;> rfl
  · rw [ending_ok hids hright, List.map_map]
    exact List.map_congr_left fun node _ => Node.settle_settle summary.blocks node

/-- An event that has to do with no change is no setter call. -/
theorem countP_isTaken_idle {events : List MergeEvent} (h : ∀ e ∈ events, e.isIdle = true) :
    events.countP MergeEvent.isTaken = 0 := by
  rw [List.countP_eq_zero]
  intro e he htaken
  have hidle := h e he
  cases e with
  | note note => cases note <;> simp [MergeEvent.isTaken, MergeEvent.isIdle] at htaken hidle
  | _ => cases htaken

/-- As many setters take their text as edits of code and callbacks have a node. -/
theorem countP_isTaken (hids : (nodes.map Node.id).Nodup)
    (hright : ∀ block ∈ summary.blocks, RightlyResolved nodes block) {events : List MergeEvent}
    {outcome : MergeOutcome} {after : List Node}
    (h : Applied nodes summary events (.ok outcome, after)) :
    events.countP MergeEvent.isTaken = (mergeable summary).countP (·.resolved) := by
  have htaken := countP_taken hids hright
  have hmap : ∀ notes : List MergeNote,
      (notes.map MergeEvent.note).countP MergeEvent.isTaken = notes.countP MergeNote.isMerged := by
    intro notes
    rw [List.countP_map]
    refine List.countP_congr fun note _ => ?_
    cases note <;> exact Iff.rfl
  cases h with
  | nowhere _ idle lands =>
    rw [any_eq_decide_countP, decide_eq_false_iff_not] at lands
    rw [countP_isTaken_idle idle]
    omega
  | declined lands none =>
    rw [List.countP_cons, hmap, htaken]
    rfl
  | merged lands some =>
    rw [List.countP_append, List.countP_cons, hmap, htaken]
    rfl

/-- The checkpoint is called only if a node takes a block. -/
theorem Applied.lands {events : List MergeEvent} {result : Except Error MergeOutcome}
    {after : List Node} (h : Applied nodes summary events (result, after))
    (hcheckpoint : ∃ event ∈ events, event.isCheckpoint = true) :
    (mergeable summary).any (·.resolved) = true := by
  rcases h.shape with ⟨hidle, -⟩ | ⟨_, _, _, hlands, -⟩
  · obtain ⟨e, he, hcheck⟩ := hcheckpoint
    rw [((MergeEvent.isIdle_iff e).1 (hidle e he)).1] at hcheck
    cases hcheck
  · exact hlands

/-- Merging all that can be merged, with a checkpoint that succeeds. Every node gets the text of the
last block that names it and keeps everything else. The setters take what the kind of a node takes,
so they take as many texts as edits have a node, and behind the checkpoint the edits are always
reported as merged. Merging again leaves the nodes as they are. -/
theorem go_settles {σ : Type} (design : Design) (hids : design.DistinctIds) (settings : Settings)
    (htags : settings.mergeTags = true) (bytes : Bytes) (summary : MergeSummary)
    (hscan : scan bytes design.nodes = .ok summary) (host : MergeHost (StateM σ)) (s : σ)
    (hcheckpoint : (host.checkpoint s).1 = .ok ()) :
    ∃ outcome events, run settings .go host.traced (.ok bytes) design.nodes (s, []) =
        ((.ok outcome, design.nodes.map (Node.settle summary.blocks)),
          ((run settings .go host (.ok bytes) design.nodes s).2, events)) ∧
      (∀ node ∈ design.nodes, (node.settle summary.blocks).body.text? =
          (node.lastText? summary.blocks).or node.body.text? ∧
        { node.settle summary.blocks with body := node.body } = node ∧
        node.body.SameButText (node.settle summary.blocks).body) ∧
      events.countP MergeEvent.isTaken + summary.unresolvedIds =
        summary.codeChanges + summary.callbackChanges ∧
      (∀ (block : ChangedBlock) (node : Node), block.kind.isMergeable = true →
        (patched? block node).isSome = node.kind.takes block.kind) ∧
      ((∃ event ∈ events, event.isCheckpoint = true) → outcome = .merged summary) ∧
      ∀ {τ : Type} (again : MergeHost (StateM τ)) (t : τ),
        (run settings .go again (.ok bytes) (design.nodes.map (Node.settle summary.blocks)) t).1.2 =
          design.nodes.map (Node.settle summary.blocks) := by
  obtain ⟨hsum, hright⟩ := scan_resolved design.nodes hscan
  have hgo := run_go htags hscan host s
  rw [hcheckpoint, ending_ok hids hright] at hgo
  have hsettle := keepsNames_settle summary.blocks
  -- In this mode nothing stands in front of copying the blocks.
  obtain ⟨events, hrun, hcourse⟩ := traces_apply design.nodes host summary s []
  have happly : apply host design.nodes summary = run settings .go host (.ok bytes) design.nodes := by
    rw [run_scanned htags hscan]
    rfl
  have htraced : apply host.traced design.nodes summary =
      run settings .go host.traced (.ok bytes) design.nodes := by
    rw [run_scanned htags hscan]
    rfl
  rw [happly, hgo] at hrun hcourse
  rw [htraced, List.nil_append] at hrun
  refine ⟨_, events, hrun, fun node _ => node.settle_spec _, ?_, fun block node hkind => ?_,
    fun hcheckpoint => ?_, fun again t => ?_⟩
  · rw [countP_isTaken hids hright hcourse]
    exact countP_mergeable hsum hright
  · rw [patched?_eq block node hkind]
    cases node.kind.takes block.kind <;> rfl
  · rw [if_pos (hcourse.lands hcheckpoint)]
  · -- A second scan sees the same ids and kinds, so it finds the same blocks.
    have hagain := hsettle.scan bytes design.nodes
    rw [hscan] at hagain
    have hnodup : (design.nodes.map Node.id).Nodup := hids
    rw [← hsettle.map_id] at hnodup
    rw [run_go htags hagain again t]
    exact ending_settled hnodup (scan_resolved _ hagain).2 (again.checkpoint t).1

theorem go_settles_sample :
    ∃ summary outcome, scan sampleEdit.render Design.sample.nodes = .ok summary ∧
      summary.blocks.map (·.nodeId) = [⟨2⟩] ∧
      (run { mergeTags := true } .go (MergeHost.recording true (.ok ())).traced
          (.ok sampleEdit.render) Design.sample.nodes ([], [])).1 =
        (.ok outcome, Design.sample.nodes.map (Node.settle summary.blocks)) := by
  obtain ⟨outcome, events, hrun, -⟩ := go_settles Design.sample Design.distinctIds_sample
    { mergeTags := true } rfl sampleEdit.render _ scan_sampleEdit (MergeHost.recording true (.ok ()))
    [] rfl
  exact ⟨_, outcome, scan_sampleEdit, by decide +kernel, congrArg Prod.fst hrun⟩

end FormWeave.Merge
