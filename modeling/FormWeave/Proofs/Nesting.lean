import FormWeave.Proofs.DesignIds
import FormWeave.Proofs.Pieces
import FormWeave.Proofs.Subtrees

/-!
# Nesting in the design is nesting in the source

A node below a leading comment writes its structure in two steps. Those of a child lie between those
of its parent, except where the plan puts code out of its place: a function in a class is written
behind the class, and a comment that ends the design is written behind everything else.
-/

namespace FormWeave

open DesignNode (kind)

/-! ## 1. The steps of a structure -/

namespace Plan

variable {ν : Type}

/-- The node whose structure a step writes. A comment that frames the file is written as such. -/
def structure? : Step ν → Option ν
  | .write .opening node | .write .closing node | .write .framing node => some node
  | .write .setup _ | .prologue | .endClass | .endGuard => none

theorem countP_structure (p : ν → Bool) (steps : List (Step ν)) :
    steps.countP (fun step => (structure? step).any p) =
      Forest.written p .opening steps + Forest.written p .closing steps +
        Forest.written p .framing steps := by
  induction steps with
  | nil => rfl
  | cons step rest ih =>
    have hsplit : ∀ phase, Forest.written p phase (step :: rest) =
        Forest.written p phase [step] + Forest.written p phase rest :=
      fun phase => Forest.written_append p phase [step] rest
    have hstep : [step].countP (fun step => (structure? step).any p) =
        Forest.written p .opening [step] + Forest.written p .closing [step] +
          Forest.written p .framing [step] := by
      cases step with
      | write phase node => cases phase <;> simp [structure?, Forest.written, writers, writes?]
      | prologue | endClass | endGuard => rfl
    rw [← List.singleton_append, List.countP_append, hstep, ih, List.singleton_append, hsplit,
      hsplit, hsplit]
    omega

end Plan

namespace Forest

open Plan (structure?)

variable {ν : Type} [DesignNode ν]

theorem opening_mem_walkTree {last : Bool} (tree : Tree ν)
    (h : last = true → tree.children = [] → kind tree.root ≠ .comment) :
    .write .opening tree.root ∈ walkTree last tree := by
  cases tree with
  | node root children =>
    have hopening : (last && children.isEmpty && kind root == .comment) = false := by
      by_contra hlate
      rw [Bool.not_eq_false, Bool.and_eq_true, Bool.and_eq_true, List.isEmpty_iff, beq_iff_eq]
        at hlate
      exact h hlate.1.1 hlate.1.2 hlate.2
    rw [walkTree, hopening]
    split <;> simp [Tree.root]

theorem closing_mem_walkTree (last : Bool) (tree : Tree ν) :
    .write .closing tree.root ∈ walkTree last tree := by
  cases tree with
  | node root children =>
    rw [walkTree]
    split <;> simp [Tree.root]

theorem mem_trailing (front : List ν) {nodes : List ν} {node : ν} (h : nodes = front ++ [node])
    (hcomment : kind node = .comment) : node ∈ trailing nodes := by
  rw [h, trailing_append (List.cons_ne_nil _ _), trailing_singleton, if_pos (by simpa using hcomment)]
  exact List.mem_singleton_self _

/-- The steps of a child stand between those of its parent. -/
theorem plan_nested {nodes : List ν} {parent : ν} {children : List (Tree ν)} {tree : Tree ν}
    (h : Subtree (ofNodes nodes) (.node parent children)) (hchild : tree ∈ children)
    (hlead : parent ∉ leading nodes)
    (hmethod : ¬ (kind parent = .widgetClass ∧ kind tree.root = .function))
    (hlast : tree.root ∉ trailing nodes) :
    ∃ before inside behind, plan nodes = before ++ .write .opening parent ::
        (inside ++ .write .closing parent :: behind) ∧
      .write .opening tree.root ∈ inside ∧ .write .closing tree.root ∈ inside := by
  obtain ⟨front, back, last, hplan, hend⟩ := plan_part (subtree_members h hlead)
  obtain ⟨left, right, rest, last', hwalk, hend'⟩ := walkTree_inside last hchild hmethod
  rw [Plan.plan_eq_forest, hwalk] at hplan
  refine ⟨front, left ++ walkTree last' tree ++ right, rest ++ back, by rw [hplan]; simp, ?_, ?_⟩
  · refine List.mem_append_left _ (List.mem_append_right _ (opening_mem_walkTree tree ?_))
    -- Only the last node of the design can lack its opening code.
    intro hlast' hleaf hcomment
    obtain ⟨hparent, others, rfl⟩ := hend' hlast'
    obtain ⟨earlier, hmembers⟩ := (hend hparent).trans (List.drop_suffix _ nodes)
    cases tree with
    | node root below =>
      cases hleaf
      refine hlast (mem_trailing (earlier ++ parent :: Forest.nodes others) ?_ hcomment)
      rw [← hmembers, treeNodes, nodes_append]
      simp [Forest.nodes, treeNodes, Tree.root]
  · exact List.mem_append_left _ (List.mem_append_right _ (closing_mem_walkTree last' tree))

theorem kind_of_mem_trailing {nodes : List ν} {node : ν} (h : node ∈ trailing nodes) :
    kind node = .comment := by
  obtain ⟨-, hkind⟩ := Option.filter_eq_some_iff.1 (Option.mem_toList.1 h)
  exact beq_iff_eq.1 hkind

theorem mem_members_of_child {nodes : List ν} {parent child : ν}
    (h : Child (ofNodes nodes) parent child) (hlead : parent ∉ leading nodes) :
    parent ∈ members nodes ∧ child ∈ members nodes := by
  obtain ⟨children, tree, hsub, hmem, rfl⟩ := h
  have hmembers := subtree_members hsub hlead
  have hroot := hmembers.root_mem
  have hchild := (hmembers.child hmem).root_mem
  rw [nodes_ofNodes] at hroot hchild
  exact ⟨hroot, hchild⟩

/-- A comment that ends the design has its opening code written behind all other steps. -/
theorem plan_trailing {nodes : List ν} {node : ν} (hmember : node ∈ members nodes)
    (h : node ∈ trailing nodes) :
    ∃ front, plan nodes = front ++ [.write .framing node] ∧ .write .closing node ∈ front := by
  have htrailing : trailing (members nodes) = [node] := by
    rw [← leading_append_members nodes, trailing_append (List.ne_nil_of_mem hmember)] at h
    unfold trailing at h ⊢
    rw [Option.mem_toList.1 h]
    rfl
  have hclosing : .write .closing node ∈ plan nodes := by
    have hwriter := (writtenOnce_plan nodes).closing.mem_iff.2 hmember
    obtain ⟨step, hstep, hwrites⟩ := List.mem_filterMap.1 hwriter
    unfold Plan.writes? at hwrites
    grind
  rw [plan, htrailing] at hclosing ⊢
  refine ⟨(leading nodes).map (.write .framing) ++
    .prologue :: walkRoots (ofNodes (members nodes)) ++ [.endGuard], by simp, ?_⟩
  simpa using hclosing

variable [DecidableEq ν] {nodes : List ν} {node : ν}

/-- A node below a leading comment has its structure written in two steps. -/
theorem count_structure (hnodup : nodes.Nodup) (h : node ∈ members nodes) :
    (plan nodes).countP (fun step => structure? step = some node) = 2 := by
  have hown : ∀ step : Step ν,
      decide (structure? step = some node) = (structure? step).any (· == node) := by
    intro step
    cases structure? step with
    | none => rfl
    | some other => simp [beq_eq_decide]
  have honce := writtenOnce_plan nodes
  have hopening := honce.opening.countP_eq (· == node)
  have hclosing := honce.closing.countP_eq (· == node)
  rw [List.countP_append] at hopening
  have hframing : written (· == node) .framing (plan nodes) = _ :=
    congrArg (List.countP (· == node)) honce.framing
  rw [List.countP_append] at hframing
  -- The node is a member once, and no leading comment.
  have hall := List.nodup_iff_count_eq_one.1 hnodup node
    ((List.drop_sublist _ nodes).subset h)
  rw [← leading_append_members nodes, List.count_append] at hall
  have hmember : 0 < (members nodes).count node := List.count_pos_iff.2 h
  simp only [hown]
  rw [Plan.countP_structure, hframing]
  show (Plan.writers .opening (plan nodes)).countP _ +
    (Plan.writers .closing (plan nodes)).countP _ + _ = 2
  simp only [List.count] at hall hmember
  omega

/-- Two steps of a node's structure are all there are. -/
theorem not_structure_of_split (hnodup : nodes.Nodup) (h : node ∈ members nodes)
    (own others : List (Step ν)) (hplan : (plan nodes).Perm (own ++ others))
    (hown : 2 ≤ own.countP fun step => structure? step = some node) :
    ∀ step ∈ others, structure? step ≠ some node := by
  have hall := count_structure hnodup h
  rw [hplan.countP_eq, List.countP_append] at hall
  have hnone : others.countP (fun step => structure? step = some node) = 0 := by omega
  intro step hstep hwrites
  exact List.countP_eq_zero.1 hnone step hstep (decide_eq_true hwrites)

end Forest

namespace Generation

open Plan (structure?)

/-! ## 2. What a parent encloses -/

/-- In what is written, the code of `parent` is one piece that opens it and one that closes it, and
all of the code of `child` lies in between. -/
def Encloses (pieces : List Piece) (parent child : Node) : Prop :=
  ∃ before opened inside closed behind,
    pieces = before ++ opened :: (inside ++ closed :: behind) ∧
    opened.step = .write .opening parent ∧ closed.step = .write .closing parent ∧
    (∀ piece ∈ before ++ inside ++ behind, structure? piece.step ≠ some parent) ∧
    (∃ piece ∈ inside, piece.step = .write .opening child) ∧
    (∃ piece ∈ inside, piece.step = .write .closing child) ∧
    ∀ piece ∈ before ++ behind, structure? piece.step ≠ some child

/-- In what is written, the opening code of `node` comes behind everything else. -/
def EndsWith (pieces : List Piece) (node : Node) : Prop :=
  ∃ front last, pieces = front ++ [last] ∧ last.step = .write .framing node ∧
    ∀ piece ∈ front, structure? piece.step = some node → piece.chunks = []

variable (design : Design) (settings : Settings) (options : RunOptions)

theorem written_encloses {parent child : Node} (hids : design.DistinctIds)
    (hchild : Forest.Child (Forest.ofNodes design.nodes) parent child)
    (hlead : parent ∉ Forest.leading design.nodes)
    (hmethod : ¬ (parent.kind = .widgetClass ∧ child.kind = .function))
    (hlast : child ∉ Forest.trailing design.nodes) :
    Encloses (written design settings options) parent child := by
  obtain ⟨hparent, hinner⟩ := Forest.mem_members_of_child hchild hlead
  obtain ⟨children, tree, hsub, hmem, rfl⟩ := hchild
  obtain ⟨before, inside, behind, hplan, hopening, hclosing⟩ :=
    Forest.plan_nested hsub hmem hlead hmethod hlast
  have hnodup := hids.nodup
  have hparentOnly := Forest.not_structure_of_split hnodup hparent
    [.write .opening parent, .write .closing parent] (before ++ inside ++ behind)
    (by rw [hplan]; grind) (by simp [structure?])
  have hboth : 2 ≤ inside.countP fun step => structure? step = some tree.root := by
    have hpair : [.write .opening tree.root, .write .closing tree.root].Subperm inside :=
      List.subperm_of_subset (by simp) (by simp [hopening, hclosing])
    refine le_trans (Nat.le_of_eq ?_) (hpair.countP_le _)
    simp [structure?]
  have hchildOnly := Forest.not_structure_of_split hnodup hinner inside
    (.write .opening parent :: .write .closing parent :: (before ++ behind))
    (by rw [hplan]; grind) hboth
  -- The pieces are split as the steps are.
  have hsteps := map_step_written design settings options
  rw [Plan.plan_eq_forest, hplan] at hsteps
  obtain ⟨front, rest, hwritten, hfront, hrest⟩ := List.map_eq_append_iff.1 hsteps
  obtain ⟨opened, rest, rfl, hopened, hrest⟩ := List.map_eq_cons_iff.1 hrest
  obtain ⟨middle, rest, rfl, hmiddle, hrest⟩ := List.map_eq_append_iff.1 hrest
  obtain ⟨closed, back, rfl, hclosed, hback⟩ := List.map_eq_cons_iff.1 hrest
  subst hfront hmiddle hback
  refine ⟨front, opened, middle, closed, back, hwritten, hopened, hclosed, fun piece hpiece => ?_,
    List.mem_map.1 hopening, List.mem_map.1 hclosing, fun piece hpiece => ?_⟩
  · exact hparentOnly _ (by simpa using List.mem_map_of_mem (f := Piece.step) hpiece)
  · refine hchildOnly _ (List.mem_cons_of_mem _ (List.mem_cons_of_mem _ ?_))
    simpa using List.mem_map_of_mem (f := Piece.step) hpiece

/-- The closing code of a comment is empty. -/
theorem closing_comment (names : HeaderNames) {node : Node} (h : node.kind = .comment) (w : Writer) :
    stepCode names (.write .closing node) w = (.ok (), w) := by
  show Node.writeClosing node w = _
  unfold Node.writeClosing
  cases hbody : node.body with
  | comment => rfl
  | _ => rw [Node.kind, hbody] at h; cases h

theorem mem_pieces {names : HeaderNames} {w : Writer} {steps : List (Step Node)} {piece : Piece}
    (h : piece ∈ pieces names w steps) :
    ∃ w', piece.chunks = (stepCode names piece.step w').2.output.toList.drop w'.output.size := by
  induction steps generalizing w with
  | nil => cases h
  | cons step rest ih =>
    rcases List.mem_cons.1 h with rfl | h
    · exact ⟨w, rfl⟩
    · exact ih h

theorem written_endsWith {node : Node} (hids : design.DistinctIds)
    (hmember : node ∈ Forest.members design.nodes) (hlast : node ∈ Forest.trailing design.nodes) :
    EndsWith (written design settings options) node := by
  have hcomment : node.kind = .comment := Forest.kind_of_mem_trailing hlast
  obtain ⟨steps, hplan, hclosing⟩ := Forest.plan_trailing hmember hlast
  obtain ⟨left, right, rfl⟩ := List.append_of_mem hclosing
  -- Besides its frame, the comment has its closing code only.
  have honly := Forest.not_structure_of_split hids.nodup hmember
    [.write .closing node, .write .framing node] (left ++ right)
    (by rw [hplan]; grind) (by simp [structure?])
  obtain ⟨front, last, rest, hwritten, hfront, hframe, hnil⟩ := split_written design settings options
    ((Plan.plan_eq_forest _).trans hplan)
  rw [List.map_eq_nil_iff.1 hnil] at hwritten
  refine ⟨front, last, hwritten, hframe, fun piece hpiece hown => ?_⟩
  have hstep : piece.step = .write .closing node := by
    have hmem := List.mem_map_of_mem (f := Piece.step) hpiece
    rw [hfront, List.mem_append, List.mem_cons] at hmem
    rcases hmem with hmem | heq | hmem
    · exact absurd hown (honly _ (List.mem_append_left _ hmem))
    · exact heq
    · exact absurd hown (honly _ (List.mem_append_right _ hmem))
  obtain ⟨w, hchunks⟩ := mem_pieces (hwritten ▸ List.mem_append_left _ hpiece)
  rw [hchunks, hstep, closing_comment _ hcomment, ← Array.length_toList, List.drop_length]

/-- Nesting in the design is nesting in the source. Generation does not fail, and what it writes is
a list of pieces in which the code of a child lies between the opening and the closing code of its
parent, if that is not the comment that leads the design. There are two exceptions: a function in
a class, and a comment that ends the design, which is written behind everything else. -/
theorem generate_nested (hids : design.DistinctIds) {parent child : Node}
    (hchild : Forest.Child (Forest.ofNodes design.nodes) parent child)
    (hlead : parent ∉ Forest.leading design.nodes)
    (hmethod : ¬ (parent.kind = .widgetClass ∧ child.kind = .function)) :
    ∃ generated, generate design settings options = .ok generated ∧
      generated.source = (written design settings options).flatMap Piece.source ∧
      (child ∉ Forest.trailing design.nodes →
        Encloses (written design settings options) parent child) ∧
      (child ∈ Forest.trailing design.nodes →
        EndsWith (written design settings options) child) := by
  obtain ⟨generated, hgenerate, hsource, -⟩ := generate_written design settings options
  refine ⟨generated, hgenerate, hsource, ?_, ?_⟩
  · exact written_encloses design settings options hids hchild hlead hmethod
  · exact written_endsWith design settings options hids (Forest.mem_members_of_child hchild hlead).2

theorem generate_nested_sample :
    Design.sample.DistinctIds ∧
      Forest.Child (Forest.ofNodes Design.sample.nodes) Design.sample.nodes[0]
        Design.sample.nodes[1] ∧
      Design.sample.nodes[0] ∉ Forest.leading Design.sample.nodes ∧
      Design.sample.nodes[1] ∉ Forest.trailing Design.sample.nodes ∧
      ∃ generated, generate Design.sample {} {} = .ok generated ∧
        generated.source = (written Design.sample {} {}).flatMap Piece.source ∧
        Encloses (written Design.sample {} {}) Design.sample.nodes[0] Design.sample.nodes[1] := by
  have hforest : Forest.ofNodes Design.sample.nodes =
      [.node Design.sample.nodes[0] [.node Design.sample.nodes[1] []]] := rfl
  have hchild : Forest.Child (Forest.ofNodes Design.sample.nodes) Design.sample.nodes[0]
      Design.sample.nodes[1] :=
    ⟨_, _, .top (hforest ▸ List.mem_singleton_self _), List.mem_singleton_self _, rfl⟩
  have hlead : Design.sample.nodes[0] ∉ Forest.leading Design.sample.nodes := by decide
  have hlast : Design.sample.nodes[1] ∉ Forest.trailing Design.sample.nodes := by decide
  obtain ⟨generated, hgenerate, hsource, hencloses, -⟩ :=
    generate_nested Design.sample {} {} (by decide) hchild hlead (by decide)
  exact ⟨by decide, hchild, hlead, hlast, generated, hgenerate, hsource, hencloses hlast⟩

def remarkDesign : Design where
  nodes := Design.sample.nodes ++
    [{ id := ⟨3⟩, depth := 1, scope := .inner, hasChildren := false, hasChildWidgets := false
       body := .comment "last words" true false, resource := none, labelNumber := 0
       tooltipNumber := 0 }]

/-- A comment at the end of a function that ends the design is written behind the function. -/
theorem remark_behind_function :
    let nodes := remarkDesign.nodes
    Forest.Child (Forest.ofNodes nodes) nodes[0] nodes[2] ∧
      nodes[0] ∉ Forest.leading nodes ∧
      (finalWriter remarkDesign {} {}).source = utf8 ("// generated by formgen version 0.3.0\n\n" ++
        "#include \"design.h\"\n\nint main() \x7b\n  return 0;\n\x7d\n// last words\n") ∧
      ¬ Encloses (written remarkDesign {} {}) nodes[0] nodes[2] := by
  intro nodes
  have hforest : Forest.ofNodes nodes =
      [.node nodes[0] [.node nodes[1] [], .node nodes[2] []]] := rfl
  have hplan : plan nodes = Forest.plan nodes := Plan.plan_eq_forest nodes
  refine ⟨⟨_, .node nodes[2] [], .top (hforest ▸ List.mem_singleton_self _), by simp, rfl⟩,
    by decide, ?_, ?_⟩
  · unfold finalWriter runDesign run
    rw [hplan]
    decide +kernel
  · -- No step of the plan writes the comment as opening code.
    rintro ⟨before, opened, inside, closed, behind, hwritten, -, -, -, ⟨piece, hpiece, hstep⟩, -⟩
    have hmem := List.mem_map_of_mem (f := Piece.step)
      (show piece ∈ written remarkDesign {} {} by rw [hwritten]; simp [hpiece])
    rw [map_step_written, hstep, hplan] at hmem
    exact absurd hmem (by decide)

end Generation

end FormWeave
