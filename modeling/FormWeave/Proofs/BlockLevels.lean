import FormWeave.Proofs.Indentation
import FormWeave.Proofs.MergedDesigns
import FormWeave.Proofs.Nesting

/-!
# The level at which a node writes

Which level of indentation is in force when a node writes its code is read off the kinds and depths
of the nodes, so merged texts do not change it. Callbacks stand in front of the structure of their
tree, at level 0 unless functions or classes stand below blocks or widgets. In a function or class
without others below it, code stands at level 1, and one level deeper for each block or widget that
stands around it.
-/

namespace FormWeave

open DesignNode (depth kind)

/-! ## 1. Plans of changed nodes -/

def Step.map {ν : Type} (change : ν → ν) : Step ν → Step ν
  | .write phase node => .write phase (change node)
  | .prologue => .prologue
  | .endClass => .endClass
  | .endGuard => .endGuard

namespace Plan

variable {ν : Type} [DesignNode ν]

/-- A change of nodes that a plan does not see. -/
structure KeepsPlaces (change : ν → ν) : Prop where
  depth : ∀ node, depth (change node) = depth node
  kind : ∀ node, kind (change node) = kind node

namespace KeepsPlaces

variable {change : ν → ν}

theorem subtreeSize_map (h : KeepsPlaces change) (root : ν) (rest : List ν) :
    subtreeSize (change root) (rest.map change) = subtreeSize root rest := by
  have hbelow : DesignNode.below (change root) ∘ change = DesignNode.below root := by
    funext node
    simp only [Function.comp, DesignNode.below, h.depth]
  rw [subtreeSize, subtreeSize, List.takeWhile_map, hbelow, List.length_map]

theorem walk_map (h : KeepsPlaces change) (chosen : ν → Bool) (count : Nat) (nodes : List ν)
    (hchosen : ∀ node, chosen (change node) = chosen node) :
    walk chosen count (nodes.map change) = (walk chosen count nodes).map (Step.map change) := by
  induction chosen, count, nodes using walk.induct with
  | case1 chosen nodes => rw [walk_zero, walk_zero, List.map_nil]
  | case2 chosen count => rw [List.map_nil, walk_nil, List.map_nil]
  | case3 chosen count node rest size hothers hfunctions hall htail =>
    have hkind : ∀ node, (DesignNode.kind (change node) == .function) =
        (DesignNode.kind node == .function) := by
      intro node
      rw [h.kind]
    -- Kinds and depths alone tell what is written of a tree, and in which order.
    have hbody : tree (change node) (rest.map change) = (tree node rest).map (Step.map change) := by
      have hempty : (rest.map change).isEmpty = rest.isEmpty := by cases rest <;> rfl
      have hopening : (if rest.isEmpty && DesignNode.kind node == .comment then []
          else [Step.write .opening (change node)]) =
          (if rest.isEmpty && DesignNode.kind node == .comment then []
            else [Step.write .opening node]).map (Step.map change) := by
        split <;> rfl
      unfold tree
      dsimp only
      rw [h.subtreeSize_map, h.kind, hempty, hopening,
        hothers fun node => congrArg (!·) (hkind node), hfunctions hkind, hall fun _ => rfl]
      split <;> simp only [List.map_append] <;> rfl
    rw [List.map_cons, walk_cons, walk_cons, hbody, h.subtreeSize_map, ← List.map_drop,
      htail hchosen, hchosen, List.map_append]
    congr 1
    split <;> rfl

theorem trees_map (h : KeepsPlaces change) (nodes : List ν) :
    trees (nodes.map change) = (trees nodes).map (Step.map change) := by
  induction nodes using trees.induct with
  | case1 => rw [List.map_nil, trees, List.map_nil]
  | case2 node rest size ih =>
    have hwalk := h.walk_map (fun _ => true) (size + 1) (node :: rest) fun _ => rfl
    rw [List.map_cons] at hwalk
    rw [List.map_cons, trees_cons, trees_cons, h.subtreeSize_map, hwalk, ← List.map_drop, ih,
      List.map_append, List.map_append, ← List.map_take, ← List.map_cons, List.map_map,
      List.map_map]
    rfl

theorem plan_map (h : KeepsPlaces change) (nodes : List ν) :
    plan (nodes.map change) = (plan nodes).map (Step.map change) := by
  have hsteps : ∀ nodes : List ν,
      steps (nodes.map change) = (steps nodes).map (Step.map change) := by
    intro nodes
    have hkind : (fun node : ν => DesignNode.kind node == .comment) ∘ change =
        fun node => DesignNode.kind node == .comment := by
      funext node
      simp only [Function.comp, h.kind]
    have htrailing :
        ((nodes.map change).getLast?.filter fun node => DesignNode.kind node == .comment) =
          (nodes.getLast?.filter fun node => DesignNode.kind node == .comment).map change := by
      rw [List.getLast?_map, Option.filter_map, hkind]
    unfold steps
    dsimp only
    rw [htrailing, h.trees_map]
    cases nodes.getLast?.filter fun node => DesignNode.kind node == .comment <;> simp [Step.map]
  cases nodes with
  | nil => exact hsteps []
  | cons node rest =>
    rw [List.map_cons, plan, plan, h.kind]
    split
    · rw [hsteps]
      rfl
    · exact hsteps (node :: rest)

end KeepsPlaces

end Plan

namespace Generation

/-! ## 2. Levels -/

/-- In a run over `nodes` the code of `node` in a phase is written at a level of indentation. -/
def StandsAt (nodes : List Node) (node : Node) (phase : Phase) (level : Int32) : Prop :=
  ∃ before behind, plan nodes = before ++ .write phase node :: behind ∧ levelBehind 0 before = level

theorem levelBehind_map {change : Node → Node} (h : Plan.KeepsPlaces change)
    (steps : List (Step Node)) (depth : Int32) :
    levelBehind depth (steps.map (Step.map change)) = levelBehind depth steps := by
  have hstep : (fun depth step => stepShift (Step.map change step) depth) =
      fun depth step => stepShift step depth := by
    funext depth step
    cases step with
    | write phase node =>
      have hkind : (change node).kind = node.kind := h.kind node
      simp only [Step.map, stepShift, hkind]
    | _ => rfl
  rw [levelBehind, List.foldl_map, hstep]
  rfl

/-- Changed nodes write where the nodes wrote. -/
theorem StandsAt.map {nodes : List Node} {node : Node} {phase : Phase} {level : Int32}
    (h : StandsAt nodes node phase level) {change : Node → Node}
    (hchange : Plan.KeepsPlaces change) :
    StandsAt (nodes.map change) (change node) phase level := by
  obtain ⟨before, behind, hplan, hlevel⟩ := h
  refine ⟨before.map (Step.map change), behind.map (Step.map change), ?_, ?_⟩
  · rw [hchange.plan_map, hplan, List.map_append, List.map_cons]
    rfl
  · rw [levelBehind_map hchange, hlevel]

theorem keepsPlaces_settle (blocks : List ChangedBlock) :
    Plan.KeepsPlaces (Node.settle blocks) where
  depth node := by
    unfold Node.settle
    split <;> rfl
  kind := Node.kind_settle blocks

/-- Every node that is no comment writes its setup and its opening code. -/
theorem exists_standsAt {nodes : List Node} {node : Node} (hnode : node ∈ nodes)
    (hkind : node.kind ≠ .comment) {phase : Phase} (hphase : phase = .setup ∨ phase = .opening) :
    ∃ level, StandsAt nodes node phase level := by
  have hmember : node ∈ Forest.members nodes := Forest.mem_members hnode hkind
  -- A plan has one step of each phase for every member, and opening code of a last comment.
  have hwrites : node ∈ Plan.writers phase (plan nodes) := by
    have honce := Forest.writtenOnce_plan nodes
    rw [← Plan.plan_eq_forest] at honce
    rcases hphase with rfl | rfl
    · rw [honce.setup]
      exact hmember
    · refine (List.mem_append.1 (honce.opening.mem_iff.2 hmember)).resolve_right fun hlast => ?_
      exact hkind (Forest.kind_of_mem_trailing hlast)
  obtain ⟨step, hstep, hwrite⟩ := List.mem_filterMap.1 hwrites
  obtain ⟨before, behind, hplan⟩ := List.append_of_mem hstep
  refine ⟨_, before, behind, ?_, rfl⟩
  have hsame : step = .write phase node := by
    cases step with
    | write other n =>
      simp only [Plan.writes?, Option.ite_none_right_eq_some, Option.some.injEq] at hwrite
      rw [hwrite.1, hwrite.2]
    | _ => cases hwrite
  rw [hplan, hsame]

theorem exists_tree_of_mem {forest : List (Tree Node)} {node : Node}
    (h : node ∈ Forest.nodes forest) : ∃ tree ∈ forest, node ∈ Forest.treeNodes tree := by
  induction forest with
  | nil => cases h
  | cons tree rest ih =>
    rcases List.mem_append.1 h with h | h
    · exact ⟨tree, List.mem_cons_self, h⟩
    · obtain ⟨later, hlater, hmem⟩ := ih h
      exact ⟨later, List.mem_cons_of_mem _ hlater, hmem⟩

/-- What is written in front of a tree of a forest leads to level 0 if no function or class stands
below a block or a widget. -/
theorem plan_top {nodes : List Node}
    (h : Forest.Outermost (Forest.ofNodes (Forest.members nodes))) {front back : List (Tree Node)}
    {tree : Tree Node}
    (hforest : Forest.ofNodes (Forest.members nodes) = front ++ tree :: back) :
    ∃ before, plan nodes = before ++ ((Forest.treeNodes tree).map (.write .setup) ++
        Forest.walkTree back.isEmpty tree ++ (Forest.walkRoots back ++
          .endGuard :: (Forest.trailing (Forest.members nodes)).map (.write .framing))) ∧
      levelBehind 0 before = 0 := by
  obtain ⟨before, hwalk, hlevel⟩ := walkRoots_split front tree back
  -- In front of the tree there are whole trees, and these end at level 0.
  have houtermost : Forest.Outermost front := fun root children hsub =>
    h root children (hsub.mono fun top htop =>
      .top (by rw [hforest]; exact List.mem_append_left _ htop))
  have hprologue : ∀ depth, levelBehind depth (.prologue :: before) = levelBehind depth before :=
    fun _ => rfl
  refine ⟨(Forest.leading nodes).map (.write .framing) ++ .prologue :: before, ?_, ?_⟩
  · rw [Plan.plan_eq_forest, Forest.plan, hforest, hwalk]
    simp only [List.append_assoc, List.cons_append]
  · rw [levelBehind_append, levelBehind_leading, hprologue, hlevel,
      Forest.forestLevel?_getD houtermost]

/-- Setup code stands at level 0 if no function or class stands below a block or a widget. -/
theorem standsAt_setup {nodes : List Node}
    (h : Forest.Outermost (Forest.ofNodes (Forest.members nodes))) {node : Node}
    (hnode : node ∈ nodes) (hkind : node.kind ≠ .comment) : StandsAt nodes node .setup 0 := by
  have hmember : node ∈ Forest.nodes (Forest.ofNodes (Forest.members nodes)) := by
    rw [Forest.nodes_ofNodes]
    exact Forest.mem_members hnode hkind
  obtain ⟨tree, htree, hmem⟩ := exists_tree_of_mem hmember
  obtain ⟨front, back, hforest⟩ := List.append_of_mem htree
  obtain ⟨first, last, hsplit⟩ := List.append_of_mem hmem
  obtain ⟨before, hplan, hlevel⟩ := plan_top h hforest
  refine ⟨before ++ first.map (.write .setup), last.map (.write .setup) ++
    Forest.walkTree back.isEmpty tree ++ (Forest.walkRoots back ++
      .endGuard :: (Forest.trailing (Forest.members nodes)).map (.write .framing)), ?_, ?_⟩
  · rw [hplan, hsplit]
    simp only [List.map_append, List.map_cons, List.append_assoc, List.cons_append]
  · rw [levelBehind_append, hlevel, levelBehind_setup]

/-- Trees without functions and classes leave the level as it is, whichever of them are written. -/
theorem levelBehind_walk_relative {forest : List (Tree Node)}
    (h : ∀ node ∈ Forest.nodes forest, node.kind.absolute = false) (chosen : Node → Bool)
    (last : Bool) (depth : Int32) : levelBehind depth (Forest.walk chosen last forest) = depth := by
  induction forest with
  | nil => rfl
  | cons tree rest ih =>
    rw [Forest.nodes, List.forall_mem_append] at h
    have htree : ∀ last, levelBehind depth (Forest.walkTree last tree) = depth := by
      intro last
      rw [levelBehind_walkTree, (Forest.treeLevel?_eq_none tree).2 h.1]
      rfl
    rw [Forest.walk, levelBehind_append]
    split
    · rw [htree, ih h.2]
    · exact ih h.2

/-- A child starts at the level behind the opening code of its parent, if its siblings leave that as
it is. -/
theorem walkTree_child_level (root : Node) {children : List (Tree Node)} {tree : Tree Node}
    (hfree : ∀ node ∈ Forest.nodes children, node.kind.absolute = false) (hchild : tree ∈ children)
    (last : Bool) :
    ∃ before behind last', Forest.walkTree last (.node root children) =
        before ++ Forest.walkTree last' tree ++ behind ∧
      ∀ depth, levelBehind depth before = Node.shift root.kind .opening depth := by
  obtain ⟨front, back, rfl⟩ := List.append_of_mem hchild
  rw [Forest.nodes_append, List.forall_mem_append, Forest.nodes, List.forall_mem_append] at hfree
  obtain ⟨hfront, htree, -⟩ := hfree
  have hopening : (last && (front ++ tree :: back).isEmpty && kind root == .comment) = false := by
    rw [List.isEmpty_eq_false_iff.2 (by simp), Bool.and_false, Bool.false_and]
  have hlevel : ∀ chosen depth, levelBehind depth
      (.write .opening root :: Forest.walk chosen false front) =
        Node.shift root.kind .opening depth :=
    fun chosen depth => levelBehind_walk_relative hfront chosen false _
  rw [Forest.walkTree, hopening]
  split
  · -- A class puts its functions behind the other children, and the child is one of these.
    have hchosen : (!(kind tree.root == .function)) = true := by
      have hroot := htree tree.root (Forest.root_mem_treeNodes tree)
      rw [Bool.not_eq_true', beq_eq_false_iff_ne]
      intro hfunction
      rw [show tree.root.kind = .function from hfunction] at hroot
      cases hroot
    rw [Forest.walk_split _ last front tree back hchosen]
    exact ⟨_, _, _, by simp only [Bool.false_eq_true, if_false, List.append_assoc]; rfl,
      hlevel (fun n => !(kind n == .function))⟩
  · rw [Forest.walk_split _ last front tree back rfl]
    exact ⟨_, _, _, by simp only [Bool.false_eq_true, if_false, List.append_assoc]; rfl,
      hlevel fun _ => true⟩

/-- `tree` stands among the children of some node or below them, with `depth` blocks and widgets
around it. -/
inductive Within (children : List (Tree Node)) : (depth : Nat) → Tree Node → Prop
  | child {tree : Tree Node} (h : tree ∈ children) : Within children 0 tree
  | nested {depth : Nat} {root : Node} {inner : List (Tree Node)} {tree : Tree Node}
    (h : Within children depth (.node root inner)) (hinner : tree ∈ inner) :
    Within children (if root.kind.relative then depth + 1 else depth) tree

theorem Within.nodes_infix {children : List (Tree Node)} {depth : Nat} {tree : Tree Node}
    (h : Within children depth tree) : Forest.treeNodes tree <:+: Forest.nodes children := by
  induction h with
  | child h => exact Forest.treeNodes_infix_of_mem h
  | @nested depth root inner _ _ hinner ih =>
    refine (Forest.treeNodes_infix_of_mem hinner).trans (List.IsInfix.trans ?_ ih)
    exact (List.suffix_cons root (Forest.nodes inner)).isInfix

theorem walkTree_opening (last : Bool) {root : Node} (h : root.kind ≠ .comment)
    (children : List (Tree Node)) :
    ∃ rest, Forest.walkTree last (.node root children) = .write .opening root :: rest := by
  have hcomment : (kind root == .comment) = false := beq_eq_false_iff_ne.2 h
  rw [Forest.walkTree, hcomment, Bool.and_false]
  split
  · exact ⟨_, by simp only [Bool.false_eq_true, if_false, List.append_assoc]; rfl⟩
  · exact ⟨_, by simp only [Bool.false_eq_true, if_false, List.append_assoc]; rfl⟩

def StartsAt (nodes : List Node) (tree : Tree Node) (level : Int32) : Prop :=
  ∃ before behind last, plan nodes = before ++ Forest.walkTree last tree ++ behind ∧
    levelBehind 0 before = level

theorem StartsAt.standsAt {nodes : List Node} {tree : Tree Node} {level : Int32}
    (h : StartsAt nodes tree level) (hkind : tree.root.kind ≠ .comment) :
    StandsAt nodes tree.root .opening level := by
  obtain ⟨before, behind, last, hplan, hlevel⟩ := h
  cases tree with
  | node root children =>
    obtain ⟨rest, hwalk⟩ := walkTree_opening last (show root.kind ≠ .comment from hkind) children
    refine ⟨before, rest ++ behind, ?_, hlevel⟩
    rw [hplan, hwalk, List.append_assoc]
    rfl

/-- Without functions and classes, each block and widget around a tree makes it start one level
deeper. -/
theorem StartsAt.within {nodes : List Node} {children : List (Tree Node)} {base : Int32}
    (hbase : ∀ tree ∈ children, StartsAt nodes tree base)
    (hfree : ∀ node ∈ Forest.nodes children, node.kind.absolute = false) {depth : Nat}
    {tree : Tree Node} (h : Within children depth tree) :
    StartsAt nodes tree (base + Int32.ofNat depth) := by
  induction h with
  | child hchild =>
    rw [show Int32.ofNat 0 = 0 from rfl, Int32.add_zero]
    exact hbase _ hchild
  | @nested depth inner below _ hinner hchild ih =>
    obtain ⟨before, behind, last, hplan, hlevel⟩ := ih
    have hnodes := fun node hnode => hfree node (hinner.nodes_infix.subset hnode)
    rw [Forest.treeNodes, List.forall_mem_cons] at hnodes
    obtain ⟨before', behind', last', hwalk, hshift⟩ :=
      walkTree_child_level inner hnodes.2 hchild last
    refine ⟨before ++ before', behind' ++ behind, last', ?_, ?_⟩
    · rw [hplan, hwalk]
      simp only [List.append_assoc]
    · have hmore : base + Int32.ofNat depth + 1 = base + Int32.ofNat (depth + 1) := by
        rw [Int32.ofNat_add, Int32.add_assoc]
        rfl
      rw [levelBehind_append, hlevel, hshift]
      -- Of the kinds that are left, blocks and widgets are one level deeper inside.
      cases hkind : inner.kind <;> rw [hkind] at hnodes <;>
        first | exact hmore | rfl | cases hnodes.1

/-- The children of a function or a class without others below it start at level 1. -/
theorem startsAt_child {nodes : List Node} {root : Node} {children : List (Tree Node)}
    (hsub : Forest.Subtree (Forest.ofNodes (Forest.members nodes)) (.node root children))
    (hroot : root.kind.absolute = true)
    (hfree : ∀ node ∈ Forest.nodes children, node.kind.absolute = false) {tree : Tree Node}
    (hchild : tree ∈ children) : StartsAt nodes tree 1 := by
  obtain ⟨before, behind, last, hplan, -⟩ := Forest.plan_part hsub
  obtain ⟨before', behind', last', hwalk, hlevel⟩ := walkTree_child_level root hfree hchild last
  refine ⟨before ++ before', behind' ++ behind, last', ?_, ?_⟩
  · rw [hplan, hwalk]
    simp only [List.append_assoc]
  · -- Functions and classes put the level to 1, whatever it was.
    rw [levelBehind_append, hlevel]
    cases hkind : root.kind <;> rw [hkind] at hroot <;> first | rfl | cases hroot

/-- The trees of a forest start at level 0 if no function or class stands below a block or a
widget. -/
theorem startsAt_top {nodes : List Node}
    (h : Forest.Outermost (Forest.ofNodes (Forest.members nodes))) {tree : Tree Node}
    (htree : tree ∈ Forest.ofNodes (Forest.members nodes)) : StartsAt nodes tree 0 := by
  obtain ⟨front, back, hforest⟩ := List.append_of_mem htree
  obtain ⟨before, hplan, hlevel⟩ := plan_top h hforest
  refine ⟨before ++ (Forest.treeNodes tree).map (.write .setup),
    Forest.walkRoots back ++
      .endGuard :: (Forest.trailing (Forest.members nodes)).map (.write .framing),
    back.isEmpty, ?_, ?_⟩
  · rw [hplan]
    simp only [List.append_assoc]
  · rw [levelBehind_append, levelBehind_setup, hlevel]

end Generation

end FormWeave
