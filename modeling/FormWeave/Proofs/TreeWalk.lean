import FormWeave.Design.Forest
import FormWeave.Generation.Run
import FormWeave.Proofs.Plans
import Mathlib.Data.List.Basic

/-!
# The walk over a list is the walk over its forest

A plan is made by going through a list of nodes with depths. Here it is read off the forest of the
list, by recursion over the trees, and the two are the same for any depths: a node that lies much
deeper than the one in front of it is a child of that node like any other. Each node below a leading
comment has its setup, opening and closing code written once, where the comment that ends the design
has its opening code written behind everything else.
-/

namespace FormWeave

open DesignNode (below kind)

/-! ## 1. The forest of a list by its front -/

namespace Forest

variable {ν : Type} [DesignNode ν]

theorem below_trans {a b c : ν} (hab : below a b = true) (hbc : below b c = true) :
    below a c = true :=
  decide_eq_true (Nat.lt_trans (of_decide_eq_true hab) (of_decide_eq_true hbc))

/-- What lies below a node that itself lies below `root` stays with it when the trees below `root`
are taken off a forest. -/
theorem takeWhile_below_cons {root node : ν} (h : below root node = true) (forest : List (Tree ν)) :
    (cons node forest).takeWhile (fun tree => below root tree.root) =
      cons node (forest.takeWhile fun tree => below root tree.root) := by
  -- The trees below `node` are below `root` as well, so either may be taken off first.
  have hinner : ∀ trees : List (Tree ν),
      (trees.takeWhile fun tree => below root tree.root).takeWhile
          (fun tree => below node tree.root) =
        trees.takeWhile fun tree => below node tree.root := by
    intro trees
    rw [List.takeWhile_takeWhile]
    congr 1
    funext tree
    by_cases hnode : below node tree.root = true
    · simp [hnode, below_trans h hnode]
    · simp [hnode]
  have houter : ∀ trees : List (Tree ν),
      (trees.takeWhile fun tree => below root tree.root).dropWhile
          (fun tree => below node tree.root) =
        (trees.dropWhile fun tree => below node tree.root).takeWhile
          fun tree => below root tree.root := by
    intro trees
    induction trees with
    | nil => rfl
    | cons tree rest ih =>
      by_cases hnode : below node tree.root = true
      · simp [hnode, below_trans h hnode, ih]
      · by_cases hroot : below root tree.root = true
        · simp [hnode, hroot]
        · simp [hnode, hroot]
  rw [cons, List.takeWhile_cons_of_pos (by exact h), cons, hinner, houter]

theorem dropWhile_below_cons {root node : ν} (h : below root node = true) (forest : List (Tree ν)) :
    (cons node forest).dropWhile (fun tree => below root tree.root) =
      forest.dropWhile fun tree => below root tree.root := by
  rw [cons, List.dropWhile_cons_of_pos (by exact h)]
  induction forest with
  | nil => rfl
  | cons tree rest ih =>
    by_cases hnode : below node tree.root = true
    · simp [hnode, below_trans h hnode, ih]
    · simp [hnode]

theorem takeWhile_ofNodes (root : ν) (list : List ν) :
    (ofNodes list).takeWhile (fun tree => below root tree.root) =
      ofNodes (list.takeWhile (below root)) := by
  induction list with
  | nil => rfl
  | cons node rest ih =>
    by_cases h : below root node = true
    · rw [List.takeWhile_cons_of_pos h]
      exact (takeWhile_below_cons h _).trans (congrArg (cons node) ih)
    · rw [List.takeWhile_cons_of_neg h]
      exact List.takeWhile_cons_of_neg h

theorem dropWhile_ofNodes (root : ν) (list : List ν) :
    (ofNodes list).dropWhile (fun tree => below root tree.root) =
      ofNodes (list.dropWhile (below root)) := by
  induction list with
  | nil => rfl
  | cons node rest ih =>
    by_cases h : below root node = true
    · rw [List.dropWhile_cons_of_pos h]
      exact (dropWhile_below_cons h _).trans ih
    · rw [List.dropWhile_cons_of_neg h]
      exact List.dropWhile_cons_of_neg h

/-- The descendants of the first node are the nodes behind it that lie deeper, up to the first that
does not; with that one the next tree starts. -/
theorem ofNodes_cons (node : ν) (rest : List ν) :
    ofNodes (node :: rest) =
      .node node (ofNodes (rest.takeWhile (below node))) ::
        ofNodes (rest.dropWhile (below node)) := by
  rw [← takeWhile_ofNodes, ← dropWhile_ofNodes]
  rfl

theorem ofNodes_eq_nil_iff {list : List ν} : ofNodes list = [] ↔ list = [] := by
  cases list with
  | nil => exact ⟨fun _ => rfl, fun _ => rfl⟩
  | cons node rest => rw [ofNodes_cons]; exact ⟨nofun, nofun⟩

/-! ## 2. The walk over a forest -/

mutual
/-- The structure of a tree: opening code, children, closing code. In a class the functions come
behind the closing code. The opening code of a comment is left out if nothing follows it in the
design, as the last tree of all. -/
def walkTree (last : Bool) : Tree ν → List (Step ν)
  | .node root children =>
    let opening :=
      if last && children.isEmpty && kind root == .comment then [] else [Step.write .opening root]
    if kind root == .widgetClass then
      opening ++ walk (fun n => !(kind n == .function)) last children ++ [.write .closing root] ++
        walk (fun n => kind n == .function) last children ++ [.endClass]
    else opening ++ walk (fun _ => true) last children ++ [.write .closing root]

def walk (chosen : ν → Bool) (last : Bool) : List (Tree ν) → List (Step ν)
  | [] => []
  | tree :: rest =>
    (if chosen tree.root then walkTree (last && rest.isEmpty) tree else []) ++
      walk chosen last rest
end

def walkRoots : List (Tree ν) → List (Step ν)
  | [] => []
  | tree :: rest =>
    (treeNodes tree).map (.write .setup) ++ walkTree rest.isEmpty tree ++ walkRoots rest

/-- The comment that leads a design, if one does. -/
def leading (nodes : List ν) : List ν :=
  (nodes.head?.filter fun node => kind node == .comment).toList

/-- The nodes behind a leading comment. -/
def members (nodes : List ν) : List ν := nodes.drop (leading nodes).length

/-- The comment that ends a list of nodes, if one does. -/
def trailing (nodes : List ν) : List ν :=
  (nodes.getLast?.filter fun node => kind node == .comment).toList

def plan (nodes : List ν) : List (Step ν) :=
  (leading nodes).map (.write .framing) ++ .prologue :: walkRoots (ofNodes (members nodes)) ++
    .endGuard :: (trailing (members nodes)).map (.write .framing)

end Forest

/-! ## 3. Both walks take the same steps -/

namespace Plan

variable {ν : Type} [DesignNode ν]

theorem drop_subtreeSize (root : ν) (rest : List ν) :
    rest.drop (subtreeSize root rest) = rest.dropWhile (below root) := by
  have h := List.takeWhile_append_dropWhile (p := below root) (l := rest)
  rw [← take_subtreeSize] at h
  exact List.append_cancel_left ((List.take_append_drop _ _).trans h.symm)

/-- What stands behind the subtree of a node starts with none of its descendants. -/
theorem span_take_drop (root : ν) (rest : List ν) (count : Nat) :
    ((rest.drop (subtreeSize root rest)).take count).takeWhile (below root) = [] ∧
      ((rest.drop (subtreeSize root rest)).take count).dropWhile (below root) =
        (rest.drop (subtreeSize root rest)).take count := by
  rw [drop_subtreeSize]
  induction rest with
  | nil => simp
  | cons node rest ih =>
    by_cases h : below root node = true
    · rw [List.dropWhile_cons_of_pos h]
      exact ih
    · rw [List.dropWhile_cons_of_neg h]
      cases count with
      | zero => exact ⟨rfl, rfl⟩
      | succ count =>
        rw [List.take_succ_cons]
        exact ⟨List.takeWhile_cons_of_neg h, List.dropWhile_cons_of_neg h⟩

/-- The trees that start in a range: the one of its first node, and those behind it. -/
theorem ofNodes_take {count : Nat} {node : ν} {rest : List ν}
    (h : Whole (count + 1) (node :: rest)) :
    Forest.ofNodes ((node :: rest).take (count + 1)) =
      .node node (Forest.ofNodes (rest.take (subtreeSize node rest))) ::
        Forest.ofNodes
          ((rest.drop (subtreeSize node rest)).take (count - subtreeSize node rest)) := by
  have hsize := h.subtreeSize_le
  have hsplit : rest.take count = rest.take (subtreeSize node rest) ++
      (rest.drop (subtreeSize node rest)).take (count - subtreeSize node rest) := by
    rw [← List.take_add, Nat.add_sub_cancel' hsize]
  have hbelow : ∀ n ∈ rest.take (subtreeSize node rest), below node n = true :=
    fun n hn => decide_eq_true (depth_lt_of_mem_take hn)
  obtain ⟨htake, hdrop⟩ := span_take_drop node rest (count - subtreeSize node rest)
  rw [List.take_succ_cons, Forest.ofNodes_cons, hsplit, List.takeWhile_append_of_pos hbelow,
    List.dropWhile_append_of_pos hbelow, htake, hdrop, List.append_nil]

/-- The tree of the first node is walked alike if its children are. -/
theorem tree_eq_walkTree (node : ν) (rest : List ν)
    (hwalk : ∀ chosen : ν → Bool, walk chosen (subtreeSize node rest) rest =
      Forest.walk chosen (decide (rest.length ≤ subtreeSize node rest))
        (Forest.ofNodes (rest.take (subtreeSize node rest)))) :
    tree node rest =
      Forest.walkTree (decide (rest.length ≤ subtreeSize node rest))
        (.node node (Forest.ofNodes (rest.take (subtreeSize node rest)))) := by
  -- The last node of a list is the last of its forest that has no children.
  have hlast : rest.isEmpty = (decide (rest.length ≤ subtreeSize node rest) &&
      (Forest.ofNodes (rest.take (subtreeSize node rest))).isEmpty) := by
    cases rest with
    | nil => rfl
    | cons n rest =>
      by_cases hall : (n :: rest).length ≤ subtreeSize node (n :: rest)
      · rw [List.take_of_length_le hall, Forest.ofNodes_cons]
        simp
      · rw [decide_eq_false hall, Bool.false_and, List.isEmpty_cons]
  rw [tree, Forest.walkTree]
  simp only [hwalk, hlast]

theorem walk_eq_forest (chosen : ν → Bool) (count : Nat) (nodes : List ν)
    (h : Whole count nodes) :
    walk chosen count nodes =
      Forest.walk chosen (decide (nodes.length ≤ count)) (Forest.ofNodes (nodes.take count)) := by
  match count, nodes with
  | 0, _ =>
    rw [walk_zero, List.take_zero]
    rfl
  | _ + 1, [] =>
    rw [walk_nil, List.take_nil]
    rfl
  | count + 1, node :: rest =>
    have htree := tree_eq_walkTree node rest fun chosen =>
      walk_eq_forest chosen (subtreeSize node rest) rest (whole_subtree node rest)
    have htail := walk_eq_forest chosen (count - subtreeSize node rest)
      (rest.drop (subtreeSize node rest)) h.tail
    have hsize := h.subtreeSize_le
    have hlength := subtreeSize_le_length node rest
    -- Both parts reach the end of the list exactly if the range does.
    have hfirst : decide (rest.length ≤ subtreeSize node rest) =
        (decide ((node :: rest).length ≤ count + 1) &&
          (Forest.ofNodes ((rest.drop (subtreeSize node rest)).take
            (count - subtreeSize node rest))).isEmpty) := by
      rw [Bool.eq_iff_iff, Bool.and_eq_true, decide_eq_true_iff, decide_eq_true_iff,
        List.isEmpty_iff, Forest.ofNodes_eq_nil_iff, List.take_eq_nil_iff, List.drop_eq_nil_iff,
        List.length_cons]
      omega
    have hrest : decide ((rest.drop (subtreeSize node rest)).length ≤
        count - subtreeSize node rest) = decide ((node :: rest).length ≤ count + 1) := by
      rw [decide_eq_decide, List.length_drop, List.length_cons]
      omega
    rw [walk_cons, ofNodes_take h, Forest.walk, htree, htail, hfirst, hrest]
    rfl
termination_by nodes.length
decreasing_by all_goals simp only [List.length_cons, List.length_drop]; omega

theorem trees_eq_walkRoots (nodes : List ν) :
    trees nodes = Forest.walkRoots (Forest.ofNodes nodes) := by
  -- A top tree is a range of its own, from its root up to the next one.
  induction nodes using trees.induct with
  | case1 =>
    rw [trees]
    rfl
  | case2 node rest size ih =>
    have htree := tree_eq_walkTree node rest fun chosen =>
      walk_eq_forest chosen _ rest (whole_subtree node rest)
    have hbody : walk (fun _ => true) (size + 1) (node :: rest) = tree node rest := by
      rw [walk_cons]
      show tree node rest ++ walk (fun _ => true) (size - size) _ = _
      rw [Nat.sub_self, walk_zero, List.append_nil]
    have hlast : decide (rest.length ≤ subtreeSize node rest) =
        (Forest.ofNodes (rest.drop (subtreeSize node rest))).isEmpty := by
      rw [Bool.eq_iff_iff, decide_eq_true_iff, List.isEmpty_iff, Forest.ofNodes_eq_nil_iff,
        List.drop_eq_nil_iff]
    rw [trees_cons, Forest.ofNodes_cons, ← take_subtreeSize, ← drop_subtreeSize,
      Forest.walkRoots, ← hlast, ← htree, ← hbody, ← ih, Forest.treeNodes, Forest.nodes_ofNodes]

theorem plan_eq_forest (nodes : List ν) : plan nodes = Forest.plan nodes := by
  have hsteps : ∀ rest : List ν, steps rest = .prologue ::
      Forest.walkRoots (Forest.ofNodes rest) ++
        .endGuard :: (Forest.trailing rest).map (.write .framing) := by
    intro rest
    rw [steps, trees_eq_walkRoots, List.append_assoc]
    rfl
  rw [Forest.plan]
  cases nodes with
  | nil => exact hsteps []
  | cons node rest =>
    rw [plan]
    by_cases hcomment : kind node = .comment
    · have hleading : Forest.leading (node :: rest) = [node] := by
        simp [Forest.leading, hcomment]
      rw [if_pos (by simpa using hcomment), hsteps, Forest.members, hleading]
      rfl
    · have hleading : Forest.leading (node :: rest) = [] := by
        simp [Forest.leading, hcomment]
      rw [if_neg (by simpa using hcomment), hsteps, Forest.members, hleading]
      rfl

end Plan

/-! ## 4. Every node writes once -/

namespace Forest

open Plan (writers writers_append)

variable {ν : Type} (p : ν → Bool) (phase : Phase)

theorem nodes_eq_nil_iff {forest : List (Tree ν)} : nodes forest = [] ↔ forest = [] := by
  cases forest with
  | nil => exact ⟨fun _ => rfl, fun _ => rfl⟩
  | cons tree rest =>
    cases tree with
    | node root children =>
      rw [nodes, treeNodes]
      exact ⟨fun h => absurd h (List.cons_ne_nil _ _), fun h => absurd h (List.cons_ne_nil _ _)⟩

def written (steps : List (Step ν)) : Nat := (writers phase steps).countP p

theorem written_append (front back : List (Step ν)) :
    written p phase (front ++ back) = written p phase front + written p phase back := by
  rw [written, writers_append, List.countP_append]
  rfl

theorem written_nil : written p phase ([] : List (Step ν)) = 0 := rfl

variable [DesignNode ν]

theorem trailing_append {front back : List ν} (h : back ≠ []) :
    trailing (front ++ back) = trailing back := by
  rw [trailing, List.getLast?_append_of_ne_nil _ h, trailing]

theorem trailing_singleton (node : ν) :
    trailing [node] = if kind node == .comment then [node] else [] := by
  by_cases h : kind node = .comment
  · simp [trailing, h]
  · simp [trailing, h]

/-- The opening code that is left for the end of the file. -/
def late (phase : Phase) (last : Bool) (nodes : List ν) : List ν :=
  if last && phase == .opening then trailing nodes else []

theorem late_append {front back : List ν} (last : Bool) (h : back ≠ []) :
    late phase last (front ++ back) = late phase last back := by
  rw [late, late, trailing_append h]

/-- A choice of roots and the opposite one share the trees out between them. -/
theorem written_walk_add (chosen : ν → Bool) (last : Bool) (forest : List (Tree ν)) :
    written p phase (walk chosen last forest) +
        written p phase (walk (fun n => !chosen n) last forest) =
      written p phase (walk (fun _ => true) last forest) := by
  induction forest with
  | nil => rfl
  | cons tree rest ih =>
    rw [walk, walk, walk, written_append, written_append, written_append]
    cases hchosen : chosen tree.root with
    | true =>
      simp only [Bool.not_true, Bool.false_eq_true, if_false, if_true, written_nil]
      omega
    | false =>
      simp only [Bool.not_false, Bool.false_eq_true, if_false, if_true, written_nil]
      omega

theorem written_walkTree (hphase : phase = .opening ∨ phase = .closing) (last : Bool) (root : ν)
    (children : List (Tree ν)) :
    written p phase (walkTree last (.node root children)) +
        (if children = [] then (late phase last [root]).countP p else 0) =
      [root].countP p + written p phase (walk (fun _ => true) last children) := by
  have hend : written p phase [(Step.endClass : Step ν)] = 0 := rfl
  -- The root writes once, in front of the children, behind them or at the end of the file.
  have hown : written p phase (if last && children.isEmpty && kind root == .comment then []
        else [Step.write .opening root]) + written p phase [.write .closing root] +
      (if children = [] then (late phase last [root]).countP p else 0) = [root].countP p := by
    rcases hphase with rfl | rfl
    · have hclosing : written p .opening [.write .closing root] = 0 := rfl
      have hopening : written p .opening [.write .opening root] = [root].countP p := rfl
      rw [late, trailing_singleton, hclosing]
      cases last <;> cases children <;> by_cases hcomment : kind root = .comment <;>
        simp [hcomment, hopening, written_nil]
    · have hclosing : written p .closing [.write .closing root] = [root].countP p := rfl
      have hopening : written p .closing [.write .opening root] = 0 := rfl
      have hlate : late .closing last [root] = [] := by simp [late]
      rw [hclosing, hlate]
      split <;> simp [hopening, written_nil]
  -- The two walks of a class share its children out between them.
  have hclass := written_walk_add p phase (fun n => kind n == .function) last children
  rw [walkTree]
  split
  · simp only [written_append, hend]
    omega
  · simp only [written_append]
    omega

mutual
theorem written_tree (hphase : phase = .opening ∨ phase = .closing) (last : Bool) (tree : Tree ν) :
    written p phase (walkTree last tree) + (late phase last (treeNodes tree)).countP p =
      (treeNodes tree).countP p := by
  match tree with
  | .node root children =>
    have htree := written_walkTree p phase hphase last root children
    have hinner := written_forest hphase last children
    rw [treeNodes, ← List.singleton_append, List.countP_append]
    by_cases hchildren : children = []
    · subst hchildren
      have hnone : walk (fun _ => true) last ([] : List (Tree ν)) = [] := rfl
      rw [if_pos rfl, hnone, written_nil] at htree
      rw [nodes, List.append_nil, List.countP_nil]
      exact htree
    · rw [if_neg hchildren] at htree
      -- The last node of the tree is the last of its children.
      rw [late_append phase last fun h => hchildren (nodes_eq_nil_iff.1 h)]
      omega

theorem written_forest (hphase : phase = .opening ∨ phase = .closing) (last : Bool)
    (forest : List (Tree ν)) :
    written p phase (walk (fun _ => true) last forest) +
        (late phase last (nodes forest)).countP p = (nodes forest).countP p := by
  match forest with
  | [] =>
    have hnone : late phase last ([] : List ν) = [] := by
      rw [late, trailing]
      simp
    rw [nodes, hnone]
    rfl
  | tree :: rest =>
    have htree := written_tree hphase (last && rest.isEmpty) tree
    have hrest := written_forest hphase last rest
    rw [walk, if_pos rfl, written_append, nodes, List.countP_append]
    by_cases hempty : rest = []
    · subst hempty
      rw [List.isEmpty_nil, Bool.and_true] at htree
      have hnone : walk (fun _ => true) last ([] : List (Tree ν)) = [] := rfl
      rw [List.isEmpty_nil, Bool.and_true, hnone, written_nil, nodes, List.append_nil,
        List.countP_nil]
      omega
    · -- Only the last tree reaches the end of the design.
      have hearly : late phase (last && rest.isEmpty) (treeNodes tree) = [] := by
        rw [late, List.isEmpty_eq_false_iff.2 hempty, Bool.and_false, Bool.false_and]
        rfl
      rw [hearly, List.countP_nil] at htree
      rw [late_append phase last fun h => hempty (nodes_eq_nil_iff.1 h)]
      omega
end

/-- The top trees are walked as any forest is, but for their setup code. -/
theorem written_walkRoots (hphase : phase = .opening ∨ phase = .closing)
    (forest : List (Tree ν)) :
    written p phase (walkRoots forest) = written p phase (walk (fun _ => true) true forest) := by
  have hne : Phase.setup ≠ phase := by
    rcases hphase with rfl | rfl <;> decide
  have hsetup : ∀ list : List ν, written p phase (list.map (.write .setup)) = 0 := by
    intro list
    rw [written, Plan.writers_map, if_neg hne, List.countP_nil]
  induction forest with
  | nil => rfl
  | cons tree rest ih =>
    rw [walkRoots, walk, if_pos rfl, Bool.true_and, written_append, written_append, written_append,
      hsetup, ih, Nat.zero_add]

/-! ## 5. What a run writes -/

/-- Which nodes write in the phases of a run over a design: each one below a leading comment in
every phase, but that a comment at the end has its opening code written as a frame. -/
structure WrittenOnce (nodes : List ν) (steps : List (Step ν)) : Prop where
  setup : writers .setup steps = members nodes
  opening : (writers .opening steps ++ trailing (members nodes)).Perm (members nodes)
  closing : (writers .closing steps).Perm (members nodes)
  framing : writers .framing steps = leading nodes ++ trailing (members nodes)

/-- A plan writes what frames the file, and what the trees below it write. -/
theorem writers_plan (phase : Phase) (nodes : List ν) :
    writers phase (plan nodes) =
      (if phase = .framing then leading nodes else []) ++
        writers phase (walkRoots (ofNodes (members nodes))) ++
        (if phase = .framing then trailing (members nodes) else []) := by
  have hprologue : ∀ steps : List (Step ν),
      writers phase (.prologue :: steps) = writers phase steps := fun _ => rfl
  have hguard : ∀ steps : List (Step ν),
      writers phase (.endGuard :: steps) = writers phase steps := fun _ => rfl
  rw [plan, writers_append, writers_append, hprologue, hguard, Plan.writers_map, Plan.writers_map]
  simp only [eq_comm]

theorem written_plan (hphase : phase = .opening ∨ phase = .closing) (nodes : List ν) :
    written p phase (plan nodes) + (late phase true (members nodes)).countP p =
      (members nodes).countP p := by
  have hne : phase ≠ .framing := by
    rcases hphase with rfl | rfl <;> decide
  have hforest := written_forest p phase hphase true (ofNodes (members nodes))
  rw [← written_walkRoots p phase hphase, nodes_ofNodes] at hforest
  rw [written, writers_plan, if_neg hne, if_neg hne, List.nil_append, List.append_nil]
  exact hforest

theorem writtenOnce_plan (nodes : List ν) : WrittenOnce nodes (plan nodes) := by
  classical
  -- Setup and framing code keep the order of the design; the rest is counted node by node.
  constructor
  case setup =>
    rw [writers_plan, ← Plan.trees_eq_walkRoots, Plan.setups_trees]
    simp
  case opening =>
    rw [List.perm_iff_count]
    intro node
    rw [List.count_append]
    exact written_plan (· == node) .opening (Or.inl rfl) nodes
  case closing =>
    rw [List.perm_iff_count]
    intro node
    exact written_plan (· == node) .closing (Or.inr rfl) nodes
  case framing =>
    have hnone : writers .framing (walkRoots (ofNodes (members nodes))) = [] := by
      rw [← Plan.trees_eq_walkRoots, writers, List.filterMap_eq_nil_iff]
      exact Plan.forall_trees (P := fun step => Plan.writes? .framing step = none) rfl _
        fun node _ phase hne => if_neg hne
    rw [writers_plan, hnone, List.append_nil, if_pos rfl, if_pos rfl]

end Forest

namespace Plan

/-- No node has its opening code written twice. -/
theorem opened_plan_le {ν : Type} [DesignNode ν] (p : ν → Bool) (nodes : List ν) :
    opened p (plan nodes) ≤ nodes.countP p := by
  have hwritten := Forest.written_plan p .opening (Or.inl rfl) nodes
  have hmembers : (Forest.members nodes).countP p ≤ nodes.countP p :=
    (List.drop_sublist _ nodes).countP_le
  rw [← Plan.plan_eq_forest] at hwritten
  show Forest.written p .opening (plan nodes) ≤ _
  omega

end Plan

namespace Generation

variable {ν : Type}

theorem countP_endsNode (steps : List (Step ν)) :
    steps.countP endsNode = (Plan.writers .closing steps).length := by
  induction steps with
  | nil => rfl
  | cons step rest ih =>
    have hstep : (if endsNode step then 1 else 0) = (Plan.writers .closing [step]).length := by
      cases step with
      | write phase node => cases phase <;> rfl
      | prologue | endClass | endGuard => rfl
    rw [List.countP_cons, ih, hstep, Nat.add_comm, ← List.length_append, ← Plan.writers_append,
      List.singleton_append]

variable [DesignNode ν]

/-- A run takes the steps of the walk over the forest of the design, in their order, each node
below a leading comment writes once in every phase, and all of these nodes are counted. -/
theorem run_forest {m : Type → Type} [Monad m] [MonadLiftT Emit m] (names : HeaderNames)
    (track : Bool) (write : Phase → ν → m Unit) (nodes : List ν) :
    plan nodes = Forest.plan nodes ∧ Forest.WrittenOnce nodes (plan nodes) ∧
      run names track write nodes = do
        liftM Emit.reset
        let ranges ← (Forest.plan nodes).foldlM (take names track write) {}
        return { ranges, nodesWritten := nodes.length - (Forest.leading nodes).length } := by
  have hplan := Plan.plan_eq_forest nodes
  have honce := Forest.writtenOnce_plan nodes
  have hcount : (plan nodes).countP endsNode = nodes.length - (Forest.leading nodes).length := by
    rw [countP_endsNode, hplan, honce.closing.length_eq, Forest.members, List.length_drop]
  rw [run]
  dsimp only
  rw [hcount, hplan]
  exact ⟨rfl, honce, rfl⟩

end Generation

end FormWeave
