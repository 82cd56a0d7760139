import FormWeave.Proofs.TreeWalk
import Mathlib.Data.List.Nodup

/-!
# The steps of a subtree

The structure of each subtree of a design is a part of the plan in one piece. The structure of a
child lies between the opening and the closing code of its parent, except that of a function in a
class, which lies behind both. The setup code of a node lies in front of all of its structure.
-/

namespace FormWeave

open DesignNode (below kind)

namespace Forest

variable {ν : Type}

/-! ## 1. Subtrees -/

inductive Subtree (forest : List (Tree ν)) : Tree ν → Prop
  | top {tree : Tree ν} (h : tree ∈ forest) : Subtree forest tree
  | child {root : ν} {children : List (Tree ν)} {tree : Tree ν}
    (h : Subtree forest (.node root children)) (hchild : tree ∈ children) : Subtree forest tree

/-- `child` stands directly below `parent`. -/
def Child (forest : List (Tree ν)) (parent child : ν) : Prop :=
  ∃ children tree, Subtree forest (.node parent children) ∧ tree ∈ children ∧ tree.root = child

theorem Subtree.mono {forest forest' : List (Tree ν)} {tree : Tree ν} (h : Subtree forest tree)
    (hforest : ∀ top ∈ forest, Subtree forest' top) : Subtree forest' tree := by
  induction h with
  | top htop => exact hforest _ htop
  | child _ hchild ih => exact ih.child hchild

theorem treeNodes_infix_of_mem {forest : List (Tree ν)} {tree : Tree ν} (h : tree ∈ forest) :
    treeNodes tree <:+: nodes forest := by
  obtain ⟨front, back, rfl⟩ := List.append_of_mem h
  rw [nodes_append, nodes, ← List.append_assoc]
  exact ⟨_, _, rfl⟩

theorem Subtree.treeNodes_infix {forest : List (Tree ν)} {tree : Tree ν}
    (h : Subtree forest tree) : treeNodes tree <:+: nodes forest := by
  induction h with
  | top htop => exact treeNodes_infix_of_mem htop
  | @child root children _ _ hchild ih =>
    refine (treeNodes_infix_of_mem hchild).trans (List.IsInfix.trans ?_ ih)
    exact (List.suffix_cons root (nodes children)).isInfix

theorem root_mem_treeNodes (tree : Tree ν) : tree.root ∈ treeNodes tree := by
  cases tree
  exact List.mem_cons_self

theorem Subtree.root_mem {forest : List (Tree ν)} {tree : Tree ν} (h : Subtree forest tree) :
    tree.root ∈ nodes forest := h.treeNodes_infix.mem (root_mem_treeNodes tree)

variable [DesignNode ν]

/-! ## 2. The forest behind a leading comment -/

theorem takeWhile_append_of_stop {α : Type} {p : α → Bool} {back : List α}
    (h : ∀ a, back.head? = some a → p a = false) (front : List α) :
    (front ++ back).takeWhile p = front.takeWhile p := by
  induction front with
  | nil =>
    cases back with
    | nil => rfl
    | cons a back => exact List.takeWhile_cons_of_neg (by simp [h a rfl])
  | cons a rest ih => rw [List.cons_append, List.takeWhile_cons, List.takeWhile_cons, ih]

theorem dropWhile_append_of_stop {α : Type} {p : α → Bool} {back : List α}
    (h : ∀ a, back.head? = some a → p a = false) (front : List α) :
    (front ++ back).dropWhile p = front.dropWhile p ++ back := by
  induction front with
  | nil =>
    cases back with
    | nil => rfl
    | cons a back => exact List.dropWhile_cons_of_neg (by simp [h a rfl])
  | cons a rest ih =>
    rw [List.cons_append, List.dropWhile_cons, List.dropWhile_cons, ih]
    split <;> rfl

theorem ofNodes_append {front back : List ν}
    (h : ∀ next, back.head? = some next → ∀ node ∈ front, below node next = false) :
    ofNodes (front ++ back) = ofNodes front ++ ofNodes back := by
  induction front with
  | nil => rfl
  | cons node rest ih =>
    have hrest := ih fun next hnext n hn => h next hnext n (List.mem_cons_of_mem _ hn)
    -- The trees below `node` end where `back` starts at the latest.
    have hstop : ∀ tree : Tree ν, (ofNodes back).head? = some tree →
        below node tree.root = false := by
      intro tree htree
      cases back with
      | nil => cases htree
      | cons next back =>
        rw [ofNodes_cons] at htree
        cases htree
        exact h next rfl node List.mem_cons_self
    have hcons : ofNodes (node :: rest ++ back) = cons node (ofNodes (rest ++ back)) := rfl
    have hfront : ofNodes (node :: rest) = cons node (ofNodes rest) := rfl
    rw [hcons, hfront, hrest, cons, cons, takeWhile_append_of_stop hstop,
      dropWhile_append_of_stop hstop]
    rfl

theorem leading_cases (nodes : List ν) :
    (leading nodes = [] ∧ members nodes = nodes) ∨
      ∃ node rest, nodes = node :: rest ∧ kind node = .comment ∧ leading nodes = [node] ∧
        members nodes = rest := by
  cases nodes with
  | nil => exact .inl ⟨rfl, rfl⟩
  | cons node rest =>
    by_cases hcomment : kind node = .comment
    · have hleading : leading (node :: rest) = [node] := by simp [leading, hcomment]
      exact .inr ⟨node, rest, rfl, hcomment, hleading, by rw [members, hleading]; rfl⟩
    · have hleading : leading (node :: rest) = [] := by simp [leading, hcomment]
      exact .inl ⟨hleading, by rw [members, hleading]; rfl⟩

theorem leading_append_members (nodes : List ν) : leading nodes ++ members nodes = nodes := by
  rcases leading_cases nodes with ⟨hleading, hmembers⟩ | ⟨node, rest, rfl, -, hleading, hmembers⟩
  · rw [hleading, hmembers, List.nil_append]
  · rw [hleading, hmembers, List.singleton_append]

theorem kind_of_mem_leading {nodes : List ν} {node : ν} (h : node ∈ leading nodes) :
    kind node = .comment := by
  rcases leading_cases nodes with ⟨hleading, -⟩ | ⟨first, rest, -, hcomment, hleading, -⟩
  · rw [hleading] at h
    cases h
  · rw [hleading, List.mem_singleton] at h
    rw [h, hcomment]

/-- But for the leading comment itself, every tree of a design is a tree of what is behind it. -/
theorem subtree_members {nodes : List ν} {root : ν} {children : List (Tree ν)}
    (h : Subtree (ofNodes nodes) (.node root children)) (hroot : root ∉ leading nodes) :
    Subtree (ofNodes (members nodes)) (.node root children) := by
  rcases leading_cases nodes with ⟨-, hmembers⟩ | ⟨node, rest, rfl, -, hleading, hmembers⟩
  · rw [hmembers]
    exact h
  rw [hleading, List.mem_singleton] at hroot
  rw [hmembers]
  -- What lies below the comment and what lies behind it make up the rest.
  have hrest : ofNodes rest = ofNodes (rest.takeWhile (below node)) ++
      ofNodes (rest.dropWhile (below node)) := by
    rw [← ofNodes_append, List.takeWhile_append_dropWhile]
    intro next hnext n hn
    have hdeeper : below node n = true := List.mem_takeWhile_imp hn
    have hnot : below node next = false := by
      have hne : rest.dropWhile (below node) ≠ [] := by rintro hnil; simp [hnil] at hnext
      have hhead := List.head_dropWhile_not (below node) hne
      rwa [(List.head_eq_iff_head?_eq_some hne).2 hnext] at hhead
    rw [Bool.eq_false_iff] at hnot ⊢
    exact fun hbelow => hnot (below_trans hdeeper hbelow)
  -- A tree below the comment is at the top of the rest, so both cases stay within it.
  have hcases : ∀ tree, Subtree (ofNodes (node :: rest)) tree →
      tree = .node node (ofNodes (rest.takeWhile (below node))) ∨
        Subtree (ofNodes rest) tree := by
    intro tree htree
    induction htree with
    | top htop =>
      rw [ofNodes_cons] at htop
      rcases List.mem_cons.1 htop with rfl | htop
      · exact .inl rfl
      · exact .inr (.top (hrest ▸ List.mem_append_right _ htop))
    | child _ hchild ih =>
      rcases ih with heq | hsub
      · cases heq
        exact .inr (.top (hrest ▸ List.mem_append_left _ hchild))
      · exact .inr (hsub.child hchild)
  rcases hcases _ h with heq | hsub
  · cases heq
    exact absurd rfl hroot
  · exact hsub

/-! ## 3. The part of the plan -/

variable {forest children : List (Tree ν)} {tree : Tree ν} {root : ν}

mutual
theorem mem_of_walkTree {phase : Phase} {node : ν} (last : Bool) (tree : Tree ν)
    (h : .write phase node ∈ walkTree last tree) : node ∈ treeNodes tree := by
  match tree with
  | .node root children =>
    have hopening : Step.write phase node ∈ (if last && children.isEmpty && kind root == .comment
        then [] else [Step.write .opening root]) → node = root := by
      split <;> simp
    have hwalk : ∀ chosen, .write phase node ∈ walk chosen last children → node ∈ nodes children :=
      fun chosen hmem => mem_of_walk chosen last children hmem
    rw [treeNodes, List.mem_cons]
    rw [walkTree] at h
    split at h
    · simp only [List.mem_append, List.mem_singleton, reduceCtorEq, or_false] at h
      rcases h with ((h | h) | h) | h
      · exact .inl (hopening h)
      · exact .inr (hwalk _ h)
      · cases h
        exact .inl rfl
      · exact .inr (hwalk _ h)
    · simp only [List.mem_append, List.mem_singleton] at h
      rcases h with (h | h) | h
      · exact .inl (hopening h)
      · exact .inr (hwalk _ h)
      · cases h
        exact .inl rfl

theorem mem_of_walk {phase : Phase} {node : ν} (chosen : ν → Bool) (last : Bool)
    (forest : List (Tree ν)) (h : .write phase node ∈ walk chosen last forest) :
    node ∈ nodes forest := by
  match forest with
  | [] => cases h
  | tree :: rest =>
    rw [walk, List.mem_append] at h
    rw [nodes, List.mem_append]
    rcases h with h | h
    · split at h
      · exact .inl (mem_of_walkTree _ tree h)
      · cases h
    · exact .inr (mem_of_walk chosen last rest h)
end

/-- Only the last tree of a forest can reach the end of the design. -/
theorem walk_append (chosen : ν → Bool) (last : Bool) (front : List (Tree ν))
    {back : List (Tree ν)} (h : back ≠ []) :
    walk chosen last (front ++ back) = walk chosen false front ++ walk chosen last back := by
  induction front with
  | nil => rfl
  | cons first rest ih =>
    have hmore : (rest ++ back).isEmpty = false :=
      List.isEmpty_eq_false_iff.2 (List.append_ne_nil_of_right_ne_nil _ h)
    rw [List.cons_append, walk, walk, ih, hmore, Bool.and_false, Bool.false_and, List.append_assoc]

theorem walk_split (chosen : ν → Bool) (last : Bool) (front : List (Tree ν)) (tree : Tree ν)
    (back : List (Tree ν)) (h : chosen tree.root = true) :
    walk chosen last (front ++ tree :: back) =
      walk chosen false front ++ walkTree (last && back.isEmpty) tree ++ walk chosen last back := by
  rw [walk_append chosen last front (List.cons_ne_nil _ _), walk, if_pos h, List.append_assoc]

theorem walk_part (chosen : ν → Bool) (last : Bool) (h : tree ∈ forest)
    (hchosen : chosen tree.root = true) :
    ∃ before behind last', walk chosen last forest = before ++ walkTree last' tree ++ behind ∧
      (last' = true → last = true ∧ ∃ front, forest = front ++ [tree]) := by
  obtain ⟨front, back, rfl⟩ := List.append_of_mem h
  refine ⟨_, _, _, walk_split chosen last front tree back hchosen, fun hlast => ?_⟩
  rw [Bool.and_eq_true, List.isEmpty_iff] at hlast
  exact ⟨hlast.1, front, by rw [hlast.2]⟩

/-- The structure of a child lies within that of its parent. -/
theorem walkTree_inside (last : Bool) (h : tree ∈ children)
    (hmethod : ¬ (kind root = .widgetClass ∧ kind tree.root = .function)) :
    ∃ before behind rest last', walkTree last (.node root children) =
        .write .opening root :: (before ++ walkTree last' tree ++ behind) ++
          .write .closing root :: rest ∧
      (last' = true → last = true ∧ ∃ front, children = front ++ [tree]) := by
  have hopening : (last && children.isEmpty && kind root == .comment) = false := by
    rw [List.isEmpty_eq_false_iff.2 (List.ne_nil_of_mem h), Bool.and_false, Bool.false_and]
  rw [walkTree, hopening]
  by_cases hclass : kind root = .widgetClass
  · obtain ⟨before, behind, last', hwalk, hend⟩ := walk_part
      (fun n => !(kind n == .function)) last h (by simpa [hclass] using hmethod)
    refine ⟨before, behind, walk (fun n => kind n == .function) last children ++ [.endClass], last',
      ?_, hend⟩
    rw [if_pos (by simpa using hclass), hwalk]
    simp
  · obtain ⟨before, behind, last', hwalk, hend⟩ := walk_part (fun _ => true) last h rfl
    refine ⟨before, behind, [], last', ?_, hend⟩
    rw [if_neg (by simpa using hclass), hwalk]
    simp

/-- The structure of a function in a class lies behind the closing code of the class and behind the
functions in front of it. -/
theorem walkTree_method (last : Bool) (front : List (Tree ν)) (back : List (Tree ν))
    (hclass : kind root = .widgetClass) (hfunction : kind tree.root = .function) :
    walkTree last (.node root (front ++ tree :: back)) =
      .write .opening root :: (walk (fun n => !(kind n == .function)) last (front ++ tree :: back) ++
        .write .closing root :: walk (fun n => kind n == .function) false front) ++
        walkTree (last && back.isEmpty) tree ++
        walk (fun n => kind n == .function) last back ++ [.endClass] := by
  have hopening : (last && (front ++ tree :: back).isEmpty && kind root == .comment) = false := by
    rw [List.isEmpty_eq_false_iff.2 (by simp), Bool.and_false, Bool.false_and]
  rw [walkTree, hopening, if_pos (by simpa using hclass),
    walk_split (fun n => kind n == .function) last front tree back (by simpa using hfunction)]
  simp

theorem walkTree_child (root : ν) (last : Bool) (h : tree ∈ children) :
    ∃ before behind last', walkTree last (.node root children) =
        before ++ walkTree last' tree ++ behind ∧
      (last' = true → last = true ∧ ∃ front, children = front ++ [tree]) := by
  by_cases hmethod : kind root = .widgetClass ∧ kind tree.root = .function
  · obtain ⟨front, back, rfl⟩ := List.append_of_mem h
    refine ⟨_, walk (fun n => kind n == .function) last back ++ [.endClass], last && back.isEmpty,
      (walkTree_method last front back hmethod.1 hmethod.2).trans (List.append_assoc ..), ?_⟩
    intro hlast
    rw [Bool.and_eq_true, List.isEmpty_iff] at hlast
    exact ⟨hlast.1, front, by rw [hlast.2]⟩
  · obtain ⟨before, behind, rest, last', hwalk, hend⟩ := walkTree_inside last h hmethod
    exact ⟨.write .opening root :: before, behind ++ .write .closing root :: rest, last',
      by rw [hwalk]; simp, hend⟩

theorem walkRoots_part (h : tree ∈ forest) :
    ∃ before behind last, walkRoots forest = before ++ walkTree last tree ++ behind ∧
      (last = true → ∃ front, forest = front ++ [tree]) := by
  induction forest with
  | nil => cases h
  | cons first rest ih =>
    rw [walkRoots]
    rcases List.mem_cons.1 h with rfl | h
    · refine ⟨_, walkRoots rest, rest.isEmpty, rfl, fun hlast => ⟨[], ?_⟩⟩
      rw [List.isEmpty_iff.1 hlast]
      rfl
    · obtain ⟨before, behind, last, hwalk, hend⟩ := ih h
      refine ⟨(treeNodes first).map (.write .setup) ++ walkTree rest.isEmpty first ++ before,
        behind, last, by rw [hwalk]; simp only [List.append_assoc], ?_⟩
      intro hlast
      obtain ⟨front, rfl⟩ := hend hlast
      exact ⟨first :: front, rfl⟩

/-- The structure of every subtree is a part of the steps. It counts as the last one only if its
nodes end the design. -/
theorem Subtree.part (h : Subtree forest tree) :
    ∃ before behind last, walkRoots forest = before ++ walkTree last tree ++ behind ∧
      (last = true → treeNodes tree <:+ nodes forest) := by
  have hend : ∀ (front : List (Tree ν)) (last : Tree ν),
      treeNodes last <:+ nodes (front ++ [last]) := by
    intro front last
    rw [nodes_append, nodes, nodes, List.append_nil]
    exact List.suffix_append _ _
  -- Down a path from the top: a child that is the last of all is the last child of such a node.
  induction h with
  | top htop =>
    obtain ⟨before, behind, last, hwalk, hlast⟩ := walkRoots_part htop
    refine ⟨before, behind, last, hwalk, fun h => ?_⟩
    obtain ⟨front, rfl⟩ := hlast h
    exact hend front _
  | @child root children tree _ hchild ih =>
    obtain ⟨before, behind, last, hwalk, hlast⟩ := ih
    obtain ⟨before', behind', last', hinner, hlast'⟩ := walkTree_child root last hchild
    refine ⟨before ++ before', behind' ++ behind, last',
      by rw [hwalk, hinner]; simp only [List.append_assoc], fun h => ?_⟩
    obtain ⟨hparent, front, rfl⟩ := hlast' h
    refine (hend front tree).trans (List.IsSuffix.trans ?_ (hlast hparent))
    exact List.suffix_cons root _

theorem plan_part {nodes : List ν} (h : Subtree (ofNodes (members nodes)) tree) :
    ∃ before behind last, FormWeave.plan nodes = before ++ walkTree last tree ++ behind ∧
      (last = true → treeNodes tree <:+ members nodes) := by
  obtain ⟨before, behind, last, hwalk, hlast⟩ := h.part
  rw [nodes_ofNodes] at hlast
  refine ⟨(leading nodes).map (.write .framing) ++ .prologue :: before,
    behind ++ .endGuard :: (trailing (members nodes)).map (.write .framing), last, ?_, hlast⟩
  rw [Plan.plan_eq_forest, plan, hwalk]
  simp only [List.append_assoc, List.cons_append]

/-! ## 4. The order of setup code -/

variable {node : ν}

theorem mem_members {nodes : List ν} (h : node ∈ nodes) (hkind : kind node ≠ .comment) :
    node ∈ members nodes := by
  rw [← leading_append_members nodes, List.mem_append] at h
  exact h.resolve_left fun hlead => hkind (kind_of_mem_leading hlead)

theorem mem_of_plan {nodes : List ν} {phase : Phase} (h : .write phase node ∈ FormWeave.plan nodes) :
    node ∈ nodes := by
  let Writes (step : Step ν) : Prop := ∀ phase node, step = .write phase node → node ∈ nodes
  have hwrite : ∀ other ∈ nodes, ∀ phase, Writes (.write phase other) := by
    intro other hother phase phase' node heq
    cases heq
    exact hother
  exact Plan.forall_plan (P := Writes) nofun nofun nofun nodes (fun other hother phase _ =>
    hwrite other hother phase) (fun other hother _ => hwrite other hother .framing) _ h phase node rfl

/-- The setup code of a node is written before all other code of the node. -/
theorem walkRoots_setup {forest : List (Tree ν)} (hnodup : (nodes forest).Nodup)
    (h : node ∈ nodes forest) :
    ∃ before behind, walkRoots forest = before ++ .write .setup node :: behind ∧
      ∀ phase, .write phase node ∉ before := by
  induction forest with
  | nil => cases h
  | cons tree rest ih =>
    rw [nodes, List.nodup_append] at hnodup
    obtain ⟨htree, hrest, hdisjoint⟩ := hnodup
    by_cases hmem : node ∈ treeNodes tree
    · obtain ⟨front, back, hsplit⟩ := List.append_of_mem hmem
      refine ⟨front.map (.write .setup), back.map (.write .setup) ++ walkTree rest.isEmpty tree ++
        walkRoots rest, by rw [walkRoots, hsplit]; simp, fun phase hfront => ?_⟩
      obtain ⟨other, hother, heq⟩ := List.mem_map.1 hfront
      cases heq
      rw [hsplit, List.nodup_middle, List.nodup_cons] at htree
      exact htree.1 (List.mem_append_left _ hother)
    · rw [nodes, List.mem_append] at h
      obtain ⟨before, behind, hwalk, hbefore⟩ := ih hrest (h.resolve_left hmem)
      refine ⟨(treeNodes tree).map (.write .setup) ++ walkTree rest.isEmpty tree ++ before, behind,
        by rw [walkRoots, hwalk]; simp only [List.append_assoc], fun phase hfront => ?_⟩
      rcases List.mem_append.1 hfront with hfront | hfront
      · refine hmem ((List.mem_append.1 hfront).elim (fun hsetup => ?_) fun hwalk => ?_)
        · obtain ⟨other, hother, heq⟩ := List.mem_map.1 hsetup
          cases heq
          exact hother
        · exact mem_of_walkTree _ tree hwalk
      · exact hbefore phase hfront

/-- The steps of a run hold the setup code of a node once, in front of its other code. -/
theorem plan_setup {nodes : List ν} (hnodup : nodes.Nodup) (h : node ∈ members nodes) :
    ∃ before behind, FormWeave.plan nodes = before ++ .write .setup node :: behind ∧
      (∀ phase, .write phase node ∉ before) ∧ .write .setup node ∉ behind := by
  have hsplit := hnodup
  rw [← leading_append_members nodes, List.nodup_append] at hsplit
  obtain ⟨-, hmembers, hdisjoint⟩ := hsplit
  obtain ⟨before, behind, hwalk, hbefore⟩ : ∃ before behind, walkRoots (ofNodes (members nodes)) =
      before ++ .write .setup node :: behind ∧ ∀ phase, .write phase node ∉ before :=
    walkRoots_setup (by rw [nodes_ofNodes]; exact hmembers) (by rw [nodes_ofNodes]; exact h)
  have hplan : FormWeave.plan nodes = ((leading nodes).map (.write .framing) ++
      .prologue :: before) ++ .write .setup node ::
        (behind ++ .endGuard :: (trailing (members nodes)).map (.write .framing)) := by
    rw [Plan.plan_eq_forest, plan, hwalk]
    simp
  refine ⟨_, _, hplan, fun phase hfront => ?_, fun hbehind => ?_⟩
  · rcases List.mem_append.1 hfront with hfront | hfront
    · obtain ⟨other, hother, heq⟩ := List.mem_map.1 hfront
      cases heq
      exact hdisjoint node hother node h rfl
    · rcases List.mem_cons.1 hfront with heq | hfront
      · cases heq
      · exact hbefore phase hfront
  · -- A second time would be one more than there are in the design.
    have honce := (writtenOnce_plan nodes).setup
    rw [← Plan.plan_eq_forest, hplan, Plan.writers_append, Plan.writers_cons_write] at honce
    rw [← honce, List.nodup_middle, List.nodup_cons, List.mem_append] at hmembers
    have hwrites : Plan.writes? .setup (.write .setup node : Step ν) = some node := rfl
    exact hmembers.1 (.inr (List.mem_filterMap.2 ⟨_, hbehind, hwrites⟩))

end Forest

end FormWeave
