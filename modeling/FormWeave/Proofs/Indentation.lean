import FormWeave.Proofs.DesignIds
import FormWeave.Proofs.Pieces
import FormWeave.Proofs.Subtrees

/-!
# The level of indentation

Blocks and widgets go back to the level they started at, but functions and classes end at level 0
wherever they stand. So a tree without functions and classes is balanced, and any other tree ends at
a level that has nothing to do with where it started.
-/

namespace FormWeave

open DesignNode (kind)

/-! ## 1. Where a tree ends -/

/-- Kinds whose code puts the indentation to a level of its own. -/
def NodeKind.absolute : NodeKind → Bool
  | function | widgetClass => true
  | comment | code | codeBlock | declaration | widget | menuItem | data => false

/-- Kinds whose code indents their children by one level more. -/
def NodeKind.relative : NodeKind → Bool
  | codeBlock | widget => true
  | comment | code | declaration | function | widgetClass | menuItem | data => false

namespace Forest

variable {ν : Type} [DesignNode ν]

mutual
/-- The level at which the structure of a tree ends, if that does not depend on the one at which it
starts. -/
def treeLevel? : Tree ν → Option Int32
  | .node root children =>
    if (kind root).absolute then some 0
    else if (kind root).relative then (forestLevel? children).map (· - 1)
    else forestLevel? children

def forestLevel? : List (Tree ν) → Option Int32
  | [] => none
  | tree :: rest => (forestLevel? rest).or (treeLevel? tree)
end

mutual
theorem treeLevel?_eq_none (tree : Tree ν) :
    treeLevel? tree = none ↔ ∀ node ∈ treeNodes tree, (kind node).absolute = false := by
  match tree with
  | .node root children =>
    have hchildren := forestLevel?_eq_none children
    rw [treeLevel?, treeNodes, List.forall_mem_cons]
    by_cases habsolute : (kind root).absolute = true
    · simp [habsolute]
    · rw [if_neg habsolute]
      simp only [Bool.not_eq_true] at habsolute
      split
      · simp [hchildren, habsolute]
      · simp [hchildren, habsolute]

theorem forestLevel?_eq_none (forest : List (Tree ν)) :
    forestLevel? forest = none ↔ ∀ node ∈ nodes forest, (kind node).absolute = false := by
  match forest with
  | [] => simp [forestLevel?, nodes]
  | tree :: rest =>
    have htree := treeLevel?_eq_none tree
    have hrest := forestLevel?_eq_none rest
    rw [forestLevel?, nodes, List.forall_mem_append, Option.or_eq_none_iff, htree, hrest]
    exact and_comm
end

/-- No function or class stands below a block or a widget. -/
def Outermost (forest : List (Tree ν)) : Prop :=
  ∀ root children, Subtree forest (.node root children) → (kind root).relative = true →
    ∀ node ∈ nodes children, (kind node).absolute = false

mutual
theorem treeLevel?_getD {tree : Tree ν} (h : Outermost [tree]) : (treeLevel? tree).getD 0 = 0 := by
  match tree with
  | .node root children =>
    have hroot : Subtree [.node root children] (.node root children) :=
      .top (List.mem_singleton_self _)
    have hchildren := forestLevel?_getD fun inner below hinner =>
      h inner below (hinner.mono fun top htop => hroot.child htop)
    rw [treeLevel?]
    split
    · rfl
    split
    · next hrelative =>
      rw [(forestLevel?_eq_none children).2 (h root children hroot hrelative)]
      rfl
    · exact hchildren

theorem forestLevel?_getD {forest : List (Tree ν)} (h : Outermost forest) :
    (forestLevel? forest).getD 0 = 0 := by
  match forest with
  | [] => rfl
  | tree :: rest =>
    have htree : (treeLevel? tree).getD 0 = 0 := treeLevel?_getD fun root below hsub =>
      h root below (hsub.mono fun top htop => .top (by simp_all))
    have hrest : (forestLevel? rest).getD 0 = 0 := forestLevel?_getD fun root below hsub =>
      h root below (hsub.mono fun top htop => .top (List.mem_cons_of_mem _ htop))
    rw [forestLevel?]
    cases hlevel : forestLevel? rest with
    | none => exact htree
    | some level =>
      rw [hlevel] at hrest
      exact hrest
end

end Forest

namespace Generation

open Emit

/-! ## 2. What steps do to the indentation -/

def stepShift : Step Node → Int32 → Int32
  | .write phase node, depth => Node.shift node.kind phase depth
  | .prologue, depth | .endClass, depth | .endGuard, depth => depth

def levelBehind (depth : Int32) (steps : List (Step Node)) : Int32 :=
  steps.foldl (fun depth step => stepShift step depth) depth

theorem levelBehind_append (depth : Int32) (front back : List (Step Node)) :
    levelBehind depth (front ++ back) = levelBehind (levelBehind depth front) back :=
  List.foldl_append

theorem indentation_opening (node : Node) (w : Writer) :
    (Node.writeOpening node w).2.indentation = Node.shift node.kind .opening w.indentation := by
  by_cases hclass : node.kind = .widgetClass
  · rw [hclass]
    cases hbody : node.body with
    | widgetClass name base =>
      obtain ⟨front, hhead⟩ := w.kept_writeHeader (Node.silent_classHead name base)
      obtain ⟨w', back, hrun, -, hlevel, -⟩ := node.run_classOpening hbody hhead
      rw [hrun]
      exact hlevel
    | _ => rw [Node.kind, hbody] at hclass; cases hclass
  · obtain ⟨_, w', chunks, hrun, hmoved⟩ := node.moves_writeOpening hclass w
    rw [hrun]
    exact hmoved.indentation

theorem indentation_step (names : HeaderNames) (step : Step Node) (w : Writer) :
    (stepCode names step w).2.indentation = stepShift step w.indentation := by
  have hmoves : ∀ {shift : Int32 → Int32} {emit : Emit Unit}, emit.Moves shift →
      (emit w).2.indentation = shift w.indentation := by
    intro shift emit h
    obtain ⟨_, w', chunks, hrun, hmoved⟩ := h w
    rw [hrun]
    exact hmoved.indentation
  cases step with
  | write phase node =>
    cases phase with
    | setup => exact hmoves node.keeps_writeSetup
    | opening => exact indentation_opening node w
    | closing => exact hmoves node.moves_writeClosing
    | framing => exact indentation_opening node w
  | prologue => exact hmoves (Prologue.keeps_write _ _)
  | endClass =>
    obtain ⟨chunks, hkept⟩ := w.kept_writeHeader (show Silent "\x7d;\n" by decide)
    exact hkept.indentation
  | endGuard => exact hmoves (keeps_header (by decide))

theorem indentation_advance (names : HeaderNames) (w : Writer) (steps : List (Step Node)) :
    (advance names w steps).indentation = levelBehind w.indentation steps := by
  induction steps generalizing w with
  | nil => rfl
  | cons step rest ih =>
    rw [advance_cons, ih, indentation_step]
    rfl

/-! ## 3. The levels of a run -/

theorem levelBehind_setup (depth : Int32) (nodes : List Node) :
    levelBehind depth (nodes.map (.write .setup)) = depth := by
  induction nodes with
  | nil => rfl
  | cons node rest ih => exact ih

/-- A function ends at level 0. -/
theorem levelBehind_function (depth : Int32) (last : Bool) (root : Node)
    (children : List (Tree Node)) (h : root.kind = .function) :
    levelBehind depth (Forest.walkTree last (.node root children)) = 0 := by
  have hclass : ¬ (kind root == .widgetClass) = true := by
    rw [show kind root = .function from h]
    decide
  have hclosing : ∀ depth, levelBehind depth [.write .closing root] = 0 := by
    intro depth
    show Node.shift root.kind .closing depth = 0
    rw [h]
    rfl
  rw [Forest.walkTree, if_neg hclass, levelBehind_append, hclosing]

theorem levelBehind_functions (last : Bool) (forest : List (Tree Node)) :
    levelBehind 0 (Forest.walk (fun n => kind n == .function) last forest) = 0 := by
  induction forest with
  | nil => rfl
  | cons tree rest ih =>
    rw [Forest.walk, levelBehind_append]
    split
    · next hfunction =>
      cases tree with
      | node root children =>
        rw [levelBehind_function _ _ root _ (beq_iff_eq.1 hfunction)]
        exact ih
    · exact ih

mutual
theorem levelBehind_walkTree (depth : Int32) (last : Bool) (tree : Tree Node) :
    levelBehind depth (Forest.walkTree last tree) = (Forest.treeLevel? tree).getD depth := by
  match tree with
  | .node root children =>
    -- A comment does not indent, so it makes no difference whether its opening code is left out.
    have hopening : levelBehind depth (if last && children.isEmpty && root.kind == .comment then []
        else [.write .opening root]) = Node.shift root.kind .opening depth := by
      split
      · next hlate =>
        have hcomment : root.kind = .comment :=
          beq_iff_eq.1 (Bool.and_eq_true_iff.1 hlate).2
        rw [hcomment]
        rfl
      · rfl
    have hchildren := levelBehind_walk (Node.shift root.kind .opening depth) last children
    have hclosing : ∀ depth, levelBehind depth [.write .closing root] =
        Node.shift root.kind .closing depth := fun _ => rfl
    have hend : ∀ depth, levelBehind depth [.endClass] = depth := fun _ => rfl
    have hkind : kind root = root.kind := rfl
    rw [Forest.walkTree, Forest.treeLevel?, hkind]
    split
    · next hclass =>
      -- The closing code of a class goes to level 0, and the functions behind it stay there.
      rw [beq_iff_eq.1 hclass] at hclosing ⊢
      simp only [levelBehind_append, hclosing, Node.shift, levelBehind_functions, hend]
      rfl
    rw [levelBehind_append, levelBehind_append, hopening, hchildren, hclosing]
    cases hroot : root.kind with
    | widgetClass => simp_all
    | function => rfl
    | codeBlock | widget =>
      have hlevel : depth + 1 - 1 = depth := Int32.add_sub_cancel depth 1
      cases Forest.forestLevel? children with
      | none => exact hlevel
      | some level => rfl
    | comment | code | declaration | menuItem | data => rfl

theorem levelBehind_walk (depth : Int32) (last : Bool) (forest : List (Tree Node)) :
    levelBehind depth (Forest.walk (fun _ => true) last forest) =
      (Forest.forestLevel? forest).getD depth := by
  match forest with
  | [] => rfl
  | tree :: rest =>
    have htree := levelBehind_walkTree depth (last && rest.isEmpty) tree
    have hrest := levelBehind_walk
      (levelBehind depth (Forest.walkTree (last && rest.isEmpty) tree)) last rest
    rw [Forest.walk, if_pos rfl, levelBehind_append, hrest, htree, Forest.forestLevel?]
    cases Forest.forestLevel? rest <;> rfl
end

theorem walkRoots_split (front : List (Tree Node)) (tree : Tree Node) (back : List (Tree Node)) :
    ∃ before, Forest.walkRoots (front ++ tree :: back) = before ++
        ((Forest.treeNodes tree).map (.write .setup) ++ Forest.walkTree back.isEmpty tree) ++
        Forest.walkRoots back ∧
      ∀ depth, levelBehind depth before = (Forest.forestLevel? front).getD depth := by
  induction front with
  | nil => exact ⟨[], rfl, fun depth => rfl⟩
  | cons first rest ih =>
    obtain ⟨before, hwalk, hlevel⟩ := ih
    refine ⟨(Forest.treeNodes first).map (.write .setup) ++
      Forest.walkTree (rest ++ tree :: back).isEmpty first ++ before, ?_, fun depth => ?_⟩
    · rw [List.cons_append, Forest.walkRoots, hwalk]
      simp only [List.append_assoc]
    · rw [levelBehind_append, levelBehind_append, levelBehind_setup, levelBehind_walkTree, hlevel,
        Forest.forestLevel?]
      cases Forest.forestLevel? rest <;> rfl

theorem levelBehind_leading (nodes : List Node) :
    levelBehind 0 ((Forest.leading nodes).map (.write .framing)) = 0 := by
  rcases Forest.leading_cases nodes with ⟨hleading, -⟩ | ⟨node, rest, -, hcomment, hleading, -⟩
  · rw [hleading]
    rfl
  · rw [hleading]
    show Node.shift node.kind .framing 0 = 0
    rw [show node.kind = .comment from hcomment]
    rfl

variable (design : Design) (settings : Settings) (options : RunOptions)

/-- The structure of a tree ends at the level it started at, unless there are functions or classes in
it: then it ends at a level of its own. So the setup code of a top tree is at the level that the
last function or class in front of it leads to, which is 0 if none of these stands below a block or
a widget. -/
theorem run_levels {front back : List (Tree Node)} {tree : Tree Node}
    (h : Forest.ofNodes (Forest.members design.nodes) = front ++ tree :: back) :
    let level := (Forest.forestLevel? front).getD 0
    (∀ names w last (inner : Tree Node),
      (advance names w (Forest.walkTree last inner)).indentation =
        (Forest.treeLevel? inner).getD w.indentation) ∧
      (∃ before behind,
        plan design.nodes = before ++ ((Forest.treeNodes tree).map (.write .setup) ++
          Forest.walkTree back.isEmpty tree) ++ behind ∧
        ∀ nodes, nodes <+: Forest.treeNodes tree →
          (advance (configuredNames settings) (start settings options).reset
            (before ++ nodes.map (.write .setup))).indentation = level) ∧
      (∀ inner : Tree Node, Forest.treeLevel? inner = none ↔
        ∀ node ∈ Forest.treeNodes inner, node.kind.absolute = false) ∧
      (Forest.Outermost front → level = 0) := by
  intro level
  refine ⟨fun names w last inner => ?_, ?_, Forest.treeLevel?_eq_none, Forest.forestLevel?_getD⟩
  · rw [indentation_advance, levelBehind_walkTree]
  obtain ⟨before, hwalk, hlevel⟩ := walkRoots_split front tree back
  refine ⟨(Forest.leading design.nodes).map (.write .framing) ++ .prologue :: before,
    Forest.walkRoots back ++ .endGuard ::
      (Forest.trailing (Forest.members design.nodes)).map (.write .framing), ?_, ?_⟩
  · rw [Plan.plan_eq_forest, Forest.plan, h, hwalk]
    simp only [List.append_assoc, List.cons_append]
  · intro nodes _
    have hprologue : ∀ depth, levelBehind depth (.prologue :: before) = levelBehind depth before :=
      fun depth => rfl
    rw [indentation_advance, levelBehind_append, levelBehind_append, levelBehind_setup]
    show levelBehind (levelBehind 0 _) _ = level
    rw [levelBehind_leading, hprologue, hlevel]

def driftDesign : Design where
  nodes :=
    [{ id := ⟨1⟩, depth := 0, scope := .file, hasChildren := true, hasChildWidgets := false
       body := .codeBlock "namespace app" "", resource := none, labelNumber := 0
       tooltipNumber := 0 },
     { id := ⟨2⟩, depth := 1, scope := .inner, hasChildren := false, hasChildWidgets := false
       body := .function "run()" "void" .pub, resource := none, labelNumber := 0
       tooltipNumber := 0 },
     { id := ⟨3⟩, depth := 0, scope := .file, hasChildren := false, hasChildWidgets := false
       body := .widget "Fl_Button" none none none (some "quit();") none 0 0 10 10
       resource := none, labelNumber := 0, tooltipNumber := 0 }]

theorem forest_driftDesign : Forest.ofNodes (Forest.members driftDesign.nodes) =
    [.node driftDesign.nodes[0] [.node driftDesign.nodes[1] []]] ++
      .node driftDesign.nodes[2] [] :: [] := rfl

theorem run_levels_drift :
    Forest.ofNodes (Forest.members driftDesign.nodes) =
        [.node driftDesign.nodes[0] [.node driftDesign.nodes[1] []]] ++
          .node driftDesign.nodes[2] [] :: [] ∧
      ∃ before behind,
        plan driftDesign.nodes = before ++ ((Forest.treeNodes (.node driftDesign.nodes[2] [])).map
          (.write .setup) ++ Forest.walkTree true (.node driftDesign.nodes[2] [])) ++ behind ∧
        ∀ nodes, nodes <+: Forest.treeNodes (.node driftDesign.nodes[2] []) →
          (advance (configuredNames {}) (start {} {}).reset
            (before ++ nodes.map (.write .setup))).indentation = -1 :=
  ⟨forest_driftDesign, (run_levels driftDesign {} {} forest_driftDesign).2.1⟩

/-- Behind a function in a block, the code of a button starts one level below the outermost one, so
that the callback in its setup code is not indented. -/
theorem drift_behind_block :
    let before : List (Step Node) :=
      [.prologue, .write .setup driftDesign.nodes[0], .write .setup driftDesign.nodes[1],
        .write .opening driftDesign.nodes[0], .write .opening driftDesign.nodes[1],
        .write .closing driftDesign.nodes[1], .write .closing driftDesign.nodes[0]]
    plan driftDesign.nodes = before ++ [.write .setup driftDesign.nodes[2],
        .write .opening driftDesign.nodes[2], .write .closing driftDesign.nodes[2], .endGuard] ∧
      (advance (configuredNames {}) (start {} {}).reset before).indentation = -1 ∧
      (stepCode (configuredNames {}) (.write .setup driftDesign.nodes[2])
        (advance (configuredNames {}) (start {} {}).reset before)).2.untaggedSource =
        (advance (configuredNames {}) (start {} {}).reset before).untaggedSource ++
          utf8 "\nstatic void cb_(Fl_Button* o, void* v) \x7b\nquit();\n\x7d\n" := by
  refine ⟨Plan.plan_eq_forest _, ?_, ?_⟩
  · decide +kernel
  · decide +kernel

end Generation

end FormWeave
