import FormWeave.Proofs.Flattening
import FormWeave.Proofs.Pieces

/-!
# The class of a method

Functions in a class are written behind the other members, and what they are declared in is the
class that the writer is in by then. The end of any class leaves all classes, so a function is a
method of the class it stands in if and only if no other class was written since that one was
opened.
-/

namespace FormWeave

open DesignNode (kind)
open Emit

/-! ## 1. Heads of functions -/

/-- The access level in force behind what was written since the head of a class. -/
def accessInForce (chunks : List Chunk) : Visibility := (lastAccess chunks).getD .priv

theorem accessInForce_of_behind {owner : String} {chunks : List Chunk} {level : Visibility}
    (h : (ClassScope.behind ⟨owner, some .priv⟩ chunks).access = some level) :
    accessInForce chunks = level := by
  rw [ClassScope.behind] at h
  rw [accessInForce]
  cases hlast : lastAccess chunks with
  | none =>
    rw [hlast] at h
    exact Option.some.inj h
  | some last =>
    rw [hlast] at h
    exact Option.some.inj h

namespace Node

/-- The declaration of a method in the class and the head of its definition. -/
def methodHead (owner name returnType : String) : List Chunk :=
  [.header (utf8 (Writer.indentAt 1 ++ returnType ++ " " ++ name ++ ";\n")),
    .source (utf8 ("\n" ++ returnType ++ " " ++ owner ++ "::" ++ name ++ " \x7b\n"))]

def freeHead (name returnType : String) (visibility : Visibility) : List Chunk :=
  if visibility == .priv then [.source (utf8 ("\nstatic " ++ returnType ++ " " ++ name ++ " \x7b\n"))]
  else
    [.header (utf8 (returnType ++ " " ++ name ++ ";\n")),
      .source (utf8 ("\n" ++ returnType ++ " " ++ name ++ " \x7b\n"))]

def writtenType (returnType : String) : String := if returnType.isEmpty then "void" else returnType

variable {node : Node} {name returnType : String} {visibility : Visibility} {w : Writer}

theorem run_memberOf (h : node.scope = .member) (w : Writer) :
    memberOf node w = (.ok w.currentClass, w) := by
  unfold memberOf
  rw [h]
  rfl

/-- In a class, the declaration of a function stands under its access level. -/
theorem wrote_methodHead (hmember : node.scope = .member) (hlive : w.dryRun = false)
    {scope : ClassScope} (hscope : w.classScope = some scope) :
    ∃ w' front, writeFunctionHead node name returnType visibility w = (.ok (), w') ∧
      w.Wrote (front ++ methodHead scope.name name returnType) w' ∧
      (front = [] ∨ front = [.header (utf8 visibility.line)]) ∧
      (scope.behind front).access = some visibility := by
  obtain ⟨front, hkept, hfront, haccess⟩ := Writer.writeAccess_in_class hlive hscope visibility
  have hlive' := hkept.dryRun.trans hlive
  have hmemberOf : memberOf node w = (.ok (some scope.name), w) := by
    rw [run_memberOf hmember, Writer.currentClass, hscope]
    rfl
  refine ⟨_, front, bind_run hmemberOf, hkept.toWrote.trans ?_, hfront, haccess⟩
  have hheader := Writer.live_writeHeader hlive'
    (Writer.indentAt 1 ++ returnType ++ " " ++ name ++ ";\n")
  exact hheader.trans (Writer.live_writeSource (hheader.dryRun.trans hlive') _).toWrote

theorem wrote_freeHead (hnone : memberOf node w = (.ok none, w)) (hlive : w.dryRun = false) :
    ∃ w', writeFunctionHead node name returnType visibility w = (.ok (), w') ∧
      w.Wrote (freeHead name returnType visibility) w' := by
  unfold freeHead
  cases visibility with
  | priv => exact ⟨_, bind_run hnone, (Writer.live_writeSource hlive _).toWrote⟩
  | pub | prot =>
    have hheader := Writer.live_writeHeader hlive (returnType ++ " " ++ name ++ ";\n")
    exact ⟨_, bind_run hnone,
      hheader.trans (Writer.live_writeSource (hheader.dryRun.trans hlive) _).toWrote⟩

/-- The opening code of a function is its head, and a tag if blocks are tagged. -/
theorem wrote_functionOpening (hbody : node.body = .function name returnType visibility)
    {head : List Chunk} {w' : Writer}
    (hrun : writeFunctionHead node name (writtenType returnType) visibility w = (.ok (), w'))
    (hhead : w.Wrote head w') :
    ∃ tags : List Tag, w.Wrote (head ++ tags.map .tag) (writeOpening node w).2 := by
  obtain ⟨tags, htags⟩ := w'.kept_writeTag .generic node.id
  have hopening : writeOpening node w =
      (.ok (), (w'.writeTag .generic node.id).setIndentation 1) := by
    unfold writeOpening
    rw [hbody]
    exact bind_run hrun
  refine ⟨tags, hhead.trans ?_⟩
  rw [hopening]
  exact ⟨htags.settings, htags.preview, htags.dryRun, htags.identifiers, htags.output⟩

/-- What the opening code of a function in a class is while a class is being declared. -/
theorem wrote_method (hbody : node.body = .function name returnType visibility)
    (hmember : node.scope = .member) (hlive : w.dryRun = false) {scope : ClassScope}
    (hscope : w.classScope = some scope) :
    ∃ front, ∃ tags : List Tag, w.Wrote (front ++
        methodHead scope.name name (writtenType returnType) ++ tags.map .tag)
          (writeOpening node w).2 ∧
      (front = [] ∨ front = [.header (utf8 visibility.line)]) ∧
      (scope.behind front).access = some visibility := by
  obtain ⟨w', front, hrun, hhead, hfront, haccess⟩ := wrote_methodHead hmember hlive hscope
  obtain ⟨tags, hwrote⟩ := wrote_functionOpening hbody hrun hhead
  exact ⟨front, tags, hwrote, hfront, haccess⟩

/-- What the opening code of a function in a class is while no class is being declared. -/
theorem wrote_freeFunction (hbody : node.body = .function name returnType visibility)
    (hmember : node.scope = .member) (hlive : w.dryRun = false) (hscope : w.classScope = none) :
    ∃ tags : List Tag, w.Wrote (freeHead name (writtenType returnType) visibility ++ tags.map .tag)
      (writeOpening node w).2 := by
  have hnone : memberOf node w = (.ok none, w) := by
    rw [run_memberOf hmember, Writer.currentClass, hscope]
    rfl
  obtain ⟨w', hrun, hhead⟩ := wrote_freeHead hnone hlive
  exact wrote_functionOpening hbody hrun hhead

/-- The opening code of a class starts with its head and leaves the class being declared. -/
theorem wrote_classOpening {base : String} (hbody : node.body = .widgetClass name base)
    (hlive : w.dryRun = false) :
    ∃ back, w.Wrote (.header (utf8 (classHead name base)) :: back) (writeOpening node w).2 ∧
      (writeOpening node w).2.classScope =
        some (ClassScope.behind ⟨name, some .priv⟩ (.header (utf8 (classHead name base)) :: back)) := by
  have hsilent := silent_classHead name base
  obtain ⟨w', back, hrun, hwrote, -, hscope⟩ :=
    node.run_classOpening hbody (Writer.live_writeHeader_silent hlive hsilent)
  refine ⟨back, by rw [hrun]; exact hwrote, ?_⟩
  rw [hrun, ← List.singleton_append, ClassScope.behind_append,
    ClassScope.behind_silent (lastAccess_silent hsilent)]
  exact hscope

end Node

namespace Generation

/-! ## 2. The class being declared -/

variable (names : HeaderNames)

def opensClass : Step Node → Bool
  | .write .opening node | .write .framing node => node.kind == .widgetClass
  | .write .setup _ | .write .closing _ | .prologue | .endClass | .endGuard => false

/-- Steps that end outside of classes if they open one, and otherwise within the class they started
in. -/
def Scoped (steps : List (Step Node)) : Prop :=
  ∀ w, (advance names w steps).classScope =
    if steps.any opensClass then none
    else w.classScope.map (·.behind ((pieces names w steps).flatMap Piece.chunks))

variable {names}

theorem Scoped.nil : Scoped names [] := by
  intro w
  have hid : (·.behind []) = (id : ClassScope → ClassScope) :=
    funext (ClassScope.behind_silent rfl)
  show w.classScope = w.classScope.map (·.behind [])
  rw [hid, Option.map_id]
  rfl

theorem Scoped.append {front back : List (Step Node)} (hfront : Scoped names front)
    (hback : Scoped names back) : Scoped names (front ++ back) := by
  intro w
  rw [advance_append, hback, hfront, pieces_append, List.flatMap_append, List.any_append]
  cases front.any opensClass with
  | true => simp
  | false =>
    cases back.any opensClass with
    | true => rfl
    | false =>
      simp only [Bool.or_false, Bool.false_eq_true, if_false, Option.map_map]
      congr 1
      funext scope
      exact (scope.behind_append _ _).symm

theorem scoped_write {phase : Phase} {node : Node} (h : opensClass (.write phase node) = false) :
    Scoped names [.write phase node] := by
  intro w
  have hclass : node.kind = .widgetClass → phase = .setup ∨ phase = .closing := by
    intro hkind
    cases phase with
    | setup => exact .inl rfl
    | closing => exact .inr rfl
    | opening | framing => simp [opensClass, hkind] at h
  obtain ⟨_, w', chunks, hrun, hmoved⟩ := node.moves_writeNode phase hclass w
  have hstep : (stepCode names (.write phase node) w).2 = w' := congrArg Prod.snd hrun
  rw [pieces_cons names (by rw [hstep]; exact hmoved.toWrote), advance_cons, hstep]
  simpa [h, pieces, advance] using hmoved.classScope

/-- The end of a class leaves all classes. -/
theorem scoped_endClass {steps : List (Step Node)} (h : steps.any opensClass = true) :
    Scoped names (steps ++ [.endClass]) := by
  intro w
  rw [advance_append, List.any_append, h, Bool.true_or, if_pos rfl]
  rfl

mutual
theorem scoped_walkTree (last : Bool) (tree : Tree Node) :
    Scoped names (Forest.walkTree last tree) := by
  match tree with
  | .node root children =>
    rw [Forest.walkTree]
    -- A class is left at its end, whatever stands in it; any other node stays where its children do.
    by_cases hclass : root.kind = .widgetClass
    · have hopening : (if last && children.isEmpty && kind root == .comment then []
          else [Step.write .opening root]) = [.write .opening root] := by
        rw [show kind root = .widgetClass from hclass]
        simp
      rw [if_pos (by rw [show kind root = .widgetClass from hclass]; rfl), hopening]
      exact scoped_endClass (by simp [opensClass, hclass])
    · have hopening : Scoped names (if last && children.isEmpty && kind root == .comment then []
          else [.write .opening root]) := by
        split
        · exact .nil
        · exact scoped_write (by simpa [opensClass] using hclass)
      rw [if_neg (by rw [beq_iff_eq]; exact hclass)]
      exact (hopening.append (scoped_walk _ last children)).append (scoped_write rfl)

theorem scoped_walk (chosen : Node → Bool) (last : Bool) (forest : List (Tree Node)) :
    Scoped names (Forest.walk chosen last forest) := by
  match forest with
  | [] => exact .nil
  | tree :: rest =>
    have htree := scoped_walkTree (last && rest.isEmpty) tree
    have hrest := scoped_walk chosen last rest
    rw [Forest.walk]
    split
    · exact htree.append hrest
    · exact hrest
end

/-- Where no class stands, none is opened. -/
theorem not_opensClass_walk {forest : List (Tree Node)}
    (h : ∀ node ∈ Forest.nodes forest, node.kind ≠ .widgetClass) (chosen : Node → Bool)
    (last : Bool) : ∀ step ∈ Forest.walk chosen last forest, opensClass step = false := by
  intro step hstep
  cases step with
  | write phase node =>
    have hkind := h node (Forest.mem_of_walk chosen last forest hstep)
    cases phase <;> simp [opensClass, hkind]
  | prologue | endClass | endGuard => rfl

/-! ## 3. Methods -/

theorem wrote_endClass (names : HeaderNames) {w : Writer} (hlive : w.dryRun = false) :
    w.Wrote [.header (utf8 "\x7d;\n")] (stepCode names .endClass w).2 := by
  have hheader := Writer.live_writeHeader hlive "\x7d;\n"
  exact ⟨hheader.settings, hheader.preview, hheader.dryRun, hheader.identifiers, hheader.output⟩

/-- The steps of a class from its head to its end, cut at a function in it. -/
theorem walkTree_around_method (last : Bool) {cls : Node} (front back : List (Tree Node))
    {tree : Tree Node} (hcls : cls.kind = .widgetClass) (hfunction : tree.root.kind = .function) :
    ∃ rest, Forest.walkTree last (.node cls (front ++ tree :: back)) = .write .opening cls ::
      (Forest.walk (fun n => !(kind n == .function)) last (front ++ tree :: back) ++
        .write .closing cls :: Forest.walk (fun n => kind n == .function) false front) ++
      .write .opening tree.root :: (rest ++ [.endClass]) := by
  have hopening : ∀ last, ∃ rest,
      Forest.walkTree last tree = .write .opening tree.root :: rest := by
    intro last
    cases tree with
    | node root children =>
      have hkind : kind root = .function := hfunction
      rw [Forest.walkTree, hkind]
      exact ⟨_, by simp [Tree.root]; rfl⟩
  obtain ⟨rest, hrest⟩ := hopening (last && back.isEmpty)
  refine ⟨rest ++ Forest.walk (fun n => kind n == .function) last back, ?_⟩
  rw [Forest.walkTree_method last front back hcls hfunction, hrest]
  simp only [List.append_assoc, List.cons_append]

variable {document : Document} {design : Design}

/-- What the opening code of a function is that is written some steps behind the head of its
class. -/
theorem wrote_method_behind {node : Node} {name returnType owner : String} {visibility : Visibility}
    (hbody : node.body = .function name returnType visibility) (hmember : node.scope = .member)
    {inside : List (Step Node)} (hinside : Scoped names inside) {w : Writer}
    (hlive : w.dryRun = false) {head : List Chunk}
    (hscope : w.classScope = some (ClassScope.behind ⟨owner, some .priv⟩ head)) :
    ∃ chunks, (advance names w inside).Wrote chunks
        (stepCode names (.write .opening node) (advance names w inside)).2 ∧
      (inside.any opensClass = false →
        ∃ front, ∃ tags : List Tag, chunks = front ++
            Node.methodHead owner name (Node.writtenType returnType) ++ tags.map .tag ∧
          (front = [] ∨ front = [.header (utf8 visibility.line)]) ∧
          accessInForce (head ++ (pieces names w inside).flatMap Piece.chunks ++ front) =
            visibility) ∧
      (inside.any opensClass = true →
        ∃ tags : List Tag, chunks =
          Node.freeHead name (Node.writtenType returnType) visibility ++ tags.map .tag) := by
  have hlive' := (wrote_advance names w inside).dryRun.trans hlive
  have hscope' := hinside w
  rw [hscope, Option.map_some, ← ClassScope.behind_append] at hscope'
  cases hopens : inside.any opensClass with
  | false =>
    rw [hopens, if_neg Bool.false_ne_true] at hscope'
    obtain ⟨front, tags, hwrote, hfront, haccess⟩ := Node.wrote_method hbody hmember hlive' hscope'
    rw [← ClassScope.behind_append] at haccess
    exact ⟨_, hwrote, fun _ => ⟨front, tags, rfl, hfront, accessInForce_of_behind haccess⟩, nofun⟩
  | true =>
    rw [hopens, if_pos rfl] at hscope'
    obtain ⟨tags, hwrote⟩ := Node.wrote_freeFunction hbody hmember hlive' hscope'
    exact ⟨_, hwrote, nofun, fun _ => ⟨tags, rfl⟩⟩

/-- A function in a class is written behind the head of the class and in front of its end. If no
other class was opened since the head, the function is declared in the class under its access level
and defined as a method of the class. If one was, it is written as a function outside of classes. -/
theorem methods_written (h : Design.ofDocument document = .ok design) (settings : Settings)
    (options : RunOptions) {cls : Node} {children : List (Tree Node)} {tree : Tree Node}
    {owner base name returnType : String} {visibility : Visibility}
    (hsub : Forest.Subtree (Forest.ofNodes design.nodes) (.node cls children))
    (hcls : cls.body = .widgetClass owner base) (htree : tree ∈ children)
    (hfunction : tree.root.body = .function name returnType visibility) :
    ∃ before head inside method rest final behind last,
      written design settings options =
        before ++ head :: (inside ++ method :: (rest ++ final :: behind)) ∧
      (head :: (inside ++ method :: (rest ++ [final]))).map Piece.step =
        Forest.walkTree last (.node cls children) ∧
      head.step = .write .opening cls ∧
      head.chunks.head? = some (.header (utf8 (Node.classHead owner base))) ∧
      method.step = .write .opening tree.root ∧
      final.step = .endClass ∧ final.chunks = [.header (utf8 "\x7d;\n")] ∧
      ((∀ piece ∈ inside, opensClass piece.step = false) →
        ∃ front, ∃ tags : List Tag, method.chunks = front ++
            Node.methodHead owner name (Node.writtenType returnType) ++ tags.map .tag ∧
          (front = [] ∨ front = [.header (utf8 visibility.line)]) ∧
          accessInForce (head.chunks ++ inside.flatMap Piece.chunks ++ front) = visibility) ∧
      ((∃ piece ∈ inside, opensClass piece.step = true) →
        ∃ tags : List Tag, method.chunks =
          Node.freeHead name (Node.writtenType returnType) visibility ++ tags.map .tag) ∧
      ((∀ node ∈ Forest.nodes children, node.kind ≠ .widgetClass) →
        ∀ piece ∈ inside, opensClass piece.step = false) := by
  obtain ⟨front, back, rfl⟩ := List.append_of_mem htree
  have hkind : cls.kind = .widgetClass := by rw [Node.kind, hcls]; rfl
  have hfun : tree.root.kind = .function := by rw [Node.kind, hfunction]; rfl
  have hmember : tree.root.scope = .member := by
    rw [Design.scope_of_child h hsub htree, hcls]
    rfl
  have hlead : cls ∉ Forest.leading design.nodes := by
    intro hmem
    have hcomment : cls.kind = .comment := Forest.kind_of_mem_leading hmem
    rw [hkind] at hcomment
    cases hcomment
  obtain ⟨before, behind, last, hplan, -⟩ := Forest.plan_part (Forest.subtree_members hsub hlead)
  obtain ⟨rest, hwalk⟩ := walkTree_around_method last front back hkind hfun
  generalize hinside : Forest.walk (fun n => !(kind n == .function)) last (front ++ tree :: back) ++
    .write .closing cls :: Forest.walk (fun n => kind n == .function) false front = inside at hwalk
  let names := configuredNames settings
  have hscoped : Scoped names inside := by
    rw [← hinside]
    exact (scoped_walk _ _ _).append ((scoped_write rfl).append (scoped_walk _ _ _))
  -- The writers in front of the class, behind its head and behind the head of the function.
  let w₀ := (start settings options).reset
  let w₁ := advance names w₀ before
  let w₂ := (stepCode names (.write .opening cls) w₁).2
  let w₃ := (stepCode names (.write .opening tree.root) (advance names w₂ inside)).2
  have hlive₁ : w₁.dryRun = false := (wrote_advance names w₀ before).dryRun
  obtain ⟨head, hhead, hscope₂⟩ := Node.wrote_classOpening hcls hlive₁
  have hlive₂ : w₂.dryRun = false := hhead.dryRun.trans hlive₁
  obtain ⟨chunks, hmethod, hwithin, hfree⟩ :=
    wrote_method_behind hfunction hmember hscoped hlive₂ hscope₂
  have hlive₃ : w₃.dryRun = false :=
    hmethod.dryRun.trans ((wrote_advance names w₂ inside).dryRun.trans hlive₂)
  have hfinal := wrote_endClass names ((wrote_advance names w₃ rest).dryRun.trans hlive₃)
  have hpieces : written design settings options = pieces names w₀ before ++
      ⟨.write .opening cls, .header (utf8 (Node.classHead owner base)) :: head⟩ ::
        (pieces names w₂ inside ++ ⟨.write .opening tree.root, chunks⟩ ::
          (pieces names w₃ rest ++ ⟨.endClass, [.header (utf8 "\x7d;\n")]⟩ ::
            pieces names (stepCode names .endClass (advance names w₃ rest)).2 behind)) := by
    have hsteps : plan design.nodes = before ++ .write .opening cls :: (inside ++
        .write .opening tree.root :: (rest ++ .endClass :: behind)) := by
      rw [hplan, hwalk]
      simp only [List.append_assoc, List.cons_append, List.nil_append]
    rw [written, hsteps, pieces_append, pieces_cons names hhead, pieces_append,
      pieces_cons names hmethod, pieces_append, pieces_cons names hfinal]
  have hany : ∀ value, (∀ piece ∈ pieces names w₂ inside, opensClass piece.step = value) ↔
      ∀ step ∈ inside, opensClass step = value := by
    intro value
    conv_rhs => rw [← map_step_pieces names w₂ inside]
    simp
  refine ⟨_, _, _, _, _, _, _, last, hpieces, ?_, rfl, rfl, rfl, rfl, rfl, fun hnone => ?_,
    fun hsome => ?_, fun hnone => (hany false).2 ?_⟩
  · rw [hwalk]
    simp [map_step_pieces]
  · refine hwithin (List.any_eq_false.2 fun step hstep => ?_)
    rw [(hany false).1 hnone step hstep]
    exact Bool.false_ne_true
  · obtain ⟨piece, hpiece, hopens⟩ := hsome
    refine hfree (List.any_eq_true.2 ⟨piece.step, ?_, hopens⟩)
    have := List.mem_map_of_mem (f := Piece.step) hpiece
    rwa [map_step_pieces] at this
  · intro step hstep
    have hfront : ∀ node ∈ Forest.nodes front, node.kind ≠ .widgetClass := fun node hnode =>
      hnone node (by rw [Forest.nodes_append]; exact List.mem_append_left _ hnode)
    rw [← hinside, List.mem_append, List.mem_cons] at hstep
    rcases hstep with hstep | rfl | hstep
    · exact not_opensClass_walk hnone _ _ step hstep
    · rfl
    · exact not_opensClass_walk hfront _ _ step hstep

def outerDocument (members : List Item) : Document where
  items := [.mk (some ⟨1⟩) (.widgetClass "Outer" "Fl_Group")
    (members ++ [.mk (some ⟨2⟩) (.function "draw()" "void" .pub) []])]

def outerNode : Node where
  id := ⟨1⟩
  depth := 0
  scope := .file
  hasChildren := true
  hasChildWidgets := false
  body := .widgetClass "Outer" "Fl_Group"
  resource := none
  labelNumber := 0
  tooltipNumber := 0

def drawNode : Node where
  id := ⟨2⟩
  depth := 1
  scope := .member
  hasChildren := false
  hasChildWidgets := false
  body := .function "draw()" "void" .pub
  resource := none
  labelNumber := 0
  tooltipNumber := 0

theorem ofDocument_outer : Design.ofDocument (outerDocument []) =
    .ok { nodes := [outerNode, drawNode] } :=
  Design.ofDocument_of_given [⟨1⟩, ⟨2⟩] #[outerNode, drawNode] rfl
    (by simp [Design.firstRepeated?]) (by decide) rfl

theorem methods_written_outer :
    Design.ofDocument (outerDocument []) = .ok { nodes := [outerNode, drawNode] } ∧
      ∃ before head inside method behind, ∃ tags : List Tag, ∃ front,
        written { nodes := [outerNode, drawNode] } {} {} =
          before ++ head :: (inside ++ method :: behind) ∧
        head.step = .write .opening outerNode ∧ method.step = .write .opening drawNode ∧
        method.chunks = front ++ Node.methodHead "Outer" "draw()" "void" ++ tags.map .tag ∧
        accessInForce (head.chunks ++ inside.flatMap Piece.chunks ++ front) = .pub := by
  have hforest : Forest.ofNodes [outerNode, drawNode] =
      [.node outerNode [.node drawNode []]] := rfl
  obtain ⟨before, head, inside, method, rest, final, behind, -, hwritten, -, hhead, -, hmethod, -, -,
    hwithin, -, hplain⟩ := methods_written ofDocument_outer {} {}
      (.top (hforest ▸ List.mem_singleton_self _)) rfl (List.mem_singleton_self _) rfl
  obtain ⟨front, tags, hchunks, -, haccess⟩ := hwithin (hplain (by decide))
  exact ⟨ofDocument_outer, before, head, inside, method, _, tags, front, hwritten, hhead, hmethod,
    hchunks, haccess⟩

def innerNode : Node where
  id := ⟨3⟩
  depth := 1
  scope := .member
  hasChildren := false
  hasChildWidgets := false
  body := .widgetClass "Inner" "Fl_Box"
  resource := none
  labelNumber := 0
  tooltipNumber := 0

/-- Behind a class in its class, a function is not a method of that class. -/
theorem free_behind_inner_class :
    let design : Design := { nodes := [outerNode, innerNode, drawNode] }
    Design.ofDocument (outerDocument [.mk (some ⟨3⟩) (.widgetClass "Inner" "Fl_Box") []]) =
        .ok design ∧
      (finalWriter design {} {}).source =
        utf8 ("// generated by formgen version 0.3.0\n\n#include \"design.h\"\n\n" ++
          "Outer::Outer(int X, int Y, int W, int H, const char *L)\n" ++
          "  : Fl_Group(X, Y, W, H, L) \x7b\n\n" ++
          "Inner::Inner(int X, int Y, int W, int H, const char *L)\n" ++
          "  : Fl_Box(X, Y, W, H, L) \x7b\n  end();\n\x7d\nend();\n\x7d\n\nvoid draw() \x7b\n\x7d\n") := by
  refine ⟨?_, ?_⟩
  · exact Design.ofDocument_of_given [⟨1⟩, ⟨3⟩, ⟨2⟩] #[outerNode, innerNode, drawNode] rfl
      (by simp [Design.firstRepeated?]) (by decide) rfl
  · have hplan : plan [outerNode, innerNode, drawNode] =
        Forest.plan [outerNode, innerNode, drawNode] := Plan.plan_eq_forest _
    unfold finalWriter runDesign run
    rw [hplan]
    decide +kernel

end Generation

end FormWeave
