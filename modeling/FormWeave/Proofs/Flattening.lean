import FormWeave.Proofs.DesignIds
import FormWeave.Proofs.Subtrees

/-!
# The design of a document is the document

A document is flattened when it is loaded. The forest that is read off the nodes is the forest of
the document again, and each node has the scope that its parent gives to its children and the
resource that its item refers to.
-/

namespace FormWeave.Design

open DesignNode (below)

/-! ## 1. Flat items as lists -/

mutual
def flatItem (depth : Nat) (scope : NodeScope) : Item → List FlatItem
  | .mk id body children =>
    { id? := id, depth, scope, body
      hasChildren := !children.isEmpty
      hasChildWidgets := children.any (·.body.kind == .widget) } ::
      flatItems (depth + 1) (body.childScope scope) children

def flatItems (depth : Nat) (scope : NodeScope) : List Item → List FlatItem
  | [] => []
  | item :: rest => flatItem depth scope item ++ flatItems depth scope rest
end

mutual
theorem toList_flattenItem (depth : Nat) (scope : NodeScope) (done : Array FlatItem)
    (item : Item) :
    (flattenItem depth scope done item).toList = done.toList ++ flatItem depth scope item := by
  match item with
  | .mk id body children =>
    rw [flattenItem, flatItem, toList_flattenItems, Array.toList_push, List.append_assoc,
      List.singleton_append]

theorem toList_flattenItems (depth : Nat) (scope : NodeScope) (done : Array FlatItem)
    (items : List Item) :
    (flattenItems depth scope done items).toList = done.toList ++ flatItems depth scope items := by
  match items with
  | [] => rw [flattenItems, flatItems, List.append_nil]
  | item :: rest =>
    rw [flattenItems, flatItems, toList_flattenItems, toList_flattenItem, List.append_assoc]
end

theorem flatten_eq (items : List Item) : flatten items = flatItems 0 .file items :=
  toList_flattenItems 0 .file #[] items

mutual
theorem le_depth_flatItem (depth : Nat) (scope : NodeScope) (item : Item) :
    ∀ flat ∈ flatItem depth scope item, depth ≤ flat.depth := by
  match item with
  | .mk id body children =>
    rw [flatItem, List.forall_mem_cons]
    exact ⟨Nat.le_refl _, fun flat hflat =>
      Nat.le_of_succ_le (le_depth_flatItems (depth + 1) _ children flat hflat)⟩

theorem le_depth_flatItems (depth : Nat) (scope : NodeScope) (items : List Item) :
    ∀ flat ∈ flatItems depth scope items, depth ≤ flat.depth := by
  match items with
  | [] => simp [flatItems]
  | item :: rest =>
    rw [flatItems, List.forall_mem_append]
    exact ⟨le_depth_flatItem depth scope item, le_depth_flatItems depth scope rest⟩
end

theorem head_flatItems (depth : Nat) (scope : NodeScope) (items : List Item) :
    ∀ flat, (flatItems depth scope items).head? = some flat → flat.depth = depth := by
  intro flat h
  cases items with
  | nil => cases h
  | cons item rest =>
    cases item
    cases h
    rfl

/-! ## 2. Nodes -/

structure Made (resources : ResourceTable) (item : FlatItem) (node : Node) : Prop where
  id : ∀ id, item.id? = some id → node.id = id
  depth : node.depth = item.depth
  scope : node.scope = item.scope
  body : node.body = item.body
  resource : node.resource = item.body.resourceName?.bind resources.find?

theorem made_number {resources : ResourceTable} {items : List FlatItem} :
    ∀ {free : List NodeId} {next : Nat} {done nodes : Array Node},
      number resources free next done items = .ok nodes →
      ∃ made, nodes.toList = done.toList ++ made ∧ List.Forall₂ (Made resources) items made := by
  induction items with
  | nil =>
    intro free next done nodes h
    cases h
    exact ⟨[], (List.append_nil _).symm, .nil⟩
  | cons item rest ih =>
    intro free next done nodes h
    -- Whichever id the item takes, the node is made of it.
    have hnode : ∀ (id : NodeId) (free : List NodeId), (∀ given, item.id? = some given → id = given) →
        number resources free (nodeOf resources id next item).2
          (done.push (nodeOf resources id next item).1) rest = .ok nodes →
        ∃ made, nodes.toList = done.toList ++ made ∧
          List.Forall₂ (Made resources) (item :: rest) made := by
      intro id free hid hrest
      obtain ⟨made, hnodes, hmade⟩ := ih hrest
      rw [Array.toList_push, List.append_assoc, List.singleton_append] at hnodes
      exact ⟨_, hnodes, .cons ⟨hid, rfl, rfl, rfl, rfl⟩ hmade⟩
    unfold number at h
    cases hitem : item.id? with
    | some id =>
      simp only [hitem] at h
      exact hnode id free (by simp [hitem]) h
    | none =>
      cases free with
      | nil =>
        simp only [hitem] at h
        cases h
      | cons id free =>
        simp only [hitem] at h
        exact hnode id free (by simp [hitem]) h

theorem made_of_mem {resources : ResourceTable} {items : List FlatItem} {nodes : List Node}
    (h : List.Forall₂ (Made resources) items nodes) {node : Node} (hnode : node ∈ nodes) :
    ∃ item ∈ items, Made resources item node := by
  induction h with
  | nil => cases hnode
  | cons hmade _ ih =>
    rcases List.mem_cons.1 hnode with rfl | hnode
    · exact ⟨_, List.mem_cons_self, hmade⟩
    · obtain ⟨item, hitem, hmade⟩ := ih hnode
      exact ⟨item, List.mem_cons_of_mem _ hitem, hmade⟩

theorem made_append {resources : ResourceTable} {front back : List FlatItem} {nodes : List Node}
    (h : List.Forall₂ (Made resources) (front ++ back) nodes) :
    ∃ left right, nodes = left ++ right ∧ List.Forall₂ (Made resources) front left ∧
      List.Forall₂ (Made resources) back right :=
  ⟨nodes.take front.length, nodes.drop front.length, (List.take_append_drop _ _).symm,
    (List.forall₂_take_append _ _ _ h.flip).flip, (List.forall₂_drop_append _ _ _ h.flip).flip⟩

/-! ## 3. The forest -/

mutual
/-- `tree` is made of an item in `scope`. -/
def TreeOf (resources : ResourceTable) (scope : NodeScope) : Item → Tree Node → Prop
  | .mk id body children, .node root trees =>
    (∀ given, id = some given → root.id = given) ∧ root.scope = scope ∧ root.body = body ∧
      root.resource = body.resourceName?.bind resources.find? ∧
      ForestOf resources (body.childScope scope) children trees

def ForestOf (resources : ResourceTable) (scope : NodeScope) : List Item → List (Tree Node) → Prop
  | [], [] => True
  | item :: items, tree :: trees =>
    TreeOf resources scope item tree ∧ ForestOf resources scope items trees
  | _, _ => False
end

variable {resources : ResourceTable}

mutual
theorem treeOf_ofNodes (depth : Nat) (scope : NodeScope) (item : Item) {nodes : List Node}
    (h : List.Forall₂ (Made resources) (flatItem depth scope item) nodes) :
    ∃ root inner, nodes = root :: inner ∧ root.depth = depth ∧
      (∀ node ∈ inner, below root node = true) ∧
      TreeOf resources scope item (.node root (Forest.ofNodes inner)) := by
  match item with
  | .mk id body children =>
    rw [flatItem] at h
    obtain ⟨root, inner, hroot, hinner, rfl⟩ := List.forall₂_cons_left_iff.1 h
    refine ⟨root, inner, rfl, hroot.depth, fun node hnode => ?_, ?_⟩
    · -- The items below stand deeper, and so do their nodes.
      obtain ⟨flat, hflat, hmade⟩ := made_of_mem hinner hnode
      have hdeeper := le_depth_flatItems (depth + 1) _ children flat hflat
      have hdepth : root.depth = depth := hroot.depth
      exact decide_eq_true (show root.depth < node.depth by rw [hmade.depth, hdepth]; omega)
    · rw [TreeOf]
      exact ⟨hroot.id, hroot.scope, hroot.body, hroot.resource,
        forestOf_ofNodes (depth + 1) _ children hinner⟩

theorem forestOf_ofNodes (depth : Nat) (scope : NodeScope) (items : List Item) {nodes : List Node}
    (h : List.Forall₂ (Made resources) (flatItems depth scope items) nodes) :
    ForestOf resources scope items (Forest.ofNodes nodes) := by
  match items with
  | [] =>
    rw [flatItems] at h
    rw [List.forall₂_nil_left_iff.1 h]
    exact trivial
  | item :: rest =>
    rw [flatItems] at h
    obtain ⟨front, back, rfl, hfront, hback⟩ := made_append h
    obtain ⟨root, inner, rfl, hdepth, hinner, htree⟩ := treeOf_ofNodes depth scope item hfront
    -- The items behind the first tree start at its depth again.
    have hstop : ∀ next, back.head? = some next → below root next = false := by
      intro next hnext
      generalize hflats : flatItems depth scope rest = flats at hback
      cases hback with
      | nil => cases hnext
      | cons hmade _ =>
        cases hnext
        have hnextDepth := head_flatItems depth scope rest _ (by rw [hflats]; rfl)
        exact decide_eq_false (by
          show ¬ root.depth < next.depth
          rw [hmade.depth, hnextDepth, hdepth]
          exact Nat.lt_irrefl _)
    have htake : (inner ++ back).takeWhile (below root) = inner := by
      rw [Forest.takeWhile_append_of_stop hstop, List.takeWhile_eq_self_iff.2 hinner]
    have hdrop : (inner ++ back).dropWhile (below root) = back := by
      rw [Forest.dropWhile_append_of_stop hstop, List.dropWhile_eq_nil_iff.2 hinner, List.nil_append]
    rw [List.cons_append, Forest.ofNodes_cons, htake, hdrop, ForestOf]
    exact ⟨htree, forestOf_ofNodes depth scope rest hback⟩
end

theorem ForestOf.mem {scope : NodeScope} {items : List Item} {trees : List (Tree Node)}
    {tree : Tree Node} (h : ForestOf resources scope items trees) (hmem : tree ∈ trees) :
    ∃ item, TreeOf resources scope item tree := by
  induction trees generalizing items with
  | nil => cases hmem
  | cons first rest ih =>
    cases items with
    | nil => exact h.elim
    | cons item items =>
      obtain ⟨hfirst, hrest⟩ := h
      rcases List.mem_cons.1 hmem with rfl | hmem
      · exact ⟨item, hfirst⟩
      · exact ih hrest hmem

theorem ForestOf.subtree {scope : NodeScope} {items : List Item} {forest : List (Tree Node)}
    {tree : Tree Node} (h : ForestOf resources scope items forest)
    (hsub : Forest.Subtree forest tree) : ∃ place item, TreeOf resources place item tree := by
  induction hsub with
  | top htop => exact ⟨scope, h.mem htop⟩
  | child _ hchild ih =>
    obtain ⟨_, ⟨id, body, items⟩, -, -, -, -, hforest⟩ := ih
    exact ⟨_, hforest.mem hchild⟩

/-! ## 4. Documents -/

variable {document : Document} {design : Design}

theorem made_ofDocument (h : ofDocument document = .ok design) :
    design.resources = document.resources ∧
      List.Forall₂ (Made document.resources) (flatten document.items) design.nodes := by
  obtain ⟨nodes, -, hnumber, rfl⟩ := ofDocument_cases h
  obtain ⟨made, hnodes, hmade⟩ := made_number hnumber
  rw [List.nil_append] at hnodes
  exact ⟨rfl, hnodes ▸ hmade⟩

/-- The forest of a design is the forest of its document. -/
theorem forest_ofDocument (h : ofDocument document = .ok design) :
    ForestOf document.resources .file document.items (Forest.ofNodes design.nodes) := by
  have hmade := (made_ofDocument h).2
  rw [flatten_eq] at hmade
  exact forestOf_ofNodes 0 .file document.items hmade

/-- A node stands in the scope that its parent gives to its children. -/
theorem scope_of_child (h : ofDocument document = .ok design) {root : Node}
    {children : List (Tree Node)} {tree : Tree Node}
    (hsub : Forest.Subtree (Forest.ofNodes design.nodes) (.node root children))
    (hchild : tree ∈ children) : tree.root.scope = root.body.childScope root.scope := by
  obtain ⟨scope, ⟨id, body, items⟩, -, hscope, hbody, -, hforest⟩ :=
    (forest_ofDocument h).subtree hsub
  obtain ⟨⟨_, _, _⟩, htree⟩ := hforest.mem hchild
  cases tree
  rw [hscope, hbody]
  exact htree.2.1

end FormWeave.Design
