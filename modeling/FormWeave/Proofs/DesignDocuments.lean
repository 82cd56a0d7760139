import FormWeave.Proofs.Flattening

/-!
# The document of a design

The nodes of a design nest to the document that the design was made from, in which every item has an
id now. Making a design of that document gives the same design again: all ids are given, and nothing
else of an item decides about its node.
-/

namespace FormWeave

/-! ## 1. Documents with all ids -/

mutual
/-- `whole` is `item` with an id for itself and for each item below it. -/
def Item.FilledBy : (item whole : Item) → Prop
  | .mk id body children, .mk id' body' children' =>
    (∃ given, id' = some given ∧ (id = none ∨ id = some given)) ∧ body' = body ∧
      Item.AllFilledBy children children'

def Item.AllFilledBy : (items wholes : List Item) → Prop
  | [], [] => True
  | item :: items, whole :: wholes => item.FilledBy whole ∧ Item.AllFilledBy items wholes
  | _, _ => False
end

structure Document.FilledBy (document whole : Document) : Prop where
  items : Item.AllFilledBy document.items whole.items
  resources : whole.resources = document.resources

theorem Item.AllFilledBy.isEmpty_eq {items wholes : List Item} (h : AllFilledBy items wholes) :
    wholes.isEmpty = items.isEmpty := by
  cases items <;> cases wholes <;> first | rfl | exact h.elim

theorem Item.AllFilledBy.any_body {p : ItemBody → Bool} {items : List Item} :
    ∀ {wholes : List Item}, AllFilledBy items wholes →
      (wholes.any fun whole => p whole.body) = items.any fun item => p item.body := by
  induction items with
  | nil =>
    intro wholes h
    cases wholes with
    | nil => rfl
    | cons => exact h.elim
  | cons item rest ih =>
    intro wholes h
    cases wholes with
    | nil => exact h.elim
    | cons whole wholes =>
      obtain ⟨hitem, hrest⟩ := h
      cases item
      cases whole
      have hbody := hitem.2.1
      rw [List.any_cons, List.any_cons, ih hrest]
      exact congrArg (p · || _) hbody

namespace Design

/-! ## 2. Their items in depth-first order -/

def FlatItem.FilledBy (item whole : FlatItem) : Prop :=
  ∃ given, (item.id? = none ∨ item.id? = some given) ∧ whole = { item with id? := some given }

mutual
theorem flatItem_filled (depth : Nat) (scope : NodeScope) (item whole : Item)
    (h : item.FilledBy whole) :
    List.Forall₂ FlatItem.FilledBy (flatItem depth scope item) (flatItem depth scope whole) := by
  match item, whole with
  | .mk id body children, .mk id' body' children' =>
    obtain ⟨⟨given, rfl, hid⟩, rfl, hchildren⟩ := h
    rw [flatItem, flatItem, hchildren.isEmpty_eq,
      hchildren.any_body (p := fun body => body.kind == .widget)]
    exact .cons ⟨given, hid, rfl⟩ (flatItems_filled (depth + 1) _ children children' hchildren)

theorem flatItems_filled (depth : Nat) (scope : NodeScope) (items wholes : List Item)
    (h : Item.AllFilledBy items wholes) :
    List.Forall₂ FlatItem.FilledBy (flatItems depth scope items) (flatItems depth scope wholes) := by
  match items, wholes with
  | [], [] => exact .nil
  | item :: items, whole :: wholes =>
    rw [flatItems, flatItems]
    exact List.rel_append (flatItem_filled depth scope item whole h.1)
      (flatItems_filled depth scope items wholes h.2)
  | [], _ :: _ => exact h.elim
  | _ :: _, [] => exact h.elim
end

/-! ## 3. Nodes that are nested again -/

mutual
theorem filledBy_itemOfTree {resources : ResourceTable} {scope : NodeScope} (item : Item)
    (tree : Tree Node) (h : TreeOf resources scope item tree) : item.FilledBy (itemOfTree tree) := by
  match item, tree with
  | .mk id body children, .node root trees =>
    obtain ⟨hid, -, hbody, -, hforest⟩ := h
    refine ⟨⟨root.id, rfl, ?_⟩, hbody, filledBy_itemsOfForest children trees hforest⟩
    cases id with
    | none => exact .inl rfl
    | some given => exact .inr (congrArg some (hid given rfl).symm)

theorem filledBy_itemsOfForest {resources : ResourceTable} {scope : NodeScope} (items : List Item)
    (trees : List (Tree Node)) (h : ForestOf resources scope items trees) :
    Item.AllFilledBy items (itemsOfForest trees) := by
  match items, trees with
  | [], [] => exact trivial
  | item :: items, tree :: trees =>
    exact ⟨filledBy_itemOfTree item tree h.1, filledBy_itemsOfForest items trees h.2⟩
  | [], _ :: _ => exact h.elim
  | _ :: _, [] => exact h.elim
end

mutual
theorem ids_itemOfTree (depth : Nat) (scope : NodeScope) (tree : Tree Node) :
    (flatItem depth scope (itemOfTree tree)).map FlatItem.id? =
      (Forest.treeNodes tree).map fun node => some node.id := by
  match tree with
  | .node root trees =>
    rw [itemOfTree, flatItem, Forest.treeNodes, List.map_cons, List.map_cons, ids_itemsOfForest]

theorem ids_itemsOfForest (depth : Nat) (scope : NodeScope) (trees : List (Tree Node)) :
    (flatItems depth scope (itemsOfForest trees)).map FlatItem.id? =
      (Forest.nodes trees).map fun node => some node.id := by
  match trees with
  | [] => rfl
  | tree :: rest =>
    rw [itemsOfForest, flatItems, Forest.nodes, List.map_append, List.map_append, ids_itemOfTree,
      ids_itemsOfForest]
end

theorem ids_document (design : Design) :
    (flatten design.document.items).map FlatItem.id? = design.nodes.map fun node => some node.id := by
  rw [flatten_eq, document, ids_itemsOfForest, Forest.nodes_ofNodes]

/-! ## 4. The design again -/

/-- Items that already have the ids of their nodes are numbered to the same nodes. -/
theorem number_filled {resources : ResourceTable} {items wholes : List FlatItem}
    (h : List.Forall₂ FlatItem.FilledBy items wholes) :
    ∀ {free free' : List NodeId} {next : Nat} {done nodes : Array Node},
      number resources free next done items = .ok nodes →
      wholes.map FlatItem.id? = (nodes.toList.drop done.size).map (fun node => some node.id) →
      number resources free' next done wholes = .ok nodes := by
  induction h with
  | nil => exact fun h _ => h
  | @cons item whole items wholes hfilled _ ih =>
    intro free free' next done nodes h hids
    obtain ⟨given, -, rfl⟩ := hfilled
    -- The node of the item has some id, which is the one that is given now.
    have hnode : ∀ id free, number resources free (nodeOf resources id next item).2
        (done.push (nodeOf resources id next item).1) items = .ok nodes →
        number resources free' next done ({ item with id? := some given } :: wholes) =
          .ok nodes := by
      intro id free hrest
      obtain ⟨made, hmade, -⟩ := made_number hrest
      have hfirst : nodes.toList.drop done.size = (nodeOf resources id next item).1 :: made := by
        rw [hmade, Array.toList_push, List.append_assoc, List.singleton_append]
        exact List.drop_left' Array.length_toList
      have hbehind : nodes.toList.drop (done.size + 1) = made := by
        rw [← List.drop_drop, hfirst]
        rfl
      rw [hfirst, List.map_cons, List.map_cons] at hids
      obtain ⟨hid, hmore⟩ := List.cons.inj hids
      have hgiven : given = id := Option.some.inj hid
      subst hgiven
      exact ih hrest (by rw [Array.size_push, hbehind]; exact hmore)
    unfold number at h
    cases hitem : item.id? with
    | some id =>
      simp only [hitem] at h
      exact hnode id free h
    | none =>
      cases free with
      | nil =>
        simp only [hitem] at h
        cases h
      | cons id free =>
        simp only [hitem] at h
        exact hnode id free h

theorem firstRepeated?_of_nodup {ids : List NodeId} :
    ∀ {seen : Std.HashSet NodeId}, ids.Nodup → (∀ id ∈ ids, seen.contains id = false) →
      firstRepeated? seen ids = none := by
  induction ids with
  | nil => exact fun _ _ => rfl
  | cons id rest ih =>
    intro seen hnodup hfresh
    obtain ⟨hid, hrest⟩ := List.nodup_cons.1 hnodup
    rw [firstRepeated?, hfresh id List.mem_cons_self, if_neg Bool.false_ne_true]
    refine ih hrest fun other hother => ?_
    rw [Std.HashSet.contains_insert, hfresh other (List.mem_cons_of_mem _ hother), Bool.or_false]
    exact beq_eq_false_iff_ne.2 fun heq => hid (heq ▸ hother)

theorem length_le_of_ofDocument {document : Document} {design : Design}
    (h : ofDocument document = .ok design) : (flatten document.items).length ≤ maxNodes := by
  unfold ofDocument at h
  dsimp only at h
  split at h
  · cases h
  · omega

variable {document : Document} {design : Design}

theorem filledBy_document (h : ofDocument document = .ok design) :
    document.FilledBy design.document where
  items := filledBy_itemsOfForest document.items _ (forest_ofDocument h)
  resources := (made_ofDocument h).1

theorem ofDocument_again (h : ofDocument document = .ok design) :
    ofDocument design.document = .ok design := by
  have hdistinct := distinctIds_ofDocument h
  have hlength := length_le_of_ofDocument h
  obtain ⟨nodes, -, hnumber, rfl⟩ := ofDocument_cases h
  have hfilled := flatItems_filled 0 .file _ _ (filledBy_document h).items
  rw [← flatten_eq, ← flatten_eq] at hfilled
  have hids := ids_document { nodes := nodes.toList, resources := document.resources }
  refine ofDocument_of_given (nodes.toList.map Node.id) nodes ?_ ?_ ?_ ?_
  · have hsome := congrArg (List.filterMap id) hids
    rw [List.filterMap_map, List.filterMap_map] at hsome
    exact hsome.trans (congrFun (List.filterMap_eq_map (f := Node.id)) _)
  · exact firstRepeated?_of_nodup hdistinct fun _ _ => Std.HashSet.contains_empty
  · rw [← hfilled.length_eq]
    exact hlength
  · exact number_filled hfilled hnumber hids

/-- Nesting the nodes of a design gives the document it was made from, with the missing ids filled
in, and that document becomes the same design. -/
theorem document_ofDocument (h : ofDocument document = .ok design) :
    document.FilledBy design.document ∧ ofDocument design.document = .ok design :=
  ⟨filledBy_document h, ofDocument_again h⟩

def nestedDocument : Document where
  items :=
    [.mk none (.widgetClass "Panel" "Fl_Group")
      [.mk none (.codeBlock "if (x)" "") [.mk (some ⟨7⟩) (.code "a();") []]],
    .mk (some ⟨1⟩) (.comment "end" true false) []]

def nestedNodes : Array Node :=
  #[{ id := ⟨2⟩, depth := 0, scope := .file, hasChildren := true, hasChildWidgets := false
      body := .widgetClass "Panel" "Fl_Group", resource := none, labelNumber := 0
      tooltipNumber := 0 },
    { id := ⟨3⟩, depth := 1, scope := .member, hasChildren := true, hasChildWidgets := false
      body := .codeBlock "if (x)" "", resource := none, labelNumber := 0, tooltipNumber := 0 },
    { id := ⟨7⟩, depth := 2, scope := .inner, hasChildren := false, hasChildWidgets := false
      body := .code "a();", resource := none, labelNumber := 0, tooltipNumber := 0 },
    { id := ⟨1⟩, depth := 0, scope := .file, hasChildren := false, hasChildWidgets := false
      body := .comment "end" true false, resource := none, labelNumber := 0, tooltipNumber := 0 }]

def nestedDesign : Design where
  nodes := nestedNodes.toList

theorem ofDocument_nested : ofDocument nestedDocument = .ok nestedDesign := by
  refine ofDocument_of_given [⟨7⟩, ⟨1⟩] nestedNodes rfl (by simp [firstRepeated?]) (by decide) ?_
  have hfree : freeIds (Std.HashSet.ofList [⟨7⟩, ⟨1⟩]) 6 = [⟨2⟩, ⟨3⟩, ⟨4⟩, ⟨5⟩, ⟨6⟩] := by
    simp only [freeIds, Std.HashSet.contains_ofList]
    rfl
  exact (congrArg (number {} · 1 #[] (flatten nestedDocument.items)) hfree).trans rfl

theorem document_ofDocument_nested :
    ofDocument nestedDocument = .ok nestedDesign ∧
      nestedDesign.nodes.map Node.id = [⟨2⟩, ⟨3⟩, ⟨7⟩, ⟨1⟩] ∧
      nestedDocument.FilledBy nestedDesign.document ∧
      ofDocument nestedDesign.document = .ok nestedDesign :=
  ⟨ofDocument_nested, rfl, document_ofDocument ofDocument_nested⟩

end Design

end FormWeave
