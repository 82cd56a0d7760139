import FormWeave.Proofs.DesignFields
import FormWeave.Proofs.ResourceTables

/-!
# Documents written and read

What is written for a document is read back as the document: each item from its own members and
those of the items below it, and the resources as they are sorted. The numbers of the document have
to be in range, and its items must not be nested too deeply.
-/

namespace FormWeave

open Json Json.Value

/-! ## 1. Values in arrays and objects -/

namespace Json.Value

variable {depth : Nat} {items : List Value} {members : List (List Char × Value)}

theorem itemsFit_iff : itemsFit depth items = true ↔ ∀ item ∈ items, item.fits depth = true := by
  induction items with
  | nil => simp [itemsFit]
  | cons item rest ih => simp [itemsFit, ih]

theorem membersFit_iff :
    membersFit depth members = true ↔ ∀ member ∈ members, member.2.fits depth = true := by
  induction members with
  | nil => simp [membersFit]
  | cons member rest ih => rw [membersFit, Bool.and_eq_true, ih, List.forall_mem_cons]

theorem membersPlain_iff : MembersPlain members ↔
    ∀ member ∈ members, (∃ text, member.1 = Escape.encode text) ∧ member.2.Plain := by
  induction members with
  | nil => simp [MembersPlain]
  | cons member rest ih => rw [MembersPlain, ih, List.forall_mem_cons, and_assoc]

theorem fits_object_succ : (object members).fits (depth + 1) = membersFit depth members := rfl

theorem fits_array_succ : (array items).fits (depth + 1) = itemsFit depth items := rfl

end Json.Value

/-! ## 2. The members of an item -/

def Item.ownMembers (id : Option NodeId) (body : ItemBody) : List (List Char × Value) :=
  (id.map fun id => field "id" (.ofInt id.value.toNat)).toList ++ body.fields

def Item.childMembers (children : List Item) : List (List Char × Value) :=
  if children.isEmpty then [] else [field "children" (.array (Item.listToJson children))]

theorem Item.eq_of_mem_childMembers {children : List Item} {member : List Char × Value}
    (h : member ∈ childMembers children) :
    member = field "children" (.array (Item.listToJson children)) := by
  unfold childMembers at h
  split at h
  · exact absurd h List.not_mem_nil
  · exact List.mem_singleton.1 h

theorem Item.toJson_mk (id : Option NodeId) (body : ItemBody) (children : List Item) :
    (Item.mk id body children).toJson =
      .object (ownMembers id body ++ childMembers children) := rfl

def IsOwnField (member : List Char × Value) : Prop :=
  ∃ name value, member = field name value ∧ name ≠ "children" ∧ value.Flat

theorem Item.isOwnField (id : Option NodeId) {body : ItemBody} (h : body.InRange) :
    ∀ member ∈ Item.ownMembers id body, IsOwnField member := by
  intro member hmember
  rcases List.mem_append.1 hmember with hid | hbody
  · cases id with
    | none => exact absurd hid List.not_mem_nil
    | some id =>
      have hbound : id.value.toNat < 65536 := id.value.toNat_lt
      have hflat : (Value.ofInt id.value.toNat).Flat := .int (by omega)
      exact ⟨"id", _, List.mem_singleton.1 hid, by decide, hflat⟩
  · obtain ⟨name, value, rfl, -, hchildren, hflat⟩ := body.isBodyField h member hbody
    exact ⟨name, value, rfl, hchildren, hflat⟩

namespace Design.Reader

/-! ## 3. Children -/

theorem children_field_other {name : String} (h : name ≠ "children") (value : Value)
    (rest : List (List Char × Value)) :
    children (field name value :: rest) = children rest := by
  have hname : (Escape.decode? (Escape.encode name.toList) == some "children") = false := by
    rw [Escape.decode?_encode]
    simpa using h
  cases value <;> rw [field, children, hname, if_neg Bool.false_ne_true] <;>
    exact fun _ => Value.noConfusion

theorem children_own {front : List (List Char × Value)} (h : ∀ member ∈ front, IsOwnField member)
    (back : List (List Char × Value)) : children (front ++ back) = children back := by
  induction front with
  | nil => rfl
  | cons member front ih =>
    obtain ⟨hmember, hfront⟩ := List.forall_mem_cons.1 h
    obtain ⟨name, value, rfl, hname, -⟩ := hmember
    rw [List.cons_append, children_field_other hname, ih hfront]

theorem children_field (values : List Value) :
    children [field "children" (.array values)] = items values := by
  rw [field, children, Escape.decode?_encode]
  exact if_pos rfl

theorem children_childMembers {below : List Item}
    (h : items (Item.listToJson below) = .ok below) :
    children (Item.childMembers below) = .ok below := by
  cases below with
  | nil => rfl
  | cons first rest => exact (children_field _).trans h

/-! ## 4. One item -/

theorem forall_named {members : List (List Char × Value)} {p : String → Value → Prop}
    (h : ∀ member ∈ members, ∃ name value, member = field name value ∧ p name value) :
    ∀ entry ∈ named members, p entry.1 entry.2 := by
  induction members with
  | nil => exact fun _ hnone => absurd hnone List.not_mem_nil
  | cons member members ih =>
    obtain ⟨⟨name, value, rfl, hmember⟩, hmembers⟩ := List.forall_mem_cons.1 h
    rw [named_cons]
    exact List.forall_mem_cons.2 ⟨hmember, ih hmembers⟩

theorem named_ownMembers (id : Option NodeId) (body : ItemBody) :
    named (Item.ownMembers id body) =
      (id.map fun id => ("id", .ofInt id.value.toNat)).toList ++ named body.fields := by
  rw [Item.ownMembers, named_append]
  cases id with
  | none => rfl
  | some id => exact congrArg (· ++ _) (named_cons ..)

theorem named_childMembers (below : List Item) : named (Item.childMembers below) =
    if below.isEmpty then [] else [("children", .array (Item.listToJson below))] := by
  unfold Item.childMembers
  split
  · rfl
  · exact named_cons ..

abbrev bodyFields (all : Fields) : Fields :=
  all.filter fun (name, _) => name != "id" && name != "children"

theorem itemOf_eq {members : List (List Char × Value)} {all : Fields} {found : Option Value}
    {id : Option NodeId} {body : ItemBody} (hall : fields members = .ok all)
    (hchildren : field? all "children" = .ok found) (hid : defaulted all "id" nodeId none = .ok id)
    (hsound : (bodyFields all).all (·.2.isSound) = true)
    (hbody : itemBody (bodyFields all) = .ok body) (below : List Item) :
    itemOf members below = .ok (.mk id body below) := by
  rw [itemOf, hall, ok_bind, hchildren]
  show (do
    let id ← defaulted all "id" nodeId none
    unless (bodyFields all).all (·.2.isSound) do throw .badString
    return .mk id (← itemBody (bodyFields all)) below : Reading Item) = _
  rw [hid, ok_bind, hsound, hbody]
  rfl

/-- An item is made of its own members and the items below it. -/
theorem itemOf_members (id : Option NodeId) {body : ItemBody} (h : body.InRange)
    (below : List Item) :
    itemOf (Item.ownMembers id body ++ Item.childMembers below) below = .ok (.mk id body below) := by
  have hmembers : ∀ member ∈ Item.ownMembers id body ++ Item.childMembers below,
      ∃ name value, member = field name value := by
    intro member hmember
    rcases List.mem_append.1 hmember with hown | hbelow
    · obtain ⟨name, value, rfl, -⟩ := Item.isOwnField id h member hown
      exact ⟨name, value, rfl⟩
    · exact ⟨_, _, Item.eq_of_mem_childMembers hbelow⟩
  -- No member of the body has the name of one that is looked up or left out here.
  have hbody := forall_named (body.isBodyField h)
  have hnoId : (named body.fields).filter (·.1 == "id") = [] :=
    List.filter_eq_nil_iff.2 fun entry hentry => by simpa using (hbody entry hentry).1
  have hnoChildren : (named body.fields).filter (·.1 == "children") = [] :=
    List.filter_eq_nil_iff.2 fun entry hentry => by simpa using (hbody entry hentry).2.1
  have hkept : bodyFields (named body.fields) = named body.fields :=
    List.filter_eq_self.2 fun entry hentry => by
      simpa using ⟨(hbody entry hentry).1, (hbody entry hentry).2.1⟩
  have hsound : (named body.fields).all (·.2.isSound) = true :=
    List.all_eq_true.2 fun entry hentry => (hbody entry hentry).2.2.isSound
  obtain ⟨all, hall⟩ : ∃ all, all = (id.map fun id => ("id", ofInt id.value.toNat)).toList ++
      named body.fields ++
        (if below.isEmpty then [] else [("children", .array (Item.listToJson below))]) := ⟨_, rfl⟩
  have hfields : fields (Item.ownMembers id body ++ Item.childMembers below) = .ok all := by
    rw [fields_eq_named hmembers, hall, named_append, named_ownMembers, named_childMembers]
  obtain ⟨found, hfound⟩ : ∃ found, field? all "children" = .ok found := by
    rw [hall, field?]
    cases id <;> cases below <;> simp [hnoChildren]
  have hid : defaulted all "id" nodeId none = .ok id := by
    rw [hall, defaulted_eq]
    cases id <;> cases below <;> simp [hnoId, nodeId_ofInt]
  have hrest : bodyFields all = named body.fields := by
    rw [hall]
    cases id <;> cases below <;> simp [bodyFields, hkept]
  refine itemOf_eq hfields hfound hid ?_ ?_ below
  · rw [hrest, hsound]
  · rw [hrest, itemBody_fields h]

end Design.Reader

/-! ## 5. Items below items -/

mutual
/-- Whether the numbers of an item, and of the items below it, are in range. -/
def Item.InRange : Item → Prop
  | .mk _ body children => body.InRange ∧ Item.AllInRange children

def Item.AllInRange : List Item → Prop
  | [] => True
  | item :: rest => item.InRange ∧ Item.AllInRange rest
end

namespace Design.Reader

mutual
theorem item_toJson (it : Item) (h : it.InRange) : item it.toJson = .ok it := by
  match it with
  | .mk id body below =>
    obtain ⟨hbody, hbelow⟩ := h
    have hchildren : children (Item.ownMembers id body ++ Item.childMembers below) = .ok below := by
      rw [children_own (Item.isOwnField id hbody)]
      exact children_childMembers (items_listToJson below hbelow)
    rw [Item.toJson_mk, item, hchildren, ok_bind, itemOf_members id hbody]

theorem items_listToJson (list : List Item) (h : Item.AllInRange list) :
    items (Item.listToJson list) = .ok list := by
  match list with
  | [] => rfl
  | it :: rest =>
    rw [Item.listToJson, items, item_toJson it h.1, ok_bind, items_listToJson rest h.2]
    rfl
end

end Design.Reader

mutual
theorem Item.plain_toJson (item : Item) (h : item.InRange) : item.toJson.Plain := by
  match item with
  | .mk id body below =>
    obtain ⟨hbody, hbelow⟩ := h
    rw [Item.toJson_mk, Value.Plain, membersPlain_iff]
    intro member hmember
    rcases List.mem_append.1 hmember with hown | hchildren
    · obtain ⟨name, value, rfl, -, hflat⟩ := Item.isOwnField id hbody member hown
      exact ⟨⟨_, rfl⟩, hflat.plain⟩
    · rw [Item.eq_of_mem_childMembers hchildren]
      exact ⟨⟨_, rfl⟩, Item.plain_listToJson below hbelow⟩

theorem Item.plain_listToJson (list : List Item) (h : Item.AllInRange list) :
    ItemsPlain (Item.listToJson list) := by
  match list with
  | [] => exact trivial
  | item :: rest => exact ⟨Item.plain_toJson item h.1, Item.plain_listToJson rest h.2⟩
end

/-! ## 6. Resources -/

theorem Resource.plain_toJson (resource : Resource) : resource.toJson.Plain := by
  cases resource with
  | text content => exact ⟨⟨_, rfl⟩, ⟨_, rfl⟩, trivial⟩
  | bytes content =>
    refine ⟨⟨_, rfl⟩, ?_, trivial⟩
    show ItemsPlain _
    induction content with
    | nil => exact trivial
    | cons b content ih => exact ⟨⟨_, rfl⟩, ih⟩

theorem Resource.fits_toJson (resource : Resource) (depth : Nat) :
    resource.toJson.fits (depth + 2) = true := by
  cases resource with
  | text content => rfl
  | bytes content =>
    rw [Resource.toJson, fits_object_succ, membersFit_iff, List.forall_mem_singleton, field,
      fits_array_succ, itemsFit_iff]
    exact List.forall_mem_map.2 fun _ _ => rfl

def ResourceTable.members (table : ResourceTable) : List (List Char × Value) :=
  table.entries.map fun entry => field entry.1 entry.2.toJson

namespace Design.Reader

def namedResource (member : List Char × Value) : Reading (String × Resource) := do
  return (← rawText member.1, ← resource member.2)

theorem namedResource_field (name : String) (held : Resource) :
    namedResource (field name held.toJson) = .ok (name, held) := by
  rw [namedResource, field, rawText_encode, resource_toJson]
  rfl

theorem resources_members {table : ResourceTable} (h : table.Sorted) :
    resources (.object table.members) = .ok table := by
  show (do return ResourceTable.ofList (← table.members.mapM namedResource) :
    Reading ResourceTable) = _
  rw [ResourceTable.members, mapM_map fun entry => namedResource_field entry.1 entry.2]
  exact congrArg _ (ResourceTable.ofList_entries h)

end Design.Reader

/-! ## 7. Documents -/

/-- A document that can be saved and loaded. -/
structure Document.Loadable (document : Document) : Prop where
  inRange : Item.AllInRange document.items
  fits : (Value.array (Item.listToJson document.items)).fits (Design.Reader.maxDepth - 1) = true
  sorted : document.resources.Sorted

variable {document : Document}

open Design.Reader

theorem ResourceTable.members_eq_nil {table : ResourceTable} (h : table.members = []) :
    table = {} := congrArg ResourceTable.mk (List.map_eq_nil_iff.1 h)

theorem ResourceTable.fits_members (table : ResourceTable) :
    (Value.object table.members).fits (Design.Reader.maxDepth - 1) = true := by
  show membersFit _ table.members = true
  rw [membersFit_iff]
  exact List.forall_mem_map.2 fun entry _ => entry.2.fits_toJson 123

theorem ResourceTable.plain_members (table : ResourceTable) :
    (Value.object table.members).Plain := by
  rw [Value.Plain, membersPlain_iff]
  exact List.forall_mem_map.2 fun entry _ => ⟨⟨_, rfl⟩, entry.2.plain_toJson⟩

def ResourceTable.asMembers (table : ResourceTable) : List (List Char × Value) :=
  if table.members.isEmpty then [] else [field "resources" (.object table.members)]

theorem Document.toJson_eq (document : Document) : document.toJson =
    .object (document.resources.asMembers ++
      [field "items" (.array (Item.listToJson document.items))]) := rfl

theorem Document.Loadable.document_toJson (h : document.Loadable) :
    Design.Reader.document document.toJson = .ok document := by
  have hfields : ∀ member ∈ document.resources.asMembers ++
      [field "items" (.array (Item.listToJson document.items))],
      ∃ name value, member = field name value := by
    unfold ResourceTable.asMembers
    split <;> simp
  have hitems : part itemArray (.array (Item.listToJson document.items)) = .ok document.items := by
    rw [part, if_pos h.fits]
    exact items_listToJson document.items h.inRange
  have hresources :
      part Design.Reader.resources (.object document.resources.members) = .ok document.resources := by
    rw [part, if_pos document.resources.fits_members, resources_members h.sorted]
  rw [Document.toJson_eq, Design.Reader.document, fields_eq_named hfields, ok_bind]
  simp only [defaulted_eq, named_append, named_cons, named_nil]
  unfold ResourceTable.asMembers
  split
  · next hempty =>
    have hnone := ResourceTable.members_eq_nil (List.isEmpty_iff.1 hempty)
    have hdocument : { items := document.items } = document :=
      congrArg (Document.mk · document.items) hnone.symm
    simp [hitems, ok_bind, hdocument]
  · simp [hitems, hresources, ok_bind]

theorem Document.Loadable.plain_toJson (h : document.Loadable) : document.toJson.Plain := by
  rw [Document.toJson_eq, Value.Plain, membersPlain_iff]
  intro member hmember
  rcases List.mem_append.1 hmember with hresources | hitems
  · unfold ResourceTable.asMembers at hresources
    split at hresources
    · exact absurd hresources List.not_mem_nil
    · rw [List.mem_singleton.1 hresources]
      exact ⟨⟨_, rfl⟩, document.resources.plain_members⟩
  · rw [List.mem_singleton.1 hitems]
    exact ⟨⟨_, rfl⟩, Item.plain_listToJson document.items h.inRange⟩

/-- The text of a document is read as the document. -/
theorem Document.Loadable.parse_document (h : document.Loadable) :
    Document.parse document.render = .ok document := by
  rw [Document.parse, Document.render, parse?_pretty h.plain_toJson]
  exact h.document_toJson

end FormWeave
