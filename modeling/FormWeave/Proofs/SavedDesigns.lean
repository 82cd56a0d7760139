import FormWeave.Project.Files
import FormWeave.Proofs.DesignDocuments
import FormWeave.Proofs.DesignJson

/-!
# Designs saved and loaded

Whatever a document was read from, its numbers are in range, its resources are sorted, and the text
that is written for it is nested no more deeply than what was read. So the text of a design that was
loaded can be loaded, and gives the same design.
-/

namespace FormWeave

open Json Json.Value

/-! ## 1. What has been read -/

theorem bind_eq_ok {ε α β : Type} {x : Except ε α} {next : α → Except ε β} {b : β}
    (h : (x >>= next) = .ok b) : ∃ a, x = .ok a ∧ next a = .ok b := by
  cases x with
  | error e => cases h
  | ok a => exact ⟨a, rfl, h⟩

theorem mapError_eq_ok {ε ε' α : Type} {x : Except ε α} {f : ε → ε'} {a : α}
    (h : x.mapError f = .ok a) : x = .ok a := by
  cases x with
  | error e => cases h
  | ok b =>
    cases h
    rfl

namespace Design.Reader

variable {α : Type} {read : Value → Reading α} {all : Fields} {wanted : String}

theorem isCoordinate_of_ok {value : Value} {n : Int} (h : coordinate value = .ok n) :
    IsCoordinate n := by
  unfold coordinate integer at h
  split at h
  · split at h
    · split at h
      · next hrange =>
        cases h
        simpa [IsCoordinate] using hrange
      · cases h
    · cases h
  · cases h

/-- What is read from a field that may be missing was there, or is the default. -/
theorem of_defaulted {p : α → Prop} {default a : α} (h : defaulted all wanted read default = .ok a)
    (hdefault : p default) (hread : ∀ value a, read value = .ok a → p a) : p a := by
  obtain ⟨found, -, h⟩ := bind_eq_ok h
  cases found with
  | none =>
    cases h
    exact hdefault
  | some value => exact hread value a h

theorem isCoordinate_defaulted {n : Int} (h : defaulted all wanted coordinate 0 = .ok n) :
    IsCoordinate n :=
  of_defaulted h ⟨by decide, by decide⟩ fun _ _ => isCoordinate_of_ok

theorem inRange_itemBody {body : ItemBody} (h : itemBody all = .ok body) : body.InRange := by
  obtain ⟨kind, -, h⟩ := bind_eq_ok h
  -- Only a widget has numbers; the six fields in front of them are texts.
  cases kind with
  | widget =>
    iterate 6 obtain ⟨_, -, h⟩ := bind_eq_ok h
    obtain ⟨x, hx, h⟩ := bind_eq_ok h
    obtain ⟨y, hy, h⟩ := bind_eq_ok h
    obtain ⟨w, hw, h⟩ := bind_eq_ok h
    obtain ⟨height, hheight, h⟩ := bind_eq_ok h
    cases h
    simp only [ItemBody.InRange, List.forall_mem_cons]
    exact ⟨isCoordinate_defaulted hx, isCoordinate_defaulted hy, isCoordinate_defaulted hw,
      isCoordinate_defaulted hheight, fun _ hnone => absurd hnone List.not_mem_nil⟩
  | _ =>
    repeat obtain ⟨_, -, h⟩ := bind_eq_ok h
    cases h
    exact trivial

theorem itemOf_cases {members : List (List Char × Value)} {below : List Item} {it : Item}
    (h : itemOf members below = .ok it) :
    ∃ id body, body.InRange ∧ it = .mk id body below := by
  obtain ⟨all, -, h⟩ := bind_eq_ok h
  obtain ⟨_, -, h⟩ := bind_eq_ok h
  obtain ⟨id, -, h⟩ := bind_eq_ok h
  dsimp only at h
  split at h
  · obtain ⟨body, hbody, h⟩ := bind_eq_ok h
    cases h
    exact ⟨id, body, inRange_itemBody hbody, rfl⟩
  · cases h

theorem children_cons {raw : List Char} {value : Value} {rest : List (List Char × Value)}
    {below : List Item} (h : children ((raw, value) :: rest) = .ok below) :
    (∃ values, value = .array values ∧ items values = .ok below) ∨ children rest = .ok below := by
  cases value with
  | array values =>
    rw [children] at h
    split at h
    · exact .inl ⟨values, rfl, h⟩
    · exact .inr h
  | _ =>
    rw [children] at h
    · split at h
      · cases h
      · exact .inr h
    · exact fun _ => Value.noConfusion

end Design.Reader

/-! ## 2. How deeply an item is nested -/

theorem Item.fits_mk {id : Option NodeId} {body : ItemBody} (h : body.InRange) (below : List Item)
    (depth : Nat) : (Item.mk id body below).toJson.fits (depth + 1) = true ↔
      (below ≠ [] → (Value.array (Item.listToJson below)).fits depth = true) := by
  have hown : ∀ member ∈ Item.ownMembers id body, member.2.fits depth = true := by
    intro member hmember
    obtain ⟨name, value, rfl, -, hflat⟩ := Item.isOwnField id h member hmember
    exact hflat.fits depth
  rw [Item.toJson_mk, fits_object_succ, membersFit_iff, List.forall_mem_append]
  unfold Item.childMembers
  cases below with
  | nil => simpa using hown
  | cons first rest => simpa [field] using fun _ => hown

namespace Design.Reader

mutual
/-- An item is written with no more nesting than it was read with. -/
theorem fits_item (value : Value) {it : Item} (h : item value = .ok it) :
    it.InRange ∧ ∀ depth, value.fits depth = true → it.toJson.fits depth = true := by
  match value with
  | .object members =>
    rw [item] at h
    obtain ⟨below, hbelow, h⟩ := bind_eq_ok h
    obtain ⟨id, body, hbody, rfl⟩ := itemOf_cases h
    obtain ⟨hrange, hfits⟩ := fits_children members hbelow
    refine ⟨⟨hbody, hrange⟩, fun depth hdepth => ?_⟩
    cases depth with
    | zero => cases hdepth
    | succ depth =>
      rw [Item.fits_mk hbody]
      exact hfits depth hdepth
  | .null | .bool _ | .number _ | .string _ | .array _ => cases h

theorem fits_children (members : List (List Char × Value)) {below : List Item}
    (h : children members = .ok below) : Item.AllInRange below ∧
      ∀ depth, membersFit depth members = true → below ≠ [] →
        (Value.array (Item.listToJson below)).fits depth = true := by
  match members with
  | [] =>
    cases h
    exact ⟨trivial, fun _ _ hne => absurd rfl hne⟩
  | (raw, value) :: rest =>
    -- The items are those of the first member that is called so; the others are skipped.
    rcases children_cons h with ⟨values, rfl, hitems⟩ | hothers
    · obtain ⟨hrange, hfits⟩ := fits_items values hitems
      refine ⟨hrange, fun depth hdepth _ => ?_⟩
      obtain ⟨harray, -⟩ := Bool.and_eq_true_iff.1 hdepth
      cases depth with
      | zero => cases harray
      | succ depth => exact hfits depth harray
    · obtain ⟨hrange, hfits⟩ := fits_children rest hothers
      refine ⟨hrange, fun depth hdepth => hfits depth ?_⟩
      exact (Bool.and_eq_true_iff.1 hdepth).2

theorem fits_items (values : List Value) {list : List Item} (h : items values = .ok list) :
    Item.AllInRange list ∧
      ∀ depth, itemsFit depth values = true → itemsFit depth (Item.listToJson list) = true := by
  match values with
  | [] =>
    cases h
    exact ⟨trivial, fun _ _ => rfl⟩
  | value :: rest =>
    rw [items] at h
    obtain ⟨it, hit, h⟩ := bind_eq_ok h
    obtain ⟨others, hothers, h⟩ := bind_eq_ok h
    cases h
    obtain ⟨hitRange, hitFits⟩ := fits_item value hit
    obtain ⟨hrestRange, hrestFits⟩ := fits_items rest hothers
    refine ⟨⟨hitRange, hrestRange⟩, fun depth hdepth => ?_⟩
    obtain ⟨hvalue, hrest⟩ := Bool.and_eq_true_iff.1 hdepth
    exact Bool.and_eq_true_iff.2 ⟨hitFits depth hvalue, hrestFits depth hrest⟩
end

end Design.Reader

/-! ## 3. Documents that were read -/

namespace Design.Reader

variable {α : Type} {read : Value → Reading α}

theorem fits_of_part {value : Value} {a : α} (h : part read value = .ok a) :
    value.fits (maxDepth - 1) = true ∧ read value = .ok a := by
  unfold part at h
  split at h
  · next hfits => exact ⟨hfits, h⟩
  · cases h

theorem sorted_resources {value : Value} {table : ResourceTable}
    (h : resources value = .ok table) : table.Sorted := by
  match value with
  | .object members =>
    obtain ⟨entries, -, h⟩ := bind_eq_ok h
    cases h
    exact ResourceTable.sorted_ofList entries
  | .null | .bool _ | .number _ | .string _ | .array _ => cases h

theorem sorted_part {value : Value} {table : ResourceTable}
    (h : part resources value = .ok table) : table.Sorted := sorted_resources (fits_of_part h).2

def ItemsLoadable (list : List Item) : Prop :=
  Item.AllInRange list ∧ (Value.array (Item.listToJson list)).fits (maxDepth - 1) = true

theorem itemsLoadable_part {value : Value} {list : List Item}
    (h : part itemArray value = .ok list) : ItemsLoadable list := by
  obtain ⟨hdepth, h⟩ := fits_of_part h
  match value with
  | .array values =>
    obtain ⟨hrange, hfits⟩ := fits_items values h
    exact ⟨hrange, hfits _ hdepth⟩
  | .null | .bool _ | .number _ | .string _ | .object _ => cases h

theorem loadable_document {value : Value} {doc : Document} (h : document value = .ok doc) :
    doc.Loadable := by
  have hnoTable : ({} : ResourceTable).Sorted := List.Pairwise.nil
  have hnoItems : ItemsLoadable [] := ⟨trivial, rfl⟩
  suffices hparts : doc.resources.Sorted ∧ ItemsLoadable doc.items from
    ⟨hparts.2.1, hparts.2.2, hparts.1⟩
  match value with
  | .object members =>
    obtain ⟨all, -, h⟩ := bind_eq_ok h
    obtain ⟨table, htable, h⟩ := bind_eq_ok h
    obtain ⟨list, hlist, h⟩ := bind_eq_ok h
    cases h
    exact ⟨of_defaulted htable hnoTable fun _ _ => sorted_part,
      of_defaulted hlist hnoItems fun _ _ => itemsLoadable_part⟩
  | .array [] =>
    cases h
    exact ⟨hnoTable, hnoItems⟩
  | .array [first] =>
    obtain ⟨table, htable, h⟩ := bind_eq_ok h
    cases h
    exact ⟨sorted_part htable, hnoItems⟩
  | .array [first, second] =>
    obtain ⟨table, htable, h⟩ := bind_eq_ok h
    obtain ⟨list, hlist, h⟩ := bind_eq_ok h
    cases h
    exact ⟨sorted_part htable, itemsLoadable_part hlist⟩
  | .array (_ :: _ :: _ :: _) | .null | .bool _ | .number _ | .string _ => cases h

end Design.Reader

theorem Document.loadable_of_parse {text : String} {document : Document}
    (h : Document.parse text = .ok document) : document.Loadable := by
  unfold Document.parse at h
  split at h
  · exact Design.Reader.loadable_document h
  · cases h

/-! ## 4. Items with new ids -/

mutual
/-- An id takes no nesting. -/
theorem Item.FilledBy.fits (item whole : Item) (h : item.FilledBy whole) (hrange : item.InRange) :
    whole.InRange ∧
      ∀ depth, item.toJson.fits depth = true → whole.toJson.fits depth = true := by
  match item, whole with
  | .mk id body below, .mk id' body' below' =>
    obtain ⟨-, rfl, hbelow⟩ := h
    obtain ⟨hbody, hitems⟩ := hrange
    obtain ⟨hwholes, hfits⟩ := Item.AllFilledBy.fits below below' hbelow hitems
    refine ⟨⟨hbody, hwholes⟩, fun depth hdepth => ?_⟩
    cases depth with
    | zero => cases hdepth
    | succ depth =>
      -- Without items below, no array is written, and one level is enough.
      rw [Item.fits_mk hbody] at hdepth ⊢
      intro hne
      have hsome : below ≠ [] := by
        rintro rfl
        exact hne (List.isEmpty_iff.1 hbelow.isEmpty_eq)
      have harray := hdepth hsome
      cases depth with
      | zero => cases harray
      | succ depth => exact hfits depth harray

theorem Item.AllFilledBy.fits (items wholes : List Item) (h : Item.AllFilledBy items wholes)
    (hrange : Item.AllInRange items) : Item.AllInRange wholes ∧
      ∀ depth, itemsFit depth (Item.listToJson items) = true →
        itemsFit depth (Item.listToJson wholes) = true := by
  match items, wholes with
  | [], [] => exact ⟨trivial, fun _ _ => rfl⟩
  | item :: items, whole :: wholes =>
    obtain ⟨hwhole, hfits⟩ := Item.FilledBy.fits item whole h.1 hrange.1
    obtain ⟨hwholes, hallFit⟩ := Item.AllFilledBy.fits items wholes h.2 hrange.2
    refine ⟨⟨hwhole, hwholes⟩, fun depth hdepth => ?_⟩
    obtain ⟨hitem, hitems⟩ := Bool.and_eq_true_iff.1 hdepth
    exact Bool.and_eq_true_iff.2 ⟨hfits depth hitem, hallFit depth hitems⟩
  | [], _ :: _ => exact h.elim
  | _ :: _, [] => exact h.elim
end

theorem Document.FilledBy.loadable {document whole : Document} (h : document.FilledBy whole)
    (hloadable : document.Loadable) : whole.Loadable := by
  obtain ⟨hrange, hfits⟩ := Item.AllFilledBy.fits _ _ h.items hloadable.inRange
  exact ⟨hrange, hfits _ hloadable.fits, h.resources ▸ hloadable.sorted⟩

/-! ## 5. Designs -/

namespace Design

variable {text : String} {design : Design}

theorem parse_cases (h : Design.parse text = .ok design) :
    ∃ document, Document.parse text = .ok document ∧ ofDocument document = .ok design := by
  obtain ⟨document, hdocument, hdesign⟩ := bind_eq_ok h
  exact ⟨document, mapError_eq_ok hdocument, mapError_eq_ok hdesign⟩

/-- A design that was loaded is loaded again from its own text, which is its text then as well. -/
theorem parse_render (h : Design.parse text = .ok design) :
    Design.parse design.render = .ok design ∧
      (Design.parse design.render).map Design.render = .ok design.render := by
  suffices hagain : Design.parse design.render = .ok design from
    ⟨hagain, congrArg (Except.map Design.render) hagain⟩
  obtain ⟨document, hdocument, hdesign⟩ := parse_cases h
  have hloadable : design.document.Loadable :=
    (filledBy_document hdesign).loadable (Document.loadable_of_parse hdocument)
  have hparse : Document.parse design.render = .ok design.document := hloadable.parse_document
  rw [Design.parse, hparse]
  show (ofDocument design.document).mapError Error.design = .ok design
  rw [ofDocument_again hdesign]
  rfl

/-- A list of resources and items, with numbers for kinds and an object for a name. -/
def tipText : String :=
  "[\x7b\"tip\":\x7b\"text\":\"Go\"\x7d\x7d,[\x7b\"kind\":3,\"text\":\"\\u0061;\"," ++
    "\"visibility\":\x7b\"public\":null\x7d,\"children\":[\x7b\"kind\":6," ++
    "\"class\":\"Box\",\"image\":\"tip\",\"x\":-3\x7d]\x7d]]"

def boxMembers : List (List Char × Value) :=
  [field "kind" (.ofInt 6), field "class" (.ofText "Box"), field "image" (.ofText "tip"),
    field "x" (.ofInt (-3))]

def panelMembers : List (List Char × Value) :=
  [field "kind" (.ofInt 3), field "text" (.string "\\u0061;".toList),
    field "visibility" (.object [field "public" .null]),
    field "children" (.array [.object boxMembers])]

def tipValue : Value :=
  .array [.object [field "tip" (.object [field "text" (.ofText "Go")])],
    .array [.object panelMembers]]

def boxItem : Item := .mk none (.widget "Box" none none none none (some "tip") (-3) 0 0 0) []

def tipDocument : Document where
  resources := ⟨[("tip", .text "Go")]⟩
  items := [.mk none (.declaration "a;" .pub) [boxItem]]

def tipNodes : Array Node :=
  #[{ id := ⟨1⟩, depth := 0, scope := .file, hasChildren := true, hasChildWidgets := true
      body := .declaration "a;" .pub, resource := none, labelNumber := 0, tooltipNumber := 0 },
    { id := ⟨2⟩, depth := 1, scope := .file, hasChildren := false, hasChildWidgets := false
      body := .widget "Box" none none none none (some "tip") (-3) 0 0 0
      resource := some (.text "Go"), labelNumber := 0, tooltipNumber := 0 }]

def tipDesign : Design where
  nodes := tipNodes.toList
  resources := ⟨[("tip", .text "Go")]⟩

theorem document_tipValue : Reader.document tipValue = .ok tipDocument := by
  have hbox : Reader.item (.object boxMembers) = .ok boxItem := by
    have hnone : Reader.children boxMembers = .ok [] := by rfl
    rw [Reader.item, hnone, Reader.ok_bind]
    exact Reader.itemOf_eq rfl rfl rfl (by decide +kernel) (by decide +kernel) []
  have hchildren : Reader.children panelMembers = .ok [boxItem] := by
    rw [panelMembers, Reader.children_field_other (by decide),
      Reader.children_field_other (by decide), Reader.children_field_other (by decide),
      Reader.children_field, Reader.items, hbox]
    rfl
  have hpanel : Reader.item (.object panelMembers) =
      .ok (.mk none (.declaration "a;" .pub) [boxItem]) := by
    rw [Reader.item, hchildren, Reader.ok_bind]
    exact Reader.itemOf_eq rfl rfl rfl (by decide +kernel) (by decide +kernel) _
  have hitems : Reader.part Reader.itemArray (.array [.object panelMembers]) =
      .ok tipDocument.items := by
    show Reader.items [.object panelMembers] = _
    rw [Reader.items, hpanel]
    rfl
  rw [tipValue, Reader.document, hitems]
  rfl

theorem parse_tipText : Document.parse tipText = .ok tipDocument := by
  have htokens : Token.lex tipText.toList = some tipValue.tokens := by decide +kernel
  have hvalue : parse? tipText = some tipValue := by
    rw [parse?, htokens]
    exact ofTokens?_tokens tipValue
  rw [Document.parse, hvalue]
  exact document_tipValue

theorem ofDocument_tip : ofDocument tipDocument = .ok tipDesign := by
  refine ofDocument_of_given [] tipNodes rfl rfl (by decide) ?_
  have hfree : freeIds (Std.HashSet.ofList []) 2 = [⟨1⟩, ⟨2⟩] := by
    simp only [freeIds, Std.HashSet.contains_ofList]
    rfl
  exact (congrArg (number tipDocument.resources · 1 #[] (flatten tipDocument.items)) hfree).trans
    rfl

theorem parse_tip : Design.parse tipText = .ok tipDesign := by
  rw [Design.parse, parse_tipText]
  show (ofDocument tipDocument).mapError Error.design = .ok tipDesign
  rw [ofDocument_tip]
  rfl

theorem parse_render_tip :
    Design.parse tipText = .ok tipDesign ∧ Design.parse tipDesign.render = .ok tipDesign ∧
      (Design.parse tipDesign.render).map Design.render = .ok tipDesign.render :=
  ⟨parse_tip, parse_render parse_tip⟩

end Design

end FormWeave
