import FormWeave.Proofs.GoMerge
import FormWeave.Proofs.SavedDesigns

/-!
# Merged designs can be loaded

A merge gives nodes other texts and changes nothing else of them. A document with other texts is
nested as deeply as before and numbered in the same way, so a design that was loaded can be merged,
saved and loaded again.
-/

namespace FormWeave

open Json

/-! ## 1. Items with other texts -/

/-- A change of items that have an id, which changes at most their texts. -/
structure Retexting where
  body : NodeId → ItemBody → ItemBody
  sameButText : ∀ id old, ItemBody.SameButText old (body id old)

variable (r : Retexting)

def Retexting.item (id : Option NodeId) (old : ItemBody) : ItemBody :=
  match id with
  | some id => r.body id old
  | none => old

theorem Retexting.sameButText_item (id : Option NodeId) (old : ItemBody) :
    ItemBody.SameButText old (r.item id old) := by
  cases id with
  | none => exact .refl old
  | some id => exact r.sameButText id old

mutual
def Item.retext : Item → Item
  | .mk id body children => .mk id (r.item id body) (Item.retextAll children)

def Item.retextAll : List Item → List Item
  | [] => []
  | item :: rest => Item.retext item :: Item.retextAll rest
end

def Document.retext (document : Document) : Document :=
  { document with items := Item.retextAll r document.items }

def Node.retext (node : Node) : Node := { node with body := r.body node.id node.body }

def Design.retext (design : Design) : Design :=
  { design with nodes := design.nodes.map (Node.retext r) }

namespace Item

variable {r}

theorem retextAll_eq_map (items : List Item) : retextAll r items = items.map (retext r) := by
  induction items with
  | nil => rfl
  | cons item rest ih => rw [retextAll, ih, List.map_cons]

theorem kind_retext (item : Item) : (retext r item).body.kind = item.body.kind := by
  cases item with
  | mk id body children => exact (r.sameButText_item id body).kind

end Item

namespace ItemBody.SameButText

variable {old new : ItemBody} {id : Option NodeId}

/-- Texts of code and callbacks are no numbers. -/
theorem inRange (h : SameButText old new) (hrange : old.InRange) : new.InRange := by
  have htext : ∀ body : ItemBody, (body.withText "").InRange ↔ body.InRange := by
    intro body
    cases body <;> exact Iff.rfl
  rw [← htext, h.rest, htext]
  exact hrange

theorem childScope (h : SameButText old new) (scope : NodeScope) :
    new.childScope scope = old.childScope scope := by
  have hkind := h.kind
  cases old <;> cases new <;> first | rfl | cases hkind

end ItemBody.SameButText

/-! ## 2. Documents with other texts -/

mutual
/-- Another text takes no nesting. -/
theorem Item.fits_retext (item : Item) (hrange : item.InRange) :
    (Item.retext r item).InRange ∧ ∀ depth, item.toJson.fits depth = true →
      (Item.retext r item).toJson.fits depth = true := by
  match item with
  | .mk id body children =>
    obtain ⟨hbody, hitems⟩ := hrange
    have hbody' := (r.sameButText_item id body).inRange hbody
    obtain ⟨hchildren, hfits⟩ := Item.fits_retextAll children hitems
    refine ⟨⟨hbody', hchildren⟩, fun depth hdepth => ?_⟩
    cases depth with
    | zero => cases hdepth
    | succ depth =>
      rw [Item.fits_mk hbody] at hdepth
      rw [Item.retext, Item.fits_mk hbody']
      intro hne
      have hsome : children ≠ [] := by
        rintro rfl
        exact hne rfl
      have harray := hdepth hsome
      cases depth with
      | zero => cases harray
      | succ depth => exact hfits depth harray

theorem Item.fits_retextAll (items : List Item) (hrange : Item.AllInRange items) :
    Item.AllInRange (Item.retextAll r items) ∧
      ∀ depth, Json.Value.itemsFit depth (Item.listToJson items) = true →
        Json.Value.itemsFit depth (Item.listToJson (Item.retextAll r items)) = true := by
  match items with
  | [] => exact ⟨trivial, fun _ _ => rfl⟩
  | item :: rest =>
    obtain ⟨hitem, hfits⟩ := Item.fits_retext item hrange.1
    obtain ⟨hrest, hrestFits⟩ := Item.fits_retextAll rest hrange.2
    refine ⟨⟨hitem, hrest⟩, fun depth hdepth => ?_⟩
    obtain ⟨hfirst, hothers⟩ := Bool.and_eq_true_iff.1 hdepth
    exact Bool.and_eq_true_iff.2 ⟨hfits depth hfirst, hrestFits depth hothers⟩
end

theorem Document.Loadable.retext {document : Document} (h : document.Loadable) :
    (document.retext r).Loadable := by
  obtain ⟨hrange, hfits⟩ := Item.fits_retextAll r _ h.inRange
  exact ⟨hrange, hfits _ h.fits, h.sorted⟩

/-! ## 3. Designs with other texts -/

namespace Design

def FlatItem.retext (item : FlatItem) : FlatItem :=
  { item with body := r.item item.id? item.body }

mutual
theorem flatItem_retext (depth : Nat) (scope : NodeScope) (item : Item) :
    flatItem depth scope (Item.retext r item) =
      (flatItem depth scope item).map (FlatItem.retext r) := by
  match item with
  | .mk id body children =>
    have hsame := r.sameButText_item id body
    have hempty : (Item.retextAll r children).isEmpty = children.isEmpty := by
      cases children <;> rfl
    have hwidgets : ((Item.retextAll r children).any fun item => item.body.kind == .widget) =
        children.any fun item => item.body.kind == .widget := by
      rw [Item.retextAll_eq_map, List.any_map]
      exact congrArg children.any (funext fun item => congrArg (· == _) item.kind_retext)
    rw [Item.retext, flatItem, flatItem, List.map_cons, hempty, hwidgets, hsame.childScope,
      flatItems_retext (depth + 1) _ children]
    rfl

theorem flatItems_retext (depth : Nat) (scope : NodeScope) (items : List Item) :
    flatItems depth scope (Item.retextAll r items) =
      (flatItems depth scope items).map (FlatItem.retext r) := by
  match items with
  | [] => rfl
  | item :: rest =>
    rw [Item.retextAll, flatItems, flatItems, List.map_append, flatItem_retext, flatItems_retext]
end

variable {r}

/-- Texts of code and callbacks do not count in the numbering. -/
theorem nodeOf_retext {resources : ResourceTable} {id : NodeId} {next : Nat} {item : FlatItem}
    (hid : item.id? = some id) :
    nodeOf resources id next (FlatItem.retext r item) =
      (Node.retext r (nodeOf resources id next item).1, (nodeOf resources id next item).2) := by
  have hsame := r.sameButText_item item.id? item.body
  have hbody : r.item item.id? item.body = r.body id item.body := by rw [hid]; rfl
  simp only [nodeOf, FlatItem.retext, Node.retext, hsame.kind, hsame.label, hsame.tooltip,
    hsame.resource]
  rw [hbody]

theorem number_given {resources : ResourceTable} {id : NodeId} {item : FlatItem}
    (hid : item.id? = some id) (free : List NodeId) (next : Nat) (done : Array Node)
    (rest : List FlatItem) : number resources free next done (item :: rest) =
      number resources free (nodeOf resources id next item).2
        (done.push (nodeOf resources id next item).1) rest := by
  conv => lhs; unfold number
  simp only [hid]

theorem number_retext {resources : ResourceTable} {items : List FlatItem}
    (hids : ∀ item ∈ items, item.id?.isSome = true) :
    ∀ {free : List NodeId} {next : Nat} {done nodes : Array Node},
      number resources free next done items = .ok nodes →
      number resources free next (done.map (Node.retext r)) (items.map (FlatItem.retext r)) =
        .ok (nodes.map (Node.retext r)) := by
  induction items with
  | nil =>
    intro free next done nodes h
    cases h
    rfl
  | cons item rest ih =>
    intro free next done nodes h
    obtain ⟨id, hid⟩ := Option.isSome_iff_exists.1 (hids item List.mem_cons_self)
    have hid' : (FlatItem.retext r item).id? = some id := hid
    rw [number_given hid] at h
    rw [List.map_cons, number_given hid', nodeOf_retext hid, ← Array.map_push]
    exact ih (fun other hother => hids other (List.mem_cons_of_mem _ hother)) h

variable {document : Document} {design : Design} {text : String}

theorem ofDocument_retext (h : ofDocument document = .ok design) :
    ofDocument (design.document.retext r) = .ok (design.retext r) := by
  have hagain := ofDocument_again h
  have hflat : flatten (design.document.retext r).items =
      (flatten design.document.items).map (FlatItem.retext r) := by
    rw [flatten_eq, flatten_eq]
    exact flatItems_retext r 0 .file _
  -- All items of the document have ids.
  have hids : ∀ item ∈ flatten design.document.items, item.id?.isSome = true := by
    intro item hitem
    have hid : item.id? ∈ (flatten design.document.items).map FlatItem.id? :=
      List.mem_map_of_mem hitem
    rw [ids_document] at hid
    obtain ⟨node, -, hnode⟩ := List.mem_map.1 hid
    rw [← hnode]
    rfl
  obtain ⟨nodes, hdistinct, hnumber, hdesign⟩ := ofDocument_cases hagain
  have hgiven : ((flatten design.document.items).map (FlatItem.retext r)).filterMap (·.id?) =
      (flatten design.document.items).filterMap (·.id?) := by
    rw [List.filterMap_map]
    rfl
  have hnodes : design.retext r =
      { nodes := (nodes.map (Node.retext r)).toList, resources := design.document.resources } := by
    rw [hdesign]
    simp [Design.retext, Design.document]
  rw [hnodes]
  refine ofDocument_of_given _ _ (hflat ▸ hgiven) hdistinct ?_ ?_
  · rw [hflat, List.length_map]
    exact length_le_of_ofDocument hagain
  · rw [hflat, List.length_map]
    have hnumber' := number_retext (r := r) hids hnumber
    rwa [Array.map_empty] at hnumber'

/-! ## 4. Saving and loading -/

/-- White space at the end of a text does not matter. -/
theorem parse_line {whole : Document} (h : whole.Loadable) :
    Document.parse (whole.render ++ "\n") = .ok whole := by
  have hspace : Token.Lexes Token.Anything ['\n'] [] :=
    Token.lexes_space fun c hc => by rw [List.mem_singleton.1 hc]; rfl
  have hstops : ∀ rest, Token.Stops rest → Token.Stops (['\n'] ++ rest) := by
    rintro rest - c hc
    cases hc
    decide
  have hlexes : Token.Lexes Token.Stops (whole.render ++ "\n").toList whole.toJson.tokens := by
    rw [String.toList_append, ← List.append_nil whole.toJson.tokens]
    exact (Value.lexes_prettyAt 0 whole.toJson h.plain_toJson).append
      (hspace.mono fun _ _ => trivial) hstops
  have hparse : Value.parse? (whole.render ++ "\n") = some whole.toJson := by
    rw [Value.parse?, hlexes.lex]
    exact Value.ofTokens?_tokens whole.toJson
  rw [Document.parse, hparse]
  exact h.document_toJson

theorem parse_retext (h : Design.parse text = .ok design) :
    Design.parse ((design.retext r).render ++ "\n") = .ok (design.retext r) := by
  obtain ⟨document, hdocument, hdesign⟩ := parse_cases h
  have hloadable : design.document.Loadable :=
    (filledBy_document hdesign).loadable (Document.loadable_of_parse hdocument)
  have hchanged := ofDocument_retext (r := r) hdesign
  have hwhole : (design.retext r).document.Loadable :=
    (filledBy_document hchanged).loadable (hloadable.retext r)
  have hparse : Document.parse ((design.retext r).render ++ "\n") =
      .ok (design.retext r).document := parse_line hwhole
  rw [Design.parse, hparse]
  show (ofDocument (design.retext r).document).mapError Error.design = _
  rw [ofDocument_again hchanged]
  rfl

/-! ## 5. Settled designs -/

def bareNode (id : NodeId) (body : ItemBody) : Node := { (default : Node) with id, body }

def settling (blocks : List ChangedBlock) : Retexting where
  body id body := ((bareNode id body).settle blocks).body
  sameButText id body := ((bareNode id body).settle_spec blocks).2.2

theorem retext_settling (blocks : List ChangedBlock) (node : Node) :
    node.retext (settling blocks) = node.settle blocks := by
  have hlast : (bareNode node.id node.body).lastText? blocks = node.lastText? blocks :=
    Node.lastText?_congr rfl rfl blocks
  show { node with body := ((bareNode node.id node.body).settle blocks).body } = _
  rw [Node.settle, Node.settle, hlast]
  cases node.lastText? blocks <;> rfl

/-- A design that was loaded can be loaded again after a merge. -/
theorem parse_settled (h : Design.parse text = .ok design) (blocks : List ChangedBlock) :
    let merged := { design with nodes := design.nodes.map (Node.settle blocks) }
    Design.parse (merged.render ++ "\n") = .ok merged := by
  have hmerged : design.retext (settling blocks) =
      { design with nodes := design.nodes.map (Node.settle blocks) } := by
    rw [Design.retext, funext (retext_settling blocks)]
  rw [← hmerged]
  exact parse_retext h

end Design

end FormWeave
