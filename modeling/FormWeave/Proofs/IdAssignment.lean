import FormWeave.Proofs.DesignDocuments
import Mathlib.Data.List.ReduceOption

/-!
# How the items of a document get their ids

Every document has one of three outcomes. It has more items than a design may have nodes; or an id
is given twice, and the first one given again is reported; or it becomes a design, whose nodes keep
the given ids and take the other ones in the order 1, 2, …, 65535, 0. In the third case the ids
always suffice.
-/

namespace FormWeave

/-! ## 1. The ids of a document -/

mutual
def Item.ids : Item → List (Option NodeId)
  | .mk id _ children => id :: Item.allIds children

def Item.allIds : List Item → List (Option NodeId)
  | [] => []
  | item :: rest => item.ids ++ Item.allIds rest
end

namespace Document

def ids (document : Document) : List (Option NodeId) := Item.allIds document.items

def givenIds (document : Document) : List NodeId := document.ids.reduceOption

end Document

namespace Design

mutual
theorem map_id?_flatItem (depth : Nat) (scope : NodeScope) (item : Item) :
    (flatItem depth scope item).map FlatItem.id? = item.ids := by
  match item with
  | .mk id body children =>
    rw [flatItem, Item.ids, List.map_cons, map_id?_flatItems]

theorem map_id?_flatItems (depth : Nat) (scope : NodeScope) (items : List Item) :
    (flatItems depth scope items).map FlatItem.id? = Item.allIds items := by
  match items with
  | [] => rfl
  | item :: rest =>
    rw [flatItems, Item.allIds, List.map_append, map_id?_flatItem, map_id?_flatItems]
end

theorem map_id?_flatten (document : Document) :
    (flatten document.items).map FlatItem.id? = document.ids := by
  rw [flatten_eq, map_id?_flatItems]
  rfl

theorem length_flatten (document : Document) :
    (flatten document.items).length = document.ids.length := by
  rw [← map_id?_flatten, List.length_map]

theorem filterMap_id?_flatten (document : Document) :
    (flatten document.items).filterMap (·.id?) = document.givenIds := by
  rw [Document.givenIds, ← map_id?_flatten, List.reduceOption, List.filterMap_map]
  rfl

/-! ## 2. The first id that is given again -/

/-- `id` is given again, and no id is given again before that. -/
def FirstRepeated (id : NodeId) (given : List NodeId) : Prop :=
  ∃ front back, given = front ++ id :: back ∧ front.Nodup ∧ id ∈ front

/-- An id is reported if it is in `seen` or in the ids before it, which are new and different. -/
theorem firstRepeated?_eq_some {id : NodeId} {ids : List NodeId} :
    ∀ {seen : Std.HashSet NodeId}, firstRepeated? seen ids = some id →
      ∃ front back, ids = front ++ id :: back ∧ front.Nodup ∧
        (∀ other ∈ front, seen.contains other = false) ∧
        (seen.contains id = true ∨ id ∈ front) := by
  induction ids with
  | nil =>
    intro seen h
    cases h
  | cons first rest ih =>
    intro seen h
    rw [firstRepeated?] at h
    by_cases hseen : seen.contains first = true
    · rw [if_pos hseen] at h
      cases h
      exact ⟨[], rest, rfl, List.nodup_nil, fun _ hother => (by cases hother), .inl hseen⟩
    · rw [if_neg hseen] at h
      obtain ⟨front, back, rfl, hnodup, hnew, hid⟩ := ih h
      -- Behind the first id, an id that was seen is that one or one of those from before.
      simp only [Std.HashSet.contains_insert, Bool.or_eq_false_iff, Bool.or_eq_true] at hnew hid
      have hfirst : first ∉ front := fun hmem => beq_eq_false_iff_ne.1 (hnew first hmem).1 rfl
      refine ⟨first :: front, back, rfl, List.nodup_cons.2 ⟨hfirst, hnodup⟩, ?_, ?_⟩
      · rintro other (_ | ⟨_, hother⟩)
        · exact Bool.eq_false_iff.2 hseen
        · exact (hnew other hother).2
      · rcases hid with (hsame | hin) | hin
        · exact .inr (beq_iff_eq.1 hsame ▸ List.mem_cons_self)
        · exact .inl hin
        · exact .inr (List.mem_cons_of_mem _ hin)

/-- Ids that are given twice have one first id that is given again. -/
theorem exists_firstRepeated? {given : List NodeId} (h : ¬ given.Nodup) :
    ∃ id, firstRepeated? {} given = some id :=
  Option.ne_none_iff_exists'.1 fun hnone => h (nodup_of_firstRepeated? hnone).1

theorem firstRepeated_of_eq_some {given : List NodeId} {id : NodeId}
    (h : firstRepeated? {} given = some id) : FirstRepeated id given := by
  obtain ⟨front, back, rfl, hnodup, -, hseen | hin⟩ := firstRepeated?_eq_some h
  · rw [Std.HashSet.contains_empty] at hseen
    cases hseen
  · exact ⟨front, back, rfl, hnodup, hin⟩

theorem FirstRepeated.not_nodup {id : NodeId} {given : List NodeId} (h : FirstRepeated id given) :
    ¬ given.Nodup := by
  obtain ⟨front, back, rfl, -, hid⟩ := h
  exact fun hnodup => (List.nodup_append.1 hnodup).2.2 id hid id List.mem_cons_self rfl

/-- Of two splits at a repeated id, none lies behind the other: the ids in front are different. -/
theorem FirstRepeated.unique {id other : NodeId} {given : List NodeId}
    (h : FirstRepeated id given) (h' : FirstRepeated other given) : id = other := by
  obtain ⟨front, back, rfl, hnodup, hid⟩ := h
  obtain ⟨front', back', heq, hnodup', hother⟩ := h'
  rcases List.append_eq_append_iff.1 heq with ⟨between, rfl, htail⟩ | ⟨between, rfl, htail⟩
  · cases between with
    | nil => exact (List.cons.inj htail).1
    | cons first between =>
      cases (List.cons.inj htail).1
      exact ((List.nodup_append.1 hnodup').2.2 id hid id List.mem_cons_self rfl).elim
  · cases between with
    | nil => exact (List.cons.inj htail).1.symm
    | cons first between =>
      cases (List.cons.inj htail).1
      exact ((List.nodup_append.1 hnodup).2.2 other hother other List.mem_cons_self rfl).elim

theorem firstRepeated_iff {id : NodeId} {given : List NodeId} :
    firstRepeated? {} given = some id ↔ FirstRepeated id given := by
  refine ⟨firstRepeated_of_eq_some, fun h => ?_⟩
  obtain ⟨found, hfound⟩ := exists_firstRepeated? h.not_nodup
  rw [hfound, h.unique (firstRepeated_of_eq_some hfound)]

/-! ## 3. The order of the unused ids -/

/-- All ids: 1, 2, …, 65535, 0. -/
def idOrder : List NodeId := (List.range 65536).map fun i => NodeId.mk (.ofNat (i + 1))

def unusedIds (given : List NodeId) : List NodeId := idOrder.filter fun id => id ∉ given

theorem isPrefix_freeIds (given : List NodeId) (count : Nat) :
    freeIds (Std.HashSet.ofList given) count <+: unusedIds given := by
  have horder : (List.range (min count 65536)).map (fun i => NodeId.mk (.ofNat (i + 1))) <+:
      idOrder := by
    rw [← List.take_range]
    exact (List.take_prefix _ _).map _
  have hkeep : (fun id => !(Std.HashSet.ofList given).contains id) = fun id => decide (id ∉ given) := by
    funext id
    rw [Std.HashSet.contains_ofList, List.contains_eq_mem, decide_not]
  rw [freeIds, hkeep]
  exact horder.filter _

/-- Each given id takes at most one place among the first `count`. -/
theorem le_length_freeIds (given : List NodeId) (count : Nat) :
    min count 65536 ≤ (freeIds (Std.HashSet.ofList given) count).length + given.length := by
  let first := (List.range (min count 65536)).map fun i => NodeId.mk (.ofNat (i + 1))
  have hnodup : first.Nodup := by
    have h := nodup_freeIds {} count
    simpa [freeIds, first] using h
  -- The ids that are not free are given and all different, so there are no more of them.
  have htaken : (first.filter fun id => (Std.HashSet.ofList given).contains id).length ≤
      given.length := by
    refine (List.subperm_of_subset (hnodup.filter _) fun id hid => ?_).length_le
    have hmem := (List.mem_filter.1 hid).2
    rwa [Std.HashSet.contains_ofList, List.contains_iff_mem] at hmem
  have hsplit := List.length_eq_length_filter_add
    (l := first) fun id => (Std.HashSet.ofList given).contains id
  have hfirst : first.length = min count 65536 := by
    rw [List.length_map, List.length_range]
  have hfree : (freeIds (Std.HashSet.ofList given) count).length =
      (first.filter fun id => !(Std.HashSet.ofList given).contains id).length := rfl
  omega

/-! ## 4. Numbering the items -/

/-- `taken` are ids for items: each item keeps the id it gives, or else takes the first one of
`free` that is left. -/
inductive Assigned : (free : List NodeId) → List (Option NodeId) → (taken : List NodeId) → Prop
  | nil (free : List NodeId) : Assigned free [] []
  | given (id : NodeId) {free : List NodeId} {ids : List (Option NodeId)} {taken : List NodeId} :
    Assigned free ids taken → Assigned free (some id :: ids) (id :: taken)
  | free (id : NodeId) {free : List NodeId} {ids : List (Option NodeId)} {taken : List NodeId} :
    Assigned free ids taken → Assigned (id :: free) (none :: ids) (id :: taken)

/-- More free ids behind the others do not matter. -/
theorem Assigned.mono {free more : List NodeId} {ids : List (Option NodeId)} {taken : List NodeId}
    (h : Assigned free ids taken) (hmore : free <+: more) : Assigned more ids taken := by
  obtain ⟨behind, rfl⟩ := hmore
  induction h with
  | nil => exact .nil _
  | given id _ ih => exact .given id ih
  | free id _ ih => exact .free id ih

variable {resources : ResourceTable}

theorem assigned_number {items : List FlatItem} :
    ∀ {free : List NodeId} {next : Nat} {done nodes : Array Node},
      number resources free next done items = .ok nodes →
      ∃ made, nodes.toList = done.toList ++ made ∧
        Assigned free (items.map FlatItem.id?) (made.map Node.id) := by
  induction items with
  | nil =>
    intro free next done nodes h
    cases h
    exact ⟨[], (List.append_nil _).symm, .nil free⟩
  | cons item rest ih =>
    intro free next done nodes h
    unfold number at h
    cases hitem : item.id? with
    | some id =>
      simp only [hitem] at h
      obtain ⟨made, hnodes, hmade⟩ := ih h
      rw [Array.toList_push, List.append_assoc] at hnodes
      rw [List.map_cons, hitem]
      exact ⟨_, hnodes, .given id hmade⟩
    | none =>
      cases free with
      | nil =>
        -- Without a free id the items are not numbered.
        simp only [hitem] at h
        cases h
      | cons id free =>
        simp only [hitem] at h
        obtain ⟨made, hnodes, hmade⟩ := ih h
        rw [Array.toList_push, List.append_assoc] at hnodes
        rw [List.map_cons, hitem]
        exact ⟨_, hnodes, .free id hmade⟩

/-- Items can be numbered if there is a free id for each one that gives none. -/
theorem exists_number (resources : ResourceTable) {items : List FlatItem} :
    ∀ {free : List NodeId} (next : Nat) (done : Array Node),
      ((items.map FlatItem.id?).filter Option.isNone).length ≤ free.length →
      ∃ nodes, number resources free next done items = .ok nodes := by
  induction items with
  | nil => exact fun _ _ _ => ⟨_, rfl⟩
  | cons item rest ih =>
    intro free next done h
    unfold number
    rw [List.map_cons] at h
    cases hitem : item.id? with
    | some id =>
      rw [hitem, List.filter_cons_of_neg Bool.false_ne_true] at h
      exact ih _ _ h
    | none =>
      rw [hitem, List.filter_cons_of_pos rfl] at h
      cases free with
      | nil => exact absurd h (Nat.not_succ_le_zero _)
      | cons id free => exact ih _ _ (Nat.le_of_succ_le_succ h)

/-! ## 5. Documents -/

variable {document : Document}

theorem ofDocument_eq_tooMany (h : maxNodes < document.ids.length) :
    ofDocument document = .error .tooManyNodes := by
  rw [← length_flatten] at h
  unfold ofDocument
  dsimp only
  rw [if_pos h]
  rfl

theorem ofDocument_eq_duplicate (h : document.ids.length ≤ maxNodes) {id : NodeId}
    (hid : FirstRepeated id document.givenIds) :
    ofDocument document = .error (.duplicateNodeId id) := by
  rw [← length_flatten] at h
  unfold ofDocument
  dsimp only
  rw [if_neg (Nat.not_lt.2 h), filterMap_id?_flatten, firstRepeated_iff.2 hid]
  rfl

/-- There are enough ids: of 65536, one more than a design has nodes, each given one takes one. -/
theorem length_without_id_le (h : document.ids.length ≤ maxNodes) :
    (document.ids.filter Option.isNone).length ≤ (freeIds (Std.HashSet.ofList document.givenIds)
      (document.ids.length + document.givenIds.length)).length := by
  have hplaces := le_length_freeIds document.givenIds
    (document.ids.length + document.givenIds.length)
  have hids : document.ids.length =
      document.givenIds.length + (document.ids.filter Option.isNone).length :=
    List.length_eq_reduceOption_length_add_filter_none
  rw [maxNodes] at h
  omega

theorem exists_ofDocument (h : document.ids.length ≤ maxNodes) (hgiven : document.givenIds.Nodup) :
    ∃ design, ofDocument document = .ok design := by
  have hcount := length_without_id_le h
  rw [← length_flatten, ← map_id?_flatten] at hcount
  obtain ⟨nodes, hnodes⟩ := exists_number document.resources 1 #[] hcount
  refine ⟨_, ofDocument_of_given document.givenIds nodes (filterMap_id?_flatten document) ?_ ?_
    hnodes⟩
  · exact firstRepeated?_of_nodup hgiven fun _ _ => Std.HashSet.contains_empty
  · rwa [length_flatten]

theorem assigned_ofDocument {design : Design} (h : ofDocument document = .ok design) :
    Assigned (unusedIds document.givenIds) document.ids (design.nodes.map Node.id) := by
  obtain ⟨nodes, -, hnumber, rfl⟩ := ofDocument_cases h
  rw [filterMap_id?_flatten] at hnumber
  obtain ⟨made, hnodes, hmade⟩ := assigned_number hnumber
  rw [List.nil_append] at hnodes
  rw [map_id?_flatten, ← hnodes] at hmade
  exact hmade.mono (isPrefix_freeIds _ _)

/-- The outcome for every document. It is refused if it has more than 65535 items, and otherwise if
an id is given twice, with the first id that is given again; all other documents become designs. The
ids of a design are all different; items keep the ids they give, and the others take the unused ids
in the order 1, 2, …, 65535, 0. -/
theorem ofDocument_ids (document : Document) :
    (ofDocument document = .error .tooManyNodes ↔ 65535 < document.ids.length) ∧
      (∀ id, ofDocument document = .error (.duplicateNodeId id) ↔
        document.ids.length ≤ 65535 ∧ FirstRepeated id document.givenIds) ∧
      ((∃ id, FirstRepeated id document.givenIds) ↔ ¬ document.givenIds.Nodup) ∧
      ((∃ design, ofDocument document = .ok design) ↔
        document.ids.length ≤ 65535 ∧ document.givenIds.Nodup) ∧
      ∀ design, ofDocument document = .ok design →
        (design.nodes.map Node.id).Nodup ∧
          Assigned (unusedIds document.givenIds) document.ids (design.nodes.map Node.id) := by
  have hrepeated : (∃ id, FirstRepeated id document.givenIds) ↔ ¬ document.givenIds.Nodup :=
    ⟨fun ⟨_, h⟩ => h.not_nodup, fun h => (exists_firstRepeated? h).imp fun _ =>
      firstRepeated_of_eq_some⟩
  have hdesign : ∀ design, ofDocument document = .ok design →
      (design.nodes.map Node.id).Nodup ∧
        Assigned (unusedIds document.givenIds) document.ids (design.nodes.map Node.id) :=
    fun design h => ⟨distinctIds_ofDocument h, assigned_ofDocument h⟩
  -- Each of the three conditions has its outcome, so that each outcome has its condition.
  rcases Nat.lt_or_ge maxNodes document.ids.length with hmany | hfew
  · have houtcome := ofDocument_eq_tooMany hmany
    have hnot : ¬ document.ids.length ≤ 65535 := Nat.not_le.2 hmany
    refine ⟨iff_of_true houtcome hmany, fun id => ?_, hrepeated, ?_, hdesign⟩
    · simp [houtcome, hnot]
    · simp [houtcome, hnot]
  · have hnot : ¬ 65535 < document.ids.length := Nat.not_lt.2 hfew
    by_cases hgiven : document.givenIds.Nodup
    · obtain ⟨design, houtcome⟩ := exists_ofDocument hfew hgiven
      refine ⟨?_, fun id => ?_, hrepeated, iff_of_true ⟨design, houtcome⟩ ⟨hfew, hgiven⟩, hdesign⟩
      · simp [houtcome, hnot]
      · simp [houtcome, show ¬ FirstRepeated id document.givenIds from fun h => h.not_nodup hgiven]
    · obtain ⟨first, hfirst⟩ := hrepeated.2 hgiven
      have houtcome := ofDocument_eq_duplicate hfew hfirst
      refine ⟨?_, fun id => ?_, hrepeated, ?_, hdesign⟩
      · simp [houtcome, hnot]
      · rw [houtcome]
        constructor
        · intro h
          cases h
          exact ⟨hfew, hfirst⟩
        · rintro ⟨-, hid⟩
          rw [hfirst.unique hid]
      · simp [houtcome, hgiven]

end Design

end FormWeave
