import FormWeave.Design.Basic
import Mathlib.Data.List.Nodup
import Mathlib.Data.List.Perm.Basic

/-!
# The ids of a design

A document becomes a design only if no id is given twice, and items without an id get ids that are
not in use. So no two nodes of a design have the same id.
-/

namespace FormWeave.Design

def DistinctIds (design : Design) : Prop := (design.nodes.map Node.id).Nodup

instance (design : Design) : Decidable design.DistinctIds :=
  inferInstanceAs (Decidable (List.Nodup _))

theorem DistinctIds.nodup {design : Design} (h : design.DistinctIds) : design.nodes.Nodup :=
  List.Nodup.of_map _ h

theorem DistinctIds.eq_of_id {design : Design} (h : design.DistinctIds) {node other : Node}
    (hnode : node ∈ design.nodes) (hother : other ∈ design.nodes) (hid : node.id = other.id) :
    node = other := List.inj_on_of_nodup_map h hnode hother hid

theorem nodup_of_firstRepeated? {ids : List NodeId} :
    ∀ {seen : Std.HashSet NodeId}, firstRepeated? seen ids = none →
      ids.Nodup ∧ ∀ id ∈ ids, seen.contains id = false := by
  induction ids with
  | nil => exact fun _ => ⟨List.nodup_nil, by simp⟩
  | cons id rest ih =>
    intro seen h
    rw [firstRepeated?] at h
    -- The id that stands first is new, and those behind it are others.
    by_cases hseen : seen.contains id = true
    · rw [if_pos hseen] at h
      cases h
    · rw [if_neg hseen] at h
      obtain ⟨hrest, hfree⟩ := ih h
      have hid : ∀ other ∈ rest, (id == other) = false ∧ seen.contains other = false := by
        intro other hother
        have hinsert := hfree other hother
        rwa [Std.HashSet.contains_insert, Bool.or_eq_false_iff] at hinsert
      refine ⟨List.nodup_cons.2 ⟨fun hmem => ?_, hrest⟩, fun other hother => ?_⟩
      · have hself := (hid id hmem).1
        rw [beq_self_eq_true] at hself
        cases hself
      · rcases List.mem_cons.1 hother with rfl | hother
        · exact Bool.eq_false_iff.2 hseen
        · exact (hid other hother).2

/-- The ids 1, 2, …, 65535, 0 are all different. -/
theorem nodup_freeIds (used : Std.HashSet NodeId) (count : Nat) : (freeIds used count).Nodup := by
  refine List.Nodup.filter _ (List.Nodup.map_on (fun i hi j hj h => ?_) List.nodup_range)
  rw [List.mem_range] at hi hj
  have hvalue := congrArg (fun id : NodeId => id.value.toNat) h
  simp only [UInt16.toNat_ofNat'] at hvalue
  omega

theorem not_contains_of_mem_freeIds {used : Std.HashSet NodeId} {count : Nat} {id : NodeId}
    (h : id ∈ freeIds used count) : used.contains id = false := by
  have hfree := (List.mem_filter.1 h).2
  rwa [Bool.not_eq_true'] at hfree

/-- The nodes have the given ids and some of the free ones. -/
theorem perm_number {resources : ResourceTable} {items : List FlatItem} :
    ∀ {free : List NodeId} {next : Nat} {done nodes : Array Node},
      number resources free next done items = .ok nodes →
      ∃ taken, List.Sublist taken free ∧ List.Perm (nodes.toList.map Node.id)
        (done.toList.map Node.id ++ (items.filterMap (·.id?) ++ taken)) := by
  induction items with
  | nil =>
    intro free next done nodes h
    cases h
    exact ⟨[], List.nil_sublist _, by simp⟩
  | cons item rest ih =>
    intro free next done nodes h
    have hid : ∀ id, (nodeOf resources id next item).1.id = id := fun id => rfl
    unfold number at h
    cases hitem : item.id? with
    | some id =>
      simp only [hitem] at h
      obtain ⟨taken, hsub, hperm⟩ := ih h
      refine ⟨taken, hsub, hperm.trans ?_⟩
      rw [List.filterMap_cons_some hitem]
      simp [hid]
    | none =>
      -- An item without an id takes the first of the free ones.
      cases free with
      | nil =>
        simp only [hitem] at h
        cases h
      | cons id free =>
        simp only [hitem] at h
        obtain ⟨taken, hsub, hperm⟩ := ih h
        refine ⟨id :: taken, hsub.cons_cons id, hperm.trans ?_⟩
        rw [List.filterMap_cons_none hitem]
        simp only [Array.toList_push, List.map_append, List.map_cons, List.map_nil, hid,
          List.append_assoc, List.singleton_append]
        exact List.Perm.append_left _ List.perm_middle.symm

/-- A document is a design if no id is given twice and its items can be numbered. -/
theorem ofDocument_cases {document : Document} {design : Design}
    (h : ofDocument document = .ok design) :
    let items := flatten document.items
    let given := items.filterMap (·.id?)
    ∃ nodes, firstRepeated? {} given = none ∧
      number document.resources
        (freeIds (Std.HashSet.ofList given) (items.length + given.length)) 1 #[] items =
          .ok nodes ∧
      design = { nodes := nodes.toList, resources := document.resources } := by
  intro items given
  unfold ofDocument at h
  dsimp only at h
  split at h
  · cases h
  cases hrepeated : firstRepeated? {} given with
  | some id =>
    rw [hrepeated] at h
    cases h
  | none =>
    rw [hrepeated] at h
    cases hnumber : number document.resources
        (freeIds (Std.HashSet.ofList given) (items.length + given.length)) 1 #[] items with
    | error e =>
      rw [hnumber] at h
      cases h
    | ok nodes =>
      rw [hnumber] at h
      cases h
      exact ⟨nodes, rfl, rfl, rfl⟩

/-- Items that do not give an id twice and can be numbered are a design. -/
theorem ofDocument_of_given {document : Document} (given : List NodeId) (nodes : Array Node)
    (hgiven : (flatten document.items).filterMap (·.id?) = given)
    (hdistinct : firstRepeated? {} given = none)
    (hlength : (flatten document.items).length ≤ maxNodes)
    (hnumber : number document.resources (freeIds (Std.HashSet.ofList given)
      ((flatten document.items).length + given.length)) 1 #[] (flatten document.items) = .ok nodes) :
    ofDocument document = .ok { nodes := nodes.toList, resources := document.resources } := by
  unfold ofDocument
  dsimp only
  rw [if_neg (Nat.not_lt.2 hlength), hgiven, hdistinct, hnumber]
  rfl

/-- No two nodes of the design of a document have the same id. -/
theorem distinctIds_ofDocument {document : Document} {design : Design}
    (h : ofDocument document = .ok design) : design.DistinctIds := by
  obtain ⟨nodes, hrepeated, hnumber, rfl⟩ := ofDocument_cases h
  obtain ⟨taken, hsub, hperm⟩ := perm_number hnumber
  have htaken : taken.Nodup := hsub.nodup (nodup_freeIds _ _)
  -- No item gives an id that counts as free.
  have hdisjoint : ((flatten document.items).filterMap (·.id?)).Disjoint taken := by
    intro id hid hmem
    have hfresh := not_contains_of_mem_freeIds (hsub.subset hmem)
    rw [Std.HashSet.contains_ofList] at hfresh
    rw [List.contains_iff_mem.2 hid] at hfresh
    cases hfresh
  rw [List.map_nil, List.nil_append] at hperm
  refine hperm.nodup_iff.2 ?_
  exact List.Nodup.append (nodup_of_firstRepeated? hrepeated).1 htaken hdisjoint

def sample : Design where
  nodes :=
    [{ id := ⟨1⟩, depth := 0, scope := .file, hasChildren := true, hasChildWidgets := false
       body := .function "main()" "int" .pub, resource := none, labelNumber := 0
       tooltipNumber := 0 },
     { id := ⟨2⟩, depth := 1, scope := .inner, hasChildren := false, hasChildWidgets := false
       body := .code "return 0;", resource := none, labelNumber := 0, tooltipNumber := 0 }]

theorem distinctIds_sample : sample.DistinctIds := by decide

end FormWeave.Design
