import FormWeave.Design.Document

/-!
# Sorted resource tables

A table is made entry by entry, and every entry is put at its place. The entries of a table that is
sorted make the same table again, since each is put behind those before it.
-/

namespace FormWeave.ResourceTable

abbrev Entries := List (String × Resource)

/-- Names go up, so no two entries have one name. -/
def Sorted (table : ResourceTable) : Prop := table.entries.Pairwise (·.1 < ·.1)

variable {name other : String} {resource : Resource} {entries : Entries} {table : ResourceTable}

theorem lt_of_not_lt (hne : name ≠ other) (hlt : ¬ name < other) : other < name := by
  refine Decidable.not_not.1 fun hge => hne ?_
  exact String.le_antisymm (String.not_lt.1 hge) (String.not_lt.1 hlt)

theorem mem_insertEntry {entry : String × Resource} (h : entry ∈ insertEntry name resource entries) :
    entry = (name, resource) ∨ entry ∈ entries := by
  induction entries with
  | nil => exact .inl (List.mem_singleton.1 h)
  | cons first rest ih =>
    rw [insertEntry] at h
    split at h
    · exact (List.mem_cons.1 h).imp_right (List.mem_cons_of_mem _)
    · split at h
      · exact List.mem_cons.1 h
      · rcases List.mem_cons.1 h with rfl | h
        · exact .inr List.mem_cons_self
        · exact (ih h).imp_right (List.mem_cons_of_mem _)

theorem pairwise_insertEntry (h : entries.Pairwise (·.1 < ·.1)) :
    (insertEntry name resource entries).Pairwise (·.1 < ·.1) := by
  induction entries with
  | nil => exact List.pairwise_singleton _ _
  | cons first rest ih =>
    obtain ⟨other, held⟩ := first
    obtain ⟨hfirst, hrest⟩ := List.pairwise_cons.1 h
    rw [insertEntry]
    split
    · next heq => exact List.pairwise_cons.2 ⟨fun entry hmem => heq ▸ hfirst entry hmem, hrest⟩
    · next hne =>
      split
      · next hlt =>
        refine List.pairwise_cons.2 ⟨List.forall_mem_cons.2 ⟨hlt, fun entry hmem => ?_⟩, h⟩
        exact String.lt_trans hlt (hfirst entry hmem)
      · next hlt =>
        refine List.pairwise_cons.2 ⟨fun entry hmem => ?_, ih hrest⟩
        rcases mem_insertEntry hmem with rfl | hmem
        · exact lt_of_not_lt hne hlt
        · exact hfirst entry hmem

theorem Sorted.insert (h : table.Sorted) : (table.insert name resource).Sorted :=
  pairwise_insertEntry h

theorem sorted_ofList (entries : Entries) : (ofList entries).Sorted := by
  suffices hall : ∀ table : ResourceTable, table.Sorted →
      (entries.foldl (fun table entry => table.insert entry.1 entry.2) table).Sorted from
    hall {} List.Pairwise.nil
  induction entries with
  | nil => exact fun _ h => h
  | cons entry rest ih => exact fun table h => ih _ h.insert

/-- A name behind all others is put at the end. -/
theorem insertEntry_last (h : ∀ entry ∈ entries, entry.1 < name) :
    insertEntry name resource entries = entries ++ [(name, resource)] := by
  induction entries with
  | nil => rfl
  | cons first rest ih =>
    obtain ⟨hfirst, hrest⟩ := List.forall_mem_cons.1 h
    have hne : name ≠ first.1 := fun heq => String.lt_irrefl _ (heq ▸ hfirst)
    have hlt : ¬ name < first.1 := fun hlt => String.lt_irrefl _ (String.lt_trans hlt hfirst)
    rw [insertEntry, if_neg hne, if_neg hlt, ih hrest]
    rfl

theorem foldl_insert (entries : Entries) : ∀ table : ResourceTable,
    (table.entries ++ entries).Pairwise (·.1 < ·.1) →
      entries.foldl (fun (table : ResourceTable) entry => table.insert entry.1 entry.2) table =
        { entries := table.entries ++ entries } := by
  induction entries with
  | nil =>
    intro table _
    rw [List.append_nil, List.foldl_nil]
  | cons entry rest ih =>
    intro table hsorted
    -- The entry is behind all that are in the table, so it goes to the end.
    have hbefore : ∀ other ∈ table.entries, other.1 < entry.1 :=
      fun other hother => (List.pairwise_append.1 hsorted).2.2 other hother entry List.mem_cons_self
    have hinsert : table.insert entry.1 entry.2 = { entries := table.entries ++ [entry] } :=
      congrArg ResourceTable.mk (insertEntry_last hbefore)
    rw [List.foldl_cons, hinsert, ih]
    · simp only [List.append_assoc, List.singleton_append]
    · rwa [List.append_assoc, List.singleton_append]

theorem ofList_entries (h : table.Sorted) : ofList table.entries = table :=
  foldl_insert table.entries {} h

end FormWeave.ResourceTable
