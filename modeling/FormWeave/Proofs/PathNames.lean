import FormWeave.Path

/-!
# The last name of a path

The pieces of a path stand between its separators. The last one is the name of a file if the path
can mean a file at all, and it is all that a path below a directory and the path alone have in
common for sure.
-/

namespace FormWeave.Path

variable {cs ds piece : List Char} {front : List (List Char)} {path name : String}

/-! ## 1. Pieces -/

theorem pieces_separator (cs : List Char) : pieces ('/' :: cs) = [] :: pieces cs := rfl

theorem pieces_cons {c : Char} (hc : c ≠ '/') (cs : List Char) :
    pieces (c :: cs) = (c :: (pieces cs).headD []) :: (pieces cs).tail := by
  rw [pieces, if_neg (by simpa using hc)]
  cases pieces cs <;> rfl

theorem pieces_ne_nil (cs : List Char) : pieces cs ≠ [] := by
  cases cs with
  | nil => simp [pieces]
  | cons c cs =>
    by_cases hc : c = '/'
    · rw [hc, pieces_separator]
      simp
    · rw [pieces_cons hc]
      simp

theorem exists_last_piece (cs : List Char) : ∃ front piece, pieces cs = front ++ [piece] := by
  have h := pieces_ne_nil cs
  exact ⟨_, _, (List.dropLast_concat_getLast h).symm⟩

/-- The pieces behind a separator are those of the text behind it. -/
theorem pieces_append_separator (cs ds : List Char) :
    pieces (cs ++ '/' :: ds) = pieces cs ++ pieces ds := by
  induction cs with
  | nil => rfl
  | cons c cs ih =>
    by_cases hc : c = '/'
    · rw [hc, List.cons_append, pieces_separator, ih, pieces_separator, List.cons_append]
    · rw [List.cons_append, pieces_cons hc, pieces_cons hc, ih]
      obtain ⟨piece, rest, hpieces⟩ := List.exists_cons_of_ne_nil (pieces_ne_nil cs)
      rw [hpieces]
      rfl

/-- Text without a separator belongs to the last piece. -/
theorem pieces_append (h : pieces cs = front ++ [piece]) (hds : '/' ∉ ds) :
    pieces (cs ++ ds) = front ++ [piece ++ ds] := by
  induction cs generalizing front piece with
  | nil =>
    obtain ⟨rfl, rfl⟩ : front = [] ∧ piece = [] := by
      cases front <;> simp_all [pieces]
    clear h
    -- What is appended is a piece of its own.
    induction ds with
    | nil => rfl
    | cons d ds ih =>
      rw [List.mem_cons, not_or] at hds
      have hrest := ih hds.2
      simp only [List.nil_append] at hrest ⊢
      rw [pieces_cons (Ne.symm hds.1), hrest]
      rfl
  | cons c cs ih =>
    by_cases hc : c = '/'
    · rw [hc, pieces_separator] at h
      rw [hc, List.cons_append, pieces_separator]
      cases front with
      | nil => simp [pieces_ne_nil] at h
      | cons first front =>
        obtain ⟨rfl, hrest⟩ := List.cons_eq_cons.1 h
        rw [ih hrest, List.cons_append]
    · rw [pieces_cons hc] at h
      rw [List.cons_append, pieces_cons hc]
      -- The character belongs to the first piece, which may also be the last one.
      obtain ⟨before, last, hpieces⟩ := exists_last_piece cs
      rw [ih hpieces]
      rw [hpieces] at h
      cases before with
      | nil =>
        obtain ⟨rfl, rfl⟩ :=
          List.append_singleton_inj.1 (show [] ++ [c :: last] = front ++ [piece] from h)
        rfl
      | cons first rest =>
        obtain ⟨rfl, rfl⟩ := List.append_singleton_inj.1
          (show ((c :: first) :: rest) ++ [last] = front ++ [piece] from h)
        rfl

theorem pieces_eq_singleton (h : '/' ∉ cs) : pieces cs = [cs] := by
  have hnil : pieces [] = [] ++ [[]] := rfl
  have happend := pieces_append hnil h
  exact happend

theorem separator_not_mem_pieces : ∀ {cs : List Char}, ∀ piece ∈ pieces cs, '/' ∉ piece := by
  intro cs
  induction cs with
  | nil => simp [pieces]
  | cons c cs ih =>
    by_cases hc : c = '/'
    · rw [hc, pieces_separator]
      simpa using ih
    · rw [pieces_cons hc]
      obtain ⟨piece, rest, hpieces⟩ := List.exists_cons_of_ne_nil (pieces_ne_nil cs)
      rw [hpieces] at ih ⊢
      simp only [List.mem_cons, List.headD_cons, List.tail_cons] at ih ⊢
      rintro other (rfl | hother)
      · simp [Ne.symm hc, ih piece (.inl rfl)]
      · exact ih other (.inr hother)

/-! ## 2. Names -/

/-- A path that means a file ends in a name. -/
structure EndsIn (path name : String) : Prop where
  last : ∃ front, pieces path.toList = front ++ [name.toList]
  nonempty : name.toList ≠ []
  notHere : name.toList ≠ ['.']
  notUp : name.toList ≠ ['.', '.']

theorem endsIn_of_ending (h : ending path = .name) : ∃ name, EndsIn path name := by
  obtain ⟨front, last, hpieces⟩ := exists_last_piece path.toList
  have hlast : (String.ofList last).toList = last := String.toList_ofList
  rw [ending, hpieces] at h
  simp only [List.reverse_append, List.reverse_cons, List.reverse_nil,
    List.nil_append, List.singleton_append, List.find?_cons, List.head?_cons] at h
  refine ⟨String.ofList last, ⟨front, by rw [hpieces, hlast]⟩, ?_, ?_, ?_⟩
  all_goals
    rw [hlast]
    rintro rfl
    revert h
  · simp only [List.isEmpty_nil, Bool.not_true]
    split <;> simp
  · simp
  · simp

theorem EndsIn.component (h : EndsIn path name) :
    componentOf? name.toList = some (.name name.toList) := by
  rw [componentOf?, if_neg, if_neg]
  · simpa using h.notUp
  · rw [Bool.or_eq_true, not_or, List.isEmpty_iff, beq_iff_eq]
    exact ⟨h.nonempty, h.notHere⟩

theorem EndsIn.components (h : EndsIn path name) :
    ∃ front, components path = front ++ [.name name.toList] := by
  obtain ⟨front, hpieces⟩ := h.last
  rw [Path.components, hpieces, List.filterMap_append, List.filterMap_cons, h.component,
    List.filterMap_nil, ← List.append_assoc]
  exact ⟨_, rfl⟩

theorem EndsIn.fileName? (h : EndsIn path name) : fileName? path = some name := by
  obtain ⟨front, hcomponents⟩ := h.components
  rw [Path.fileName?, hcomponents, List.getLast?_concat]
  simp

/-- Text without a separator goes to the name. -/
theorem EndsIn.append {text other : String} (h : EndsIn path name)
    (h' : EndsIn (path ++ text) other) (htext : '/' ∉ text.toList) : other = name ++ text := by
  obtain ⟨front, hpieces⟩ := h.last
  obtain ⟨front', hpieces'⟩ := h'.last
  rw [String.toList_append, pieces_append hpieces htext] at hpieces'
  rw [← String.toList_inj, String.toList_append]
  exact (List.append_singleton_inj.1 hpieces').2.symm

theorem EndsIn.of_append {text : String} (h : EndsIn (path ++ text) name)
    (htext : '/' ∉ text.toList) : text.toList <:+ name.toList := by
  obtain ⟨front, last, hpieces⟩ := exists_last_piece path.toList
  obtain ⟨front', hpieces'⟩ := h.last
  rw [String.toList_append, pieces_append hpieces htext] at hpieces'
  rw [← (List.append_singleton_inj.1 hpieces').2]
  exact List.suffix_append last text.toList

/-! ## 3. Paths below a directory -/

/-- The pieces of a path below a directory end in those of the path. -/
theorem pieces_join (base path : String) :
    ∃ front, pieces (join base path).toList = front ++ pieces path.toList := by
  unfold join
  split
  · exact ⟨[], rfl⟩
  split
  · next hbase =>
    obtain ⟨front, hfront⟩ := List.getLast?_eq_some_iff.1 (beq_iff_eq.1 hbase)
    refine ⟨pieces front, ?_⟩
    rw [String.toList_append, hfront, List.append_assoc]
    exact pieces_append_separator front path.toList
  · refine ⟨pieces base.toList, ?_⟩
    rw [String.toList_append, String.toList_append, List.append_assoc]
    exact pieces_append_separator base.toList path.toList

/-- The name at the end of a path below a directory is the path if that has no separator. -/
theorem EndsIn.eq_iff_of_join {base : String} (h : EndsIn (join base path) name) :
    name = path ↔ '/' ∉ path.toList := by
  obtain ⟨front, hpieces⟩ := h.last
  obtain ⟨behind, hjoin⟩ := pieces_join base path
  constructor
  · rintro rfl
    have hfree : ∀ piece ∈ pieces (join base name).toList, '/' ∉ piece := separator_not_mem_pieces
    exact hfree name.toList (by simp [hpieces])
  · intro hpath
    rw [hjoin, pieces_eq_singleton hpath] at hpieces
    exact (String.toList_inj.1 (List.append_singleton_inj.1 hpieces).2).symm

end FormWeave.Path
