import FormWeave.Proofs.TagText
import FormWeave.Writer.Basic
import Mathlib.Data.List.Nodup

/-!
# The layout of a source

A source is a row of sections, each a block of text with the tag that closes it, and the text behind
the last tag. `Layout.ofChunks` reads the layout off what a writer wrote. Where every block is
nothing but complete lines, the lines of the source are the lines of the blocks and the tag lines.
-/

namespace FormWeave

/-! ## 1. Parts of a file and their places -/

def placed {α : Type} (bytes : α → Bytes) : (position : Nat) → List α → List (Nat × α)
  | _, [] => []
  | position, part :: rest =>
    (position, part) :: placed bytes (position + (bytes part).length) rest

theorem placed_append {α : Type} (bytes : α → Bytes) (front back : List α) :
    ∀ position, placed bytes position (front ++ back) =
      placed bytes position front ++ placed bytes (position + (front.flatMap bytes).length) back := by
  induction front with
  | nil => intro position; rfl
  | cons part rest ih =>
    intro position
    simp only [List.cons_append, placed, ih, List.flatMap_cons, List.length_append, Nat.add_assoc]

/-- A part starts behind all parts in front of it. -/
theorem mem_placed_iff {α : Type} {bytes : α → Bytes} {start : Nat} {part : α} {parts : List α} :
    ∀ {position : Nat}, (start, part) ∈ placed bytes position parts ↔
      ∃ front back, parts = front ++ part :: back ∧
        start = position + (front.flatMap bytes).length := by
  induction parts with
  | nil => simp [placed]
  | cons first rest ih =>
    intro position
    rw [placed, List.mem_cons, ih, Prod.mk.injEq]
    constructor
    · rintro (⟨rfl, rfl⟩ | ⟨front, back, rfl, rfl⟩)
      · exact ⟨[], rest, rfl, rfl⟩
      · exact ⟨first :: front, back, rfl, by simp [Nat.add_assoc]⟩
    · rintro ⟨front, back, hparts, hstart⟩
      cases front with
      | nil =>
        obtain ⟨rfl, rfl⟩ := List.cons.inj hparts
        exact .inl ⟨by simpa using hstart, rfl⟩
      | cons x front =>
        obtain ⟨rfl, rfl⟩ := List.cons.inj hparts
        exact .inr ⟨front, back, rfl, by simpa [Nat.add_assoc] using hstart⟩

theorem placed_map {α β : Type} (bytes : β → Bytes) (f : α → β) (parts : List α) :
    ∀ position, placed bytes position (parts.map f) =
      (placed (fun part => bytes (f part)) position parts).map fun part => (part.1, f part.2) := by
  induction parts with
  | nil => exact fun _ => rfl
  | cons part rest ih =>
    intro position
    rw [List.map_cons, placed, placed, List.map_cons, ih]

theorem map_snd_placed {α : Type} (bytes : α → Bytes) (parts : List α) :
    ∀ position, (placed bytes position parts).map Prod.snd = parts := by
  induction parts with
  | nil => exact fun _ => rfl
  | cons part rest ih => exact fun position => congrArg (part :: ·) (ih _)

/-- Parts that are not empty start at different places. -/
theorem nodup_starts {α : Type} {bytes : α → Bytes} {parts : List α}
    (h : ∀ part ∈ parts, bytes part ≠ []) :
    ∀ position, ((placed bytes position parts).map Prod.fst).Nodup := by
  induction parts with
  | nil => exact fun _ => List.nodup_nil
  | cons first rest ih =>
    intro position
    obtain ⟨hfirst, hrest⟩ := List.forall_mem_cons.1 h
    rw [placed, List.map_cons, List.nodup_cons]
    refine ⟨fun hmem => ?_, ih hrest _⟩
    -- What follows starts behind the first part.
    obtain ⟨⟨start, part⟩, hpart, hstart⟩ := List.mem_map.1 hmem
    obtain ⟨front, back, -, hplace⟩ := mem_placed_iff.1 hpart
    have hpos : 0 < (bytes first).length := List.length_pos_of_ne_nil hfirst
    simp only at hstart hplace
    omega

/-- Parts of one kind can be told by the places at which those of the kind start. -/
theorem mem_starts_iff {α : Type} {bytes : α → Bytes} {parts : List α}
    (h : ∀ part ∈ parts, bytes part ≠ []) (kind : α → Bool) (position : Nat) :
    ∀ part ∈ placed bytes position parts,
      part.1 ∈ ((placed bytes position parts).filter fun part => kind part.2).map Prod.fst ↔
        kind part.2 = true := by
  intro part hpart
  constructor
  · intro hmem
    obtain ⟨other, hother, hstart⟩ := List.mem_map.1 hmem
    obtain ⟨hplaced, hkind⟩ := List.mem_filter.1 hother
    rw [← List.inj_on_of_nodup_map (nodup_starts h position) hplaced hpart hstart]
    exact hkind
  · intro hkind
    exact List.mem_map.2 ⟨part, List.mem_filter.2 ⟨hpart, hkind⟩, rfl⟩

theorem filter_placed {α : Type} (bytes : α → Bytes) (kind : α → Bool) (parts : List α)
    (position : Nat) :
    ((placed bytes position parts).filter fun part => kind part.2).map Prod.snd =
      parts.filter kind := by
  have hfilter := List.filter_map (f := Prod.snd) (p := kind) (l := placed bytes position parts)
  rw [map_snd_placed] at hfilter
  exact hfilter.symm

/-! ## 2. Sections -/

/-- A block of text and the tag that closes it. -/
structure Section where
  block : Bytes
  tag : Tag
  deriving DecidableEq, Repr

abbrev SectionName := TagKind × NodeId

namespace Section

def bytes (s : Section) : Bytes := s.block ++ s.tag.line

def lines (s : Section) : List Bytes := Text.splitInclusive 0x0a s.block ++ [s.tag.line]

def name (s : Section) : SectionName := (s.tag.kind, s.tag.nodeId)

/-- A section as the writer leaves it: its tag starts a line and has the checksum of its block. -/
structure Sealed (s : Section) : Prop where
  complete : Text.Complete s.block
  checksum : s.tag.checksum = Checksum.ofBlock s.block

end Section

/-! ## 3. Layouts -/

/-- The sections of a source and the text behind the last tag. -/
structure Layout where
  sections : List Section := []
  tail : Bytes := []

namespace Layout

def render (l : Layout) : Bytes := l.sections.flatMap Section.bytes ++ l.tail

/-- The layout with one more chunk. A tag closes the text in front of it. -/
def add (l : Layout) : Chunk → Layout
  | .source bytes => { l with tail := l.tail ++ bytes }
  | .tag tag => { sections := l.sections ++ [⟨l.tail, tag⟩] }
  | .header _ => l

def ofChunks (chunks : List Chunk) : Layout := chunks.foldl add {}

theorem ofChunks_append (front back : List Chunk) :
    ofChunks (front ++ back) = back.foldl add (ofChunks front) := List.foldl_append

/-- The layout holds all that was written. -/
theorem render_foldl (chunks : List Chunk) :
    ∀ l : Layout, (chunks.foldl add l).render = l.render ++ chunks.flatMap Chunk.sourceBytes := by
  induction chunks with
  | nil => intro l; simp
  | cons chunk rest ih =>
    intro l
    rw [List.foldl_cons, ih]
    cases chunk <;> simp [add, render, Section.bytes, Chunk.sourceBytes]

theorem render_ofChunks (chunks : List Chunk) :
    (ofChunks chunks).render = chunks.flatMap Chunk.sourceBytes := by
  rw [ofChunks, render_foldl]
  rfl

theorem complete_sections {sections : List Section} (h : ∀ s ∈ sections, Text.Complete s.block) :
    Text.Complete (sections.flatMap Section.bytes) := by
  induction sections with
  | nil => exact Text.complete_nil
  | cons s rest ih =>
    have hs := (h s List.mem_cons_self).append s.tag.complete_line
    exact hs.append (ih fun t ht => h t (List.mem_cons_of_mem _ ht))

/-- Sections are made of their lines. -/
theorem flatten_lines (sections : List Section) :
    (sections.flatMap Section.lines).flatten = sections.flatMap Section.bytes := by
  induction sections with
  | nil => rfl
  | cons s rest ih => simp [Section.lines, Section.bytes, ih]

/-- The lines of a source are those of its sections and of its tail. -/
theorem splitInclusive_render {l : Layout} (h : ∀ s ∈ l.sections, Text.Complete s.block) :
    Text.splitInclusive 0x0a l.render =
      l.sections.flatMap Section.lines ++ Text.splitInclusive 0x0a l.tail := by
  obtain ⟨sections, tail⟩ := l
  induction sections with
  | nil => rfl
  | cons s rest ih =>
    have hs := h s List.mem_cons_self
    have hrest := ih fun t ht => h t (List.mem_cons_of_mem _ ht)
    simp only [render] at hrest ⊢
    rw [List.flatMap_cons, List.flatMap_cons, Section.bytes, Section.lines]
    simp only [List.append_assoc]
    rw [Text.splitInclusive_append hs, Text.splitInclusive_append s.tag.complete_line, hrest,
      s.tag.splitInclusive_line]

end Layout

/-! ## 4. Where tags start -/

namespace Writer

def layout (w : Writer) : Layout := Layout.ofChunks w.output.toList

theorem source_eq_render (w : Writer) : w.source = w.layout.render :=
  (Layout.render_ofChunks _).symm

def tagStarts (w : Writer) : List Nat :=
  (placed Chunk.sourceBytes 0 w.output.toList).filterMap fun part => part.2.tag?.map fun _ => part.1

def placedLines (w : Writer) : List (Nat × Bytes) := placed id 0 (Text.splitInclusive 0x0a w.source)

/-- Every line of the source with a marker is one in which a tag was written. -/
def OnlyTagsMarked (w : Writer) : Prop :=
  ∀ line ∈ w.placedLines, Marked line.2 →
    ∃ start ∈ w.tagStarts, line.1 ≤ start ∧ start < line.1 + line.2.length

theorem tags_eq (w : Writer) : w.tags = w.layout.sections.map Section.tag := by
  unfold tags layout
  induction w.output.toList using List.reverseRecOn with
  | nil => rfl
  | append_singleton front chunk ih =>
    -- A tag closes a section; other chunks leave the sections as they are.
    rw [List.filterMap_append, ih, Layout.ofChunks_append]
    cases chunk with
    | source bytes => simp [Chunk.tag?, Layout.add]
    | header bytes => simp [Chunk.tag?, Layout.add]
    | tag tag => simp [Chunk.tag?, Layout.add]

/-- A tag starts behind the block that it closes. -/
theorem tagStarts_eq (w : Writer) :
    w.tagStarts =
      (placed Section.bytes 0 w.layout.sections).map fun part => part.1 + part.2.block.length := by
  unfold tagStarts layout
  induction w.output.toList using List.reverseRecOn with
  | nil => rfl
  | append_singleton front chunk ih =>
    -- Only a tag adds a place: that behind the open tail, which it closes.
    rw [placed_append, List.filterMap_append, ih, Layout.ofChunks_append]
    cases chunk with
    | source bytes => simp [placed, Chunk.tag?, Layout.add]
    | header bytes => simp [placed, Chunk.tag?, Layout.add]
    | tag tag =>
      have hlength := congrArg List.length (Layout.render_ofChunks front)
      rw [Layout.render, List.length_append] at hlength
      rw [List.foldl_cons, List.foldl_nil, Layout.add, placed_append, List.map_append, ← hlength]
      simp only [placed, Chunk.tag?, List.filterMap_cons, List.filterMap_nil, Option.map_some,
        List.map_cons, List.map_nil, Nat.add_assoc]

theorem exists_section_of_mem_tagStarts {w : Writer} {start : Nat} (h : start ∈ w.tagStarts) :
    ∃ front s back, w.layout.sections = front ++ s :: back ∧
      start = (front.flatMap Section.bytes ++ s.block).length := by
  rw [tagStarts_eq] at h
  obtain ⟨⟨position, s⟩, hmem, rfl⟩ := List.mem_map.1 h
  obtain ⟨front, back, hsections, hposition⟩ := mem_placed_iff.1 hmem
  refine ⟨front, s, back, hsections, ?_⟩
  rw [hposition, Nat.zero_add, List.length_append]

/-- Where blocks are complete lines, every tag starts a line. -/
theorem lineStart_of_mem_tagStarts {w : Writer}
    (h : ∀ s ∈ w.layout.sections, Text.Complete s.block) {start : Nat}
    (hstart : start ∈ w.tagStarts) : start = 0 ∨ w.source[start - 1]? = some 0x0a := by
  obtain ⟨front, s, back, hsections, rfl⟩ := exists_section_of_mem_tagStarts hstart
  have hmem : ∀ t ∈ front ++ s :: back, Text.Complete t.block := hsections ▸ h
  have hcomplete : Text.Complete (front.flatMap Section.bytes ++ s.block) :=
    (Layout.complete_sections fun t ht => hmem t (List.mem_append_left _ ht)).append
      (hmem s (by simp))
  have hsource : w.source = (front.flatMap Section.bytes ++ s.block) ++
      (s.tag.line ++ back.flatMap Section.bytes ++ w.layout.tail) := by
    rw [source_eq_render, Layout.render, hsections]
    simp [Section.bytes]
  rw [hsource]
  exact hcomplete.lineStart _

/-- Seen from any cut between sections, a tag starts in front of the cut or behind one of the blocks
that follow it. -/
theorem tagStarts_cut {w : Writer} {start : Nat} (h : start ∈ w.tagStarts)
    {front back : List Section} (hsections : w.layout.sections = front ++ back) :
    start < (front.flatMap Section.bytes).length ∨
      ∃ mid s rest, back = mid ++ s :: rest ∧
        start = (front.flatMap Section.bytes ++ mid.flatMap Section.bytes ++ s.block).length := by
  obtain ⟨before, s, rest, hat, rfl⟩ := exists_section_of_mem_tagStarts h
  rcases List.append_eq_append_iff.1 (hat.symm.trans hsections) with
    ⟨mid, rfl, hmid⟩ | ⟨mid, rfl, hmid⟩
  · -- The cut lies behind the section, or right in front of it.
    cases mid with
    | nil => exact .inr ⟨[], s, rest, hmid.symm, by simp⟩
    | cons t mid =>
      obtain ⟨rfl, -⟩ := List.cons.inj hmid
      have := s.tag.line_length_pos
      left
      simp only [List.flatMap_append, List.flatMap_cons, Section.bytes, List.length_append]
      omega
  · exact .inr ⟨mid, s, rest, hmid, by simp⟩

/-- A line has no marker if every tag starts in front of it or behind its end. -/
theorem OnlyTagsMarked.not_marked {w : Writer} (hw : w.OnlyTagsMarked)
    {front back : List Bytes} {line : Bytes}
    (hlines : Text.splitInclusive 0x0a w.source = front ++ line :: back)
    (hfree : ∀ start ∈ w.tagStarts,
      start < front.flatten.length ∨ front.flatten.length + line.length ≤ start) :
    ¬ Marked line := by
  intro hmarked
  -- The line would be one in which a tag was written, and no tag starts in it.
  have hplaced : (front.flatten.length, line) ∈ w.placedLines :=
    mem_placed_iff.2 ⟨front, back, hlines, by simp⟩
  obtain ⟨start, hstart, hlow, hhigh⟩ := hw _ hplaced hmarked
  have := hfree start hstart
  simp only at hlow hhigh
  omega

/-- If only tags are marked, and blocks are complete lines, the blocks have no marked line. -/
theorem OnlyTagsMarked.unmarked_block {w : Writer} (hw : w.OnlyTagsMarked)
    (h : ∀ s ∈ w.layout.sections, Text.Complete s.block) :
    ∀ s ∈ w.layout.sections, Unmarked s.block := by
  intro s hs line hline
  obtain ⟨front, back, hsections⟩ := List.mem_iff_append.1 hs
  obtain ⟨before, after, hblock⟩ := List.mem_iff_append.1 hline
  have hbytes : s.block = before.flatten ++ line ++ after.flatten := by
    rw [← Text.flatten_splitInclusive 0x0a s.block, hblock]
    simp
  -- The line among the lines of the whole source.
  have hlines := Layout.splitInclusive_render h
  rw [← source_eq_render, hsections, List.flatMap_append, List.flatMap_cons, Section.lines,
    hblock] at hlines
  simp only [List.append_assoc, List.cons_append] at hlines
  rw [← List.append_assoc] at hlines
  refine hw.not_marked hlines fun start hstart => ?_
  rw [List.flatten_append, Layout.flatten_lines, List.length_append]
  -- Seen from the start of the block, a tag stands in front, or behind a whole block.
  rcases tagStarts_cut hstart hsections with hlt | ⟨mid, t, rest, hmid, rfl⟩
  · left
    omega
  · right
    cases mid with
    | nil =>
      obtain ⟨rfl, -⟩ := List.cons.inj hmid
      simp only [hbytes, List.length_append, List.flatMap_nil, List.append_nil]
      omega
    | cons u mid =>
      obtain ⟨rfl, -⟩ := List.cons.inj hmid
      simp only [List.flatMap_cons, Section.bytes, hbytes, List.length_append]
      omega

/-- If only tags are marked, and blocks are complete lines, there is no marked line behind the last
tag. -/
theorem OnlyTagsMarked.unmarked_tail {w : Writer} (hw : w.OnlyTagsMarked)
    (h : ∀ s ∈ w.layout.sections, Text.Complete s.block) : Unmarked w.layout.tail := by
  intro line hline
  obtain ⟨before, after, htail⟩ := List.mem_iff_append.1 hline
  have hlines := Layout.splitInclusive_render h
  rw [← source_eq_render, htail, ← List.append_assoc] at hlines
  refine hw.not_marked hlines fun start hstart => ?_
  rw [List.flatten_append, Layout.flatten_lines, List.length_append]
  -- All tags stand in front of the tail.
  rcases tagStarts_cut hstart (List.append_nil _).symm with hlt | ⟨mid, t, rest, hmid, rfl⟩
  · left
    omega
  · simp at hmid

/-- A line of a source is a line of a block, a tag line, or a line behind the last tag. -/
theorem mem_placed_lines {sections : List Section} {tail : List Bytes} {start : Nat} {line : Bytes} :
    ∀ {position : Nat}, (start, line) ∈ placed id position (sections.flatMap Section.lines ++ tail) →
      (∃ s ∈ sections, line ∈ Text.splitInclusive 0x0a s.block) ∨ line ∈ tail ∨
        ∃ part ∈ placed Section.bytes position sections,
          start = part.1 + part.2.block.length ∧ line = part.2.tag.line := by
  induction sections with
  | nil =>
    intro position h
    obtain ⟨front, back, htail, -⟩ := mem_placed_iff.1 h
    have hmem : line ∈ front ++ line :: back := by simp
    rw [← htail] at hmem
    exact .inr (.inl hmem)
  | cons s rest ih =>
    intro position h
    -- The line is in the block, is the tag line, or comes later.
    have hflatten := Text.flatten_splitInclusive 0x0a s.block
    rw [List.flatMap_cons, List.append_assoc, placed_append, List.mem_append, Section.lines,
      placed_append, List.mem_append, List.flatMap_id, hflatten] at h
    rcases h with (h | h) | h
    · obtain ⟨front, back, hlines, -⟩ := mem_placed_iff.1 h
      exact .inl ⟨s, List.mem_cons_self, by rw [hlines]; simp⟩
    · have htag : start = position + s.block.length ∧ line = s.tag.line := by
        simpa [placed] using h
      exact .inr (.inr ⟨(position, s), List.mem_cons_self, htag⟩)
    · have hbytes : (Section.lines s).flatMap id = s.bytes := by
        simp [Section.lines, Section.bytes, hflatten]
      rw [← Section.lines, hbytes] at h
      rcases ih h with ⟨t, ht, hline⟩ | hline | ⟨part, hpart, hline⟩
      · exact .inl ⟨t, List.mem_cons_of_mem _ ht, hline⟩
      · exact .inr (.inl hline)
      · exact .inr (.inr ⟨part, List.mem_cons_of_mem _ hpart, hline⟩)

/-- Where blocks are complete lines, it can be told from the blocks and from the text behind the
last tag whether only tags are marked. -/
theorem onlyTagsMarked_iff {w : Writer} (h : ∀ s ∈ w.layout.sections, Text.Complete s.block) :
    w.OnlyTagsMarked ↔
      (∀ s ∈ w.layout.sections, Unmarked s.block) ∧ Unmarked w.layout.tail := by
  constructor
  · exact fun hw => ⟨hw.unmarked_block h, hw.unmarked_tail h⟩
  · rintro ⟨hblocks, htail⟩ ⟨start, line⟩ hline hmarked
    rw [placedLines, source_eq_render, Layout.splitInclusive_render h] at hline
    rcases mem_placed_lines hline with ⟨s, hs, hmem⟩ | hmem | ⟨part, hpart, hstart, htag⟩
    · exact absurd hmarked (hblocks s hs line hmem)
    · exact absurd hmarked (htail line hmem)
    · have hlength := part.2.tag.line_length_pos
      rw [← htag] at hlength
      refine ⟨start, ?_, Nat.le_refl _, Nat.lt_add_of_pos_right hlength⟩
      rw [tagStarts_eq]
      exact List.mem_map.2 ⟨part, hpart, hstart.symm⟩

end Writer

end FormWeave
