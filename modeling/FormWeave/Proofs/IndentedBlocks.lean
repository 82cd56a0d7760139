import FormWeave.Proofs.BlockLevels
import FormWeave.Proofs.ClearEmission
import FormWeave.Proofs.Editing
import FormWeave.Proofs.IndentedText
import FormWeave.Proofs.SmallEdits
import FormWeave.Proofs.Wiring

/-!
# Code and callbacks in their blocks

The code of a node and a callback that is the code of a function stand in a block of their own, line
by line, at the level of indentation that is in force there. No other block has its name, and a scan
of the source stops at its tag.
-/

namespace FormWeave

open Writer (linesAt)

/-! ## 1. Snippets -/

/-- A text that the user may edit: the phase in which its node writes it, the kind of the tag behind
it, and how many levels deeper than the code around it its lines stand. -/
structure Snippet where
  phase : Phase
  kind : TagKind
  extra : Int32
  text : String
  deriving DecidableEq

namespace Node

/-- The code of a node, or its callback if that is the code of a function. -/
def snippet? (node : Node) : Option Snippet :=
  match node.body with
  | .code text => some ⟨.opening, .code, 0, text⟩
  | _ => node.inlineCallback?.map fun text => ⟨.setup, node.callbackTag, 1, text⟩

variable {node : Node} {snippet : Snippet}

theorem snippet?_cases (h : node.snippet? = some snippet) :
    (∃ text, node.body = .code text ∧ snippet = ⟨.opening, .code, 0, text⟩) ∨
      ∃ text, node.inlineCallback? = some text ∧ snippet = ⟨.setup, node.callbackTag, 1, text⟩ := by
  unfold snippet? at h
  split at h
  · next text hbody => exact .inl ⟨text, hbody, (Option.some.inj h).symm⟩
  · obtain ⟨text, hinline, rfl⟩ := Option.map_eq_some_iff.1 h
    exact .inr ⟨text, hinline, rfl⟩

theorem text?_of_snippet? (h : node.snippet? = some snippet) :
    node.body.text? = some snippet.text := by
  rcases snippet?_cases h with ⟨text, hbody, rfl⟩ | ⟨text, hinline, rfl⟩
  · rw [hbody]
    rfl
  · obtain ⟨hcallback, -⟩ := Option.filter_eq_some_iff.1 hinline
    obtain ⟨hcallback, -⟩ := Option.filter_eq_some_iff.1 hcallback
    cases hbody : node.body with
    | code => simp [hbody, ItemBody.callback?] at hcallback
    | _ => rwa [hbody] at hcallback

theorem ne_comment_of_snippet? (h : node.snippet? = some snippet) : node.kind ≠ .comment := by
  rcases snippet?_cases h with ⟨text, hbody, -⟩ | ⟨text, hinline, -⟩
  · rw [kind, hbody]
    intro hkind
    cases hkind
  · exact ne_comment_of_hasCallback (hasCallback_of_inline (by rw [hinline]; rfl))

theorem isMergeable_of_snippet? (h : node.snippet? = some snippet) :
    snippet.kind.isMergeable = true := by
  rcases snippet?_cases h with ⟨text, -, rfl⟩ | ⟨text, -, rfl⟩
  · rfl
  · show node.callbackTag.isMergeable = true
    unfold callbackTag
    split <;> rfl

theorem phase_of_snippet? (h : node.snippet? = some snippet) :
    snippet.phase = .setup ∨ snippet.phase = .opening := by
  rcases snippet?_cases h with ⟨text, -, rfl⟩ | ⟨text, -, rfl⟩
  · exact .inr rfl
  · exact .inl rfl

end Node

/-! ## 2. From spans to sections -/

theorem Chunk.span?_eq_tag {chunk : Chunk} {kind : TagKind} {id : NodeId}
    (h : chunk.span? = some (.tag kind id)) :
    ∃ tag : Tag, chunk = .tag tag ∧ tag.kind = kind ∧ tag.nodeId = id := by
  cases chunk with
  | tag tag =>
    cases h
    exact ⟨tag, rfl, rfl, rfl⟩
  | source => cases h
  | header => cases h

namespace Layout

/-- Chunks without a tag go on with the tail. -/
theorem foldl_add_texts {chunks : List Chunk} {texts : List Bytes}
    (h : spans chunks = texts.map .text) (l : Layout) :
    chunks.foldl add l = { l with tail := l.tail ++ texts.flatten } := by
  induction chunks generalizing texts l with
  | nil =>
    rw [List.map_eq_nil_iff.1 h.symm]
    simp
  | cons chunk rest ih =>
    cases chunk with
    | source bytes =>
      cases texts with
      | nil => cases h
      | cons text texts =>
        obtain ⟨hfirst, hrest⟩ := List.cons.inj h
        cases hfirst
        rw [List.foldl_cons, ih hrest]
        simp [add]
    | header bytes => exact ih h l
    | tag tag =>
      cases texts with
      | nil => cases h
      | cons text texts => cases (List.cons.inj h).1

/-- Sections stay, whatever is written behind them. -/
theorem sections_foldl (chunks : List Chunk) (l : Layout) :
    l.sections <+: (chunks.foldl add l).sections := by
  induction chunks generalizing l with
  | nil => exact List.prefix_rfl
  | cons chunk rest ih =>
    refine List.IsPrefix.trans ?_ (ih (l.add chunk))
    cases chunk with
    | tag tag => exact List.prefix_append _ _
    | _ => exact List.prefix_rfl

/-- What stands between two tags is the block of the second one. -/
theorem exists_section {chunks : List Chunk} {front back : List Span} {texts : List Bytes}
    {kind kind' : TagKind} {id id' : NodeId}
    (h : spans chunks =
      front ++ .tag kind id :: (texts.map .text ++ .tag kind' id' :: back)) :
    ∃ before lead s behind, (ofChunks chunks).sections = before ++ lead :: s :: behind ∧
      lead.name = (kind, id) ∧ s.name = (kind', id') ∧ s.block = texts.flatten := by
  obtain ⟨chunks₁, rest, rfl, -, hrest⟩ := List.filterMap_eq_append_iff.1 h
  obtain ⟨skipped, first, rest, rfl, -, hfirst, hrest⟩ := List.filterMap_eq_cons_iff.1 hrest
  obtain ⟨inner, rest, rfl, hinner, hrest⟩ := List.filterMap_eq_append_iff.1 hrest
  obtain ⟨skipped', second, rest, rfl, hskipped, hsecond, -⟩ := List.filterMap_eq_cons_iff.1 hrest
  obtain ⟨tag, rfl, rfl, rfl⟩ := Chunk.span?_eq_tag hfirst
  obtain ⟨tag', rfl, rfl, rfl⟩ := Chunk.span?_eq_tag hsecond
  have htexts : spans (inner ++ skipped') = texts.map .text := by
    rw [spans_append, spans, hinner, spans, List.filterMap_eq_nil_iff.2 hskipped, List.append_nil]
  -- The first tag leaves an empty tail, to which the texts are added up to the second.
  let l := ofChunks (chunks₁ ++ skipped)
  have hsplit : ofChunks (chunks₁ ++ (skipped ++ .tag tag :: (inner ++
      (skipped' ++ .tag tag' :: rest)))) =
      rest.foldl add { sections := l.sections ++ [⟨l.tail, tag⟩] ++ [⟨texts.flatten, tag'⟩] } := by
    have hchunks : chunks₁ ++ (skipped ++ .tag tag :: (inner ++ (skipped' ++ .tag tag' :: rest))) =
        (chunks₁ ++ skipped) ++ ([.tag tag] ++ ((inner ++ skipped') ++ (.tag tag' :: rest))) := by
      simp
    rw [hchunks, ofChunks_append, List.foldl_append, List.foldl_append, foldl_add_texts htexts]
    rfl
  obtain ⟨behind, hbehind⟩ := sections_foldl rest
    { sections := l.sections ++ [⟨l.tail, tag⟩] ++ [⟨texts.flatten, tag'⟩] }
  refine ⟨l.sections, ⟨l.tail, tag⟩, ⟨texts.flatten, tag'⟩, behind, ?_, rfl, rfl, rfl⟩
  rw [hsplit, ← hbehind]
  simp

end Layout

/-! ## 3. The one section of a name -/

namespace Layout

/-- Just one section has the name. It stands behind a generic one of the same node, and its block is
`block`. -/
def Holds (l : Layout) (name : SectionName) (block : Bytes) : Prop :=
  ∃ front lead s back, l.sections = front ++ lead :: s :: back ∧ lead.name = (.generic, name.2) ∧
    s.name = name ∧ s.block = block ∧ ∀ other ∈ front ++ lead :: back, other.name ≠ name

variable {l : Layout} {name : SectionName} {block : Bytes}

theorem Holds.block_eq (h : l.Holds name block) {s : Section} (hs : s ∈ l.sections)
    (hname : s.name = name) : s.block = block := by
  obtain ⟨front, lead, t, back, hsections, -, -, hblock, hothers⟩ := h
  rw [hsections, List.append_cons] at hs
  rcases List.mem_cons.1 (List.perm_middle.mem_iff.1 hs) with rfl | hs
  · exact hblock
  · exact absurd hname (hothers s (by rwa [List.append_cons]))

/-- A node has no two sections that may be edited, so their names are not used twice. -/
theorem holds_of_nodup (hnodup : (editableIds (l.sections.map Section.name)).Nodup)
    (hname : name.1.isMergeable = true) {front back : List Section} {lead s : Section}
    (hsections : l.sections = front ++ lead :: s :: back) (hlead : lead.name = (.generic, name.2))
    (hs : s.name = name) (hblock : s.block = block) : l.Holds name block := by
  refine ⟨front, lead, s, back, hsections, hlead, hs, hblock, fun other hother heq => ?_⟩
  have hperm : (l.sections.map Section.name).Perm
      (name :: (front ++ lead :: back).map Section.name) := by
    rw [hsections, List.append_cons, List.append_cons front lead back, ← hs, ← List.map_cons]
    exact List.perm_middle.map _
  have hids := (((hperm.filter _).map Prod.snd).nodup_iff).1 hnodup
  rw [List.filter_cons_of_pos (p := fun name : SectionName => name.1.isMergeable) hname,
    List.map_cons, List.nodup_cons] at hids
  refine hids.1 (List.mem_map_of_mem (List.mem_filter.2 ⟨?_, hname⟩))
  rw [← heq]
  exact List.mem_map_of_mem hother

/-- What a scan takes for a block: the lines of it behind the last one with a marker. -/
def extracted (block : Bytes) : Bytes :=
  (Merge.openLines (Text.splitInclusive 0x0a block)).flatten

theorem extracted_of_unmarked (h : Unmarked block) : extracted block = block := by
  have hopen := @Merge.openLines_append [] _ rfl h
  rw [List.nil_append] at hopen
  rw [extracted, hopen, Text.flatten_splitInclusive]

theorem openLines_append_marked (front : List Bytes) {line : Bytes} (h : Marked line)
    (lines : List Bytes) :
    Merge.openLines (front ++ line :: lines) = Merge.openLines lines := by
  induction lines using List.reverseRecOn with
  | nil => rw [Merge.openLines_concat, if_pos h]; rfl
  | append_singleton lines last ih =>
    rw [← List.cons_append, ← List.append_assoc, Merge.openLines_concat, Merge.openLines_concat, ih]

theorem exists_markedLine_tag (before : List Bytes) (tag : Tag) :
    ∃ m, Merge.markedLine? before tag.line = some m ∧ m.tag = .ok tag ∧
      m.block = (Merge.openLines before).flatten := by
  have hline := Merge.fromMarker?_of_prefix tag.marker_prefix_line
  have hparse : Tag.parse (Utf8.decodeLossy tag.line) = .ok tag := by
    rw [Tag.line, Utf8.decodeLossy_utf8, Tag.parse, Tag.toList_line, Tag.ofList_render]
  -- The bytes of the line do not matter any more.
  generalize tag.line = line at hline hparse
  exact ⟨{ number := before.length + 1, block := (Merge.openLines before).flatten, bytes := line },
    by rw [Merge.markedLine?_eq, hline]; rfl, hparse, rfl⟩

/-- A scan stops at the tag of the section, with what it takes for the block. -/
theorem Holds.exists_markedLine (h : l.Holds name block)
    (hcomplete : ∀ s ∈ l.sections, Text.Complete s.block) :
    ∃ m ∈ Merge.markedLines (Text.splitInclusive 0x0a l.render), ∃ tag, m.tag = .ok tag ∧
      (tag.kind, tag.nodeId) = name ∧ m.block = extracted block := by
  obtain ⟨front, lead, s, back, hsections, -, hname, rfl, -⟩ := h
  -- In front of the block stands the line of the tag that leads it.
  obtain ⟨before, hbefore⟩ : ∃ before, before = (front.flatMap Section.lines ++
      Text.splitInclusive 0x0a lead.block) ++ lead.tag.line :: Text.splitInclusive 0x0a s.block :=
    ⟨_, rfl⟩
  have hopen : Merge.openLines before = Merge.openLines (Text.splitInclusive 0x0a s.block) := by
    rw [hbefore, openLines_append_marked _ lead.tag.marked_line]
  have hlines : Text.splitInclusive 0x0a l.render =
      before ++ s.tag.line :: (back.flatMap Section.lines ++ Text.splitInclusive 0x0a l.tail) := by
    rw [splitInclusive_render hcomplete, hsections, hbefore]
    simp only [List.flatMap_append, List.flatMap_cons, Section.lines, List.append_assoc,
      List.cons_append, List.nil_append]
  obtain ⟨m, hm, htag, hblock⟩ := exists_markedLine_tag before s.tag
  exact ⟨m, Merge.mem_markedLines.2 ⟨before, s.tag.line, _, hlines, hm⟩, s.tag, htag, hname,
    by rw [hblock, hopen, extracted]⟩

end Layout

theorem Writer.not_marked_linesAt {text : String} (h : ¬ Marked (utf8 text)) (depth : Int32) :
    ¬ Marked (linesAt depth (Text.split '\n' text.toList)) := by
  rw [linesAt, List.flatMap_assoc]
  refine (settled_flatMap fun line hline => Writer.settled_indentedLine depth ?_).unmarked
  exact not_marked_part (Text.infix_of_mem_split hline) h

/-! ## 4. The block of a snippet -/

namespace Context

variable {context : Context}

theorem indented_eq_map (code : String) (extra : Int32) (trail : Option Char) :
    ∃ texts : List Bytes, context.indented code extra trail = texts.map .text ∧
      texts.flatten = (Writer.indentedPieces (Writer.indentAt (context.depth + extra)) trail
        (Text.split '\n' code.toList)).flatMap utf8 := by
  refine ⟨(Writer.indentedPieces (Writer.indentAt (context.depth + extra)) trail
    (Text.split '\n' code.toList)).map utf8, ?_, (List.flatMap_def ..).symm⟩
  rw [indented, List.map_map]
  exact List.map_eq_flatMap.symm

end Context

namespace Generation

open Emit

variable {design : Design} {settings : Settings} {options : RunOptions}

/-- The lines of a snippet stand between a generic tag and its own. -/
theorem spans_snippet (htags : settings.mergeTags = true) {node : Node} {snippet : Snippet}
    (h : node.snippet? = some snippet) {before behind : List Piece} {piece : Piece}
    (hsplit : written design settings options = before ++ piece :: behind)
    (hstep : piece.step = .write snippet.phase node) :
    ∃ (front back : List Span) (texts : List Bytes), spans piece.chunks =
        front ++ .tag .generic node.id :: (texts.map .text ++ .tag snippet.kind node.id :: back) ∧
      texts.flatten = linesAt (levelBehind 0 (before.map Piece.step) + snippet.extra)
        (Text.split '\n' snippet.text.toList) := by
  let w := advance (configuredNames settings) (start settings options).reset
    (before.map Piece.step)
  let context : Context := ⟨settings, options.preview, w.indentation⟩
  have hlevel : w.indentation = levelBehind 0 (before.map Piece.step) := indentation_advance _ _ _
  have htag : ∀ kind, context.tag kind node.id = [.tag kind node.id] := fun kind => if_pos htags
  obtain ⟨texts, htexts, hflatten⟩ :=
    context.indented_eq_map snippet.text snippet.extra (some '\n')
  rw [← Writer.linesAt_split, show context.depth = w.indentation from rfl, hlevel] at hflatten
  rcases Node.snippet?_cases h with ⟨text, hbody, rfl⟩ | ⟨text, hinline, rfl⟩
  · have hspells : Spells context (Node.writeOpening node) fun _ =>
        context.tag .generic node.id ++ (context.indented text 0 (some '\n') ++
          context.tag .code node.id) := by
      unfold Node.writeOpening
      rw [hbody]
      refine .then (keeps_tag _ _) (spells_tag _ _) ?_
      exact .then (keeps_indented _ _ _) (spells_indented _ _ _) (spells_tag _ _)
    have hspans := spans_of_spellsAt design settings options hsplit
      (by rw [hstep]; exact hspells _ (in_advance settings options _))
    refine ⟨[], [], texts, ?_, hflatten⟩
    rw [hspans, htag, htag, htexts]
    rfl
  · obtain ⟨declared, hspans⟩ := spans_at_level design settings options hsplit hstep
      (Node.hasCallback_of_inline (by rw [hinline]; rfl))
    -- The function of the callback is the last part of the setup code.
    obtain ⟨front, hfront⟩ :
        node.callbackFunction context (finalNames design settings options) text <:+
          node.setupSpans context (finalNames design settings options)
            (fun image => before.any fun earlier => presents image earlier.step) :=
      Node.callbackFunction_suffix hinline _
    obtain ⟨head, hhead⟩ : ∃ head, node.callbackFunction context
        (finalNames design settings options) text = spell head ++ (context.tag .generic node.id ++
          (context.indented text 1 (some '\n') ++
            (context.tag node.callbackTag node.id ++ spell "\x7d\n"))) := ⟨_, rfl⟩
    refine ⟨front ++ spell head, spell "\x7d\n", texts, ?_, hflatten⟩
    rw [hspans, Node.spansIn, ← hfront, hhead, htag, htag, htexts]
    simp only [List.append_assoc, List.singleton_append]

/-- A snippet stands in the one section of its name, line by line at the level in force there. -/
theorem holds_snippet (htags : settings.mergeTags = true) (hids : design.DistinctIds) {node : Node}
    {snippet : Snippet} (h : node.snippet? = some snippet) {level : Int32}
    (hlevel : StandsAt design.nodes node snippet.phase level) :
    (finalWriter design settings options).layout.Holds (snippet.kind, node.id)
      (linesAt (level + snippet.extra) (Text.split '\n' snippet.text.toList)) := by
  obtain ⟨before, behind, hplan, rfl⟩ := hlevel
  obtain ⟨written₁, piece, written₂, hwritten, rfl, hstep, -⟩ :=
    split_written design settings options hplan
  obtain ⟨front, back, texts, hspans, hflatten⟩ := spans_snippet htags h hwritten hstep
  have hall : spans (finalWriter design settings options).output.toList =
      (spans (written₁.flatMap Piece.chunks) ++ front) ++ .tag .generic node.id ::
        (texts.map .text ++ .tag snippet.kind node.id ::
          (back ++ spans (written₂.flatMap Piece.chunks))) := by
    rw [output_finalWriter, hwritten, List.flatMap_append, List.flatMap_cons, spans_append,
      spans_append, hspans]
    simp only [List.append_assoc, List.cons_append]
  obtain ⟨front, lead, s, back, hsections, hlead, hname, hblock⟩ := Layout.exists_section hall
  obtain ⟨-, -, htracked⟩ := run_tracked design settings options htags
  refine Layout.holds_of_nodup ?_ (Node.isMergeable_of_snippet? h) hsections hlead hname
    (hblock.trans hflatten)
  rw [htracked.names]
  exact nodup_editableIds hids

end Generation

end FormWeave
