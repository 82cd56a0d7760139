import Mathlib.Data.List.DropRight
import FormWeave.Proofs.MergeProtocol
import FormWeave.Proofs.RoundTrip

/-!
# An edit of one line

In a generated source one line that is no tag is replaced by another one. If a tag stands somewhere
behind it, a scan reports just the block around it, under the name of the next tag. Behind the last
tag of a source no edit is reported.
-/

namespace FormWeave

/-! ## 1. Where a line stands -/

/-- The unmarked lines around a line: from the last marked line in front of it to the next one. -/
def lineRun (front : List Bytes) (line : Bytes) (back : List Bytes) : Bytes :=
  (front.rtakeWhile fun l => !decide (Marked l)).flatten ++ line ++
    (back.takeWhile fun l => !decide (Marked l)).flatten

/-- Among the lines of a section and others behind it, a line without a marker is one of the block or
one of the others. -/
theorem Section.line_place {s : Section} {others front back : List Bytes} {line : Bytes}
    (hline : ¬ Marked line) (h : s.lines ++ others = front ++ line :: back) :
    (∃ post, Text.splitInclusive 0x0a s.block = front ++ line :: post ∧
        back = post ++ s.tag.line :: others) ∨
      ∃ pre, front = s.lines ++ pre ∧ others = pre ++ line :: back := by
  -- The tag line is not the line in question, so one of them comes first.
  have htag : s.tag.line ≠ line := fun e => hline (e ▸ s.tag.marked_line)
  rw [Section.lines, List.append_assoc, List.singleton_append] at h
  rcases List.append_eq_append_iff.1 h with ⟨mid, hfront, hmid⟩ | ⟨mid, hblock, hmid⟩
  · cases mid with
    | nil => exact absurd (List.cons.inj hmid).1 htag
    | cons first pre =>
      obtain ⟨rfl, hothers⟩ := List.cons.inj hmid
      exact .inr ⟨pre, by rw [hfront, Section.lines, List.append_assoc]; rfl, hothers⟩
  · cases mid with
    | nil => exact absurd (List.cons.inj hmid).1.symm htag
    | cons first post =>
      obtain ⟨rfl, hback⟩ := List.cons.inj hmid
      exact .inl ⟨post, hblock, hback⟩

namespace Layout

/-- A line without a marker is one of a block, with lines of the block around it, or stands behind
all sections. -/
theorem line_place {sections : List Section} {tail front back : List Bytes} {line : Bytes}
    (hline : ¬ Marked line) (h : sections.flatMap Section.lines ++ tail = front ++ line :: back) :
    (∃ before s after pre post, sections = before ++ s :: after ∧
        Text.splitInclusive 0x0a s.block = pre ++ line :: post ∧
        front = before.flatMap Section.lines ++ pre ∧
        back = post ++ s.tag.line :: (after.flatMap Section.lines ++ tail)) ∨
      ∃ pre, tail = pre ++ line :: back ∧ front = sections.flatMap Section.lines ++ pre := by
  induction sections generalizing front with
  | nil => exact .inr ⟨front, h, rfl⟩
  | cons s rest ih =>
    rw [List.flatMap_cons, List.append_assoc] at h
    rcases Section.line_place hline h with ⟨post, hblock, hback⟩ | ⟨front, rfl, hrest⟩
    · exact .inl ⟨[], s, rest, _, post, rfl, hblock, rfl, hback⟩
    rcases ih hrest with ⟨before, t, after, pre, post, rfl, hblock, rfl, hback⟩ | ⟨pre, htail, rfl⟩
    · exact .inl ⟨s :: before, t, after, pre, post, rfl, hblock,
        by rw [List.flatMap_cons, List.append_assoc], hback⟩
    · exact .inr ⟨pre, htail, by rw [List.flatMap_cons, List.append_assoc]⟩

end Layout

/-! ## 2. A line of a block -/

theorem changedBlocks_append {ν : Type} [DesignNode ν] (nodes : List ν) (front back : List Section) :
    ∀ lines, changedBlocks nodes lines (front ++ back) = changedBlocks nodes lines front ++
      changedBlocks nodes (lines + (front.flatMap Section.lines).length) back := by
  induction front with
  | nil => exact fun lines => rfl
  | cons s rest ih =>
    intro lines
    rw [List.cons_append, changedBlocks, changedBlocks, ih, List.flatMap_cons, List.length_append,
      Nat.add_assoc, List.append_assoc]

/-- Around a line of a block, the unmarked lines are those of the block. -/
theorem lineRun_eq {before after : List Section} {s : Section} {tail pre post : List Bytes}
    (hpre : ∀ l ∈ pre, ¬ Marked l) (hpost : ∀ l ∈ post, ¬ Marked l) (line : Bytes) :
    lineRun (before.flatMap Section.lines ++ pre) line
        (post ++ s.tag.line :: (after.flatMap Section.lines ++ tail)) =
      (pre ++ line :: post).flatten := by
  -- In front of the block stands the tag of another one, or nothing.
  have hfront : (before.flatMap Section.lines ++ pre).rtakeWhile (fun l => !decide (Marked l)) =
      pre := by
    rw [List.rtakeWhile, List.reverse_append, List.takeWhile_append_of_pos (by simpa using hpre)]
    rcases List.eq_nil_or_concat' before with rfl | ⟨init, t, rfl⟩
    · simp
    · simp [Section.lines, t.tag.marked_line]
  have hback : (post ++ s.tag.line :: (after.flatMap Section.lines ++ tail)).takeWhile
      (fun l => !decide (Marked l)) = post := by
    rw [List.takeWhile_append_of_pos (by simpa using hpost)]
    simp [s.tag.marked_line]
  rw [lineRun, hfront, hback]
  simp

/-- With another line in the place of one, complete lines without a marker stay so. -/
theorem replace_line {block line line' : Bytes} {pre post : List Bytes}
    (hcomplete : Text.Complete block) (hunmarked : Unmarked block)
    (hblock : Text.splitInclusive 0x0a block = pre ++ line :: post) (hfull : Text.FullLine line')
    (hline' : ¬ Marked line') :
    Text.splitInclusive 0x0a (pre ++ line' :: post).flatten = pre ++ line' :: post ∧
      Text.Complete (pre ++ line' :: post).flatten ∧ Unmarked (pre ++ line' :: post).flatten := by
  have hlines : Text.AreLines (pre ++ line :: post) := hblock ▸ Text.areLines_splitInclusive block
  have hsplit := (hlines.replace hfull).splitInclusive_flatten
  refine ⟨hsplit, ?_, ?_⟩
  · -- What stands behind the line ends as before, and the line itself has its line feed.
    have hpost : Text.Complete post.flatten := by
      rw [← Text.flatten_splitInclusive 0x0a block, hblock, List.flatten_append,
        List.flatten_cons] at hcomplete
      exact hcomplete.of_append.of_append
    rw [List.flatten_append, List.flatten_cons, ← List.append_assoc]
    exact (hfull.complete.behind hfull.ne_nil _).append hpost
  · rw [Unmarked, hblock, List.forall_mem_append, List.forall_mem_cons] at hunmarked
    rw [Unmarked, hsplit, List.forall_mem_append, List.forall_mem_cons]
    exact ⟨hunmarked.1, hline', hunmarked.2.2⟩

/-! ## 3. Scans -/

def blockEdit {ν : Type} [DesignNode ν] (nodes : List ν) (bytes : Bytes) (tag : Tag) (line : Nat) :
    ChangedBlock where
  kind := tag.kind
  nodeId := tag.nodeId
  line
  text := Merge.unindent bytes
  resolved := tag.kind == .generic || Merge.accepts nodes tag.nodeId tag.kind

namespace Writer.Tracked

variable {w : Writer} {names : List SectionName} {cursor : Cursor} {ν : Type} [DesignNode ν]

/-- If the only section that is not sealed any more is one with other bytes, that is what a scan
finds. -/
theorem scan_changed_block (h : w.Tracked names cursor) (hmarked : w.OnlyTagsMarked)
    (nodes : List ν) {before after : List Section} {s : Section} {block : Bytes}
    (hsections : w.layout.sections = before ++ s :: after) (hcomplete : Text.Complete block)
    (hunmarked : Unmarked block) (hsum : Checksum.ofBlock block ≠ Checksum.ofBlock s.block) :
    Merge.scan (Layout.render { sections := before ++ ⟨block, s.tag⟩ :: after, tail := w.layout.tail })
        nodes =
      .ok (.ofBlocks [blockEdit nodes block s.tag ((before.flatMap Section.lines).length +
        (Text.splitInclusive 0x0a block).length + 1)]) := by
  have hplain : ∀ t ∈ before ++ ⟨block, s.tag⟩ :: after, t.Plain := by
    have hall := h.plain hmarked
    rw [hsections, List.forall_mem_append, List.forall_mem_cons] at hall
    rw [List.forall_mem_append, List.forall_mem_cons]
    exact ⟨hall.1, ⟨hcomplete, hunmarked⟩, hall.2.2⟩
  have hsealed := h.sealed
  rw [hsections, List.forall_mem_append, List.forall_mem_cons] at hsealed
  obtain ⟨hbefore, hs, hafter⟩ := hsealed
  -- The tag still has the checksum of the bytes that were written.
  have htag : ¬ Checksum.ofBlock block = s.tag.checksum := by
    rw [hs.checksum]
    exact hsum
  have hscan := Merge.scan_render nodes
    (l := { sections := before ++ ⟨block, s.tag⟩ :: after, tail := w.layout.tail }) hplain
    (hmarked.unmarked_tail h.complete)
  rw [hscan, changedBlocks_append, changedBlocks_sealed nodes hbefore, changedBlocks,
    changedBlocks_sealed nodes hafter, Section.changed?, if_neg htag]
  simp [blockEdit, Section.lines, Nat.add_assoc]

/-- A line that is no tag was replaced, and the checksum of the unmarked lines around it changed.
Behind the last tag nothing is found. In front of a tag, just this edit is found. -/
theorem scan_replaced_line (h : w.Tracked names .lineStart) (hmarked : w.OnlyTagsMarked)
    (nodes : List ν) {front back : List Bytes} {line line' : Bytes}
    (hlines : Text.splitInclusive 0x0a w.source = front ++ line :: back) (hline : ¬ Marked line)
    (hfull : Text.FullLine line') (hline' : ¬ Marked line')
    (hsum : Checksum.ofBlock (lineRun front line' back) ≠
      Checksum.ofBlock (lineRun front line back)) :
    ((∀ l ∈ back, ¬ Marked l) ∧ Merge.scan (front ++ line' :: back).flatten nodes = .ok {}) ∨
      ∃ mid tag rest, back = mid ++ tag.line :: rest ∧ (∀ l ∈ mid, ¬ Marked l) ∧
        Merge.scan (front ++ line' :: back).flatten nodes = .ok (.ofBlocks
          [blockEdit nodes (lineRun front line' back) tag (front.length + mid.length + 2)]) := by
  rw [source_eq_render, Layout.splitInclusive_render h.complete] at hlines
  rcases Layout.line_place hline hlines with
    ⟨before, s, after, pre, post, hsections, hblock, rfl, rfl⟩ | ⟨pre, htail, rfl⟩
  · -- The line is one of a block, and what the scan finds is that block with the other line.
    right
    have hs : s ∈ w.layout.sections := by rw [hsections]; simp
    have hunmarked := hmarked.unmarked_block h.complete s hs
    obtain ⟨hsplit, hcomplete', hunmarked'⟩ :=
      replace_line (h.complete s hs) hunmarked hblock hfull hline'
    rw [Unmarked, hblock, List.forall_mem_append, List.forall_mem_cons] at hunmarked
    obtain ⟨hpre, -, hpost⟩ := hunmarked
    have hflatten : (pre ++ line :: post).flatten = s.block := by
      rw [← hblock, Text.flatten_splitInclusive]
    rw [lineRun_eq hpre hpost, lineRun_eq hpre hpost, hflatten] at hsum
    refine ⟨post, s.tag, _, rfl, hpost, ?_⟩
    have hscan := h.scan_changed_block hmarked nodes hsections hcomplete' hunmarked' hsum
    have hsource : (before.flatMap Section.lines ++ pre ++ line' :: (post ++ s.tag.line ::
        (after.flatMap Section.lines ++ Text.splitInclusive 0x0a w.layout.tail))).flatten =
        Layout.render { sections := before ++ ⟨(pre ++ line' :: post).flatten, s.tag⟩ :: after,
                        tail := w.layout.tail } := by
      simp [Layout.render, Section.bytes, Layout.flatten_lines]
    have hnumber : (before.flatMap Section.lines).length + (pre ++ line' :: post).length + 1 =
        (before.flatMap Section.lines ++ pre).length + post.length + 2 := by
      simp only [List.length_append, List.length_cons]
      omega
    rw [hsource, hscan, hsplit, hnumber, lineRun_eq hpre hpost]
  · -- The line stands behind the last tag, so that all sections are as they were.
    left
    have hunmarked := hmarked.unmarked_tail h.complete
    obtain ⟨-, -, hunmarked'⟩ := replace_line (h.place rfl) hunmarked htail hfull hline'
    rw [Unmarked, htail, List.forall_mem_append, List.forall_mem_cons] at hunmarked
    refine ⟨hunmarked.2.2, ?_⟩
    have hsource : (w.layout.sections.flatMap Section.lines ++ pre ++ line' :: back).flatten =
        Layout.render { sections := w.layout.sections, tail := (pre ++ line' :: back).flatten } := by
      simp [Layout.render, Layout.flatten_lines]
    have hscan := Merge.scan_render nodes
      (l := { sections := w.layout.sections, tail := (pre ++ line' :: back).flatten })
      (h.plain hmarked) hunmarked'
    rw [hsource, hscan, changedBlocks_sealed nodes h.sealed]
    rfl

end Writer.Tracked

/-! ## 4. Generated sources -/

namespace Merge

open Generation (finalWriter run_tracked generate_ok)

variable {ν σ : Type} [DesignNode ν]

/-- In a generated source a line that is no tag was replaced, and the checksum of the unmarked lines
around it changed. If a tag stands behind the line, a scan finds this edit and no other one, and the
next tag names it; a safe merge is refused if that is a tag of structure. If none does, nothing is
found, and a safe merge goes on as if nothing had been edited. -/
theorem scan_line_edit (design : Design) (settings : Settings) (options : RunOptions)
    (htags : settings.mergeTags = true)
    (hmarked : (finalWriter design settings options).OnlyTagsMarked) {generated : Generated}
    (hgenerate : generate design settings options = .ok generated) (nodes : List ν)
    (host : MergeHost (StateM σ)) (t : σ) {front back : List Bytes} {line line' : Bytes}
    (hlines : Text.splitInclusive 0x0a generated.source = front ++ line :: back)
    (hline : ¬ Marked line) (hfull : Text.FullLine line') (hline' : ¬ Marked line')
    (hsum : Checksum.ofBlock (lineRun front line' back) ≠
      Checksum.ofBlock (lineRun front line back)) :
    let edited := (front ++ line' :: back).flatten
    ((∀ l ∈ back, ¬ Marked l) ∧ scan edited nodes = .ok {} ∧
      (run settings .goSafe host (.ok edited) nodes t).1 = (.ok .noChanges, nodes)) ∨
      ∃ mid tag rest, back = mid ++ tag.line :: rest ∧ (∀ l ∈ mid, ¬ Marked l) ∧
        let edit := blockEdit nodes (lineRun front line' back) tag (front.length + mid.length + 2)
        scan edited nodes = .ok (.ofBlocks [edit]) ∧
        (tag.kind = .generic →
          (run settings .goSafe host (.ok edited) nodes t).1 =
            (.ok (.conflict (.ofBlocks [edit])), nodes)) := by
  intro edited
  obtain ⟨-, -, htracked⟩ := run_tracked design settings options htags
  obtain ⟨generated', hgenerate', hsource⟩ := generate_ok design settings options htags
  obtain rfl := Except.ok.inj (hgenerate.symm.trans hgenerate')
  rw [hsource] at hlines
  rcases htracked.scan_replaced_line hmarked nodes hlines hline hfull hline' hsum with
    ⟨hback, hscan⟩ | ⟨mid, tag, rest, hback, hmid, hscan⟩
  · refine .inl ⟨hback, hscan, ?_⟩
    exact run_goSafe htags hscan rfl host t
  · refine .inr ⟨mid, tag, rest, hback, hmid, hscan, fun hkind => ?_⟩
    -- An edit of the structure stops the safe mode.
    have hone : (MergeSummary.ofBlocks [blockEdit nodes (lineRun front line' back) tag
        (front.length + mid.length + 2)]).structuralChanges > 0 := by
      simp [MergeSummary.ofBlocks, blockEdit, hkind]
    rw [run_scanned htags hscan, proceed, if_pos hone]
    exact bind_fst fun _ => rfl

section

set_option maxRecDepth 10000

def sampleFront : List Bytes :=
  ["// generated by formgen version 0.3.0\n", "\n", "#include \"design.h\"\n", "\n"].map utf8

def sampleMid : List Bytes :=
  ["//~fl~0~0001~076f04f7~~\n", "//~fl~0~0002~00000000~~\n", "  return 0;\n",
    "//~fl~1~0002~a95eb0b0~~\n", "//~fl~0~0001~00000000~~\n"].map utf8

theorem lines_sample :
    Text.splitInclusive 0x0a (finalWriter Design.sample { mergeTags := true } {}).source =
      sampleFront ++ utf8 "int main() \x7b\n" :: (sampleMid ++ [utf8 "\x7d\n"]) := by
  unfold finalWriter Generation.runDesign Generation.run
  rw [Generation.plan_sample]
  decide +kernel

/-- The head of the function stands in front of tags, and an edit of it is found. -/
theorem scan_line_edit_sample :
    let back := sampleMid ++ [utf8 "\x7d\n"]
    let edited := (sampleFront ++ utf8 "long main() \x7b\n" :: back).flatten
    ∃ mid tag rest, back = mid ++ tag.line :: rest ∧
      scan edited Design.sample.nodes = .ok (.ofBlocks [blockEdit Design.sample.nodes
        (lineRun sampleFront (utf8 "long main() \x7b\n") back) tag
        (sampleFront.length + mid.length + 2)]) := by
  intro back edited
  obtain ⟨generated, hgenerate, hsource⟩ := generate_ok Design.sample { mergeTags := true } {} rfl
  have hlines : Text.splitInclusive 0x0a generated.source =
      sampleFront ++ utf8 "int main() \x7b\n" :: back := by rw [hsource, lines_sample]
  have hfull : Text.FullLine (utf8 "long main() \x7b\n") :=
    ⟨utf8 "long main() \x7b", by decide +kernel, by decide +kernel⟩
  have hsum : Checksum.ofBlock (lineRun sampleFront (utf8 "long main() \x7b\n") back) ≠
      Checksum.ofBlock (lineRun sampleFront (utf8 "int main() \x7b\n") back) := by decide +kernel
  rcases scan_line_edit Design.sample { mergeTags := true } {} rfl Generation.onlyTagsMarked_sample
      hgenerate Design.sample.nodes (MergeHost.recording true (.ok ())) [] hlines
      (by decide +kernel) hfull (by decide +kernel) hsum with
    ⟨hback, -⟩ | ⟨mid, tag, rest, hback, -, hscan, -⟩
  · exact absurd hback (by decide +kernel)
  · exact ⟨mid, tag, rest, hback, hscan⟩

/-- The function is closed behind the last tag, and an edit of that line is not found. -/
theorem scan_closing_line_sample :
    let front := sampleFront ++ utf8 "int main() \x7b\n" :: sampleMid
    Text.splitInclusive 0x0a (finalWriter Design.sample { mergeTags := true } {}).source =
        front ++ [utf8 "\x7d\n"] ∧
      Checksum.ofBlock (lineRun front (utf8 "\x7d;\n") []) ≠
        Checksum.ofBlock (lineRun front (utf8 "\x7d\n") []) ∧
      scan (front ++ [utf8 "\x7d;\n"]).flatten Design.sample.nodes = .ok {} := by
  intro front
  refine ⟨lines_sample, by decide +kernel, ?_⟩
  decide +kernel

end

end Merge

end FormWeave
