import FormWeave.Proofs.Layout

/-!
# The scan of a layout

A scan goes through the lines of a source. Where the blocks of a layout are nothing but complete
lines without a marker, it stops at each tag with the bytes of the block in front of it, so what it
finds can be read off the sections.
-/

namespace FormWeave

variable {ν : Type} [DesignNode ν] (nodes : List ν)

namespace Section

def changed? (s : Section) (line : Nat) : Option ChangedBlock :=
  if Checksum.ofBlock s.block = s.tag.checksum then none
  else
    some
      { kind := s.tag.kind
        nodeId := s.tag.nodeId
        line
        text := Merge.unindent s.block
        resolved := s.tag.kind == .generic || Merge.accepts nodes s.tag.nodeId s.tag.kind }

theorem Sealed.changed?_eq_none {s : Section} (h : s.Sealed) (line : Nat) :
    s.changed? nodes line = none := by
  rw [changed?, if_pos h.checksum.symm]

/-- A section that a scan reads as it stands. -/
structure Plain (s : Section) : Prop where
  complete : Text.Complete s.block
  unmarked : Unmarked s.block

end Section

def changedBlocks : (lines : Nat) → List Section → List ChangedBlock
  | _, [] => []
  | lines, s :: rest =>
    (s.changed? nodes (lines + s.lines.length)).toList ++
      changedBlocks (lines + s.lines.length) rest

/-- Sealed sections are not edited. -/
theorem changedBlocks_sealed {sections : List Section} (h : ∀ s ∈ sections, s.Sealed) :
    ∀ lines, changedBlocks nodes lines sections = [] := by
  induction sections with
  | nil => exact fun _ => rfl
  | cons s rest ih =>
    intro lines
    have hs := h s List.mem_cons_self
    have hrest := ih fun t ht => h t (List.mem_cons_of_mem _ ht)
    rw [changedBlocks, hs.changed?_eq_none, hrest]
    rfl

namespace Merge

theorem foldlM_append_ok {σ ε α : Type} {f : σ → α → Except ε σ} {s s' : σ} {front : List α}
    (h : front.foldlM f s = .ok s') (back : List α) :
    (front ++ back).foldlM f s = back.foldlM f s' := by
  rw [List.foldlM_append, h]
  rfl

def ScanState.keep (state : ScanState) (line : Bytes) : ScanState :=
  { state with
    checksum := state.checksum.add line, block := line :: state.block, lines := state.lines + 1 }

theorem scanLine_unmarked {line : Bytes} (h : ¬ Marked line) (state : ScanState) :
    scanLine nodes state line = .ok (state.keep line) := by
  rw [scanLine, (fromMarker?_eq_none_iff line).2 h]
  rfl

/-- Lines without a marker are added to the open block. -/
theorem scan_unmarked {lines : List Bytes} (h : ∀ line ∈ lines, ¬ Marked line) :
    ∀ state : ScanState, lines.foldlM (scanLine nodes) state =
      .ok { state with
        checksum := state.checksum.add lines.flatten
        block := lines.reverse ++ state.block
        lines := state.lines + lines.length } := by
  induction lines with
  | nil => intro state; rfl
  | cons line rest ih =>
    intro state
    have hrest := ih fun l hl => h l (List.mem_cons_of_mem _ hl)
    rw [List.foldlM_cons, scanLine_unmarked nodes (h line List.mem_cons_self)]
    refine (hrest (state.keep line)).trans ?_
    simp only [ScanState.keep, List.flatten_cons, Checksum.Running.add_append, List.reverse_cons,
      List.append_assoc, List.singleton_append, List.length_cons, Nat.add_assoc, Nat.add_comm 1]

def ScanState.behindTag (lines : Nat) (changed : List ChangedBlock) : ScanState :=
  { lines, changed }

/-- A line with a tag closes the block in front of it. -/
theorem scanLine_read (state : ScanState) {line bytes : Bytes} {s : Section}
    (hline : fromMarker? line = some bytes) (hread : readTag (state.lines + 1) bytes = .ok s.tag)
    (hchecksum : state.checksum.value = Checksum.ofBlock s.block)
    (hblock : state.block.reverse.flatten = s.block) :
    scanLine nodes state line = .ok (.behindTag (state.lines + 1)
      ((s.changed? nodes (state.lines + 1)).toList ++ state.changed)) := by
  rw [scanLine, hline]
  simp only [hread, bind, Except.bind, hchecksum, hblock, Section.changed?, beq_iff_eq]
  split
  · rfl
  · rfl

theorem scanLine_tag (state : ScanState) (s : Section)
    (hchecksum : state.checksum.value = Checksum.ofBlock s.block)
    (hblock : state.block.reverse.flatten = s.block) :
    scanLine nodes state s.tag.line = .ok (.behindTag (state.lines + 1)
      ((s.changed? nodes (state.lines + 1)).toList ++ state.changed)) := by
  have hline := fromMarker?_of_prefix s.tag.marker_prefix_line
  exact scanLine_read nodes state hline (readTag_line _ _) hchecksum hblock

theorem scan_section {s : Section} (h : s.Plain) (lines : Nat) (changed : List ChangedBlock) :
    s.lines.foldlM (scanLine nodes) (.behindTag lines changed) =
      .ok (.behindTag (lines + s.lines.length)
        ((s.changed? nodes (lines + s.lines.length)).toList ++ changed)) := by
  have hflatten : (Text.splitInclusive 0x0a s.block).flatten = s.block :=
    Text.flatten_splitInclusive 0x0a s.block
  -- Behind the lines of the block, its bytes are kept and its checksum is up to date.
  let opened : ScanState :=
    { checksum := ({} : Checksum.Running).add s.block
      block := (Text.splitInclusive 0x0a s.block).reverse
      lines := lines + (Text.splitInclusive 0x0a s.block).length
      changed }
  have hblock : (Text.splitInclusive 0x0a s.block).foldlM (scanLine nodes)
      (.behindTag lines changed) = .ok opened := by
    rw [scan_unmarked nodes h.unmarked, hflatten]
    simp only [ScanState.behindTag, List.append_nil, opened]
  have htag := scanLine_tag nodes opened s rfl (by simpa only [opened, List.reverse_reverse])
  have hlength : opened.lines + 1 = lines + s.lines.length := by
    simp only [opened, Section.lines, List.length_append, List.length_singleton, Nat.add_assoc]
  calc s.lines.foldlM (scanLine nodes) (.behindTag lines changed)
      = [s.tag.line].foldlM (scanLine nodes) opened := foldlM_append_ok hblock _
    _ = scanLine nodes opened s.tag.line := by rw [List.foldlM_cons]; exact bind_pure _
    _ = _ := by rw [htag, hlength]

theorem scan_sections {sections : List Section} (h : ∀ s ∈ sections, s.Plain) :
    ∀ lines changed, ∃ total,
      (sections.flatMap Section.lines).foldlM (scanLine nodes) (.behindTag lines changed) =
        .ok (.behindTag total ((changedBlocks nodes lines sections).reverse ++ changed)) := by
  induction sections with
  | nil => exact fun lines changed => ⟨lines, rfl⟩
  | cons s rest ih =>
    intro lines changed
    have hrest := ih fun t ht => h t (List.mem_cons_of_mem _ ht)
    obtain ⟨total, htotal⟩ := hrest (lines + s.lines.length)
      ((s.changed? nodes (lines + s.lines.length)).toList ++ changed)
    refine ⟨total, ?_⟩
    rw [List.flatMap_cons, foldlM_append_ok (scan_section nodes (h s List.mem_cons_self) _ _),
      htotal]
    -- A scan keeps what it found last one first.
    have hone : ∀ block? : Option ChangedBlock, block?.toList.reverse = block?.toList := by
      intro block?
      cases block? <;> rfl
    rw [changedBlocks, List.reverse_append, hone, List.append_assoc]

/-- A scan of a source finds the edited sections of its layout. -/
theorem scan_render {l : Layout} (h : ∀ s ∈ l.sections, s.Plain) (htail : Unmarked l.tail) :
    scan l.render nodes = .ok (.ofBlocks (changedBlocks nodes 0 l.sections)) := by
  obtain ⟨total, htotal⟩ := scan_sections nodes h 0 []
  have hlines := Layout.splitInclusive_render fun s hs => (h s hs).complete
  have hstart : ({} : ScanState) = .behindTag 0 [] := rfl
  rw [scan, hlines, hstart, foldlM_append_ok htotal, scan_unmarked nodes htail]
  simp only [ScanState.behindTag, bind, Except.bind, List.append_nil, List.reverse_reverse]
  rfl

/-! ## What any scan finds -/

theorem not_generic_of_isMergeable {kind : TagKind} (h : kind.isMergeable = true) :
    (kind == .generic) = false := by
  cases kind with
  | generic => cases h
  | _ => rfl

theorem foldlM_preserves {σ ε α : Type} {f : σ → α → Except ε σ} {P : σ → Prop}
    (hstep : ∀ s a s', P s → f s a = .ok s' → P s') (list : List α) :
    ∀ {s s' : σ}, P s → list.foldlM f s = .ok s' → P s' := by
  induction list with
  | nil =>
    intro s s' hs h
    cases h
    exact hs
  | cons a rest ih =>
    intro s s' hs h
    rw [List.foldlM_cons] at h
    cases hf : f s a with
    | error e =>
      rw [hf] at h
      cases h
    | ok t =>
      rw [hf] at h
      exact ih (hstep s a t hs hf) h

def RightlyResolved (block : ChangedBlock) : Prop :=
  block.resolved = (block.kind == .generic || accepts nodes block.nodeId block.kind)

theorem RightlyResolved.accepts_eq {block : ChangedBlock} (h : RightlyResolved nodes block)
    (hkind : block.kind.isMergeable = true) :
    accepts nodes block.nodeId block.kind = block.resolved := by
  rw [RightlyResolved, not_generic_of_isMergeable hkind, Bool.false_or] at h
  exact h.symm

theorem scanLine_resolved {state state' : ScanState} {line : Bytes}
    (hstate : ∀ b ∈ state.changed, RightlyResolved nodes b)
    (h : scanLine nodes state line = .ok state') :
    ∀ b ∈ state'.changed, RightlyResolved nodes b := by
  rw [scanLine] at h
  cases hmarker : fromMarker? line with
  | none =>
    rw [hmarker] at h
    cases h
    exact hstate
  | some bytes =>
    simp only [hmarker] at h
    -- A tag that cannot be read ends the scan.
    cases hread : readTag (state.lines + 1) bytes with
    | error e =>
      rw [hread] at h
      cases h
    | ok tag =>
      simp only [hread, bind, Except.bind] at h
      split at h
      · cases h
        exact hstate
      · cases h
        rintro b (_ | ⟨_, hb⟩)
        · rfl
        · exact hstate b hb

/-- A scan sums up its blocks and marks those as resolved that a node takes. -/
theorem scan_resolved {source : Bytes} {summary : MergeSummary}
    (h : scan source nodes = .ok summary) :
    summary = .ofBlocks summary.blocks ∧ ∀ b ∈ summary.blocks, RightlyResolved nodes b := by
  rw [scan] at h
  cases hfold : (Text.splitInclusive 0x0a source).foldlM (scanLine nodes) {} with
  | error e =>
    rw [hfold] at h
    cases h
  | ok state =>
    rw [hfold] at h
    cases h
    refine ⟨rfl, fun b hb => ?_⟩
    have hstart : ∀ b ∈ ({} : ScanState).changed, RightlyResolved nodes b := by simp
    exact foldlM_preserves (fun _ _ _ hs hl => scanLine_resolved nodes hs hl) _ hstart hfold b
      (List.mem_reverse.1 hb)

end Merge

end FormWeave
