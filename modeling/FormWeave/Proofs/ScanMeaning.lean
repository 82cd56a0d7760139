import Mathlib.Data.List.DropRight
import FormWeave.Proofs.Scanning

/-!
# The meaning of a scan

A scan goes through a file once and keeps a checksum, a block and a list of edits. What it finds is
said here without a state: every marked line of a file has a number, the unmarked lines in front of
it, and its bytes from the first marker on, and these alone decide. The proof goes by adding one line
at the end of a file.
-/

namespace FormWeave.Merge

/-! ## 1. The marked lines of a file -/

/-- A marked line with what it closes, seen from the whole file. -/
structure MarkedLine where
  number : Nat
  /-- The unmarked lines since the marked line in front of it, or since the start of the file. -/
  block : Bytes
  /-- The line from its first marker on. -/
  bytes : Bytes

/-- The unmarked lines at the end of some lines. -/
def openLines (lines : List Bytes) : List Bytes := lines.rtakeWhile fun line => !decide (Marked line)

def markedLine? (front : List Bytes) (line : Bytes) : Option MarkedLine :=
  (line.tails.find? fun back => (utf8 Tag.marker).isPrefixOf back).map fun bytes =>
    { number := front.length + 1, block := (openLines front).flatten, bytes }

/-- The marked lines of a file in their order, each seen with all lines in front of it. -/
def markedLines (lines : List Bytes) : List MarkedLine :=
  lines.zipIdx.filterMap fun (line, index) => markedLine? (lines.take index) line

namespace MarkedLine

def tag (m : MarkedLine) : Except TagError Tag := Tag.parse (Utf8.decodeLossy m.bytes)

def fault? (m : MarkedLine) : Option Error :=
  match m.tag with
  | .error cause => some (.malformedTag m.number (Text.trimEnd (Utf8.decodeLossy m.bytes)) cause)
  | .ok _ => none

variable {ν : Type} [DesignNode ν]

/-- The edit that a marked line stands for, if the checksum of its tag is not that of its block. -/
def edit? (nodes : List ν) (m : MarkedLine) : Option ChangedBlock :=
  match m.tag with
  | .error _ => none
  | .ok tag => Section.changed? nodes ⟨m.block, tag⟩ m.number

end MarkedLine

theorem fromMarker?_eq_find? (line : Bytes) :
    fromMarker? line = line.tails.find? fun back => (utf8 Tag.marker).isPrefixOf back := by
  induction line with
  | nil => rfl
  | cons b rest ih =>
    rw [fromMarker?, List.tails_cons, List.find?_cons, ih]
    cases (utf8 Tag.marker).isPrefixOf (b :: rest) <;> rfl

theorem markedLine?_eq (front : List Bytes) (line : Bytes) :
    markedLine? front line = (fromMarker? line).map fun bytes =>
      { number := front.length + 1, block := (openLines front).flatten, bytes } := by
  rw [markedLine?, fromMarker?_eq_find?]

theorem markedLine?_of_not_marked {line : Bytes} (h : ¬ Marked line) (front : List Bytes) :
    markedLine? front line = none := by
  rw [markedLine?_eq, (fromMarker?_eq_none_iff line).2 h]
  rfl

/-! ## 2. One more line -/

/-- A line at the end changes nothing in what stands in front of the others. -/
theorem markedLines_concat (front : List Bytes) (line : Bytes) :
    markedLines (front ++ [line]) = markedLines front ++ (markedLine? front line).toList := by
  have hfront : ∀ part ∈ front.zipIdx, markedLine? ((front ++ [line]).take part.2) part.1 =
      markedLine? (front.take part.2) part.1 := by
    intro part hpart
    have hindex : part.2 < front.length := by
      have := List.snd_lt_of_mem_zipIdx hpart
      omega
    rw [List.take_append_of_le_length (by omega)]
  have hfull : (front ++ [line]).take front.length = front := List.take_left
  rw [markedLines, List.zipIdx_append, List.filterMap_append, List.filterMap_congr hfront,
    List.zipIdx_singleton, Nat.zero_add]
  simp only [List.filterMap_cons, List.filterMap_nil, hfull]
  cases markedLine? front line <;> rfl

theorem openLines_concat (front : List Bytes) (line : Bytes) :
    openLines (front ++ [line]) = if Marked line then [] else openLines front ++ [line] := by
  by_cases h : Marked line
  · rw [if_pos h, openLines, List.rtakeWhile_concat_neg _ _ _ (by simp [h])]
  · rw [if_neg h, openLines, List.rtakeWhile_concat_pos _ _ _ (by simp [h])]
    rfl

/-! ## 3. The state of a scan -/

variable {ν : Type} [DesignNode ν] (nodes : List ν)

def stateBehind (lines : List Bytes) : ScanState where
  checksum := ({} : Checksum.Running).add (openLines lines).flatten
  block := (openLines lines).reverse
  lines := lines.length
  changed := ((markedLines lines).filterMap (MarkedLine.edit? nodes)).reverse

theorem stateBehind_unmarked {line : Bytes} (h : ¬ Marked line) (front : List Bytes) :
    stateBehind nodes (front ++ [line]) = (stateBehind nodes front).keep line := by
  have hmarked : markedLines (front ++ [line]) = markedLines front := by
    rw [markedLines_concat, markedLine?_of_not_marked h, Option.toList_none, List.append_nil]
  have hopen : openLines (front ++ [line]) = openLines front ++ [line] := by
    rw [openLines_concat, if_neg h]
  simp [stateBehind, ScanState.keep, hmarked, hopen]

theorem stateBehind_marked {front : List Bytes} {line : Bytes} {m : MarkedLine}
    (h : markedLine? front line = some m) (hline : Marked line) :
    stateBehind nodes (front ++ [line]) = .behindTag (front.length + 1)
      ((m.edit? nodes).toList ++ ((markedLines front).filterMap (MarkedLine.edit? nodes)).reverse) := by
  have hopen : openLines (front ++ [line]) = [] := by rw [openLines_concat, if_pos hline]
  have hlast : [m].filterMap (MarkedLine.edit? nodes) = (m.edit? nodes).toList := by
    rw [List.filterMap_cons, List.filterMap_nil]
    cases m.edit? nodes <;> rfl
  -- The edits of a state stand last one first, and this line has at most one.
  have hreverse : (m.edit? nodes).toList.reverse = (m.edit? nodes).toList := by
    cases m.edit? nodes <;> rfl
  simp only [stateBehind, ScanState.behindTag, hopen, markedLines_concat, h, Option.toList_some,
    List.filterMap_append, hlast, List.reverse_append, hreverse, List.flatten_nil,
    List.length_append, List.length_singleton, Checksum.Running.add_nil, List.reverse_nil]

theorem scanLine_marked {front : List Bytes} {line : Bytes} {m : MarkedLine}
    (h : markedLine? front line = some m) :
    scanLine nodes (stateBehind nodes front) line =
      match m.fault? with
      | some fault => .error fault
      | none => .ok (stateBehind nodes (front ++ [line])) := by
  rw [markedLine?_eq] at h
  obtain ⟨bytes, hbytes, rfl⟩ := Option.map_eq_some_iff.1 h
  have hline : Marked line := by
    by_contra hnot
    rw [(fromMarker?_eq_none_iff line).2 hnot] at hbytes
    cases hbytes
  rw [← markedLine?_eq] at h
  -- The tag that the scan reads is that of the marked line.
  cases htag : Tag.parse (Utf8.decodeLossy bytes) with
  | error cause =>
    rw [scanLine, hbytes, MarkedLine.fault?, MarkedLine.tag, htag]
    simp only [readTag, htag, Except.mapError, bind, Except.bind, stateBehind]
  | ok tag =>
    have hread : readTag (front.length + 1) bytes = .ok tag := by
      rw [readTag]
      simp only [htag, Except.mapError]
    have hstep := scanLine_read nodes (stateBehind nodes front)
      (s := ⟨(openLines front).flatten, tag⟩) hbytes hread rfl
      (by simp only [stateBehind, List.reverse_reverse])
    rw [hstep, stateBehind_marked nodes h hline, MarkedLine.fault?, MarkedLine.edit?,
      MarkedLine.tag, htag]
    rfl

/-- A scan fails at the first marked line that holds no tag, and else collects the edits. -/
theorem foldlM_scanLine (lines : List Bytes) :
    lines.foldlM (scanLine nodes) {} =
      match (markedLines lines).findSome? MarkedLine.fault? with
      | some fault => .error fault
      | none => .ok (stateBehind nodes lines) := by
  -- From the end, since the state at a line is known from all the lines in front of it.
  induction lines using List.reverseRecOn with
  | nil => rfl
  | append_singleton front line ih =>
    rw [List.foldlM_append, ih, markedLines_concat, List.findSome?_append]
    cases (markedLines front).findSome? MarkedLine.fault? with
    | some fault => rfl
    | none =>
      rw [Option.none_or]
      show [line].foldlM (scanLine nodes) (stateBehind nodes front) = _
      rw [List.foldlM_cons]
      show scanLine nodes (stateBehind nodes front) line >>= pure = _
      rw [bind_pure]
      by_cases hline : Marked line
      · have hsome : (markedLine? front line).isSome := by
          rw [markedLine?_eq, Option.isSome_map, Option.isSome_iff_ne_none]
          exact fun h => (fromMarker?_eq_none_iff line).1 h hline
        obtain ⟨m, hm⟩ := Option.isSome_iff_exists.1 hsome
        rw [scanLine_marked nodes hm, hm, Option.toList_some, List.findSome?_singleton]
      · rw [scanLine_unmarked nodes hline, markedLine?_of_not_marked hline,
          stateBehind_unmarked nodes hline]
        rfl

/-! ## 4. What a scan finds -/

/-- A file without the lines behind its last marked line. -/
def withoutTail (source : Bytes) : Bytes :=
  ((Text.splitInclusive 0x0a source).rdropWhile fun line => !decide (Marked line)).flatten

theorem markedLines_rdropWhile (lines : List Bytes) :
    markedLines (lines.rdropWhile fun line => !decide (Marked line)) = markedLines lines := by
  induction lines using List.reverseRecOn with
  | nil => rfl
  | append_singleton front line ih =>
    by_cases h : Marked line
    · rw [List.rdropWhile_concat_neg _ _ _ (by simp [h])]
    · rw [List.rdropWhile_concat_pos _ _ _ (by simp [h]), ih, markedLines_concat,
        markedLine?_of_not_marked h, Option.toList_none, List.append_nil]

theorem splitInclusive_withoutTail (source : Bytes) :
    Text.splitInclusive 0x0a (withoutTail source) =
      (Text.splitInclusive 0x0a source).rdropWhile fun line => !decide (Marked line) := by
  have hlines := Text.areLines_splitInclusive source
  rw [← List.rdropWhile_append_rtakeWhile (p := fun line => !decide (Marked line))
    (l := Text.splitInclusive 0x0a source)] at hlines
  exact hlines.of_append.splitInclusive_flatten

/-- Every edit is one of structure, of code, or of a callback. -/
theorem countP_kinds (blocks : List ChangedBlock) :
    blocks.countP (·.kind == .generic) + blocks.countP (·.kind == .code) +
      blocks.countP (·.kind.isCallback) = blocks.length := by
  induction blocks with
  | nil => rfl
  | cons block rest ih =>
    have hone : (if block.kind == .generic then 1 else 0) + (if block.kind == .code then 1 else 0) +
        (if block.kind.isCallback then 1 else 0) = 1 := by cases block.kind <;> rfl
    simp only [List.countP_cons, List.length_cons]
    omega

theorem scan_eq_markedLines (source : Bytes) :
    scan source nodes =
      match (markedLines (Text.splitInclusive 0x0a source)).findSome? MarkedLine.fault? with
      | some fault => .error fault
      | none => .ok (.ofBlocks ((markedLines (Text.splitInclusive 0x0a source)).filterMap
          (MarkedLine.edit? nodes))) := by
  rw [scan, foldlM_scanLine]
  cases (markedLines (Text.splitInclusive 0x0a source)).findSome? MarkedLine.fault? with
  | some fault => rfl
  | none =>
    show Except.ok (MergeSummary.ofBlocks (stateBehind nodes _).changed.reverse) = _
    rw [stateBehind, List.reverse_reverse]

/-- A scan fails at the first marked line that holds no tag, whatever stands around it. If there is
none, it reports the marked lines whose tag has another checksum than the unmarked lines in front of
it, and counts them by kind. What stands behind the last marked line makes no difference. -/
theorem scan_meaning (source : Bytes) (nodes : List ν) :
    let marked := markedLines (Text.splitInclusive 0x0a source)
    let edits := marked.filterMap (MarkedLine.edit? nodes)
    scan source nodes =
      (match marked.findSome? MarkedLine.fault? with
      | some fault => .error fault
      | none => .ok
          { structuralChanges := edits.countP (·.kind == .generic)
            codeChanges := edits.countP (·.kind == .code)
            callbackChanges := edits.countP (·.kind.isCallback)
            unresolvedIds := edits.countP (!·.resolved)
            blocks := edits }) ∧
      edits.countP (·.kind == .generic) + edits.countP (·.kind == .code) +
        edits.countP (·.kind.isCallback) = edits.length ∧
      scan (withoutTail source) nodes = scan source nodes := by
  intro marked edits
  refine ⟨scan_eq_markedLines nodes source, countP_kinds edits, ?_⟩
  rw [scan_eq_markedLines, scan_eq_markedLines, splitInclusive_withoutTail, markedLines_rdropWhile]

end FormWeave.Merge
