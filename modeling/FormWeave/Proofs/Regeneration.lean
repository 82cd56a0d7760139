import FormWeave.Proofs.CountedBytes
import FormWeave.Proofs.TextBytes
import FormWeave.Writer.Basic

/-!
# Merged edits written again

An edited block goes into the design without its indentation and comes back with the indentation of
its node. The two layouts differ, but nothing that counts in a checksum does, so a merged edit is no
edit of the source that is generated next.
-/

namespace FormWeave

/-! ## 1. Well-formed blocks -/

namespace Utf8

def WellFormed (bytes : Bytes) : Prop := ∃ text, utf8 text = bytes

end Utf8

namespace Merge

/-- Bytes beyond ASCII are kept, and behind them the line has begun. -/
theorem unindentFrom_high {bytes : Bytes} (h : ∀ b ∈ bytes, 0x80 ≤ b.toNat) (hne : bytes ≠ [])
    (skipped : Option Nat) (rest : Bytes) :
    unindentFrom skipped (bytes ++ rest) = bytes ++ unindentFrom none rest := by
  induction bytes generalizing skipped with
  | nil => exact absurd rfl hne
  | cons b bytes ih =>
    have hb : 0x80 ≤ b.toNat := h b List.mem_cons_self
    have hkept : ∀ rest, unindentFrom skipped (b :: rest) = b :: unindentFrom none rest := by
      have hfeed : (b == 0x0a) = false := by
        rw [beq_eq_false_iff_ne]
        rintro rfl
        exact absurd hb (by decide)
      rcases unindentFrom_cases skipped b with ⟨rfl, -⟩ | ⟨n, -, rfl | rfl, -⟩ | hkept
      · exact absurd hb (by decide)
      · exact absurd hb (by decide)
      · exact absurd hb (by decide)
      · intro rest
        rw [hkept, hfeed]
        rfl
    rw [List.cons_append, hkept]
    cases bytes with
    | nil => rfl
    | cons c bytes => rw [ih (fun d hd => h d (List.mem_cons_of_mem _ hd)) (by simp) none]; rfl

/-- Without its indentation a text is a text. -/
theorem wellFormed_unindentFrom (cs : List Char) : ∀ skipped,
    ∃ ds : List Char, unindentFrom skipped (cs.flatMap String.utf8EncodeChar) =
      ds.flatMap String.utf8EncodeChar := by
  induction cs with
  | nil => exact fun skipped => ⟨[], by cases skipped <;> rfl⟩
  | cons c cs ih =>
    intro skipped
    rw [List.flatMap_cons]
    by_cases hc : c.toNat < 0x80
    · -- A byte that is a character of its own is kept or dropped.
      rw [utf8EncodeChar_ascii hc, List.singleton_append]
      rcases unindentFrom_cases skipped (UInt8.ofNat c.toNat) with ⟨-, h⟩ | ⟨n, -, -, h⟩ | h
      · rw [h]
        exact ih skipped
      · rw [h]
        exact ih (some (n + 1))
      · rw [h]
        obtain ⟨ds, hds⟩ := ih (if UInt8.ofNat c.toNat == 0x0a then some 0 else none)
        exact ⟨c :: ds, by rw [hds, List.flatMap_cons, utf8EncodeChar_ascii hc]; rfl⟩
    · -- Several bytes of one character stay together.
      obtain ⟨ds, hds⟩ := ih none
      rw [unindentFrom_high (fun b hb => Utf8.high_of_mem_encode (by omega) hb)
        (String.utf8EncodeChar_ne_nil), hds]
      exact ⟨c :: ds, rfl⟩

/-- Without the line feeds at its end a text is a text. -/
theorem rdropWhile_encode (cs : List Char) :
    (cs.flatMap String.utf8EncodeChar).rdropWhile (· == 0x0a) =
      (cs.rdropWhile (· == '\n')).flatMap String.utf8EncodeChar := by
  induction cs using List.reverseRecOn with
  | nil => rfl
  | append_singleton init c ih =>
    rw [List.flatMap_append, List.flatMap_singleton]
    by_cases hfeed : c = '\n'
    · subst hfeed
      rw [show String.utf8EncodeChar '\n' = [0x0a] from rfl, List.rdropWhile_concat_pos _ _ _ rfl,
        List.rdropWhile_concat_pos _ _ _ rfl]
      exact ih
    · -- The last byte of any other character is no line feed.
      obtain ⟨front, b, hencode⟩ : ∃ front b, String.utf8EncodeChar c = front ++ [b] := by
        rcases List.eq_nil_or_concat' (String.utf8EncodeChar c) with h | h
        · exact absurd h String.utf8EncodeChar_ne_nil
        · exact h
      have hb : ¬ (b == 0x0a) = true := by
        rw [beq_iff_eq]
        rintro rfl
        have hmem : (0x0a : UInt8) ∈ String.utf8EncodeChar c := by rw [hencode]; simp
        exact hfeed (Utf8.eq_of_mem_encode (by decide) hmem)
      rw [List.rdropWhile_concat_neg (· == '\n') _ _ (by simpa using hfeed), hencode,
        ← List.append_assoc, List.rdropWhile_concat_neg (· == 0x0a) _ _ hb]
      simp [hencode]

/-- The text of a well-formed block has just the bytes that are left of the block. -/
theorem utf8_unindent {block : Bytes} (h : Utf8.WellFormed block) :
    utf8 (unindent block) = unindentBytes block := by
  obtain ⟨text, rfl⟩ := h
  obtain ⟨cs, hcs⟩ := wellFormed_unindentFrom text.toList (some 0)
  have hbytes : unindentBytes (utf8 text) = utf8 (String.ofList (cs.rdropWhile (· == '\n'))) := by
    rw [utf8_ofList, ← rdropWhile_encode, ← hcs]
    rfl
  rw [unindent, hbytes, Utf8.decodeLossy_utf8]

end Merge

/-! ## 2. What the writer appends -/

namespace Writer

/-- `w'` is `w` with `bytes` written behind the source, and counted if blocks are tagged. -/
structure Appended (w : Writer) (bytes : Bytes) (w' : Writer) : Prop where
  source : w'.source = w.source ++ bytes
  checksum : w'.checksum = if w.settings.mergeTags then w.checksum.add bytes else w.checksum
  settings : w'.settings = w.settings
  dryRun : w'.dryRun = w.dryRun

theorem appended_writeSource {w : Writer} (h : w.dryRun = false) (text : String) :
    w.Appended (utf8 text) (w.writeSource text) := by
  have hput : w.writeSource text = w.putSource (utf8 text) := by
    rw [writeSource, unlessDry, h]
    rfl
  rw [hput]
  refine ⟨?_, rfl, rfl, rfl⟩
  simp [putSource, source, Chunk.sourceBytes]

theorem Appended.trans {w w' w'' : Writer} {front back : Bytes} (h : w.Appended front w')
    (h' : w'.Appended back w'') : w.Appended (front ++ back) w'' where
  source := by rw [h'.source, h.source, List.append_assoc]
  checksum := by
    rw [h'.checksum, h.settings, h.checksum]
    split
    · rw [Checksum.Running.add_append]
    · rfl
  settings := h'.settings.trans h.settings
  dryRun := h'.dryRun.trans h.dryRun

theorem appended_writeSources (pieces : List String) :
    ∀ {w : Writer}, w.dryRun = false →
      w.Appended (pieces.flatMap utf8) (pieces.foldl writeSource w) := by
  induction pieces with
  | nil =>
    intro w _
    refine ⟨(List.append_nil _).symm, ?_, rfl, rfl⟩
    split <;> rfl
  | cons piece rest ih =>
    intro w h
    have hpiece := appended_writeSource h piece
    exact hpiece.trans (ih (hpiece.dryRun.trans h))

/-- With a line feed behind the last one, every line is written with its line feed. -/
theorem indentedPieces_feed (indent : String) {lines : List (List Char)} (h : lines ≠ []) :
    indentedPieces indent (some '\n') lines =
      lines.flatMap fun line => indentedLine indent line ++ ["\n"] := by
  induction lines with
  | nil => exact absurd rfl h
  | cons line rest ih =>
    cases rest with
    | nil => exact (List.append_nil _).symm
    | cons next rest =>
      rw [indentedPieces, ih (by simp), List.flatMap_cons (x := line), List.append_assoc]
      · rfl
      · simp

/-! ## 3. What counts of the lines -/

theorem utf8_indentAt (depth : Int32) : ∀ b ∈ utf8 (indentAt depth), Checksum.isSpace b = true := by
  intro b hb
  rw [indentAt, utf8_ofList] at hb
  obtain ⟨c, hc, hb⟩ := List.mem_flatMap.1 hb
  rw [List.eq_of_mem_replicate hc] at hb
  rw [List.mem_singleton.1 (show b ∈ [0x20] from hb)]
  rfl

/-- The indentation of a line does not count. -/
theorem counted_indentedLine (depth : Int32) (line : List Char) :
    Checksum.counted true ((indentedLine (indentAt depth) line ++ ["\n"]).flatMap utf8) =
      Checksum.counted true ((line ++ ['\n']).flatMap String.utf8EncodeChar) := by
  have hfeed : utf8 "\n" = ['\n'].flatMap String.utf8EncodeChar := rfl
  rw [List.flatMap_append, List.flatMap_append, List.flatMap_singleton, hfeed]
  unfold indentedLine
  split
  · -- An empty line is written as it is, and so is one of the preprocessor.
    next h => rw [List.isEmpty_iff.1 h]; rfl
  split
  · rw [List.flatMap_singleton, utf8_ofList]
  · rw [List.flatMap_singleton, utf8_append, utf8_ofList, List.append_assoc]
    exact Checksum.counted_spaces (utf8_indentAt depth) _

theorem counted_indentedLines (depth : Int32) (lines : List (List Char)) :
    Checksum.counted true
        ((lines.flatMap fun line => indentedLine (indentAt depth) line ++ ["\n"]).flatMap utf8) =
      Checksum.counted true
        ((lines.flatMap fun line => line ++ ['\n']).flatMap String.utf8EncodeChar) := by
  induction lines with
  | nil => rfl
  | cons line rest ih =>
    -- A line counts on its own, since it ends in a line feed with its indentation and without.
    have hpieces : Text.Complete ((indentedLine (indentAt depth) line ++ ["\n"]).flatMap utf8) := by
      rw [List.flatMap_append]
      exact Text.Complete.append_of_endsLine _ (show EndsLine "\n" by decide)
    have hchars : Text.Complete ((line ++ ['\n']).flatMap String.utf8EncodeChar) := by
      rw [List.flatMap_append]
      exact Text.Complete.append_of_endsLine _ (show EndsLine "\n" by decide)
    rw [List.flatMap_cons, List.flatMap_append, Checksum.counted_append hpieces,
      counted_indentedLine, ih, ← Checksum.counted_append hchars, ← List.flatMap_append]
    rfl

/-- The lines of a text count as the text does. -/
theorem counted_indentedPieces (depth : Int32) (text : String) :
    Checksum.counted true ((indentedPieces (indentAt depth) (some '\n')
        (Text.split '\n' text.toList)).flatMap utf8) =
      Checksum.counted true (utf8 text ++ [0x0a]) := by
  rw [indentedPieces_feed _ (Text.split_ne_nil '\n' text.toList), counted_indentedLines,
    Text.flatMap_split, List.flatMap_append]
  rfl

/-! ## 4. A merged edit -/

/-- The text of an edited block, written again at any depth, counts as the block did: no byte that
counts is lost, added or moved. So the block has the checksum of the edit. -/
theorem writeIndented_unindent (w : Writer) (extra : Int32) (block : Bytes)
    (hlive : w.dryRun = false) (hblock : Utf8.WellFormed block) (hlines : Text.Complete block) :
    ∃ written, (w.writeIndented (Merge.unindent block) extra (some '\n')).source =
        w.source ++ written ∧
      Checksum.counted true written = Checksum.counted true block ∧
      Checksum.ofBlock written = Checksum.ofBlock block ∧
      (w.settings.mergeTags = true → w.checksum = {} →
        (w.writeIndented (Merge.unindent block) extra (some '\n')).blockChecksum =
          Checksum.ofBlock block) := by
  have hwritten := appended_writeSources (indentedPieces (w.indentPlus extra) (some '\n')
    (Text.split '\n' (Merge.unindent block).toList)) hlive
  have hcounted := counted_indentedPieces (w.indentation + extra) (Merge.unindent block)
  rw [Merge.utf8_unindent hblock, Merge.counted_unindentBytes hlines] at hcounted
  refine ⟨_, hwritten.source, hcounted, Checksum.ofBlock_congr hcounted, ?_⟩
  intro htags hfresh
  have hchecksum := hwritten.checksum
  rw [htags, hfresh] at hchecksum
  exact (congrArg Checksum.Running.value hchecksum).trans (Checksum.ofBlock_congr hcounted)

def handEdited : Bytes := utf8 "\t  #if a\r\n\x0c\x00 b;\r\n   \n c(\"\u00e9\");\n\n"

theorem writeIndented_unindent_handEdited :
    let w : Writer := { settings := { mergeTags := true }, indentation := 2 }
    w.dryRun = false ∧ Utf8.WellFormed handEdited ∧ Text.Complete handEdited ∧
      ∃ written, (w.writeIndented (Merge.unindent handEdited) 1 (some '\n')).source = written ∧
        Checksum.counted true written = Checksum.counted true handEdited ∧
        (w.writeIndented (Merge.unindent handEdited) 1 (some '\n')).blockChecksum =
          Checksum.ofBlock handEdited := by
  intro w
  have hvalid : Utf8.WellFormed handEdited := ⟨_, rfl⟩
  have hlines : Text.Complete handEdited := by decide +kernel
  obtain ⟨written, hsource, hcounted, -, hchecksum⟩ :=
    writeIndented_unindent w 1 handEdited rfl hvalid hlines
  exact ⟨rfl, hvalid, hlines, written, hsource, hcounted, hchecksum rfl rfl⟩

end Writer

end FormWeave
