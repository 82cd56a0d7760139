import FormWeave.Merge.Basic
import FormWeave.Proofs.DesignIds
import FormWeave.Proofs.Lines

/-!
# Text in front of a tag

A tag may stand anywhere on its line, and a scan looks at no byte in front of it. So a file is
scanned and merged as if every tag started its line: what a user wrote there counts for no checksum
and is part of no edit.
-/

namespace FormWeave

namespace Text

/-- Where every line loses some of its first bytes but not all of them, the lines stay lines. -/
theorem AreLines.map_suffix {f : Bytes → Bytes} {lines : List Bytes} (h : AreLines lines)
    (hf : ∀ line ∈ lines, f line <:+ line ∧ (line ≠ [] → f line ≠ [])) : AreLines (lines.map f) := by
  induction h with
  | nil => exact .nil
  | @last line hne hopen =>
    obtain ⟨hsuffix, hkept⟩ := hf line List.mem_cons_self
    exact .last (hkept hne) fun m => hopen (hsuffix.mem m)
  | @cons line lines hline _ ih =>
    obtain ⟨body, hbody, rfl⟩ := hline
    obtain ⟨hsuffix, hkept⟩ := hf _ List.mem_cons_self
    -- What is left of a line ends in its line feed.
    rcases List.suffix_concat_iff.1 hsuffix with hnil | ⟨rest, hrest, hbodySuffix⟩
    · exact absurd hnil (hkept (by simp))
    · exact .cons ⟨rest, fun m => hbody (hbodySuffix.mem m), hrest⟩ <|
        ih fun line hline => hf line (List.mem_cons_of_mem _ hline)

end Text

namespace Merge

/-! ## 1. Bare tag lines -/

def bareLine (line : Bytes) : Bytes := (fromMarker? line).getD line

/-- A file without what stands in front of its tags. -/
def bareTags (source : Bytes) : Bytes := ((Text.splitInclusive 0x0a source).map bareLine).flatten

theorem fromMarker?_eq_some {line bytes : Bytes} (h : fromMarker? line = some bytes) :
    bytes <:+ line ∧ utf8 Tag.marker <+: bytes := by
  induction line with
  | nil => exact absurd h (by simp [fromMarker?])
  | cons b rest ih =>
    rw [fromMarker?] at h
    split at h
    · next hmarker =>
      obtain rfl := Option.some.inj h
      exact ⟨List.suffix_refl _, List.isPrefixOf_iff_prefix.1 hmarker⟩
    · obtain ⟨hsuffix, hmarker⟩ := ih h
      exact ⟨hsuffix.trans (List.suffix_cons b rest), hmarker⟩

theorem fromMarker?_bareLine (line : Bytes) : fromMarker? (bareLine line) = fromMarker? line := by
  rw [bareLine]
  cases h : fromMarker? line with
  | none => exact h
  | some bytes => exact fromMarker?_of_prefix (fromMarker?_eq_some h).2

theorem bareLine_suffix (line : Bytes) : bareLine line <:+ line ∧ (line ≠ [] → bareLine line ≠ []) := by
  rw [bareLine]
  cases h : fromMarker? line with
  | none => exact ⟨List.suffix_refl _, id⟩
  | some bytes =>
    obtain ⟨hsuffix, hmarker⟩ := fromMarker?_eq_some h
    refine ⟨hsuffix, fun _ hnil => ?_⟩
    rw [Option.getD_some] at hnil
    exact absurd (List.prefix_nil.1 (hnil ▸ hmarker)) (by decide)

theorem splitInclusive_bareTags (source : Bytes) :
    Text.splitInclusive 0x0a (bareTags source) =
      (Text.splitInclusive 0x0a source).map bareLine :=
  ((Text.areLines_splitInclusive source).map_suffix fun line _ =>
    bareLine_suffix line).splitInclusive_flatten

/-! ## 2. Scans -/

variable {ν : Type} [DesignNode ν]

theorem scanLine_bareLine (nodes : List ν) (state : ScanState) (line : Bytes) :
    scanLine nodes state (bareLine line) = scanLine nodes state line := by
  rw [scanLine, scanLine, fromMarker?_bareLine]
  cases h : fromMarker? line with
  | none => rw [bareLine, h]; rfl
  | some bytes => rfl

theorem foldlM_bareLine (nodes : List ν) (lines : List Bytes) :
    ∀ state, (lines.map bareLine).foldlM (scanLine nodes) state =
      lines.foldlM (scanLine nodes) state := by
  induction lines with
  | nil => intro state; rfl
  | cons line rest ih =>
    intro state
    rw [List.map_cons, List.foldlM_cons, List.foldlM_cons, scanLine_bareLine]
    exact bind_congr ih

theorem scan_bareTags (source : Bytes) (nodes : List ν) :
    scan (bareTags source) nodes = scan source nodes := by
  rw [scan, scan, splitInclusive_bareTags, foldlM_bareLine]

/-! ## 3. Merges -/

/-- A merge does the same with and without the bytes in front of tags, whatever the mode and the
host: it neither sees them nor takes them over. -/
theorem run_bareTags {m : Type → Type} [Monad m] (settings : Settings) (mode : MergeMode)
    (host : MergeHost m) (source : Bytes) (nodes : List ν) :
    run settings mode host (.ok (bareTags source)) nodes =
      run settings mode host (.ok source) nodes := by
  rw [run, run]
  simp only [scan_bareTags]

/-- Code that was joined with its tag is an edit to no code at all. -/
theorem scan_joined_sample :
    scan (utf8 "  return 0;" ++ Tag.line ⟨.code, ⟨2⟩, Checksum.ofBlock (utf8 "  return 0;\n")⟩)
        Design.sample.nodes =
      .ok { codeChanges := 1, blocks := [⟨.code, ⟨2⟩, 1, "", true⟩] } := by
  decide +kernel

end Merge

end FormWeave
