import FormWeave.Proofs.Pieces
import FormWeave.Proofs.ShortLiterals
import FormWeave.Proofs.Subtrees
import Mathlib.Data.List.Forall2

/-!
# Previews

A preview takes the same course as the run that writes the files. In its source placeholders stand
for literals that are long or whose content is not there, and so the checksums of blocks are
others; all else is the same. `Chunk.Preview` relates the two outputs. If all literals are short,
nothing stands for anything else, and both sources are the same.
-/

namespace FormWeave

/-! ## 1. Placeholders -/

inductive LiteralForm
  | text | data

namespace LiteralForm

def placeholder : LiteralForm → Nat → String
  | text, size => "\" ... " ++ toString size ++ " bytes of text... \""
  | data, size => "\x7b /* ... " ++ toString size ++ " bytes of binary data... */ \x7d"

/-- What stands in a preview for content that is not there. -/
def anyPlaceholder : LiteralForm → String
  | text => "\" ... text... \""
  | data => "\x7b /* ... binary data... */ \x7d"

def notFound : LiteralForm → String
  | text => "\n#error  string not found\n"
  | data => "\n#error  data not found\n"

def undefinedLiteral : LiteralForm → String
  | text => "\" ... undefined size text... \""
  | data => "\x7b /* ... undefined size binary data... */ \x7d"

def literal (utf8Source : Bool) (bytes : Bytes) : LiteralForm → Bytes
  | text => Literal.quoted bytes utf8Source
  | data => utf8 (Literal.initializer bytes)

end LiteralForm

namespace Chunk

/-- The chunks of the files that a chunk of a preview stands for. -/
inductive StandsFor (utf8Source : Bool) : Chunk → List Chunk → Prop
  | itself (chunk : Chunk) : StandsFor utf8Source chunk [chunk]
  /-- A tag, with the checksum of another block. -/
  | tag (kind : TagKind) (id : NodeId) (checksum checksum' : UInt32) :
    StandsFor utf8Source (.tag ⟨kind, id, checksum⟩) [.tag ⟨kind, id, checksum'⟩]
  | long (form : LiteralForm) (bytes : Bytes) (h : Writer.previewLimit < bytes.length) :
    StandsFor utf8Source (.source (utf8 (form.placeholder bytes.length)))
      [.source (form.literal utf8Source bytes)]
  | unknown (form : LiteralForm) :
    StandsFor utf8Source (.source (utf8 form.anyPlaceholder))
      [.source (utf8 form.notFound), .source (utf8 form.undefinedLiteral)]

def Preview (utf8Source : Bool) (shown chunks : List Chunk) : Prop :=
  ∃ parts, List.Forall₂ (StandsFor utf8Source) shown parts ∧ chunks = parts.flatten

variable {utf8Source : Bool} {chunk : Chunk} {part shown chunks : List Chunk}

theorem Preview.push (h : Preview utf8Source shown chunks)
    (hpart : StandsFor utf8Source chunk part) :
    Preview utf8Source (shown ++ [chunk]) (chunks ++ part) := by
  obtain ⟨parts, hparts, rfl⟩ := h
  refine ⟨parts ++ [part], List.rel_append hparts (.cons hpart .nil), ?_⟩
  rw [List.flatten_append, List.flatten_singleton]

/-- What the chunks hold of something that placeholders have nothing to do with is the same in the
preview. -/
theorem Preview.flatMap_eq {α : Type} (h : Preview utf8Source shown chunks) {f : Chunk → List α}
    (hf : ∀ {chunk part}, StandsFor utf8Source chunk part → part.flatMap f = f chunk) :
    chunks.flatMap f = shown.flatMap f := by
  obtain ⟨parts, hparts, rfl⟩ := h
  -- Each chunk is compared with the part that it stands for.
  induction hparts with
  | nil => rfl
  | cons hpart _ ih => rw [List.flatten_cons, List.flatMap_append, ih, hf hpart, List.flatMap_cons]

def tagName (chunk : Chunk) : List SectionName :=
  chunk.tag?.toList.map fun tag => (tag.kind, tag.nodeId)

theorem StandsFor.headerBytes (h : StandsFor utf8Source chunk part) :
    part.flatMap Chunk.headerBytes = chunk.headerBytes := by
  cases h with
  | itself => exact List.flatMap_singleton ..
  | tag | long | unknown => rfl

theorem StandsFor.tagName (h : StandsFor utf8Source chunk part) :
    part.flatMap Chunk.tagName = chunk.tagName := by
  cases h with
  | itself => exact List.flatMap_singleton ..
  | tag | long | unknown => rfl

end Chunk

namespace Writer

/-! ## 2. Two writers -/

theorem flatMap_tagName (w : Writer) : w.output.toList.flatMap Chunk.tagName =
    w.tags.map fun tag => (tag.kind, tag.nodeId) := by
  unfold tags
  induction w.output.toList with
  | nil => rfl
  | cons chunk rest ih =>
    rw [List.flatMap_cons, ih]
    cases chunk <;> rfl

/-- `w` writes the files and `w'` a preview of them, and so far both have taken the same course. -/
def Previewed (w w' : Writer) : Prop :=
  ∃ output checksum position,
    Chunk.Preview w.settings.utf8Source output.toList w.output.toList ∧ w.preview = false ∧
    w' = { w with preview := true, output, checksum, sourcePosition := position }

variable {w w' : Writer}

theorem Previewed.settings (h : w.Previewed w') : w'.settings = w.settings := by
  obtain ⟨shown, checksum, position, -, -, rfl⟩ := h
  rfl

theorem Previewed.dryRun (h : w.Previewed w') : w'.dryRun = w.dryRun := by
  obtain ⟨shown, checksum, position, -, -, rfl⟩ := h
  rfl

theorem Previewed.modes (h : w.Previewed w') : w.preview = false ∧ w'.preview = true := by
  obtain ⟨shown, checksum, position, -, hfiles, rfl⟩ := h
  exact ⟨hfiles, rfl⟩

/-- The preview may get a chunk that stands for what the files get; checksums and positions may be
any. -/
theorem Previewed.append {chunk : Chunk} {part : List Chunk} (h : w.Previewed w')
    (hpart : Chunk.StandsFor w.settings.utf8Source chunk part) {output : Array Chunk}
    (houtput : output.toList = w.output.toList ++ part) (checksum checksum' : Checksum.Running)
    (position position' : Nat) :
    ({ w with output, checksum, sourcePosition := position } : Writer).Previewed
      { w' with
        output := w'.output.push chunk, checksum := checksum', sourcePosition := position' } := by
  obtain ⟨shown, _, _, hshown, hfiles, rfl⟩ := h
  refine ⟨shown.push chunk, checksum', position', ?_, hfiles, rfl⟩
  rw [Array.toList_push, houtput]
  exact hshown.push hpart

theorem Previewed.putSource (h : w.Previewed w') (bytes : Bytes) :
    (w.putSource bytes).Previewed (w'.putSource bytes) :=
  h.append (.itself _) (Array.toList_push ..) _ _ _ _

theorem Previewed.putHeader (h : w.Previewed w') (bytes : Bytes) :
    (w.putHeader bytes).Previewed (w'.putHeader bytes) := by
  obtain ⟨shown, checksum, position, hshown, hfiles, rfl⟩ := h
  refine ⟨shown.push (.header bytes), checksum, position, ?_, hfiles, rfl⟩
  rw [Writer.putHeader, Array.toList_push, Array.toList_push]
  exact hshown.push (.itself _)

def writeForm (w : Writer) (form : LiteralForm) (content? : Option Bytes) : Writer :=
  w.writeLiteral content? form.anyPlaceholder form.placeholder form.notFound form.undefinedLiteral
    (form.literal w.settings.utf8Source)

theorem Previewed.writeForm (h : w.Previewed w') (hlive : w.dryRun = false) (form : LiteralForm)
    (content? : Option Bytes) :
    (w.writeForm form content?).Previewed (w'.writeForm form content?) := by
  have hdry : ¬ w.dryRun = true := Bool.eq_false_iff.1 hlive
  have hdry' : ¬ w'.dryRun = true := by rwa [h.dryRun]
  rw [Writer.writeForm, Writer.writeForm, writeLiteral, writeLiteral, unlessDry, unlessDry,
    if_neg hdry, if_neg hdry', h.settings]
  obtain ⟨hfiles, hshown⟩ := h.modes
  cases content? with
  | none =>
    dsimp only
    rw [if_neg (Bool.eq_false_iff.1 hfiles), if_pos hshown]
    exact h.append (.unknown form) (by simp [Writer.putSource]) _ _ _ _
  | some bytes =>
    -- The files hold the literal itself; so does the preview unless it is long.
    have hfull : ¬ (false && decide (bytes.length > previewLimit)) = true := by simp
    dsimp only
    rw [hfiles, hshown, if_neg hfull]
    by_cases hlong : previewLimit < bytes.length
    · rw [if_pos (by simpa using hlong)]
      exact h.append (.long form bytes hlong) (Array.toList_push ..) _ _ _ _
    · rw [if_neg (by simpa using hlong)]
      exact h.putSource _

theorem Previewed.writeTag (h : w.Previewed w') (hlive : w.dryRun = false) (kind : TagKind)
    (id : NodeId) : (w.writeTag kind id).Previewed (w'.writeTag kind id) := by
  have hdry : ¬ w.dryRun = true := Bool.eq_false_iff.1 hlive
  have hdry' : ¬ w'.dryRun = true := by rwa [h.dryRun]
  have htags : w'.settings.mergeTags = w.settings.mergeTags := by rw [h.settings]
  rw [Writer.writeTag, Writer.writeTag, if_neg hdry, if_neg hdry', htags]
  dsimp only
  split
  · exact h.append (.tag kind id _ _) (Array.toList_push ..) _ _ _ _
  · obtain ⟨shown, checksum, position, hshown, hfiles, rfl⟩ := h
    exact ⟨shown, {}, position, hshown, hfiles, rfl⟩

theorem lockstep_previewed : Emit.Lockstep Previewed where
  course := by
    rintro w w' ⟨shown, checksum, position, -, -, rfl⟩
    rfl
  settings h := by rw [h.settings]
  onCourse := by
    rintro w w' ⟨shown, checksum, position, hshown, hfiles, rfl⟩ course
    exact ⟨shown, checksum, position, hshown, hfiles, rfl⟩
  putSource := Previewed.putSource
  putHeader := Previewed.putHeader
  quoted h hlive content? := h.writeForm hlive .text content?
  initializer h hlive content? := h.writeForm hlive .data content?
  tag := Previewed.writeTag

theorem Previewed.output (h : w.Previewed w') :
    Chunk.Preview w.settings.utf8Source w'.output.toList w.output.toList := by
  obtain ⟨shown, checksum, position, hshown, -, rfl⟩ := h
  exact hshown

theorem Previewed.header (h : w.Previewed w') : w'.header = w.header := by
  obtain ⟨shown, checksum, position, hshown, -, rfl⟩ := h
  exact (hshown.flatMap_eq Chunk.StandsFor.headerBytes).symm

theorem Previewed.tagNames (h : w.Previewed w') :
    w'.tags.map (fun tag => (tag.kind, tag.nodeId)) =
      w.tags.map fun tag => (tag.kind, tag.nodeId) := by
  obtain ⟨shown, checksum, position, hshown, -, rfl⟩ := h
  rw [← flatMap_tagName, ← flatMap_tagName]
  exact (hshown.flatMap_eq Chunk.StandsFor.tagName).symm

end Writer

namespace Generation

/-! ## 3. Two runs -/

variable (design : Design) (settings : Settings) (track track' : Bool)

theorem previewed_finalWriter :
    (finalWriter design settings ⟨false, track⟩).Previewed
      (finalWriter design settings ⟨true, track'⟩) := by
  have hstart : (start settings ⟨false, track⟩).reset.Previewed
      (start settings ⟨true, track'⟩).reset := ⟨#[], {}, 0, ⟨[], .nil, rfl⟩, rfl, rfl⟩
  have hcode := (composed_steps (configuredNames settings) (plan design.nodes)).simulates
    Writer.lockstep_previewed.simulation hstart
  rw [forM_stepCode, forM_stepCode, ← finalWriter_eq, ← finalWriter_eq] at hcode
  exact hcode.2

variable {design} in
/-- If all literals are short, the preview is no other than the files. -/
theorem finalWriter_short (h : ∀ node ∈ design.nodes, node.Short) :
    finalWriter design settings ⟨true, track'⟩ =
      (finalWriter design settings ⟨false, track⟩).override .previewing := by
  have hcode : Emit.Unaware .previewing
      ((plan design.nodes).forM (stepCode (configuredNames settings))) := by
    refine .forM fun step hstep => unaware_stepCode _ fun phase node hwrite => h node ?_
    exact Forest.mem_of_plan (hwrite ▸ hstep)
  have hfinal := congrArg Prod.snd (hcode (start settings ⟨false, track⟩).reset)
  have hstart : (start settings ⟨true, track'⟩).reset =
      (start settings ⟨false, track⟩).reset.override .previewing := rfl
  rw [finalWriter_eq, finalWriter_eq, ← forM_stepCode, ← forM_stepCode, hstart]
  exact hfinal

/-- Generating a design as a preview and as files. The headers are the same, the same nodes are
counted, and the same tags are written but for their checksums; in the source of the preview only
placeholders stand for something else. If all literals are short, both sources are the same. -/
theorem generate_previewed :
    let written := finalWriter design settings ⟨false, track⟩
    let shown := finalWriter design settings ⟨true, track'⟩
    ∃ files preview,
      generate design settings ⟨false, track⟩ = .ok files ∧
      generate design settings ⟨true, track'⟩ = .ok preview ∧
      files.source = written.source ∧ preview.source = shown.source ∧
      preview.header = files.header ∧
      preview.report.nodesWritten = files.report.nodesWritten ∧
      shown.tags.map (fun tag => (tag.kind, tag.nodeId)) =
        written.tags.map (fun tag => (tag.kind, tag.nodeId)) ∧
      Chunk.Preview settings.utf8Source shown.output.toList written.output.toList ∧
      ((∀ node ∈ design.nodes, node.Short) →
        preview.source = files.source ∧ shown.tags = written.tags) := by
  intro written shown
  obtain ⟨ranges, hfiles⟩ := generate_run design settings ⟨false, track⟩
  obtain ⟨ranges', hpreview⟩ := generate_run design settings ⟨true, track'⟩
  have hpair := previewed_finalWriter design settings track track'
  refine ⟨_, _, hfiles, hpreview, rfl, rfl, hpair.header, rfl, hpair.tagNames, ?_, fun hshort => ?_⟩
  · have hsettings : written.settings = settings := by
      show (finalWriter design settings ⟨false, track⟩).settings = settings
      rw [finalWriter_eq, (wrote_advance _ _ _).settings]
      rfl
    exact hsettings ▸ hpair.output
  · have hsame : shown = written.override .previewing :=
      finalWriter_short settings track track' hshort
    have houtput : shown.output = written.output :=
      (congrArg Writer.output hsame : shown.output = (written.override .previewing).output)
    exact ⟨congrArg (fun output => output.toList.flatMap Chunk.sourceBytes) houtput,
      congrArg (fun output => output.toList.filterMap Chunk.tag?) houtput⟩

def shownButton : Node where
  id := ⟨1⟩
  depth := 0
  scope := .file
  hasChildren := false
  hasChildWidgets := false
  body := .widget "Fl_Button" none (some "Save") (some "Save it") (some "save();")
    (some "logo.png") 0 0 10 10
  resource := some (.bytes [1, 2])
  labelNumber := 1
  tooltipNumber := 2

def shownData : Node where
  id := ⟨2⟩
  depth := 0
  scope := .file
  hasChildren := false
  hasChildWidgets := false
  body := .data "logo" "logo.png" .binary .pub
  resource := some (.bytes [1, 2])
  labelNumber := 0
  tooltipNumber := 0

theorem short_shownButton : shownButton.Short where
  label text h := by cases h; decide
  tooltip text h := by cases h; decide
  image image resource h := by cases h; decide
  data h := by cases h

theorem short_shownData : shownData.Short where
  label text h := by cases h
  tooltip text h := by cases h
  image image resource h := by cases h
  data _ := ⟨_, rfl, by decide⟩

theorem generate_previewed_short :
    let design : Design := { nodes := [shownButton, shownData] }
    (∀ node ∈ design.nodes, node.Short) ∧
      ∃ files preview,
        generate design {} ⟨false, false⟩ = .ok files ∧
        generate design {} ⟨true, true⟩ = .ok preview ∧ preview.header = files.header ∧
        preview.source = files.source := by
  intro design
  have hshort : ∀ node ∈ design.nodes, node.Short := by
    intro node hnode
    rcases List.mem_pair.1 hnode with rfl | rfl
    · exact short_shownButton
    · exact short_shownData
  obtain ⟨files, preview, hfiles, hpreview, -, -, hheader, -, -, -, hsame⟩ :=
    generate_previewed design {} false true
  exact ⟨hshort, files, preview, hfiles, hpreview, hheader, (hsame hshort).1⟩

end Generation

end FormWeave
