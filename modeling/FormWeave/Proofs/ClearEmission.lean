import FormWeave.Proofs.Emission
import FormWeave.Proofs.MarkerFree
import FormWeave.Proofs.Regeneration

/-!
# Writing text without a marker

`Writer.Clear` is the invariant of a run whose texts have no marker: besides the tags its source has
none, and none begins at its end. `Emit.Yields` says of a computation that it keeps the invariant,
and what is known of its result. Unlike a tag, text may be written anywhere, and the invariant also
holds in a dry run, so it is all that has to be known in front of a computation.
-/

namespace FormWeave

namespace Writer

/-! ## 1. The invariant -/

/-- Besides its tags the source has no marker, and none begins at its end. -/
structure Clear (settings : Settings) (w : Writer) : Prop where
  configured : w.settings = settings
  blocks : ∀ s ∈ w.layout.sections, ¬ Marked s.block
  tail : Settled w.layout.tail
  owner : ∀ name ∈ w.currentClass, ¬ Marked (utf8 name)

/-- `w'` is `w` with `bytes` written behind the source, in the same class. -/
structure Grown (w : Writer) (bytes : Bytes) (w' : Writer) : Prop where
  layout : w'.layout = { w.layout with tail := w.layout.tail ++ bytes }
  settings : w'.settings = w.settings
  dryRun : w'.dryRun = w.dryRun
  owner : w'.currentClass = w.currentClass

variable {settings : Settings} {w w' w'' : Writer} {text : String}

theorem Clear.grown (h : w.Clear settings) {bytes : Bytes} (hgrown : w.Grown bytes w')
    (hbytes : Settled bytes) : w'.Clear settings where
  configured := hgrown.settings.trans h.configured
  blocks := by rw [hgrown.layout]; exact h.blocks
  tail := by rw [hgrown.layout]; exact h.tail.append hbytes
  owner := by rw [hgrown.owner]; exact h.owner

theorem SameOutput.grown (h : w.SameOutput w') (howner : w'.currentClass = w.currentClass) :
    w.Grown [] w' where
  layout := by rw [h.layout, List.append_nil]
  settings := h.settings
  dryRun := h.dryRun
  owner := howner

theorem Grown.trans {front back : Bytes} (h : w.Grown front w') (h' : w'.Grown back w'') :
    w.Grown (front ++ back) w'' where
  layout := by rw [h'.layout, h.layout, List.append_assoc]
  settings := h'.settings.trans h.settings
  dryRun := h'.dryRun.trans h.dryRun
  owner := h'.owner.trans h.owner

theorem Clear.keep (h : w.Clear settings) (hsame : w.SameOutput w')
    (howner : w'.currentClass = w.currentClass) : w'.Clear settings :=
  h.grown (hsame.grown howner) settled_nil

/-! ## 2. The writing operations -/

theorem grown_putSource (w : Writer) (bytes : Bytes) : w.Grown bytes (w.putSource bytes) :=
  ⟨w.layout_putSource bytes, rfl, rfl, rfl⟩

theorem grown_putHeader (w : Writer) (bytes : Bytes) : w.Grown [] (w.putHeader bytes) where
  layout := by rw [layout_putHeader, List.append_nil]
  settings := rfl
  dryRun := rfl
  owner := rfl

theorem grown_markUsed (w : Writer) : w.Grown [] w.markUsed :=
  SameOutput.grown ⟨rfl, rfl, rfl, rfl⟩ rfl

theorem Clear.putSource (h : w.Clear settings) {bytes : Bytes} (hbytes : Settled bytes) :
    (w.putSource bytes).Clear settings := h.grown (w.grown_putSource bytes) hbytes

theorem Clear.putHeader (h : w.Clear settings) (bytes : Bytes) :
    (w.putHeader bytes).Clear settings := h.grown (w.grown_putHeader bytes) settled_nil

theorem Clear.unlessDry (h : w.Clear settings) {write : Writer → Writer}
    (hwrite : (write w).Clear settings) : (w.unlessDry write).Clear settings := by
  unfold Writer.unlessDry
  split
  · exact h.grown w.grown_markUsed settled_nil
  · exact hwrite

theorem Clear.writeSource (h : w.Clear settings) (htext : Settled (utf8 text)) :
    (w.writeSource text).Clear settings := h.unlessDry (h.putSource htext)

theorem Clear.writeHeader (h : w.Clear settings) (text : String) :
    (w.writeHeader text).Clear settings := by
  unfold Writer.writeHeader
  split
  · exact h
  · exact h.putHeader _

/-- Pieces may be written whose whole is settled, whatever is left open between them. -/
theorem Clear.writeSources (h : w.Clear settings) {pieces : List String}
    (hpieces : Settled (pieces.flatMap utf8)) :
    (pieces.foldl Writer.writeSource w).Clear settings := by
  have hgrown : ∀ (pieces : List String) (w : Writer),
      w.Grown (if w.dryRun then [] else pieces.flatMap utf8)
        (pieces.foldl Writer.writeSource w) := by
    intro pieces
    induction pieces with
    | nil =>
      intro w
      rw [List.flatMap_nil, ite_self]
      exact SameOutput.grown (.refl w) rfl
    | cons piece rest ih =>
      intro w
      rw [List.foldl_cons, List.flatMap_cons]
      have hrest := ih (w.writeSource piece)
      -- Writing a piece leaves the mode as it is, so all pieces are written or none.
      unfold Writer.writeSource Writer.unlessDry at hrest ⊢
      split
      · next hdry =>
        rw [if_pos hdry] at hrest
        have := w.grown_markUsed.trans hrest
        rwa [w.grown_markUsed.dryRun, hdry] at this
      · next hdry =>
        rw [if_neg hdry] at hrest
        have := (w.grown_putSource (utf8 piece)).trans hrest
        rwa [(w.grown_putSource _).dryRun, if_neg hdry] at this
  refine h.grown (hgrown pieces w) ?_
  split
  · decide
  · exact hpieces

theorem settled_indentedLine (depth : Int32) {line : List Char}
    (h : ¬ Marked (utf8 (String.ofList line))) :
    Settled ((indentedLine (indentAt depth) line ++ ["\n"]).flatMap utf8) := by
  have hfeed : Fence (utf8 "\n") := by decide
  rw [List.flatMap_append, List.flatMap_singleton]
  unfold indentedLine
  split
  · exact hfeed.settled
  split
  · rw [List.flatMap_singleton]
    exact .fence h hfeed
  · rw [List.flatMap_singleton, ← utf8_append]
    exact (settled_indentAt depth).free h hfeed

theorem Clear.writeIndented (h : w.Clear settings) (htext : ¬ Marked (utf8 text)) (extra : Int32) :
    (w.writeIndented text extra (some '\n')).Clear settings := by
  refine h.writeSources ?_
  rw [indentedPieces_feed _ (Text.split_ne_nil '\n' text.toList), List.flatMap_assoc]
  refine settled_flatMap fun line hline => settled_indentedLine _ ?_
  exact not_marked_part (Text.infix_of_mem_split hline) htext

theorem Clear.writeLiteral (h : w.Clear settings) {data : Option Bytes} {unknownPreview : String}
    {longPreview : Nat → String} {unknown unknownLiteral : String} {literal : Bytes → Bytes}
    (hpreview : Settled (utf8 unknownPreview)) (hlong : ∀ size, Settled (utf8 (longPreview size)))
    (hunknown : Settled (utf8 unknown)) (hundefined : Settled (utf8 unknownLiteral))
    (hliteral : ∀ bytes ∈ data, Settled (literal bytes)) :
    (w.writeLiteral data unknownPreview longPreview unknown unknownLiteral literal).Clear
      settings := by
  refine h.unlessDry ?_
  -- Of the five texts only the literal depends on the data.
  cases data with
  | none =>
    dsimp only
    split
    · exact h.putSource hpreview
    · exact (h.putSource hunknown).putSource hundefined
  | some bytes =>
    dsimp only
    split
    · exact h.putSource (hlong _)
    · exact h.putSource (hliteral bytes rfl)

theorem Clear.writeQuoted (h : w.Clear settings) {data : Option Bytes}
    (hdata : ∀ bytes ∈ data, ¬ Marked bytes) : (w.writeQuoted data).Clear settings := by
  refine h.writeLiteral (by decide) (fun size => ?_) (by decide) (by decide) fun bytes hbytes =>
    Literal.settled_quoted (hdata bytes hbytes) _
  have hopen : Settled (utf8 "\" ... ") := by decide
  exact (hopen.fixed (settled_nat size)).fixed (by decide)

theorem Clear.writeInitializer (h : w.Clear settings) (data : Option Bytes) :
    (w.writeInitializer data).Clear settings := by
  refine h.writeLiteral (by decide) (fun size => ?_) (by decide) (by decide) fun bytes _ =>
    Literal.settled_initializer bytes
  have hopen : Settled (utf8 "\x7b /* ... ") := by decide
  exact (hopen.fixed (settled_nat size)).fixed (by decide)

/-- A tag makes a block of what stands behind the last one. -/
theorem Clear.writeTag (h : w.Clear settings) (kind : TagKind) (id : NodeId) :
    (w.writeTag kind id).Clear settings := by
  unfold Writer.writeTag
  split
  · exact h
  dsimp only
  split
  · -- The bytes in front of the tag are settled, so as a block they have no marker.
    have hlayout := w.layout_putTag ⟨kind, id, w.blockChecksum⟩
    refine ⟨h.configured, ?_, ?_, h.owner⟩
    · show ∀ s ∈ (w.putTag ⟨kind, id, w.blockChecksum⟩).layout.sections, ¬ Marked s.block
      rw [hlayout]
      intro s hs
      rcases List.mem_append.1 hs with hs | hs
      · exact h.blocks s hs
      · rw [List.mem_singleton.1 hs]
        exact h.tail.unmarked
    · show Settled (w.putTag ⟨kind, id, w.blockChecksum⟩).layout.tail
      rw [hlayout]
      exact settled_nil
  · exact ⟨h.configured, h.blocks, h.tail, h.owner⟩

theorem Clear.writeAccess (h : w.Clear settings) (access : Visibility) :
    (w.writeAccess access).Clear settings := by
  unfold Writer.writeAccess
  split
  · exact h
  split
  · exact h
  · next scope hscope =>
    split
    · exact h
    · -- The class keeps its name.
      let w' : Writer := { w with classScope := some { scope with access := some access } }
      have howner : w'.currentClass = w.currentClass := by
        rw [currentClass, currentClass, hscope]
        rfl
      have hkept : w'.Clear settings := h.keep ⟨rfl, rfl, rfl, rfl⟩ howner
      exact hkept.writeHeader _

theorem Clear.writeHeaderOnce (h : w.Clear settings) (line : String) :
    (w.writeHeaderOnce line).2.Clear settings := by
  have hclaim : ∀ d, ({ w with declarations := d } : Writer).Clear settings :=
    fun d => h.keep ⟨rfl, rfl, rfl, rfl⟩ rfl
  unfold Writer.writeHeaderOnce
  split
  · exact h
  dsimp only
  split
  · exact ((hclaim _).putHeader _).putHeader _
  · exact hclaim _

theorem Clear.writeSourceOnce (h : w.Clear settings) {line : String}
    (hline : ¬ Marked (utf8 line)) : (w.writeSourceOnce line).2.Clear settings := by
  have hclaim : ∀ d, ({ w with declarations := d } : Writer).Clear settings :=
    fun d => h.keep ⟨rfl, rfl, rfl, rfl⟩ rfl
  unfold Writer.writeSourceOnce
  split
  · exact h.grown w.grown_markUsed settled_nil
  dsimp only
  split
  · exact (hclaim _).grown ((grown_putSource _ _).trans (grown_putSource _ _))
      (.fence hline (by decide))
  · exact hclaim _

end Writer

namespace Emit

variable {settings : Settings} {α β : Type}

/-! ## 3. A property of a computation -/

/-- Without markers in the source, the computation writes none, and its result, if there is one, is
as stated. -/
def Yields (settings : Settings) (emit : Emit α) (result : α → Prop) : Prop :=
  ∀ w : Writer, w.Clear settings →
    (emit w).2.Clear settings ∧ ∀ a, (emit w).1 = .ok a → result a

def Clears (settings : Settings) (emit : Emit α) : Prop := emit.Yields settings fun _ => True

variable {P : α → Prop} {Q : β → Prop}

theorem Yields.mono {emit : Emit α} {P' : α → Prop} (h : emit.Yields settings P)
    (hmono : ∀ a, P a → P' a) : emit.Yields settings P' :=
  fun w hw => ⟨(h w hw).1, fun a ha => hmono a ((h w hw).2 a ha)⟩

theorem Yields.pure {a : α} (h : P a) : (pure a : Emit α).Yields settings P := by
  refine fun w hw => ⟨hw, fun b hb => ?_⟩
  cases hb
  exact h

theorem Clears.pure (a : α) : (pure a : Emit α).Clears settings := Yields.pure trivial

theorem Yields.bind {emit : Emit α} {next : α → Emit β} (h : emit.Yields settings P)
    (hnext : ∀ a, P a → (next a).Yields settings Q) : (emit >>= next).Yields settings Q := by
  intro w hw
  obtain ⟨hclear, hresult⟩ := h w hw
  have hbind : (emit >>= next) w = ExceptT.bindCont next (emit w).1 (emit w).2 := rfl
  rw [hbind]
  cases hrun : (emit w).1 with
  | ok a => exact hnext a (hresult a hrun) _ hclear
  | error fault => exact ⟨hclear, nofun⟩

/-- The rule for a first part of whose result nothing has to be known. -/
theorem Clears.seq {emit : Emit α} {next : α → Emit β} (h : emit.Clears settings)
    (hnext : ∀ a, (next a).Yields settings Q) : (emit >>= next).Yields settings Q :=
  h.bind fun a _ => hnext a

theorem Clears.discard {emit : Emit α} (h : emit.Clears settings) :
    (discard emit : Emit Unit).Clears settings := h.seq fun _ => .pure trivial

theorem Clears.onlyIf {condition : Bool} {emit : Emit Unit}
    (h : condition = true → emit.Clears settings) : (onlyIf condition emit).Clears settings := by
  cases condition with
  | false => exact .pure ()
  | true => exact h rfl

theorem Clears.forSome {value? : Option α} {emit : α → Emit Unit}
    (h : ∀ a ∈ value?, (emit a).Clears settings) : (forSome value? emit).Clears settings := by
  cases value? with
  | none => exact .pure ()
  | some a => exact h a rfl

theorem Clears.forM {list : List α} {emit : α → Emit Unit}
    (h : ∀ a ∈ list, (emit a).Clears settings) : (list.forM emit).Clears settings := by
  induction list with
  | nil => exact .pure ()
  | cons a rest ih =>
    exact (h a List.mem_cons_self).seq fun _ => ih fun b hb => h b (List.mem_cons_of_mem _ hb)

/-! ## 4. The operations -/

theorem clears_update {f : Writer → Writer}
    (h : ∀ w : Writer, w.Clear settings → (f w).Clear settings) : (update f).Clears settings :=
  fun w hw => ⟨h w hw, fun _ _ => trivial⟩

theorem yields_ask {f : Writer → α} (h : ∀ w : Writer, w.Clear settings → P (f w)) :
    (ask f).Yields settings P := by
  refine fun w hw => ⟨hw, fun a ha => ?_⟩
  cases ha
  exact h w hw

theorem yields_step {f : Writer → α × Writer}
    (h : ∀ w : Writer, w.Clear settings → (f w).2.Clear settings ∧ P (f w).1) :
    (step f).Yields settings P := by
  refine fun w hw => ⟨(h w hw).1, fun a ha => ?_⟩
  cases ha
  exact (h w hw).2

theorem clears_source {text : String} (h : Settled (utf8 text)) : (source text).Clears settings :=
  clears_update fun _ hw => hw.writeSource h

theorem clears_header (text : String) : (header text).Clears settings :=
  clears_update fun _ hw => hw.writeHeader text

theorem clears_sourceStatement {indent code : String} (hindent : Settled (utf8 indent))
    (hcode : ¬ Marked (utf8 code)) : (sourceStatement indent code "").Clears settings := by
  refine clears_update fun w hw => hw.writeSource ?_
  -- The semicolon or the line feed is the fence behind the code.
  have hend : Fence (utf8 "\n") := by decide
  have hsemicolon : Fence (utf8 ";") := by decide
  unfold Writer.statementLine
  dsimp only
  split
  · simpa using hindent.free hcode hend
  · simpa using (hindent.free hcode hsemicolon).fixed hend.settled

theorem clears_headerStatement (indent code comment : String) :
    (headerStatement indent code comment).Clears settings := clears_header _

theorem clears_indented {text : String} (h : ¬ Marked (utf8 text)) (extra : Int32) :
    (indented text extra (some '\n')).Clears settings :=
  clears_update fun _ hw => hw.writeIndented h extra

theorem clears_quoted {data : Option Bytes} (h : ∀ bytes ∈ data, ¬ Marked bytes) :
    (quoted data).Clears settings := clears_update fun _ hw => hw.writeQuoted h

theorem clears_string {text : String} (h : ¬ Marked (utf8 text)) :
    (string text).Clears settings := by
  refine clears_quoted fun bytes hbytes => ?_
  cases hbytes
  exact h

theorem clears_initializer (data : Option Bytes) : (initializer data).Clears settings :=
  clears_update fun _ hw => hw.writeInitializer data

theorem clears_tag (kind : TagKind) (id : NodeId) : (tag kind id).Clears settings :=
  clears_update fun _ hw => hw.writeTag kind id

theorem clears_headerOnce (line : String) : (headerOnce line).Clears settings :=
  yields_step fun _ hw => ⟨hw.writeHeaderOnce line, trivial⟩

theorem clears_sourceOnce {line : String} (h : ¬ Marked (utf8 line)) :
    (sourceOnce line).Clears settings :=
  yields_step fun _ hw => ⟨hw.writeSourceOnce h, trivial⟩

theorem yields_uniqueId (owner : ObjectId) {word : String} (hword : '/' ∉ word.toList)
    (name label : Option String) :
    (uniqueId owner word name label).Yields settings fun text => Settled (utf8 text) :=
  yields_step fun w hw =>
    ⟨hw.keep ⟨rfl, rfl, rfl, rfl⟩ rfl, settled_allocate w.identifiers owner hword name label⟩

theorem clears_seen (object : ObjectId) : (seen object).Clears settings :=
  yields_step fun _ hw => ⟨hw.keep ⟨rfl, rfl, rfl, rfl⟩ rfl, trivial⟩

theorem yields_indent : indent.Yields settings fun text => Settled (utf8 text) :=
  yields_ask fun _ _ => settled_indentAt _

theorem yields_indentPlus (offset : Int32) :
    (indentPlus offset).Yields settings fun text => Settled (utf8 text) :=
  yields_ask fun _ _ => settled_indentAt _

theorem clears_indentMore : indentMore.Clears settings :=
  clears_update fun _ hw => hw.keep ⟨rfl, rfl, rfl, rfl⟩ rfl

theorem clears_indentLess : indentLess.Clears settings :=
  clears_update fun _ hw => hw.keep ⟨rfl, rfl, rfl, rfl⟩ rfl

theorem clears_setIndentation (depth : Int32) : (setIndentation depth).Clears settings :=
  clears_update fun _ hw => hw.keep ⟨rfl, rfl, rfl, rfl⟩ rfl

theorem clears_enterClass {name : String} (h : ¬ Marked (utf8 name)) (access : Option Visibility) :
    (enterClass name access).Clears settings := by
  refine clears_update fun w hw => ⟨hw.configured, hw.blocks, hw.tail, fun owner howner => ?_⟩
  cases howner
  exact h

theorem clears_leaveClass : leaveClass.Clears settings :=
  clears_update fun _ hw => ⟨hw.configured, hw.blocks, hw.tail, nofun⟩

theorem clears_reset : reset.Clears settings :=
  clears_update fun _ hw => ⟨hw.configured, hw.blocks, hw.tail, nofun⟩

theorem yields_currentClass :
    currentClass.Yields settings fun owner => ∀ name ∈ owner, ¬ Marked (utf8 name) :=
  yields_ask fun _ hw => hw.owner

theorem clears_access (level : Visibility) : (access level).Clears settings :=
  clears_update fun _ hw => hw.writeAccess level

theorem Clears.dryRun {emit : Emit α} (h : emit.Clears settings) :
    (dryRun emit).Clears settings := by
  intro w hw
  let inside : Writer := { w with dryRun := true, sourceUsed := false }
  have hinside : inside.Clear settings := ⟨hw.configured, hw.blocks, hw.tail, hw.owner⟩
  have hclear := (h inside hinside).1
  -- The flags are put back, and the invariant does not mention them.
  exact ⟨⟨hclear.configured, hclear.blocks, hclear.tail, hclear.owner⟩, fun _ _ => trivial⟩

theorem Clears.writesSource {emit : Emit Unit} (h : emit.Clears settings) :
    (writesSource emit).Clears settings := by
  unfold Emit.writesSource
  rw [map_eq_pure_bind]
  exact h.dryRun.seq fun _ => Clears.pure _

end Emit

end FormWeave
