import Mathlib.Data.Nat.Bitwise
import Mathlib.Logic.Function.Iterate
import FormWeave.Proofs.LineEdits
import FormWeave.Proofs.NormalForm
import FormWeave.Proofs.ScanMeaning

/-!
# Small edits change the checksum

A shift of the register is linear in exclusive or, and from a register whose top bits are clear it
can be undone by a shift to the left. So bytes that are read from equal registers and lead to equal
registers are the same, as long as there are at most four of them. A block in which up to four bytes
in a row were replaced has another checksum than before, and a scan reports it unless the new bytes
complete a marker.
-/

namespace FormWeave

namespace Crc32

/-! ## 1. Shifts -/

theorem low_bit (r : UInt32) : (r &&& 1 == 1) = decide (r.toNat % 2 = 1) := by
  rw [Bool.eq_iff_iff, beq_iff_eq, decide_eq_true_eq, ← UInt32.toNat_inj, UInt32.toNat_and]
  exact Iff.of_eq (congrArg (· = 1) (Nat.and_one_is_mod r.toNat))

theorem shift_eq (r : UInt32) :
    shift r = (r >>> 1) ^^^ (if r.toNat % 2 = 1 then polynomial else 0) := by
  rw [shift, low_bit]
  by_cases h : r.toNat % 2 = 1
  · rw [if_pos h, if_pos (decide_eq_true h)]
  · rw [if_neg h, if_neg (by simpa using h), UInt32.xor_zero]

theorem shift_xor (a b : UInt32) : shift (a ^^^ b) = shift a ^^^ shift b := by
  have hbit : (if (a ^^^ b).toNat % 2 = 1 then polynomial else 0) =
      (if a.toNat % 2 = 1 then polynomial else 0) ^^^
        (if b.toNat % 2 = 1 then polynomial else 0) := by
    rw [UInt32.toNat_xor, Nat.xor_mod_two_eq, Nat.add_mod]
    rcases Nat.mod_two_eq_zero_or_one a.toNat with ha | ha <;>
      rcases Nat.mod_two_eq_zero_or_one b.toNat with hb | hb <;> rw [ha, hb] <;> decide
  rw [shift_eq, shift_eq a, shift_eq b, UInt32.shiftRight_xor, hbit]
  ac_rfl

theorem iterate_shift_xor (n : Nat) (a b : UInt32) :
    shift^[n] (a ^^^ b) = shift^[n] a ^^^ shift^[n] b := by
  induction n generalizing a b with
  | zero => rfl
  | succ n ih => rw [Function.iterate_succ_apply, shift_xor, ih]; rfl

/-- The polynomial sets the top bit, so if that is clear nothing but a shift was done. -/
theorem toNat_of_shift_lt {r : UInt32} (h : (shift r).toNat < 2 ^ 31) :
    r.toNat = 2 * (shift r).toNat := by
  have hhalf : (r >>> 1).toNat = r.toNat / 2 := by
    rw [UInt32.toNat_shiftRight]
    exact Nat.shiftRight_one _
  have hlow : r.toNat % 2 ≠ 1 := by
    intro hodd
    have htop : (shift r).toNat.testBit 31 = true := by
      rw [shift_eq, if_pos hodd, UInt32.toNat_xor, Nat.testBit_xor, hhalf,
        Nat.testBit_lt_two_pow (by have := r.toNat_lt; omega)]
      decide
    exact absurd (Nat.ge_two_pow_of_testBit htop) (Nat.not_le.2 h)
  rw [shift_eq, if_neg hlow, UInt32.xor_zero, hhalf]
  omega

theorem toNat_of_iterate_lt {n : Nat} (hn : n ≤ 32) {r : UInt32}
    (h : (shift^[n] r).toNat < 2 ^ (32 - n)) : r.toNat = 2 ^ n * (shift^[n] r).toNat := by
  induction n generalizing r with
  | zero => exact (Nat.one_mul _).symm
  | succ n ih =>
    rw [Function.iterate_succ_apply] at h ⊢
    have hpow : 2 ^ (32 - n) = 2 * 2 ^ (32 - (n + 1)) := by
      rw [← Nat.pow_succ']
      congr 1
      omega
    have hrest := ih (by omega) (r := shift r) (by omega)
    have hproduct : 2 ^ n * 2 ^ (32 - (n + 1)) = 2 ^ 31 := by
      rw [← Nat.pow_add]
      congr 1
      omega
    have hshift : (shift r).toNat < 2 ^ 31 := by
      rw [hrest, ← hproduct]
      exact Nat.mul_lt_mul_of_pos_left h (Nat.two_pow_pos n)
    rw [toNat_of_shift_lt hshift, hrest, Nat.pow_succ']
    exact (Nat.mul_assoc ..).symm

theorem shiftByte_xor (a b : UInt32) : shiftByte (a ^^^ b) = shiftByte a ^^^ shiftByte b :=
  iterate_shift_xor 8 a b

theorem toNat_of_shiftByte_lt {r : UInt32} (h : (shiftByte r).toNat < 2 ^ 24) :
    r.toNat = 256 * (shiftByte r).toNat :=
  toNat_of_iterate_lt (n := 8) (by decide) h

/-! ## 2. Bytes -/

/-- What two registers differ in when each has taken a byte. -/
theorem update_xor (r r' : UInt32) (b c : UInt8) :
    update r b ^^^ update r' c = shiftByte ((r ^^^ r') ^^^ (b ^^^ c).toUInt32) := by
  rw [update, update, ← shiftByte_xor, UInt8.toUInt32_xor]
  congr 1
  ac_rfl

theorem update_injective (b : UInt8) : Function.Injective (update · b) := by
  intro r r' h
  have hzero : shiftByte ((r ^^^ r') ^^^ (b ^^^ b).toUInt32) = 0 := by
    rw [← update_xor, UInt32.xor_eq_zero_iff]
    exact h
  have hnone := toNat_of_shiftByte_lt (r := (r ^^^ r') ^^^ (b ^^^ b).toUInt32) (by
    rw [hzero]
    decide)
  rw [hzero, UInt8.xor_self] at hnone
  exact UInt32.xor_eq_zero_iff.1 (UInt32.toNat_inj.1 (by simpa using hnone))

theorem foldl_update_injective (bytes : Bytes) : Function.Injective (bytes.foldl update ·) := by
  induction bytes with
  | nil => exact fun _ _ h => h
  | cons b rest ih => exact fun _ _ h => update_injective b (ih h)

theorem toNat_byte_lt (b : UInt8) : b.toUInt32.toNat < 2 ^ 8 := by
  rw [UInt8.toNat_toUInt32]
  exact b.toNat_lt

/-- Registers that `n` bytes lead to equal ones differ in their low `n` bytes only. -/
theorem xor_lt_of_foldl_eq {n : Nat} (hn : n ≤ 4) {x y : Bytes} (hx : x.length = n)
    (hy : y.length = n) {r r' : UInt32} (h : x.foldl update r = y.foldl update r') :
    (r ^^^ r').toNat < 2 ^ (8 * n) := by
  induction n generalizing x y r r' with
  | zero =>
    rw [List.length_eq_zero_iff.1 hx, List.length_eq_zero_iff.1 hy] at h
    obtain rfl : r = r' := h
    rw [UInt32.xor_self]
    decide
  | succ n ih =>
    obtain ⟨b, x, rfl⟩ := List.exists_cons_of_length_eq_add_one hx
    obtain ⟨c, y, rfl⟩ := List.exists_cons_of_length_eq_add_one hy
    have hrest := ih (by omega) (Nat.succ.inj hx) (Nat.succ.inj hy) h
    rw [update_xor] at hrest
    have hsmall : 2 ^ (8 * n) ≤ 2 ^ 24 := Nat.pow_le_pow_right (by decide) (by omega)
    have hpow : 2 ^ (8 * (n + 1)) = 256 * 2 ^ (8 * n) := by
      rw [Nat.mul_add, Nat.pow_add]
      exact Nat.mul_comm ..
    -- Behind one byte the difference is a shift of the one in front, by a byte to the right.
    have hshifted : ((r ^^^ r') ^^^ (b ^^^ c).toUInt32).toNat < 2 ^ (8 * (n + 1)) := by
      rw [toNat_of_shiftByte_lt (by omega), hpow]
      omega
    have hbyte : (b ^^^ c).toUInt32.toNat < 2 ^ (8 * (n + 1)) :=
      lt_of_lt_of_le (toNat_byte_lt _) (Nat.pow_le_pow_right (by decide) (by omega))
    have hcancel : r ^^^ r' = ((r ^^^ r') ^^^ (b ^^^ c).toUInt32) ^^^ (b ^^^ c).toUInt32 := by
      rw [UInt32.xor_assoc, UInt32.xor_self, UInt32.xor_zero]
    rw [hcancel, UInt32.toNat_xor]
    exact Nat.xor_lt_two_pow hshifted hbyte

/-- From one register, different bytes lead to different registers if there are at most four. -/
theorem eq_of_foldl_update_eq {x y : Bytes} (hlength : x.length = y.length) (hfour : x.length ≤ 4)
    {r : UInt32} (h : x.foldl update r = y.foldl update r) : x = y := by
  induction x generalizing y r with
  | nil => exact (List.length_eq_zero_iff.1 hlength.symm).symm
  | cons b x ih =>
    obtain ⟨c, y, rfl⟩ := List.exists_cons_of_length_eq_add_one hlength.symm
    rw [List.length_cons] at hfour
    have hsame : x.length = y.length := Nat.succ.inj hlength
    have hrest : (update r b ^^^ update r c).toNat < 2 ^ (8 * x.length) :=
      xor_lt_of_foldl_eq (x := x) (y := y) (by omega) rfl hsame.symm h
    rw [update_xor, UInt32.xor_self, UInt32.zero_xor] at hrest
    have hsmall : 2 ^ (8 * x.length) ≤ 2 ^ 24 := Nat.pow_le_pow_right (by decide) (by omega)
    -- The difference of the first bytes is a multiple of 256 and less than that.
    have hbyte := toNat_of_shiftByte_lt (r := (b ^^^ c).toUInt32) (by omega)
    have hlt := toNat_byte_lt (b ^^^ c)
    have hzero : (b ^^^ c).toNat = 0 := by
      rw [← UInt8.toNat_toUInt32]
      omega
    obtain rfl : b = c := UInt8.xor_eq_zero_iff.1 (UInt8.toNat_inj.1 hzero)
    rw [ih hsame (by omega) h]

/-- A burst of up to four bytes is never missed. -/
theorem ofBytes_ne {x y : Bytes} (hlength : x.length = y.length) (hfour : x.length ≤ 4)
    (hne : x ≠ y) (front back : Bytes) :
    ofBytes (front ++ x ++ back) ≠ ofBytes (front ++ y ++ back) := by
  intro h
  have hregister := (UInt32.xor_left_inj _).1 h
  rw [List.foldl_append, List.foldl_append, List.foldl_append, List.foldl_append] at hregister
  exact hne (eq_of_foldl_update_eq hlength hfour (foldl_update_injective back hregister))

end Crc32

namespace Checksum

/-! ## 3. Replaced bytes -/

/-- A byte that is neither white space nor NUL counts, and behind it the line has begun. -/
theorem counted_begins {b : UInt8} (h : isLead b = false) (atLineStart : Bool) (back : Bytes) :
    counted atLineStart (b :: back) = b :: counted false back := by
  cases atLineStart with
  | true => exact counted_first h back
  | false =>
    have hfeed : (b == 0x0a) = false := by
      rw [beq_eq_false_iff_ne]
      rintro rfl
      cases h
    have hreturn : (b == 0x0d) = false := by
      rw [beq_eq_false_iff_ne]
      rintro rfl
      cases h
    simp [counted, hfeed, hreturn]

theorem counted_solid {bytes : Bytes} (h : ∀ b ∈ bytes, isLead b = false) (atLineStart : Bool)
    (back : Bytes) :
    counted atLineStart (bytes ++ back) =
      bytes ++ counted (atLineStart && bytes.isEmpty) back := by
  induction bytes generalizing atLineStart with
  | nil => simp
  | cons b rest ih =>
    rw [List.forall_mem_cons] at h
    rw [List.cons_append, counted_begins h.1, ih h.2]
    simp

/-- What counts of some bytes, and whether a line starts behind them, is known from them alone. -/
theorem exists_counted_append (front : Bytes) (atLineStart : Bool) :
    ∃ p start, ∀ back, counted atLineStart (front ++ back) = p ++ counted start back := by
  induction front generalizing atLineStart with
  | nil => exact ⟨[], atLineStart, fun _ => rfl⟩
  | cons b rest ih =>
    by_cases hspace : (atLineStart && isSpace b) = true
    · obtain ⟨p, start, hrest⟩ := ih atLineStart
      exact ⟨p, start, fun back => by rw [List.cons_append, counted, if_pos hspace, hrest]⟩
    by_cases hreturn : (b == 0x0d) = true
    · obtain ⟨p, start, hrest⟩ := ih false
      refine ⟨p, start, fun back => ?_⟩
      rw [List.cons_append, counted, if_neg hspace, if_pos hreturn, hrest]
    · obtain ⟨p, start, hrest⟩ := ih (b == 0x0a || (atLineStart && b == 0))
      refine ⟨b :: p, start, fun back => ?_⟩
      rw [List.cons_append, counted, if_neg hspace, if_neg hreturn, hrest, List.cons_append]

/-- With as many other bytes in their place, what counts in front of some bytes and behind them
stays, if none of them is white space or NUL. -/
theorem counted_replace {x y : Bytes} (hx : ∀ b ∈ x, isLead b = false)
    (hy : ∀ b ∈ y, isLead b = false) (hlength : x.length = y.length) (front back : Bytes) :
    ∃ p q, counted true (front ++ x ++ back) = p ++ x ++ q ∧
      counted true (front ++ y ++ back) = p ++ y ++ q := by
  obtain ⟨p, start, hfront⟩ := exists_counted_append front true
  have hempty : x.isEmpty = y.isEmpty := by
    cases x <;> cases y <;> simp_all
  refine ⟨p, counted (start && x.isEmpty) back, ?_, ?_⟩
  · rw [List.append_assoc, hfront, counted_solid hx, List.append_assoc]
  · rw [List.append_assoc, hfront, counted_solid hy, hempty, List.append_assoc]

/-- The last line feed of complete lines stands behind the bytes that are replaced. -/
theorem complete_replace {front x y back : Bytes} (hx : ∀ b ∈ x, isLead b = false)
    (hlength : x.length = y.length) (h : Text.Complete (front ++ x ++ back)) :
    Text.Complete (front ++ y ++ back) := by
  by_cases hback : back = []
  · subst hback
    rw [List.append_nil] at h
    rcases List.eq_nil_or_concat' x with rfl | ⟨init, b, rfl⟩
    · obtain rfl := List.length_eq_zero_iff.1 hlength.symm
      rwa [List.append_nil]
    · have hb : b = 0x0a := h b (by simp)
      exact absurd (hx b (by simp)) (by rw [hb]; decide)
  · exact h.of_append.behind hback _

/-- Of what counts in a text, up to four bytes in a row are others in the second text. -/
def SmallEdit (text text' : Bytes) : Prop :=
  ∃ p x y q, x.length = y.length ∧ x.length ≤ 4 ∧ x ≠ y ∧
    counted true text = p ++ x ++ q ∧ counted true text' = p ++ y ++ q

theorem SmallEdit.ofBlock_ne {text text' : Bytes} (h : SmallEdit text text') :
    ofBlock text ≠ ofBlock text' := by
  obtain ⟨p, x, y, q, hlength, hfour, hne, hcounted, hcounted'⟩ := h
  rw [ofBlock_eq, ofBlock_eq, hcounted, hcounted']
  exact Crc32.ofBytes_ne hlength hfour hne p q

end Checksum

namespace Text

/-! ## 4. Lines in the place of others -/

theorem AreLines.fullLine_of_append {front back : List Bytes} (h : AreLines (front ++ back))
    (hback : back ≠ []) : ∀ line ∈ front, FullLine line := by
  induction front with
  | nil => simp
  | cons first rest ih =>
    rw [List.forall_mem_cons]
    exact ⟨h.head (by simp [hback]), ih h.tail⟩

theorem AreLines.of_append_right {front back : List Bytes} (h : AreLines (front ++ back)) :
    AreLines back := by
  induction front with
  | nil => exact h
  | cons first rest ih => exact ih h.tail

theorem AreLines.append {front back : List Bytes} (hfront : ∀ line ∈ front, FullLine line)
    (hback : AreLines back) : AreLines (front ++ back) := by
  induction front with
  | nil => exact hback
  | cons first rest ih =>
    rw [List.forall_mem_cons] at hfront
    exact .cons hfront.1 (ih hfront.2)

/-- Complete lines may stand in the place of others if a line follows. -/
theorem AreLines.replace_block {front lines back : List Bytes} (h : AreLines (front ++ (lines ++ back)))
    (hback : back ≠ []) {block : Bytes} (hblock : Complete block) :
    AreLines (front ++ (splitInclusive 0x0a block ++ back)) := by
  have hfront := h.fullLine_of_append (by simp [hback])
  have hlines := (areLines_splitInclusive block).fullLine_of_complete
    (by rwa [flatten_splitInclusive])
  exact .append hfront (.append hlines h.of_append_right.of_append_right)

end Text

namespace Merge

variable {ν : Type} [DesignNode ν] {nodes : List ν}

/-! ## 5. Scans that go through -/

/-- A line that stops no scan: it has no marker, or a tag stands at its first one. -/
def Readable (line : Bytes) : Prop :=
  ∀ bytes, fromMarker? line = some bytes → ∃ tag, Tag.parse (Utf8.decodeLossy bytes) = .ok tag

theorem readable_of_not_marked {line : Bytes} (h : ¬ Marked line) : Readable line := by
  intro bytes hbytes
  rw [(fromMarker?_eq_none_iff line).2 h] at hbytes
  cases hbytes

theorem mem_markedLines {lines : List Bytes} {m : MarkedLine} :
    m ∈ markedLines lines ↔
      ∃ front line back, lines = front ++ line :: back ∧ markedLine? front line = some m := by
  rw [markedLines, List.mem_filterMap]
  constructor
  · rintro ⟨⟨line, index⟩, hmem, hm⟩
    obtain ⟨hindex, hline⟩ := List.getElem?_eq_some_iff.1 (List.mem_zipIdx_iff_getElem?.1 hmem)
    refine ⟨lines.take index, line, lines.drop (index + 1), ?_, hm⟩
    rw [← show lines[index] = line from hline, List.getElem_cons_drop, List.take_append_drop]
  · rintro ⟨front, line, back, rfl, hm⟩
    refine ⟨(line, front.length), List.mem_zipIdx_iff_getElem?.2 (by simp), ?_⟩
    show markedLine? ((front ++ line :: back).take front.length) line = some m
    rwa [List.take_left]

theorem fault?_eq_none_iff (m : MarkedLine) :
    m.fault? = none ↔ ∃ tag, Tag.parse (Utf8.decodeLossy m.bytes) = .ok tag := by
  rw [MarkedLine.fault?, MarkedLine.tag]
  cases Tag.parse (Utf8.decodeLossy m.bytes) with
  | error cause => simp
  | ok tag => simp

/-- A scan goes through exactly if every line is readable. -/
theorem findSome?_fault?_eq_none_iff (lines : List Bytes) :
    (markedLines lines).findSome? MarkedLine.fault? = none ↔ ∀ line ∈ lines, Readable line := by
  rw [List.findSome?_eq_none_iff]
  constructor
  · intro h line hline bytes hbytes
    obtain ⟨front, back, rfl⟩ := List.mem_iff_append.1 hline
    have hm : markedLine? front line =
        some { number := front.length + 1, block := (openLines front).flatten, bytes } := by
      rw [markedLine?_eq, hbytes]
      rfl
    have hfault := h _ (mem_markedLines.2 ⟨front, line, back, rfl, hm⟩)
    rwa [fault?_eq_none_iff] at hfault
  · intro h m hm
    obtain ⟨front, line, back, rfl, hline⟩ := mem_markedLines.1 hm
    rw [markedLine?_eq] at hline
    obtain ⟨bytes, hbytes, rfl⟩ := Option.map_eq_some_iff.1 hline
    rw [fault?_eq_none_iff]
    exact h line (by simp) bytes hbytes

theorem scan_of_readable {lines : List Bytes} (hlines : Text.AreLines lines)
    (h : ∀ line ∈ lines, Readable line) :
    scan lines.flatten nodes =
      .ok (.ofBlocks ((markedLines lines).filterMap (MarkedLine.edit? nodes))) := by
  rw [scan_eq_markedLines, hlines.splitInclusive_flatten, (findSome?_fault?_eq_none_iff lines).2 h]

theorem readable_of_scan {source : Bytes} {summary : MergeSummary}
    (h : scan source nodes = .ok summary) :
    ∀ line ∈ Text.splitInclusive 0x0a source, Readable line := by
  rw [← findSome?_fault?_eq_none_iff]
  rw [scan_eq_markedLines] at h
  cases hfault : (markedLines (Text.splitInclusive 0x0a source)).findSome? MarkedLine.fault? with
  | none => rfl
  | some fault =>
    rw [hfault] at h
    cases h

/-- Whatever kind an edit has, it is a change. -/
theorem hasChanges_of_mem {blocks : List ChangedBlock} {block : ChangedBlock} (h : block ∈ blocks) :
    (MergeSummary.ofBlocks blocks).hasChanges = true := by
  have hkinds := countP_kinds blocks
  have hpos := List.length_pos_of_mem h
  rw [MergeSummary.hasChanges, decide_eq_true_eq]
  show blocks.countP (·.kind == .generic) + blocks.countP (·.kind == .code) +
    blocks.countP (·.kind.isCallback) > 0
  omega

/-! ## 6. Edited blocks -/

/-- A block that stands in a file as it was written: unmarked lines, from a marked line or the start
of the file up to a line whose tag has their checksum. -/
structure IntactBlock (front : List Bytes) (block closing : Bytes) (tag : Tag) : Prop where
  start : openLines front = []
  unmarked : Unmarked block
  closed : ∃ bytes, fromMarker? closing = some bytes ∧ Tag.parse (Utf8.decodeLossy bytes) = .ok tag
  checksum : tag.checksum = Checksum.ofBlock block

theorem openLines_append {front lines : List Bytes} (hfront : openLines front = [])
    (hlines : ∀ line ∈ lines, ¬ Marked line) : openLines (front ++ lines) = lines := by
  induction lines using List.reverseRecOn with
  | nil => rw [List.append_nil, hfront]
  | append_singleton lines line ih =>
    rw [List.forall_mem_append] at hlines
    rw [← List.append_assoc, openLines_concat, if_neg (hlines.2 line (by simp)), ih hlines.1]

/-- The tag behind a block with another checksum stands for an edit. -/
theorem edit_mem (nodes : List ν) {front : List Bytes} {block closing : Bytes} {tag : Tag}
    (h : IntactBlock front block closing tag) {block' : Bytes} (hunmarked : Unmarked block')
    (hsum : Checksum.ofBlock block' ≠ tag.checksum) (back : List Bytes) :
    blockEdit nodes block' tag (front.length + (Text.splitInclusive 0x0a block').length + 1) ∈
      (markedLines (front ++ (Text.splitInclusive 0x0a block' ++ closing :: back))).filterMap
        (MarkedLine.edit? nodes) := by
  obtain ⟨bytes, hbytes, htag⟩ := h.closed
  rw [List.mem_filterMap]
  refine ⟨_, mem_markedLines.2 ⟨front ++ Text.splitInclusive 0x0a block', closing, back,
    (List.append_assoc ..).symm, by rw [markedLine?_eq, hbytes]; rfl⟩, ?_⟩
  have hopen := openLines_append h.start hunmarked
  simp only [MarkedLine.edit?, MarkedLine.tag, htag, hopen, Text.flatten_splitInclusive,
    Section.changed?, if_neg hsum, List.length_append, blockEdit]

/-- Where the lines of a block make place for others, without a marker, the scan still goes
through. -/
theorem scan_replaced_block {source : Bytes} {front back : List Bytes} {block closing : Bytes}
    {summary : MergeSummary} (hscan : scan source nodes = .ok summary)
    (hsource : Text.splitInclusive 0x0a source =
      front ++ (Text.splitInclusive 0x0a block ++ closing :: back))
    {block' : Bytes} (hcomplete : Text.Complete block') (hunmarked : Unmarked block') :
    let lines := front ++ (Text.splitInclusive 0x0a block' ++ closing :: back)
    scan lines.flatten nodes =
      .ok (.ofBlocks ((markedLines lines).filterMap (MarkedLine.edit? nodes))) := by
  intro lines
  have hreadable := readable_of_scan hscan
  have hlines := Text.areLines_splitInclusive source
  rw [hsource] at hreadable hlines
  refine scan_of_readable (hlines.replace_block (by simp) hcomplete) fun line hline => ?_
  -- A line of the block has no marker, and any other one was read by the first scan.
  rcases List.mem_append.1 hline with hfront | hrest
  · exact hreadable line (List.mem_append_left _ hfront)
  rcases List.mem_append.1 hrest with hblock | hback
  · exact readable_of_not_marked (hunmarked line hblock)
  · exact hreadable line (by simp [hback])

/-- An edit of up to four bytes in a row, among those that count, changes the checksum. So if it is
made to a block that stands in a file as it was written, and leaves complete lines without a marker,
a scan finds it. Bytes that are neither white space nor NUL can be replaced by others like that. -/
theorem small_edit_found (nodes : List ν) :
    (∀ text text', Checksum.SmallEdit text text' →
      Checksum.ofBlock text ≠ Checksum.ofBlock text') ∧
    (∀ source front block closing back tag summary,
      scan source nodes = .ok summary →
      Text.splitInclusive 0x0a source =
        front ++ (Text.splitInclusive 0x0a block ++ closing :: back) →
      IntactBlock front block closing tag →
      ∀ block', Checksum.SmallEdit block block' → Text.Complete block' → Unmarked block' →
        ∃ summary',
          scan (front ++ (Text.splitInclusive 0x0a block' ++ closing :: back)).flatten nodes =
            .ok summary' ∧
          summary'.hasChanges = true ∧
          blockEdit nodes block' tag
            (front.length + (Text.splitInclusive 0x0a block').length + 1) ∈ summary'.blocks) ∧
    ∀ before x y behind : Bytes, x.length = y.length → x.length ≤ 4 → x ≠ y →
      (∀ b ∈ x, Checksum.isLead b = false) → (∀ b ∈ y, Checksum.isLead b = false) →
      Text.Complete (before ++ x ++ behind) →
      Checksum.SmallEdit (before ++ x ++ behind) (before ++ y ++ behind) ∧
        Text.Complete (before ++ y ++ behind) := by
  refine ⟨fun text text' h => h.ofBlock_ne, ?_, ?_⟩
  · intro source front block closing back tag summary hscan hsource hintact block' hedit hcomplete
      hunmarked
    -- The tag has the checksum of the block as it was.
    have hsum : Checksum.ofBlock block' ≠ tag.checksum := by
      rw [hintact.checksum]
      exact hedit.ofBlock_ne.symm
    have hmem := edit_mem nodes hintact hunmarked hsum back
    exact ⟨_, scan_replaced_block hscan hsource hcomplete hunmarked, hasChanges_of_mem hmem, hmem⟩
  · intro before x y behind hlength hfour hne hx hy hcomplete
    obtain ⟨p, q, hcounted, hcounted'⟩ := Checksum.counted_replace hx hy hlength before behind
    refine ⟨⟨p, x, y, q, hlength, hfour, hne, hcounted, hcounted'⟩, ?_⟩
    exact Checksum.complete_replace hx hlength hcomplete

/-- A line of a code node in which two bytes were replaced. -/
theorem small_edit_found_sample :
    let block := utf8 "ke" ++ utf8 "ep" ++ utf8 "();\n"
    let block' := utf8 "ke" ++ utf8 "pt" ++ utf8 "();\n"
    let tag : Tag := ⟨.code, ⟨2⟩, Checksum.ofBlock block⟩
    ∃ summary, scan (block' ++ tag.line) Design.sample.nodes = .ok summary ∧
      summary.hasChanges = true ∧ blockEdit Design.sample.nodes block' tag 2 ∈ summary.blocks := by
  intro block block' tag
  obtain ⟨-, hfound, hreplaced⟩ := small_edit_found Design.sample.nodes
  obtain ⟨hedit, hcomplete⟩ := hreplaced (utf8 "ke") (utf8 "ep") (utf8 "pt") (utf8 "();\n")
    (by decide) (by decide) (by decide) (by decide +kernel) (by decide +kernel) (by decide)
  have hintact : IntactBlock [] block tag.line tag :=
    { start := rfl
      unmarked := by decide +kernel
      closed := ⟨tag.line, by decide +kernel, by decide +kernel⟩
      checksum := rfl }
  have hscan : scan (block ++ tag.line) Design.sample.nodes = .ok {} := by decide +kernel
  have hedited := hfound (block ++ tag.line) [] block tag.line [] tag {} hscan (by decide +kernel)
    hintact block' hedit hcomplete (by decide +kernel)
  have hlines : ([] ++ (Text.splitInclusive 0x0a block' ++ [tag.line])).flatten =
      block' ++ tag.line := by decide +kernel
  have hnumber : ([] : List Bytes).length + (Text.splitInclusive 0x0a block').length + 1 = 2 := by
    decide +kernel
  rwa [hlines, hnumber] at hedited

/-- An edit of one byte can complete the marker of a tag. The line is no part of the block any more,
and if it counts as nothing does, the block behind it has the checksum of the whole. And behind
another byte in the place of a NUL a blank counts that did not, which can make up for the edit. -/
theorem small_edit_missed :
    (let block := utf8 "//~fX~1~0001~00000000~~ jimoe\nkeep();\n"
      let block' := utf8 "//~fl~1~0001~00000000~~ jimoe\nkeep();\n"
      let tag : Tag := ⟨.code, ⟨1⟩, Checksum.ofBlock block⟩
      IntactBlock [] block tag.line tag ∧ Checksum.SmallEdit block block' ∧
        scan (block ++ tag.line) Design.sample.nodes = .ok {} ∧
        scan (block' ++ tag.line) Design.sample.nodes = .ok {}) ∧
    Checksum.ofBlock (utf8 "btF4du\n\x00 b();\n") = Checksum.ofBlock (utf8 "btF4du\na b();\n") := by
  refine ⟨?_, by decide +kernel⟩
  intro block block' tag
  refine ⟨⟨rfl, by decide +kernel, ⟨tag.line, by decide +kernel, by decide +kernel⟩, rfl⟩,
    ⟨utf8 "//~f", utf8 "X", utf8 "l", utf8 "~1~0001~00000000~~ jimoe\nkeep();\n", ?_⟩,
    by decide +kernel, by decide +kernel⟩
  decide +kernel

end Merge

end FormWeave
