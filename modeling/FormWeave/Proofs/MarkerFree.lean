import Mathlib.Data.List.TakeWhile
import FormWeave.Identifier
import FormWeave.Literal.Initializer
import FormWeave.Literal.Quoted
import FormWeave.Proofs.TagText
import FormWeave.Text.Blank
import FormWeave.Writer.Basic

/-!
# Text that makes no marker

A marker can be part of one text, or it can begin in one and end in the next. `Settled` bytes hold
no marker, and none begins at their end, so nothing that follows can complete one. Whatever free
text is written, the fixed text behind it is a `Fence`: it starts with a byte that is in no marker,
so none runs across its start, and all is settled again.
-/

namespace FormWeave

/-! ## 1. Settled bytes and fences -/

/-- No marker stands in the bytes, and none begins at their end. -/
structure Settled (bytes : Bytes) : Prop where
  unmarked : ¬ Marked bytes
  none_begins : ∀ start ∈ (utf8 Tag.marker).inits, start <:+ bytes → start = []

instance (bytes : Bytes) : Decidable (Settled bytes) :=
  decidable_of_iff (¬ Marked bytes ∧
      ∀ start ∈ (utf8 Tag.marker).inits, start <:+ bytes → start = [])
    ⟨fun h => ⟨h.1, h.2⟩, fun h => ⟨h.unmarked, h.none_begins⟩⟩

/-- Settled bytes that start with a byte that is in no marker. -/
structure Fence (bytes : Bytes) : Prop where
  settled : Settled bytes
  head : ∃ b ∈ bytes.head?, b ∉ utf8 Tag.marker

instance (bytes : Bytes) : Decidable (Fence bytes) :=
  decidable_of_iff (Settled bytes ∧ ∃ b ∈ bytes.head?, b ∉ utf8 Tag.marker)
    ⟨fun h => ⟨h.1, h.2⟩, fun h => ⟨h.settled, h.head⟩⟩

theorem not_marked_of_isInfix {part bytes : Bytes} (hpart : part <:+: bytes) (h : ¬ Marked bytes) :
    ¬ Marked part := fun hmarked => h (hmarked.trans hpart)

theorem suffix_append_cases {part front back : Bytes} (h : part <:+ front ++ back) :
    part <:+ back ∨ ∃ start, part = start ++ back ∧ start <:+ front := by
  obtain ⟨rest, hrest⟩ := h
  rcases List.append_eq_append_iff.1 hrest with ⟨start, hfront, hpart⟩ | ⟨rest', -, hback⟩
  · exact .inr ⟨start, hpart, ⟨rest, hfront.symm⟩⟩
  · exact .inl ⟨rest', hback.symm⟩

theorem settled_of_no_slash {bytes : Bytes} (h : 0x2f ∉ bytes) : Settled bytes where
  unmarked hmarked := h (hmarked.mem (by decide))
  none_begins start hstart hsuffix := by
    -- Whatever begins a marker begins with its slash.
    have hslash : ∀ start ∈ (utf8 Tag.marker).inits, start = [] ∨ 0x2f ∈ start := by decide
    exact (hslash start hstart).resolve_right fun m => h (hsuffix.mem m)

namespace Settled

variable {front back text : Bytes}

/-- No marker is completed behind settled bytes. -/
theorem not_marked_append (h : Settled front) (htext : ¬ Marked text) : ¬ Marked (front ++ text) := by
  intro hmarked
  rcases List.infix_append_iff.1 hmarked with hin | hin | ⟨start, rest, hcut, hstart, hrest⟩
  · exact h.unmarked hin
  · exact htext hin
  · -- A marker across the cut would begin at the end of what is settled.
    have hnil := h.none_begins start ((List.mem_inits _ _).2 ⟨rest, hcut.symm⟩) hstart
    rw [hnil, List.nil_append] at hcut
    exact htext (show utf8 Tag.marker <:+: text from hcut ▸ hrest.isInfix)

theorem append (h : Settled front) (hback : Settled back) : Settled (front ++ back) := by
  refine ⟨h.not_marked_append hback.unmarked, fun start hstart hsuffix => ?_⟩
  rcases suffix_append_cases hsuffix with hsuffix | ⟨part, rfl, hpart⟩
  · exact hback.none_begins start hstart hsuffix
  · -- What would begin in front is nothing, so all of it would begin behind.
    have hprefix := (List.prefix_append part back).trans ((List.mem_inits _ _).1 hstart)
    have hnil := h.none_begins part ((List.mem_inits _ _).2 hprefix) hpart
    rw [hnil, List.nil_append] at hstart ⊢
    exact hback.none_begins back hstart (List.suffix_refl _)

/-- Text without a marker is settled by a fence behind it. -/
theorem fence (htext : ¬ Marked text) (hback : Fence back) : Settled (text ++ back) := by
  obtain ⟨b, hb, hfree⟩ := hback.head
  have hmem : b ∈ back := List.mem_of_mem_head? hb
  refine ⟨fun hmarked => ?_, fun start hstart hsuffix => ?_⟩
  · rcases List.infix_append_iff.1 hmarked with hin | hin | ⟨start, rest, hcut, hstart, hrest⟩
    · exact htext hin
    · exact hback.settled.unmarked hin
    cases rest with
    | nil =>
      rw [List.append_nil] at hcut
      exact htext (show utf8 Tag.marker <:+: text from hcut ▸ hstart.isInfix)
    | cons c rest =>
      -- The marker would run across the first byte of the fence.
      obtain ⟨more, rfl⟩ := hrest
      obtain rfl : c = b := by simpa using hb
      exact hfree (by rw [hcut]; simp)
  · rcases suffix_append_cases hsuffix with hsuffix | ⟨part, rfl, -⟩
    · exact hback.settled.none_begins start hstart hsuffix
    · exact absurd (((List.mem_inits _ _).1 hstart).mem (List.mem_append_right _ hmem)) hfree

end Settled

theorem settled_nil : Settled [] := settled_of_no_slash List.not_mem_nil

theorem settled_flatMap {α : Type} {parts : List α} {bytes : α → Bytes}
    (h : ∀ part ∈ parts, Settled (bytes part)) : Settled (parts.flatMap bytes) := by
  induction parts with
  | nil => exact settled_nil
  | cons part rest ih =>
    rw [List.flatMap_cons]
    exact (h part List.mem_cons_self).append (ih fun p hp => h p (List.mem_cons_of_mem _ hp))

/-! ## 2. Settled texts -/

section

variable {front text back : String}

theorem Settled.fixed (h : Settled (utf8 front)) (hback : Settled (utf8 back)) :
    Settled (utf8 (front ++ back)) := by
  rw [utf8_append]
  exact h.append hback

/-- Free text behind a settled one, and the fence behind it. -/
theorem Settled.free (h : Settled (utf8 front)) (htext : ¬ Marked (utf8 text))
    (hback : Fence (utf8 back)) : Settled (utf8 (front ++ text ++ back)) := by
  rw [utf8_append, utf8_append, List.append_assoc]
  exact h.append (.fence htext hback)

theorem settled_leading (htext : ¬ Marked (utf8 text)) (hback : Fence (utf8 back)) :
    Settled (utf8 (text ++ back)) := by
  rw [utf8_append]
  exact .fence htext hback

theorem Settled.not_marked_behind (h : Settled (utf8 front)) (htext : ¬ Marked (utf8 text)) :
    ¬ Marked (utf8 (front ++ text)) := by
  rw [utf8_append]
  exact h.not_marked_append htext

theorem settled_of_chars (h : ∀ c ∈ text.toList, c ≠ '/') : Settled (utf8 text) := by
  refine settled_of_no_slash fun m => ?_
  obtain ⟨c, hc, hbyte⟩ := List.mem_flatMap.1 m
  exact h c hc (Utf8.eq_of_mem_encode (by decide) hbyte)

theorem not_marked_part {cs : List Char} (hpart : cs <:+: text.toList)
    (h : ¬ Marked (utf8 text)) : ¬ Marked (utf8 (String.ofList cs)) := by
  refine not_marked_of_isInfix ?_ h
  rw [utf8_ofList]
  exact hpart.flatMap _

end

/-! ## 3. Parts of texts -/

namespace Text

theorem prefix_dropBlanksEnd (cs : List Char) : dropBlanksEnd cs <+: cs := by
  rw [dropBlanksEnd, ← List.reverse_suffix, List.reverse_reverse]
  exact List.dropWhile_suffix _

theorem not_marked_trim {text : String} (h : ¬ Marked (utf8 text)) :
    ¬ Marked (utf8 (trim text)) :=
  not_marked_part ((prefix_dropBlanksEnd _).isInfix.trans (List.dropWhile_suffix _).isInfix) h

theorem prefix_chompLine (line : List Char) : chompLine line <+: line := by
  rw [← List.reverse_suffix, chompLine]
  split
  · next rest h => rw [h, List.reverse_reverse]; exact ⟨['\n', '\r'], rfl⟩
  · next rest h => rw [h, List.reverse_reverse]; exact ⟨['\n'], rfl⟩
  · exact List.suffix_refl _

theorem not_marked_of_mem_lines {text line : String} (h : ¬ Marked (utf8 text))
    (hline : line ∈ lines text) : ¬ Marked (utf8 line) := by
  obtain ⟨piece, hpiece, rfl⟩ := List.mem_map.1 hline
  exact not_marked_part ((prefix_chompLine piece).isInfix.trans
    (infix_of_mem_splitInclusive hpiece)) h

end Text

/-! ## 4. Numbers, indentations and identifiers -/

theorem not_slash_of_isDigit {c : Char} (h : c.isDigit = true) : c ≠ '/' := by
  rintro rfl
  exact absurd h (by decide)

theorem settled_nat (n : Nat) : Settled (utf8 (toString n)) :=
  settled_of_chars fun _ hc => not_slash_of_isDigit (Text.isDigit_of_mem_toString hc)

theorem settled_int (n : Int) : Settled (utf8 (toString n)) := by
  cases n with
  | ofNat n => exact settled_nat n
  | negSucc n =>
    have hsign : Settled (utf8 "-") := by decide
    exact hsign.fixed (settled_nat (n + 1))

theorem settled_hex (width n : Nat) : Settled (utf8 (Text.hex width n)) :=
  settled_of_chars fun _ hc => Text.hexDigit_ne (Text.isSome_of_mem_hex hc) (by decide)

theorem settled_octal (width n : Nat) : Settled (utf8 (Text.octal width n)) := by
  refine settled_of_chars fun c hc => not_slash_of_isDigit ?_
  rw [Text.octal, String.toList_ofList, Text.padZeros] at hc
  rcases List.mem_append.1 hc with hc | hc
  · rw [List.eq_of_mem_replicate hc]
    rfl
  · exact Nat.isDigit_of_mem_toDigits (by decide) (by decide) hc

theorem settled_indentAt (depth : Int32) : Settled (utf8 (Writer.indentAt depth)) := by
  refine settled_of_chars fun c hc => ?_
  rw [Writer.indentAt, String.toList_ofList] at hc
  rw [List.eq_of_mem_replicate hc]
  decide

theorem not_slash_of_isIdentByte {b : UInt8} (h : Identifier.isIdentByte b = true) :
    Char.ofNat b.toNat ≠ '/' := by
  intro hslash
  have hlt := b.toNat_lt
  have hvalue : b.toNat = 0x2f := by
    have hchar := congrArg Char.toNat hslash
    rwa [Char.ofNat, dif_pos (.inl (by omega))] at hchar
  have hb : b = 0x2f := UInt8.toNat_inj.1 hvalue
  rw [hb] at h
  exact absurd h (by decide)

theorem settled_base {word : String} (hword : '/' ∉ word.toList) (name label : Option String) :
    Settled (utf8 (Identifier.base word name label)) := by
  refine settled_of_chars fun c hc => ?_
  simp only [Identifier.base, String.toList_append, String.toList_ofList, List.mem_append] at hc
  -- The character is one of the word, the underscore, or one taken from the name or label.
  rcases hc with (hc | hc) | hc
  · rintro rfl
    exact hword (List.mem_of_mem_take hc)
  · rw [show c = '_' from List.mem_singleton.1 hc]
    decide
  · obtain ⟨b, hb, rfl⟩ := List.mem_map.1 hc
    exact not_slash_of_isIdentByte (List.mem_takeWhile_imp (List.mem_of_mem_take hb))

theorem settled_numbered {base : String} (h : Settled (utf8 base)) (n : Nat) :
    Settled (utf8 (Identifier.numbered base n)) := by
  cases n with
  | zero => exact h
  | succ n => exact h.fixed (settled_hex 1 (n + 1))

theorem settled_firstFree {ω : Type} [DecidableEq ω] (ids : Identifiers ω) (owner : ω)
    {base : String} (h : Settled (utf8 base)) (fuel : Nat) :
    ∀ n, Settled (utf8 (ids.firstFree owner base fuel n)) := by
  induction fuel with
  | zero => exact settled_numbered h
  | succ fuel ih =>
    intro n
    rw [Identifiers.firstFree]
    split
    · exact settled_numbered h n
    · split
      · exact settled_numbered h n
      · exact ih (n + 1)

theorem settled_allocate {ω : Type} [DecidableEq ω] (ids : Identifiers ω) (owner : ω)
    {word : String} (hword : '/' ∉ word.toList) (name label : Option String) :
    Settled (utf8 (ids.allocate owner word name label).1) := by
  have h := settled_firstFree ids owner (settled_base hword name label) ids.size 0
  rw [Identifiers.allocate]
  split
  · exact h
  · exact h

/-! ## 5. Literals -/

namespace Literal

theorem settled_join {texts : List String} (h : ∀ text ∈ texts, Settled (utf8 text)) :
    Settled (utf8 (String.join texts)) := by
  induction texts with
  | nil => decide
  | cons text rest ih =>
    rw [String.join_cons]
    exact (h text List.mem_cons_self).fixed (ih fun t ht => h t (List.mem_cons_of_mem _ ht))

theorem settled_initializerValues (bytes : Bytes) :
    ∀ column, ∀ value ∈ initializerValues column bytes, Settled (utf8 value) := by
  induction bytes with
  | nil => simp [initializerValues]
  | cons byte rest ih =>
    intro column value hvalue
    have hcomma : Settled (utf8 (if rest.isEmpty then "" else ",")) := by
      split <;> decide
    rw [initializerValues] at hvalue
    split at hvalue
    · rcases List.mem_cons.1 hvalue with rfl | hvalue
      · exact (Settled.fixed (by decide) (settled_nat _)).fixed hcomma
      · exact ih _ value hvalue
    · rcases List.mem_cons.1 hvalue with rfl | hvalue
      · exact (settled_nat _).fixed hcomma
      · exact ih _ value hvalue

theorem settled_initializer (bytes : Bytes) : Settled (utf8 (initializer bytes)) :=
  (Settled.fixed (by decide) (settled_join (settled_initializerValues bytes 1))).fixed (by decide)

namespace Line

/-- What is written of a literal: settled text, and behind it a run of bytes copied as they are
from the end of what was read. -/
def Copies (line : Line) (read : Bytes) : Prop :=
  ∃ done run, line.written.reverse = done ++ run ∧ Settled done ∧ run <:+ read

variable {line : Line} {read : Bytes}

theorem written_put (line : Line) (bytes : Bytes) :
    (line.put bytes).written.reverse = line.written.reverse ++ bytes := by
  simp [put]

/-- A fence settles what was copied. -/
theorem Copies.fence (h : line.Copies read) (hread : ¬ Marked read) {bytes : Bytes}
    (hbytes : Fence bytes) : Settled (line.written.reverse ++ bytes) := by
  obtain ⟨done, run, hwritten, hdone, hrun⟩ := h
  rw [hwritten, List.append_assoc]
  exact hdone.append (.fence (not_marked_of_isInfix hrun.isInfix hread) hbytes)

theorem copies_of_settled (h : Settled line.written.reverse) : line.Copies read :=
  ⟨_, [], (List.append_nil _).symm, h, List.nil_suffix⟩

theorem Copies.put_fence (h : line.Copies read) (hread : ¬ Marked read) {bytes : Bytes}
    (hbytes : Fence bytes) (more : Bytes) : (line.put bytes).Copies more :=
  copies_of_settled (by rw [written_put]; exact h.fence hread hbytes)

theorem Copies.put_byte (h : line.Copies read) (byte : UInt8) :
    (line.put [byte]).Copies (read ++ [byte]) := by
  obtain ⟨done, run, hwritten, hdone, rest, hrun⟩ := h
  exact ⟨done, run ++ [byte], by rw [written_put, hwritten, List.append_assoc], hdone, rest,
    by rw [← hrun, List.append_assoc]⟩

theorem Copies.breakAt (h : line.Copies read) (hread : ¬ Marked read) (limit : Nat) :
    (line.breakAt limit).Copies read := by
  unfold Line.breakAt
  split
  · have hbreak : Fence [ascii '\\', ascii '\n'] := by decide
    exact h.put_fence hread hbreak read
  · exact h

theorem settled_reopen (h : Settled line.written.reverse) : Settled line.reopen.written.reverse := by
  have hquote : Settled [ascii '"'] := by decide
  have hclosed : Settled (line.put [ascii '"']).written.reverse := by
    rw [written_put]
    exact h.append hquote
  unfold reopen
  dsimp only
  rw [written_put]
  refine Settled.append ?_ hquote
  split
  · rw [List.reverse_cons]
    exact hclosed.append (by decide)
  · exact hclosed

theorem shortEscape?_ne {previous : Option UInt8} {byte letter : UInt8}
    (h : shortEscape? previous byte = some letter) : letter ≠ 0x2f := by
  unfold shortEscape? at h
  rintro rfl
  -- The letter is fixed, or it is the byte itself, which is then known.
  split_ifs at h with _ _ _ _ _ hquote hmark
  · exact absurd h (by decide)
  · exact absurd h (by decide)
  · exact absurd h (by decide)
  · exact absurd h (by decide)
  · exact absurd h (by decide)
  · rw [Option.some.inj h] at hquote
    exact absurd hquote (by decide)
  · rw [Option.some.inj h] at hmark
    exact absurd (Bool.and_eq_true_iff.1 hmark).1 (by decide)

theorem fence_escape {rest : Bytes} (h : Settled rest) : Fence (ascii '\\' :: rest) where
  settled := by
    have hslash : Settled [ascii '\\'] := by decide
    exact hslash.append h
  head := ⟨ascii '\\', rfl, by decide⟩

theorem Copies.putToken (h : line.Copies read) (hread : ¬ Marked read) (utf8Verbatim : Bool)
    (previous : Option UInt8) (byte : UInt8) (next : Option UInt8) :
    (line.putToken (token utf8Verbatim previous byte next)).Copies (read ++ [byte]) := by
  -- Breaking the line first is a fence as well, so it does not matter whether it is broken.
  have hbroken := h.breakAt hread
  unfold token
  split
  · next letter hletter =>
    have hsettled : Settled [letter] :=
      settled_of_no_slash fun m => shortEscape?_ne hletter (List.mem_singleton.1 m).symm
    exact (hbroken _).put_fence hread (fence_escape hsettled) _
  split
  · exact (hbroken _).put_byte byte
  split
  · rw [Line.putToken]
    split
    · exact (hbroken _).put_byte byte
    · exact h.put_byte byte
  · have hescape := fence_escape (settled_octal 1 byte.toNat)
    rw [Line.putToken]
    split
    · refine copies_of_settled (settled_reopen ?_)
      rw [written_put]
      exact (hbroken _).fence hread hescape
    · exact (hbroken _).put_fence hread hescape _

theorem Copies.tokens (utf8Verbatim : Bool) {bytes : Bytes} :
    ∀ {read : Bytes} {line : Line} (previous : Option UInt8), line.Copies read →
      ¬ Marked (read ++ bytes) →
      ((tokens utf8Verbatim previous bytes).foldl Line.putToken line).Copies (read ++ bytes) := by
  induction bytes with
  | nil =>
    intro read line previous h _
    rw [List.append_nil]
    exact h
  | cons byte rest ih =>
    intro read line previous h hread
    -- What was read is followed by the byte, and all of it is still a part of the whole.
    have hfront : ¬ Marked read := not_marked_of_isInfix (List.prefix_append _ _).isInfix hread
    rw [List.append_cons] at hread ⊢
    exact ih _ (h.putToken hfront _ _ _ _) hread

end Line

theorem settled_quoted {bytes : Bytes} (h : ¬ Marked bytes) (utf8Verbatim : Bool) :
    Settled (quoted bytes utf8Verbatim) := by
  have hstart : (Line.mk [ascii '"'] 1).Copies [] := Line.copies_of_settled (by decide)
  have hline := hstart.tokens utf8Verbatim none h
  rw [quoted, List.reverse_cons]
  exact hline.fence h (by decide)

end Literal

end FormWeave
