import Mathlib.Data.Nat.Digits.Defs
import FormWeave.Proofs.Lines
import FormWeave.Proofs.TextBytes

/-!
# Tags read back

The text of a tag is plain ASCII on one line, and reading it gives the tag again, whatever follows.
A hexadecimal field is taken apart from its value: what has a value is made of digits, and digits
are neither blanks nor signs nor separators.
-/

namespace FormWeave

/-! ## 1. Hexadecimal fields -/

namespace Text

/-- What a field of digits holds is in one of the three ranges of digits. -/
theorem hexDigit_bounds {c : Char} (h : (hexValue? c).isSome) :
    48 ≤ c.toNat ∧ c.toNat ≤ 57 ∨ 97 ≤ c.toNat ∧ c.toNat ≤ 102 ∨ 65 ≤ c.toNat ∧ c.toNat ≤ 70 := by
  unfold hexValue? at h
  split_ifs at h with h1 h2 h3
  · simp only [Bool.and_eq_true, decide_eq_true_eq, Char.le_def, UInt32.le_iff_toNat_le] at h1
    exact .inl h1
  · simp only [Bool.and_eq_true, decide_eq_true_eq, Char.le_def, UInt32.le_iff_toNat_le] at h2
    exact .inr (.inl h2)
  · simp only [Bool.and_eq_true, decide_eq_true_eq, Char.le_def, UInt32.le_iff_toNat_le] at h3
    exact .inr (.inr h3)
  · cases h

theorem hexDigit_ne {c d : Char} (h : (hexValue? c).isSome) (hd : (hexValue? d) = none) : c ≠ d := by
  rintro rfl
  simp [hd] at h

theorem hexDigit_not_blank {c : Char} (h : (hexValue? c).isSome) : isBlank c = false := by
  have := hexDigit_bounds h
  simp only [isBlank, Bool.or_eq_false_iff, Bool.and_eq_false_iff, decide_eq_false_iff_not,
    beq_eq_false_iff_ne, ne_eq]
  omega

theorem hexValue?_digitChar {d : Nat} (h : d < 16) : hexValue? d.digitChar = some d := by
  revert d
  decide

theorem digitsValue?_append (value? : Char → Option Nat) (base : Nat) (cs ds : List Char) :
    ∀ start, digitsValue? value? base start (cs ++ ds) =
      (digitsValue? value? base start cs).bind fun n => digitsValue? value? base n ds := by
  induction cs with
  | nil => intro start; rfl
  | cons c cs ih =>
    intro start
    simp only [List.cons_append, digitsValue?]
    cases value? c with
    | none => rfl
    | some d => exact ih _

/-- Only digits have a value. -/
theorem isSome_of_digitsValue? {value? : Char → Option Nat} {base : Nat} {cs : List Char} :
    ∀ {start n : Nat}, digitsValue? value? base start cs = some n →
      ∀ c ∈ cs, (value? c).isSome := by
  induction cs with
  | nil => simp
  | cons c cs ih =>
    intro start n h d hd
    rw [digitsValue?] at h
    cases hc : value? c with
    | none => simp [hc] at h
    | some v =>
      rcases List.mem_cons.1 hd with rfl | hd
      · simp [hc]
      · simp only [hc, Option.bind_eq_bind, Option.bind_some] at h
        exact ih h d hd

/-- The digits of a number have its value. -/
theorem digitsValue?_toDigits {value? : Char → Option Nat} {base : Nat} (hbase : 1 < base)
    (hdigit : ∀ d < base, value? d.digitChar = some d) (n : Nat) :
    digitsValue? value? base 0 (Nat.toDigits base n) = some n := by
  induction n using Nat.strongRecOn with
  | ind n ih =>
    -- The last digit is read behind the value of the digits in front of it.
    by_cases hn : n < base
    · simp [Nat.toDigits_of_lt_base hn, digitsValue?, hdigit n hn]
    · have hsmaller : n / base < n := Nat.div_lt_self (by omega) hbase
      rw [Nat.toDigits_of_base_le hbase (by omega), digitsValue?_append, ih _ hsmaller]
      simp only [Option.bind_some, digitsValue?, hdigit _ (Nat.mod_lt n (by omega))]
      simp only [Option.bind_eq_bind, Option.bind_some, Option.some.injEq]
      exact Nat.div_add_mod' n base

/-- Zeros in front of the digits do not change the value. -/
theorem digitsValue?_padZeros (width n : Nat) :
    digitsValue? hexValue? 16 0 (padZeros width (Nat.toDigits 16 n)) = some n := by
  have hzeros : ∀ k, digitsValue? hexValue? 16 0 (List.replicate k '0') = some 0 := by
    intro k
    induction k with
    | zero => rfl
    | succ k ih => exact ih
  rw [padZeros, digitsValue?_append, hzeros, Option.bind_some,
    digitsValue?_toDigits (by decide) fun _ => hexValue?_digitChar]

/-- The digits of `hex` are digits. -/
theorem isSome_of_mem_hex {width n : Nat} {c : Char} (h : c ∈ (hex width n).toList) :
    (hexValue? c).isSome := by
  rw [hex, String.toList_ofList] at h
  exact isSome_of_digitsValue? (digitsValue?_padZeros width n) c h

/-- A number that fits the width has as many digits. -/
theorem length_hex {width n : Nat} (hw : 0 < width) (hn : n < 16 ^ width) :
    (hex width n).toList.length = width := by
  have := Nat.toDigits_length 16 n width hw hn
  simp only [hex, String.toList_ofList, padZeros, List.length_append, List.length_replicate]
  omega

theorem dropBlanksEnd_of_not_blank {cs : List Char} (h : ∀ c ∈ cs, isBlank c = false) :
    dropBlanksEnd cs = cs := by
  rw [dropBlanksEnd]
  cases hrev : cs.reverse with
  | nil => rw [List.reverse_eq_nil_iff.1 hrev]; rfl
  | cons c rest =>
    have hc : isBlank c = false := h c (List.mem_reverse.1 (hrev ▸ List.mem_cons_self))
    rw [List.dropWhile_cons_of_neg (by rw [hc]; decide), ← hrev, List.reverse_reverse]

end Text

/-! ## 2. The fields of a tag -/

namespace Tag

/-- A written field of digits has the value it was written for. -/
theorem hexField?_hex {width n : Nat} (hw : 0 < width) (hn : n < 16 ^ width) :
    hexField? width (Text.hex width n).toList = some n := by
  have hdigit : ∀ c ∈ (Text.hex width n).toList, (Text.hexValue? c).isSome :=
    fun c hc => Text.isSome_of_mem_hex hc
  have hlen := Text.length_hex hw hn
  have hascii : ∀ c ∈ (Text.hex width n).toList, c.toNat < 0x80 := fun c hc => by
    have := Text.hexDigit_bounds (hdigit c hc)
    omega
  -- The field is not empty, since it is as wide as it has to be.
  have hvalue : Text.hexNumber? (Text.hex width n).toList = some n := by
    rw [Text.hexNumber?, if_neg, Text.hex, String.toList_ofList, Text.digitsValue?_padZeros]
    simpa [List.isEmpty_iff] using fun e => by simp [e] at hlen; omega
  rw [hexField?, Text.dropBlanksEnd_of_not_blank fun c hc => Text.hexDigit_not_blank (hdigit c hc)]
  rw [String.ofList_toList, utf8_ascii hascii, List.length_map, hlen]
  -- Only a sign in front could still be taken off, and a digit is none.
  generalize (Text.hex width n).toList = cs at *
  match cs with
  | [] => simp at hlen; omega
  | c :: rest =>
    have hc : c ≠ '+' := Text.hexDigit_ne (hdigit c List.mem_cons_self) (by decide)
    simp [hc, hvalue]

theorem cutField_append {field : List Char} (h : '~' ∉ field) (rest : List Char) :
    cutField (field ++ '~' :: rest) = (field, some rest) := by
  induction field with
  | nil => rfl
  | cons c field ih =>
    have hc : c ≠ '~' := fun e => h (e ▸ List.mem_cons_self)
    have hfield : '~' ∉ field := fun m => h (List.mem_cons_of_mem _ m)
    simp [cutField, hc, ih hfield]

theorem dropStart?_append (start rest : List Char) : dropStart? start (start ++ rest) = some rest := by
  induction start with
  | nil => rfl
  | cons c start ih => simp [dropStart?, ih]

theorem integer?_index (kind : TagKind) :
    integer? (toString kind.index).toList = some (kind.index : Int) := by
  cases kind <;> decide

/-- The characters of a tag. -/
theorem toList_render (tag : Tag) :
    tag.render.toList = marker.toList ++ ((toString tag.kind.index).toList ++ '~' ::
      ((Text.hex 4 tag.nodeId.value.toNat).toList ++ '~' ::
        ((Text.hex 8 tag.checksum.toNat).toList ++ '~' :: ['~']))) := by
  simp [render]

/-- Reading a tag that was written gives the tag, whatever follows. -/
theorem ofList_render (tag : Tag) (rest : List Char) :
    ofList (tag.render.toList ++ rest) = .ok tag := by
  -- No field holds the separator, so each is cut where it ends.
  have hkind : '~' ∉ (toString tag.kind.index).toList := by
    cases tag.kind <;> decide
  have hhex : ∀ width n, '~' ∉ (Text.hex width n).toList := fun width n h =>
    Text.hexDigit_ne (Text.isSome_of_mem_hex h) (by decide) rfl
  have hid : hexField? 4 (Text.hex 4 tag.nodeId.value.toNat).toList =
      some tag.nodeId.value.toNat :=
    hexField?_hex (by decide) tag.nodeId.value.toNat_lt
  have hsum : hexField? 8 (Text.hex 8 tag.checksum.toNat).toList = some tag.checksum.toNat :=
    hexField?_hex (by decide) tag.checksum.toNat_lt
  rw [toList_render, List.append_assoc, ofList, dropStart?_append]
  simp only [List.append_assoc, List.cons_append, cutField_append hkind, integer?_index,
    TagKind.ofIndex?_index, cutField_append (hhex 4 _), hid, cutField_append (hhex 8 _), hsum]
  simp [UInt16.ofNat_toNat, UInt32.ofNat_toNat]
  rfl

/-! ## 3. The line of a tag -/

/-- A tag is printable ASCII. -/
theorem render_bounds (tag : Tag) {c : Char} (h : c ∈ tag.render.toList) :
    0x20 < c.toNat ∧ c.toNat < 0x7f := by
  have hlist : ∀ cs : List Char, (cs.all fun c => 0x20 < c.toNat && c.toNat < 0x7f) = true →
      ∀ c ∈ cs, 0x20 < c.toNat ∧ c.toNat < 0x7f := by
    intro cs hall c hc
    simpa using List.all_eq_true.1 hall c hc
  have hmarker := hlist marker.toList (by decide)
  have hkind := hlist (toString tag.kind.index).toList (by cases tag.kind <;> decide)
  have hhex : ∀ width n, ∀ c ∈ (Text.hex width n).toList, 0x20 < c.toNat ∧ c.toNat < 0x7f :=
    fun width n c hc => by
      have := Text.hexDigit_bounds (Text.isSome_of_mem_hex hc)
      omega
  have htilde : 0x20 < '~'.toNat ∧ '~'.toNat < 0x7f := by decide
  -- A character is one of the marker, of a field, or a separator.
  simp only [toList_render, List.mem_append, List.mem_cons, List.not_mem_nil, or_false] at h
  rcases h with h | h | rfl | h | rfl | h | rfl | rfl
  · exact hmarker c h
  · exact hkind c h
  · exact htilde
  · exact hhex _ _ c h
  · exact htilde
  · exact hhex _ _ c h
  · exact htilde
  · exact htilde

theorem toList_line (tag : Tag) : (tag.render ++ "\n").toList = tag.render.toList ++ ['\n'] := by
  simp

/-- The tag line is the text of the tag and a line feed. -/
theorem line_eq (tag : Tag) : tag.line = utf8 tag.render ++ [0x0a] := by
  rw [line, utf8_append]
  rfl

theorem line_feed_not_mem_render (tag : Tag) : 0x0a ∉ utf8 tag.render := by
  rw [utf8_ascii fun c hc => by have := tag.render_bounds hc; omega]
  intro h
  obtain ⟨c, hc, hbyte⟩ := List.mem_map.1 h
  have hbounds := tag.render_bounds hc
  have : (UInt8.ofNat c.toNat).toNat = 10 := by rw [hbyte]; rfl
  simp only [UInt8.toNat_ofNat'] at this
  omega

/-- A tag takes one line. -/
theorem splitInclusive_line (tag : Tag) : Text.splitInclusive 0x0a tag.line = [tag.line] := by
  rw [line_eq]
  exact Text.splitInclusive_line tag.line_feed_not_mem_render

theorem complete_line (tag : Tag) : Text.Complete tag.line := by
  simp [line_eq, Text.Complete]

theorem line_length_pos (tag : Tag) : 0 < tag.line.length := by
  simp [line_eq]

/-- The line of a tag starts with the marker. -/
theorem marker_prefix_line (tag : Tag) : utf8 marker <+: tag.line := by
  have hrender : ∃ fields, tag.render = marker ++ fields := by
    simp only [render, String.append_assoc]
    exact ⟨_, rfl⟩
  obtain ⟨fields, hfields⟩ := hrender
  rw [line_eq, hfields, utf8_append, List.append_assoc]
  exact List.prefix_append _ _

theorem marked_line (tag : Tag) : Marked tag.line := tag.marker_prefix_line.isInfix

end Tag

/-- The line of a tag is read as that tag. -/
theorem Merge.readTag_line (number : Nat) (tag : Tag) : readTag number tag.line = .ok tag := by
  have hparse : Tag.parse (tag.render ++ "\n") = .ok tag := by
    rw [Tag.parse, Tag.toList_line, Tag.ofList_render]
  rw [readTag, Tag.line, Utf8.decodeLossy_utf8]
  simp only [hparse, Except.mapError]

end FormWeave
