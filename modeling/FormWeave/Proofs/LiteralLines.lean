import FormWeave.Proofs.NormalForm
import FormWeave.Proofs.StringLiterals

/-!
# The lines of literals

No line of a quoted literal is longer than 80 columns. A column is a byte, or a character where the
characters of a text are copied. The column that is counted never falls behind the true one, a token
is put where it ends in column 79 at most, and only a backslash or the last quotation mark stands
behind that.
-/

namespace FormWeave

/-! ## 1. Room on a line -/

namespace Text

variable {α : Type} [BEq α] {sep : α} {limit width width' : Nat} {front more : List α}

theorem split_append_split [LawfulBEq α] (sep : α) (front back : List α) :
    split sep (front ++ sep :: back) = split sep front ++ split sep back := by
  induction front with
  | nil => simp [split]
  | cons x rest ih =>
    rw [List.cons_append, split, split, ih]
    split
    · rfl
    · cases hrest : split sep rest with
      | nil => exact absurd hrest (split_ne_nil sep rest)
      | cons piece pieces => rfl

/-- No line of `front` is longer than the limit, and the last one has `width` columns at most: as
many as fit behind that may be added to it. -/
def Room (sep : α) (limit width : Nat) (front : List α) : Prop :=
  ∀ more, sep ∉ more → width + more.length ≤ limit →
    ∀ line ∈ split sep (front ++ more), line.length ≤ limit

theorem room_nil [LawfulBEq α] : Room sep limit 0 [] := by
  intro more hmore hlength line hline
  rw [List.nil_append, split_of_not_mem hmore, List.mem_singleton] at hline
  rwa [hline, ← Nat.zero_add more.length]

theorem Room.append (h : Room sep limit width front) (hmore : sep ∉ more) :
    Room sep limit (width + more.length) (front ++ more) := by
  intro rest hrest hlength
  rw [List.append_assoc]
  refine h (more ++ rest) ?_ (by rw [List.length_append]; omega)
  rw [List.mem_append]
  exact not_or.2 ⟨hmore, hrest⟩

/-- Behind a separator there is all the room. -/
theorem Room.break [LawfulBEq α] (h : Room sep limit width front) (hwidth : width ≤ limit) :
    Room sep limit 0 (front ++ [sep]) := by
  intro rest hrest hlength line hline
  rw [List.append_assoc, List.singleton_append, split_append_split, List.mem_append,
    split_of_not_mem hrest, List.mem_singleton] at hline
  rcases hline with hline | rfl
  · refine h [] (by simp) (by simpa) line ?_
    rwa [List.append_nil]
  · rwa [← Nat.zero_add line.length]

theorem Room.fits (h : Room sep limit width front) (hwidth : width ≤ limit) :
    ∀ line ∈ split sep front, line.length ≤ limit := by
  have hall := h [] (by simp) (by simpa)
  rwa [List.append_nil] at hall

end Text

namespace Literal

/-! ## 2. Columns -/

/-- What takes a column each, and how it is written. An ASCII byte takes one in any case. -/
structure Columns (α : Type) where
  encode : α → Bytes
  ofByte : UInt8 → α
  encode_ofByte : ∀ byte < 0x80, encode (ofByte byte) = [byte]

namespace Columns

def bytes : Columns UInt8 := ⟨fun byte => [byte], id, fun _ _ => rfl⟩

def chars : Columns Char where
  encode := String.utf8EncodeChar
  ofByte byte := Char.ofNat byte.toNat
  encode_ofByte byte h := by
    have hvalid : (Char.ofNat byte.toNat).toNat = byte.toNat := by
      rw [Char.ofNat, dif_pos (.inl (Nat.lt_trans byte.toNat_lt (by decide)))]
      rfl
    rw [utf8EncodeChar_ascii (hvalid.symm ▸ UInt8.lt_iff_toNat_lt.1 h), hvalid, UInt8.ofNat_toNat]

variable {α : Type} (columns : Columns α)

def feed : α := columns.ofByte (ascii '\n')

theorem flatMap_ofByte {bytes : Bytes} (h : ∀ byte ∈ bytes, byte < 0x80) :
    (bytes.map columns.ofByte).flatMap columns.encode = bytes := by
  have hencode : bytes.flatMap (fun byte => columns.encode (columns.ofByte byte)) =
      bytes.flatMap fun byte => [byte] :=
    List.flatMap_congr fun byte hbyte => columns.encode_ofByte byte (h byte hbyte)
  rw [List.flatMap_map, hencode]
  exact List.flatMap_singleton' bytes

theorem feed_ne_ofByte {byte : UInt8} (h : byte < 0x80) (hne : byte ≠ ascii '\n') :
    columns.feed ≠ columns.ofByte byte := by
  intro heq
  have hencode := congrArg columns.encode heq
  rw [feed, columns.encode_ofByte _ (by decide), columns.encode_ofByte byte h] at hencode
  exact hne (List.singleton_inj.1 hencode).symm

end Columns

/-! ## 3. Lines under construction -/

namespace Line

variable {α : Type} [BEq α] {columns : Columns α} {most : Nat} {line : Line}

/-- What is written so far has no line of more than 80 columns. The last one has `most` columns at
most, and not more than are counted. -/
def Fits (columns : Columns α) (most : Nat) (line : Line) : Prop :=
  ∃ written width, line.written.reverse = written.flatMap columns.encode ∧
    Text.Room columns.feed 80 width written ∧ width ≤ most ∧ width ≤ line.column

theorem Fits.mono (h : line.Fits columns most) {most' : Nat} (hmost : most ≤ most') :
    line.Fits columns most' := by
  obtain ⟨written, width, hwritten, hroom, hwidth, hcolumn⟩ := h
  exact ⟨written, width, hwritten, hroom, hwidth.trans hmost, hcolumn⟩

def isPrinted (byte : UInt8) : Bool := 0x20 ≤ byte && byte < 0x7f

theorem isPrinted_quote : isPrinted (ascii '"') = true := rfl

theorem isPrinted_backslash : isPrinted (ascii '\\') = true := rfl

theorem isPrinted_spec {byte : UInt8} (h : isPrinted byte = true) :
    byte < 0x80 ∧ byte ≠ ascii '\n' := by
  rw [isPrinted, Bool.and_eq_true, decide_eq_true_eq, decide_eq_true_eq] at h
  refine ⟨UInt8.lt_trans h.2 (by decide), ?_⟩
  rintro rfl
  exact absurd h.1 (by decide)

theorem isPrinted_of_isOctalDigit {digit : UInt8} (h : CString.isOctalDigit digit = true) :
    isPrinted digit = true := by
  rw [CString.isOctalDigit, Bool.and_eq_true, decide_eq_true_eq, decide_eq_true_eq] at h
  rw [isPrinted, Bool.and_eq_true, decide_eq_true_eq, decide_eq_true_eq]
  exact ⟨UInt8.le_trans (by decide) h.1, UInt8.lt_of_le_of_lt h.2 (by decide)⟩

/-- Each of the `units` takes a column, and a byte at least. -/
theorem Fits.putUnits (h : line.Fits columns most) {units : List α} (hfeed : columns.feed ∉ units)
    (hlength : units.length ≤ (units.flatMap columns.encode).length) :
    (line.put (units.flatMap columns.encode)).Fits columns (most + units.length) := by
  obtain ⟨written, width, hwritten, hroom, hmost, hcolumn⟩ := h
  refine ⟨written ++ units, width + units.length, ?_, hroom.append hfeed, by omega, ?_⟩
  · rw [Line.put, List.reverse_append, List.reverse_reverse, hwritten, List.flatMap_append]
  · exact Nat.add_le_add hcolumn hlength

theorem Fits.put (h : line.Fits columns most) {bytes : Bytes}
    (hbytes : ∀ byte ∈ bytes, isPrinted byte = true) :
    (line.put bytes).Fits columns (most + bytes.length) := by
  have hencode : (bytes.map columns.ofByte).flatMap columns.encode = bytes :=
    columns.flatMap_ofByte fun byte hbyte => (isPrinted_spec (hbytes byte hbyte)).1
  have hfeed : columns.feed ∉ bytes.map columns.ofByte := by
    intro hmem
    obtain ⟨byte, hbyte, heq⟩ := List.mem_map.1 hmem
    have hprinted := isPrinted_spec (hbytes byte hbyte)
    exact columns.feed_ne_ofByte hprinted.1 hprinted.2 heq.symm
  have hput := h.putUnits hfeed (by rw [hencode, List.length_map])
  rwa [hencode, List.length_map] at hput

theorem Fits.quote (h : line.Fits columns most) :
    (line.put [ascii '"']).Fits columns (most + 1) :=
  h.put (List.forall_mem_singleton.2 isPrinted_quote)

/-- Behind a line feed there is all the room. -/
theorem Fits.newline [LawfulBEq α] (h : line.Fits columns 80) :
    Fits columns 0 { written := ascii '\n' :: line.written, column := 0 } := by
  obtain ⟨written, width, hwritten, hroom, hmost, -⟩ := h
  refine ⟨written ++ [columns.feed], 0, ?_, hroom.break hmost, le_rfl, le_rfl⟩
  rw [List.reverse_cons, hwritten, List.flatMap_append, List.flatMap_singleton, Columns.feed,
    columns.encode_ofByte _ (by decide)]

theorem Fits.breakAt [LawfulBEq α] (h : line.Fits columns 79) (limit : Nat) :
    (line.breakAt (limit + 1)).Fits columns limit := by
  unfold Line.breakAt
  split
  · have hslash : (line.put [ascii '\\']).Fits columns 80 :=
      h.put (List.forall_mem_singleton.2 isPrinted_backslash)
    exact hslash.newline.mono (Nat.zero_le _)
  · obtain ⟨written, width, hwritten, hroom, hmost, hcolumn⟩ := h
    exact ⟨written, width, hwritten, hroom, by omega, hcolumn⟩

theorem Fits.reopen [LawfulBEq α] (h : line.Fits columns 77) : line.reopen.Fits columns 79 := by
  have hclosed : (line.put [ascii '"']).Fits columns 78 := h.quote
  unfold Line.reopen
  dsimp only
  split
  · exact (hclosed.mono (by decide)).newline.quote.mono (by decide)
  · exact hclosed.quote

end Line

/-! ## 4. Tokens -/

def Token.IsPrinted : Token → Prop
  | .plain byte | .escaped byte => Line.isPrinted byte = true
  | .octal _ _ => True
  | .verbatim _ => False

/-- A short escape has a letter that is printed, and stands for an ASCII byte. -/
theorem shortEscape?_printed {previous : Option UInt8} {byte letter : UInt8}
    (h : shortEscape? previous byte = some letter) :
    Line.isPrinted letter = true ∧ byte < 0x80 := by
  have hall : ∀ letter, (CString.letters.lookup letter).all
      (fun byte => Line.isPrinted letter && byte < 0x80) = true := by decide +kernel
  have hletter := hall letter
  rwa [lookup_of_shortEscape? h, Option.all_some, Bool.and_eq_true, decide_eq_true_eq] at hletter

/-- A byte is copied only if it is part of a character beyond ASCII. -/
theorem isPrinted_token {utf8Verbatim : Bool} {byte : UInt8}
    (h : utf8Verbatim = false ∨ byte < 0x80) (previous next : Option UInt8) :
    (token utf8Verbatim previous byte next).IsPrinted := by
  unfold token
  cases hescape : shortEscape? previous byte with
  | some letter => exact (shortEscape?_printed hescape).1
  | none =>
    dsimp only
    split
    · next hprinted => exact hprinted
    split
    · next hverbatim =>
      rw [Bool.and_eq_true, decide_eq_true_eq] at hverbatim
      rcases h with h | h
      · exact Bool.false_ne_true (h.symm.trans hverbatim.1)
      · exact absurd hverbatim.2 (UInt8.not_le.2 h)
    · trivial

/-- An octal escape takes two, three or four columns, and ends in column 77 at most. -/
theorem Line.Fits.octal {α : Type} [BEq α] [LawfulBEq α] {columns : Columns α} {line : Line}
    (h : line.Fits columns 79) (byte : UInt8) :
    ((line.breakAt (if byte < 8 then 76 else if byte < 64 then 75 else 74)).put
      (ascii '\\' :: utf8 (Text.octal 1 byte.toNat))).Fits columns 77 := by
  obtain ⟨hdigits, -, hlength⟩ := CString.octal_byte 1 byte
  have hprinted : ∀ b ∈ ascii '\\' :: utf8 (Text.octal 1 byte.toNat), isPrinted b = true :=
    List.forall_mem_cons.2
      ⟨isPrinted_backslash, fun digit hmem => isPrinted_of_isOctalDigit (hdigits digit hmem)⟩
  have hput : ∀ limit, limit + (utf8 (Text.octal 1 byte.toNat)).length ≤ 76 →
      ((line.breakAt (limit + 1)).put
        (ascii '\\' :: utf8 (Text.octal 1 byte.toNat))).Fits columns 77 := fun limit hlimit =>
    ((h.breakAt limit).put hprinted).mono (by rw [List.length_cons]; omega)
  have hwidth : ∀ count, 0 < count → byte.toNat < 8 ^ count →
      (Nat.toDigits 8 byte.toNat).length ≤ count := Nat.toDigits_length 8 byte.toNat
  split
  · next hbyte =>
    have := hwidth 1 (by decide) (UInt8.lt_iff_toNat_lt.1 hbyte)
    exact hput 75 (by omega)
  split
  · next hbyte =>
    have := hwidth 2 (by decide) (UInt8.lt_iff_toNat_lt.1 hbyte)
    exact hput 74 (by omega)
  · have := hwidth 3 (by decide) (lt_of_lt_of_le byte.toNat_lt (by decide))
    exact hput 73 (by omega)

theorem Line.Fits.putToken {α : Type} [BEq α] [LawfulBEq α] {columns : Columns α} {line : Line}
    (h : line.Fits columns 79) {t : Token} (ht : t.IsPrinted) :
    (line.putToken t).Fits columns 79 := by
  cases t with
  | plain byte =>
    have hput : ((line.breakAt 78).put [byte]).Fits columns 78 :=
      (h.breakAt 77).put (List.forall_mem_singleton.2 ht)
    exact hput.mono (by decide)
  | escaped letter =>
    have hprinted : ∀ byte ∈ [ascii '\\', letter], isPrinted byte = true :=
      List.forall_mem_cons.2 ⟨isPrinted_backslash, List.forall_mem_singleton.2 ht⟩
    have hput : ((line.breakAt 77).put [ascii '\\', letter]).Fits columns 78 :=
      (h.breakAt 76).put hprinted
    exact hput.mono (by decide)
  | verbatim byte => exact ht.elim
  | octal byte split =>
    have hescape := h.octal byte
    cases split with
    | false => exact hescape.mono (by decide)
    | true => exact hescape.reopen

/-! ## 5. Characters beyond ASCII -/

/-- Only the first byte of a character may be put behind a break. -/
theorem exists_lead {c : Char} (h : 0x80 ≤ c.toNat) : ∃ lead tails,
    String.utf8EncodeChar c = lead :: tails ∧ (lead &&& 0x40 != 0) = true ∧
      ∀ byte ∈ tails, (byte &&& 0x40 != 0) = false := by
  have hlead : ∀ n < 256, 0xc0 ≤ n → (UInt8.ofNat n &&& 0x40 != 0) = true := by decide +kernel
  have htail : ∀ n, (UInt8.ofNat (n % 64 + 0x80) &&& 0x40 != 0) = false := by
    have hall : ∀ n < 64, (UInt8.ofNat (n + 0x80) &&& 0x40 != 0) = false := by decide +kernel
    exact fun n => hall _ (Nat.mod_lt n (by decide))
  by_cases h2 : c.toNat < 0x800
  · exact ⟨_, _, utf8EncodeChar_two h h2, hlead _ (by omega) (by omega),
      List.forall_mem_singleton.2 (htail _)⟩
  by_cases h3 : c.toNat < 0x10000
  · exact ⟨_, _, utf8EncodeChar_three (by omega) h3, hlead _ (by omega) (by omega),
      List.forall_mem_cons.2 ⟨htail _, List.forall_mem_singleton.2 (htail _)⟩⟩
  · exact ⟨_, _, utf8EncodeChar_four (by omega), hlead _ (by omega) (by omega),
      List.forall_mem_cons.2 ⟨htail _, List.forall_mem_cons.2 ⟨htail _,
        List.forall_mem_singleton.2 (htail _)⟩⟩⟩

theorem shortEscape?_beyond {byte : UInt8} (h : 0x80 ≤ byte) (previous : Option UInt8) :
    shortEscape? previous byte = none := by
  cases hescape : shortEscape? previous byte with
  | none => rfl
  | some letter => exact absurd (shortEscape?_printed hescape).2 (UInt8.not_lt.2 h)

theorem token_beyond {byte : UInt8} (h : 0x80 ≤ byte) (previous next : Option UInt8) :
    token true previous byte next = .verbatim byte := by
  have hunprinted : ¬ (32 ≤ byte && byte < 127) = true := by
    rw [Bool.and_eq_true, decide_eq_true_eq, decide_eq_true_eq]
    exact fun hprinted => absurd (UInt8.lt_of_le_of_lt h hprinted.2) (by decide)
  unfold token
  rw [shortEscape?_beyond h]
  dsimp only
  rw [if_neg hunprinted, if_pos (by simpa using h)]

theorem tokens_beyond {front : Bytes} (h : ∀ byte ∈ front, 0x80 ≤ byte) (back : Bytes) :
    ∀ previous, ∃ previous', tokens true previous (front ++ back) =
      front.map .verbatim ++ tokens true previous' back := by
  induction front with
  | nil => exact fun previous => ⟨previous, rfl⟩
  | cons byte rest ih =>
    intro previous
    obtain ⟨hbyte, hrest⟩ := List.forall_mem_cons.1 h
    obtain ⟨previous', htokens⟩ := ih hrest (some byte)
    refine ⟨previous', ?_⟩
    rw [List.cons_append, tokens, token_beyond hbyte, htokens]
    rfl

namespace Line

theorem put_put (line : Line) (front back : Bytes) :
    (line.put front).put back = line.put (front ++ back) := by
  simp [put, Nat.add_assoc]

/-- The bytes behind the first one follow it. -/
theorem foldl_tails {tails : Bytes} (h : ∀ byte ∈ tails, (byte &&& 0x40 != 0) = false) :
    ∀ line : Line, (tails.map Token.verbatim).foldl Line.putToken line = line.put tails := by
  induction tails with
  | nil => exact fun line => rfl
  | cons byte rest ih =>
    intro line
    obtain ⟨hbyte, hrest⟩ := List.forall_mem_cons.1 h
    rw [List.map_cons, List.foldl_cons, ih hrest, putToken, if_neg (by simp [hbyte]), put_put]
    rfl

/-- A character is copied as a whole. -/
theorem Fits.putChar {line : Line} (h : line.Fits .chars 79) {c : Char} (hc : 0x80 ≤ c.toNat) :
    (((String.utf8EncodeChar c).map Token.verbatim).foldl Line.putToken line).Fits .chars 79 := by
  obtain ⟨lead, tails, hencode, hlead, htails⟩ := exists_lead hc
  have hfold : ((String.utf8EncodeChar c).map Token.verbatim).foldl Line.putToken line =
      (line.breakAt 78).put (String.utf8EncodeChar c) := by
    rw [hencode, List.map_cons, List.foldl_cons, foldl_tails htails, Line.putToken, if_pos hlead,
      put_put]
    rfl
  have hfeed : Columns.chars.feed ∉ [c] := by
    rw [List.mem_singleton]
    rintro rfl
    exact absurd hc (by decide)
  have hput := (h.breakAt 77).putUnits hfeed (by
    rw [List.flatMap_singleton]
    show 1 ≤ (String.utf8EncodeChar c).length
    rw [hencode]
    exact Nat.le_add_left 1 _)
  rw [List.flatMap_singleton] at hput
  have hmost : 77 + [c].length ≤ 79 := by
    rw [List.length_singleton]
    decide
  rw [hfold]
  exact hput.mono hmost

/-! ## 6. Literals -/

theorem Fits.putBytes (bytes : Bytes) :
    ∀ {line : Line}, line.Fits .bytes 79 → ∀ previous,
      ((tokens false previous bytes).foldl Line.putToken line).Fits .bytes 79 := by
  induction bytes with
  | nil => exact fun h _ => h
  | cons byte rest ih =>
    exact fun h previous => ih (h.putToken (isPrinted_token (.inl rfl) _ _)) _

theorem Fits.putText (cs : List Char) :
    ∀ {line : Line}, line.Fits .chars 79 → ∀ previous,
      ((tokens true previous (cs.flatMap String.utf8EncodeChar)).foldl Line.putToken line).Fits
        .chars 79 := by
  induction cs with
  | nil => exact fun h _ => h
  | cons c rest ih =>
    intro line h previous
    rw [List.flatMap_cons]
    by_cases hc : c.toNat < 0x80
    · rw [utf8EncodeChar_ascii hc]
      refine ih (h.putToken (isPrinted_token (.inr (UInt8.lt_iff_toNat_lt.2 ?_)) _ _)) _
      rwa [Utf8.toNat_ofNat (by omega)]
    · have hc' : 0x80 ≤ c.toNat := Nat.not_lt.1 hc
      obtain ⟨previous', htokens⟩ := @tokens_beyond (String.utf8EncodeChar c)
        (fun byte hbyte => UInt8.le_iff_toNat_le.2 (Utf8.high_of_mem_encode hc' hbyte))
        (rest.flatMap String.utf8EncodeChar) previous
      rw [htokens, List.foldl_append]
      exact ih (h.putChar hc') previous'

/-- A literal is closed with one more quotation mark. -/
theorem Fits.closed {α : Type} [BEq α] {columns : Columns α} {line : Line}
    (h : line.Fits columns 79) :
    ∃ written, (ascii '"' :: line.written).reverse = written.flatMap columns.encode ∧
      ∀ l ∈ Text.split columns.feed written, l.length ≤ 80 := by
  obtain ⟨written, width, hwritten, hroom, hwidth, -⟩ := h.quote
  exact ⟨written, hwritten, hroom.fits hwidth⟩

theorem fits_start {α : Type} [BEq α] [LawfulBEq α] (columns : Columns α) :
    (Line.mk [ascii '"'] 1).Fits columns 79 := by
  have hempty : (Line.mk [] 0).Fits columns 0 := ⟨[], 0, rfl, Text.room_nil, le_rfl, le_rfl⟩
  exact hempty.quote.mono (by decide)

end Line

/-- No line of a literal has more than 80 bytes. Where the characters of a text are copied, no line
has more than 80 characters, and the literal is a text itself. -/
theorem quoted_lines (bytes : Bytes) (text : String) :
    (∀ line ∈ Text.split (ascii '\n') (quoted bytes false), line.length ≤ 80) ∧
      ∃ written : String, quoted (utf8 text) true = utf8 written ∧
        ∀ line ∈ Text.split '\n' written.toList, line.length ≤ 80 := by
  constructor
  · obtain ⟨written, hwritten, hlines⟩ :=
      (Line.Fits.putBytes bytes (Line.fits_start .bytes) none).closed
    have hsame : quoted bytes false = written :=
      hwritten.trans (List.flatMap_singleton' written)
    rw [hsame]
    exact hlines
  · obtain ⟨written, hwritten, hlines⟩ :=
      (Line.Fits.putText text.toList (Line.fits_start .chars) none).closed
    refine ⟨String.ofList written, ?_, ?_⟩
    · rw [utf8_ofList]
      exact hwritten
    · rw [String.toList_ofList]
      exact hlines

/-- A literal that is closed and opened again in column 79 leaves the last column to the backslash. -/
example : (Text.split (ascii '\n') (quoted (List.replicate 72 (ascii 'a') ++ [0x80, ascii 'F'])
    false)).map List.length = [80, 2] := by decide +kernel

end Literal

end FormWeave
