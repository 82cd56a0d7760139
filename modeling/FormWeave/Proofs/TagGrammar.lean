import Mathlib.Data.List.DropRight
import FormWeave.Proofs.NormalForm
import FormWeave.Proofs.Numerals

/-!
# The grammar of a tag

Which texts are tags is said here without a parser: the marker, a kind, a node id and a checksum, with
`~` between them, and behind a `~` anything. Reading accepts just these texts and returns the values
that are written there. Any other text fails, at its first field that is not as it has to be.
-/

namespace FormWeave

namespace Text

/-! ## 1. Cuts -/

section

variable {α : Type} [BEq α] [LawfulBEq α] {sep : α} {xs piece : List α} {pieces : List (List α)}

theorem of_split_cons_cons {next : List α} (h : split sep xs = piece :: next :: pieces) :
    ∃ back, xs = piece ++ sep :: back ∧ split sep back = next :: pieces := by
  induction xs generalizing piece with
  | nil => cases h
  | cons x xs ih =>
    obtain ⟨first, rest, hfirst⟩ := List.exists_cons_of_ne_nil (split_ne_nil sep xs)
    rw [split, hfirst] at h
    split_ifs at h with hx
    · obtain ⟨rfl, hrest⟩ := List.cons.inj h
      exact ⟨xs, by rw [beq_iff_eq.1 hx]; rfl, hfirst.trans hrest⟩
    · obtain ⟨rfl, rfl⟩ := List.cons.inj h
      obtain ⟨back, rfl, hback⟩ := ih hfirst
      exact ⟨back, rfl, hback⟩

theorem of_split_cons (h : split sep xs = piece :: pieces) :
    ∃ ending, xs = piece ++ ending ∧ (ending = [] ∨ ∃ back, ending = sep :: back) := by
  cases pieces with
  | nil =>
    have hjoined := flatMap_split sep xs
    rw [h, List.flatMap_singleton] at hjoined
    exact ⟨[], by rw [List.append_nil, List.append_cancel_right hjoined], .inl rfl⟩
  | cons next pieces =>
    obtain ⟨back, hxs, -⟩ := of_split_cons_cons h
    exact ⟨sep :: back, hxs, .inr ⟨back, rfl⟩⟩

end

/-! ## 2. Blanks at the end -/

theorem dropBlanksEnd_append {cs blanks : List Char} (hcs : ∀ c ∈ cs, isBlank c = false)
    (hblanks : ∀ c ∈ blanks, isBlank c = true) :
    dropBlanksEnd (cs ++ blanks) = cs := by
  rw [dropBlanksEnd, List.reverse_append,
    List.dropWhile_append_of_pos (by simpa using hblanks), ← dropBlanksEnd]
  exact dropBlanksEnd_of_not_blank hcs

theorem exists_blanks (field : List Char) :
    ∃ blanks, field = dropBlanksEnd field ++ blanks ∧
      ∀ c ∈ blanks, isBlank c = true :=
  ⟨field.rtakeWhile isBlank, List.rdropWhile_append_rtakeWhile.symm,
    fun _ hc => List.mem_rtakeWhile_imp hc⟩

end Text

namespace Tag

open Text (Numeral DecimalDigit HexDigit)

/-! ## 3. Integers -/

inductive Signed : List Char → Int → Prop
  | plain {cs : List Char} {n : Nat} (h : Numeral DecimalDigit 10 cs n) : Signed cs n
  | plus {cs : List Char} {n : Nat} (h : Numeral DecimalDigit 10 cs n) : Signed ('+' :: cs) n
  | minus {cs : List Char} {n : Nat} (h : Numeral DecimalDigit 10 cs n) : Signed ('-' :: cs) (-n)

def InRange (v : Int) : Prop := -0x8000000000000000 ≤ v ∧ v ≤ 0x7fffffffffffffff

instance (v : Int) : Decidable (InRange v) := inferInstanceAs (Decidable (_ ∧ _))

theorem not_decimalDigit {c : Char} (h : c ∉ "0123456789".toList) (d : Nat) :
    ¬ DecimalDigit c d := fun hdigit => h (List.mem_of_getElem? hdigit)

theorem not_numeral {c : Char} (h : c ∉ "0123456789".toList) {cs : List Char} {n : Nat} :
    ¬ Numeral DecimalDigit 10 (c :: cs) n := by
  intro hcs
  obtain ⟨d, hdigit⟩ := hcs.digits c List.mem_cons_self
  exact not_decimalDigit h d hdigit

theorem signed_minus_iff {cs : List Char} {v : Int} :
    Signed ('-' :: cs) v ↔ ∃ n : Nat, Numeral DecimalDigit 10 cs n ∧ -(n : Int) = v := by
  constructor
  · rintro (h | _ | h)
    · exact absurd h (not_numeral (by decide))
    · exact ⟨_, h, rfl⟩
  · rintro ⟨n, h, rfl⟩
    exact .minus h

theorem signed_plus_iff {cs : List Char} {v : Int} :
    Signed ('+' :: cs) v ↔ ∃ n : Nat, Numeral DecimalDigit 10 cs n ∧ (n : Int) = v := by
  constructor
  · rintro (h | h | _)
    · exact absurd h (not_numeral (by decide))
    · exact ⟨_, h, rfl⟩
  · rintro ⟨n, h, rfl⟩
    exact .plus h

theorem signed_plain_iff {cs : List Char} (hminus : ∀ ds, cs ≠ '-' :: ds)
    (hplus : ∀ ds, cs ≠ '+' :: ds) {v : Int} :
    Signed cs v ↔ ∃ n : Nat, Numeral DecimalDigit 10 cs n ∧ (n : Int) = v := by
  constructor
  · rintro (h | h | h)
    · exact ⟨_, h, rfl⟩
    · exact absurd rfl (hplus _)
    · exact absurd rfl (hminus _)
  · rintro ⟨n, h, rfl⟩
    exact .plain h

/-- A number up to a limit in front of which no sign is read. -/
theorem unsigned_iff {cs : List Char} {v : Int} :
    (Text.decimalUpTo? 0x7fffffffffffffff cs).map Int.ofNat = some v ↔
      (∃ n : Nat, Numeral DecimalDigit 10 cs n ∧ (n : Int) = v) ∧ InRange v := by
  rw [Option.map_eq_some_iff]
  constructor
  · rintro ⟨n, hn, rfl⟩
    obtain ⟨hdigits, hlimit⟩ := Text.decimalUpTo?_eq_some_iff.1 hn
    refine ⟨⟨n, hdigits, rfl⟩, ?_⟩
    simp only [InRange, Int.ofNat_eq_natCast]
    omega
  · rintro ⟨⟨n, hdigits, rfl⟩, -, hlimit⟩
    exact ⟨n, Text.decimalUpTo?_eq_some_iff.2 ⟨hdigits, by omega⟩, rfl⟩

theorem integer?_minus (cs : List Char) :
    integer? ('-' :: cs) =
      (Text.decimalUpTo? 0x8000000000000000 cs).bind fun n => some (-(n : Int)) := by
  rw [integer?]
  cases Text.decimalUpTo? 0x8000000000000000 cs <;> rfl

theorem integer?_eq_some_iff {cs : List Char} {v : Int} :
    integer? cs = some v ↔ Signed cs v ∧ InRange v := by
  by_cases hminus : ∃ digits, cs = '-' :: digits
  · obtain ⟨digits, rfl⟩ := hminus
    rw [signed_minus_iff, integer?_minus, Option.bind_eq_some_iff]
    constructor
    · rintro ⟨n, hn, hv⟩
      obtain rfl : -(n : Int) = v := Option.some.inj hv
      obtain ⟨hdigits, hlimit⟩ := Text.decimalUpTo?_eq_some_iff.1 hn
      refine ⟨⟨n, hdigits, rfl⟩, ?_⟩
      rw [InRange]
      omega
    · rintro ⟨⟨n, hdigits, rfl⟩, hlimit, -⟩
      exact ⟨n, Text.decimalUpTo?_eq_some_iff.2 ⟨hdigits, by omega⟩, rfl⟩
  · rw [not_exists] at hminus
    unfold integer?
    split
    · exact absurd rfl (hminus _)
    · rw [unsigned_iff, signed_plus_iff]
    · next hplus => rw [unsigned_iff, signed_plain_iff hminus fun ds h => hplus ds h]

/-! ## 4. Hexadecimal fields -/

/-- A field of up to `width` characters, and blanks behind them: hexadecimal digits with an optional
`+` in front, and their value. -/
def HexField (width : Nat) (field : List Char) (n : Nat) : Prop :=
  ∃ sign digits blanks, field = sign ++ digits ++ blanks ∧ (sign = [] ∨ sign = ['+']) ∧
    Numeral HexDigit 16 digits n ∧ (sign ++ digits).length ≤ width ∧
    ∀ c ∈ blanks, Text.isBlank c = true

theorem sign_cases {text : List Char} {n : Nat} :
    (match text with
      | '+' :: digits => Text.hexNumber? digits
      | digits => Text.hexNumber? digits) = some n ↔
      ∃ sign digits, text = sign ++ digits ∧ (sign = [] ∨ sign = ['+']) ∧
        Numeral HexDigit 16 digits n := by
  split
  · next digits =>
    rw [Text.hexNumber?_eq_some_iff]
    constructor
    · exact fun h => ⟨['+'], digits, rfl, .inr rfl, h⟩
    · rintro ⟨sign, digits', htext, rfl | rfl, h⟩
      · obtain ⟨d, hdigit⟩ := h.digits '+' (by rw [← List.nil_append digits', ← htext]; simp)
        exact absurd rfl hdigit.bounds.2.2
      · obtain rfl := (List.cons.inj htext).2
        exact h
  · next hplus =>
    rw [Text.hexNumber?_eq_some_iff]
    constructor
    · exact fun h => ⟨[], text, rfl, .inl rfl, h⟩
    · rintro ⟨sign, digits', rfl, rfl | rfl, h⟩
      · exact h
      · exact absurd rfl (hplus digits')

theorem hexField?_eq_some_iff {width : Nat} {field : List Char} {n : Nat} :
    hexField? width field = some n ↔ HexField width field n := by
  -- What a numeral and a sign are made of is neither blank nor longer as bytes.
  have htext : ∀ {sign digits : List Char}, (sign = [] ∨ sign = ['+']) →
      Numeral HexDigit 16 digits n →
      (∀ c ∈ sign ++ digits, Text.isBlank c = false) ∧ sign ++ digits ≠ [] ∧
        (utf8 (String.ofList (sign ++ digits))).length = (sign ++ digits).length := by
    intro sign digits hsign hdigits
    have hchars : ∀ c ∈ sign ++ digits, Text.isBlank c = false ∧ c.toNat < 0x80 := by
      intro c hc
      rcases List.mem_append.1 hc with hc | hc
      · rcases hsign with rfl | rfl
        · cases hc
        · obtain rfl := List.mem_singleton.1 hc
          decide
      · obtain ⟨d, hdigit⟩ := hdigits.digits c hc
        obtain ⟨hblank, hascii, -⟩ := hdigit.bounds
        exact ⟨hblank, hascii⟩
    refine ⟨fun c hc => (hchars c hc).1, by simp [hdigits.ne_nil], ?_⟩
    rw [utf8_ascii (by simpa using fun c hc => (hchars c hc).2)]
    simp
  rw [hexField?]
  constructor
  · intro h
    split_ifs at h with hwidth
    obtain ⟨sign, digits, hfield, hsign, hdigits⟩ := sign_cases.1 h
    obtain ⟨blanks, hblanks, hall⟩ := Text.exists_blanks field
    rw [hfield] at hblanks hwidth
    refine ⟨sign, digits, blanks, hblanks, hsign, hdigits, ?_, hall⟩
    rw [(htext hsign hdigits).2.2] at hwidth
    simp only [Bool.or_eq_true, not_or, decide_eq_true_eq, not_lt] at hwidth
    exact hwidth.2
  · rintro ⟨sign, digits, blanks, rfl, hsign, hdigits, hwidth, hblanks⟩
    obtain ⟨hnot, hne, hlength⟩ := htext hsign hdigits
    rw [Text.dropBlanksEnd_append hnot hblanks, if_neg]
    · exact sign_cases.2 ⟨sign, digits, rfl, hsign, hdigits⟩
    · rw [hlength]
      simp only [Bool.or_eq_true, not_or, decide_eq_true_eq, not_lt]
      exact ⟨by simpa using hne, hwidth⟩

theorem HexField.lt {width : Nat} {field : List Char} {n : Nat} (h : HexField width field n) :
    n < 16 ^ width := by
  obtain ⟨sign, digits, blanks, -, -, hdigits, hwidth, -⟩ := h
  rw [List.length_append] at hwidth
  calc n < 16 ^ digits.length := hdigits.lt fun _ _ => Text.HexDigit.lt
    _ ≤ 16 ^ width := Nat.pow_le_pow_right (by decide) (by omega)

/-! ## 5. The fields of a tag -/

theorem ofIndex?_eq_some_iff {v : Int} {kind : TagKind} :
    TagKind.ofIndex? v = some kind ↔ v = kind.index := by
  constructor
  · intro h
    unfold TagKind.ofIndex? at h
    split at h <;> cases h <;> rfl
  · rintro rfl
    exact TagKind.ofIndex?_index kind

theorem ofIndex?_eq_none_iff {v : Int} : TagKind.ofIndex? v = none ↔ v < 0 ∨ 3 < v := by
  unfold TagKind.ofIndex?
  split
  · decide
  · decide
  · decide
  · decide
  · next h0 h1 h2 h3 =>
    refine ⟨fun _ => ?_, fun _ => rfl⟩
    have : v ≠ 0 ∧ v ≠ 1 ∧ v ≠ 2 ∧ v ≠ 3 := ⟨h0, h1, h2, h3⟩
    omega

def readChecksum (kind : TagKind) (id : Nat) : List (List Char) → Except TagError Tag
  | [] => .error (.missingField .checksum)
  | sumField :: _ =>
    match hexField? 8 sumField with
    | none => .error (.invalidField .checksum)
    | some checksum => .ok { kind, nodeId := ⟨.ofNat id⟩, checksum := .ofNat checksum }

def readNodeId (kind : TagKind) : List (List Char) → Except TagError Tag
  | [] => .error (.missingField .nodeId)
  | idField :: fields =>
    match hexField? 4 idField with
    | none => .error (.invalidField .nodeId)
    | some id => readChecksum kind id fields

def readFields : List (List Char) → Except TagError Tag
  | [] => .error (.missingField .kind)
  | kindField :: fields =>
    match integer? kindField with
    | none => .error (.invalidField .kind)
    | some index =>
      match TagKind.ofIndex? index with
      | none => .error (.unknownKind index)
      | some kind => readNodeId kind fields

theorem dropStart?_eq_some_iff {start cs rest : List Char} :
    dropStart? start cs = some rest ↔ cs = start ++ rest := by
  constructor
  · intro h
    induction start generalizing cs with
    | nil => exact Option.some.inj h
    | cons s start ih =>
      cases cs with
      | nil => cases h
      | cons c cs =>
        rw [dropStart?] at h
        split_ifs at h with hc
        rw [ih h, beq_iff_eq.1 hc]
        rfl
  · rintro rfl
    exact dropStart?_append start rest

theorem split_eq_cutField (cs : List Char) :
    Text.split '~' cs = (cutField cs).1 :: (cutField cs).2.elim [] (Text.split '~') := by
  induction cs with
  | nil => rfl
  | cons c cs ih =>
    rw [Text.split, cutField, ih]
    by_cases hc : (c == '~') = true
    · rw [if_pos hc, if_pos hc, ← ih]
      rfl
    · rw [if_neg hc, if_neg hc]

theorem ofList_eq (cs : List Char) :
    ofList cs = match dropStart? marker.toList cs with
      | none => .error .missingMarker
      | some rest => readFields (Text.split '~' rest) := by
  rw [ofList]
  cases dropStart? marker.toList cs with
  | none => rfl
  | some rest =>
    simp only [split_eq_cutField rest, readFields]
    cases integer? (cutField rest).1 with
    | none => rfl
    | some index =>
      simp only
      cases TagKind.ofIndex? index with
      | none => rfl
      | some kind =>
        cases (cutField rest).2 with
        | none => rfl
        | some rest =>
          simp only [Option.elim, split_eq_cutField rest, readNodeId]
          cases hexField? 4 (cutField rest).1 with
          | none => rfl
          | some id =>
            cases (cutField rest).2 with
            | none => rfl
            | some rest =>
              simp only [split_eq_cutField rest, readChecksum]
              cases hexField? 8 (cutField rest).1 <;> rfl

/-! ## 6. Grammar and faults -/

/-- A text that is a tag, with the values that are written in it: the marker, the kind, the node id
and the checksum, with `~` between them, and then the end or a `~` and anything. -/
def Written (text : String) (tag : Tag) : Prop :=
  ∃ kindField idField sumField ending,
    text.toList = marker.toList ++ kindField ++ '~' :: idField ++ '~' :: sumField ++ ending ∧
    Signed kindField tag.kind.index ∧ HexField 4 idField tag.nodeId.value.toNat ∧
    HexField 8 sumField tag.checksum.toNat ∧ (ending = [] ∨ ∃ rest, ending = '~' :: rest)

/-- What is wrong with the fields behind a marker: of the fields that are not as they have to be, the
error is that of the first. -/
inductive FieldFault : List (List Char) → TagError → Prop
  | noInteger {kindField : List Char} {fields : List (List Char)}
      (h : ∀ v, Signed kindField v → ¬ InRange v) :
      FieldFault (kindField :: fields) (.invalidField .kind)
  | unknownKind {kindField : List Char} {fields : List (List Char)} {v : Int}
      (hkind : Signed kindField v) (hrange : InRange v) (h : v < 0 ∨ 3 < v) :
      FieldFault (kindField :: fields) (.unknownKind v)
  | noNodeId {kindField : List Char} {kind : TagKind} (hkind : Signed kindField kind.index) :
      FieldFault [kindField] (.missingField .nodeId)
  | nodeId {kindField idField : List Char} {fields : List (List Char)} {kind : TagKind}
      (hkind : Signed kindField kind.index) (h : ∀ n, ¬ HexField 4 idField n) :
      FieldFault (kindField :: idField :: fields) (.invalidField .nodeId)
  | noChecksum {kindField idField : List Char} {kind : TagKind} {id : Nat}
      (hkind : Signed kindField kind.index) (hid : HexField 4 idField id) :
      FieldFault [kindField, idField] (.missingField .checksum)
  | checksum {kindField idField sumField : List Char} {fields : List (List Char)} {kind : TagKind}
      {id : Nat} (hkind : Signed kindField kind.index) (hid : HexField 4 idField id)
      (h : ∀ n, ¬ HexField 8 sumField n) :
      FieldFault (kindField :: idField :: sumField :: fields) (.invalidField .checksum)

inductive Fault (text : String) : TagError → Prop
  | noMarker (h : ¬ marker.toList <+: text.toList) : Fault text .missingMarker
  | field {rest : List Char} {e : TagError} (hmarker : text.toList = marker.toList ++ rest)
      (h : FieldFault (Text.split '~' rest) e) : Fault text e

theorem inRange_index (kind : TagKind) : InRange kind.index := by
  cases kind <;> decide

theorem readFields_kind {kindField : List Char} {kind : TagKind}
    (h : Signed kindField kind.index) (fields : List (List Char)) :
    readFields (kindField :: fields) = readNodeId kind fields := by
  rw [readFields, integer?_eq_some_iff.2 ⟨h, inRange_index kind⟩]
  simp only [TagKind.ofIndex?_index]

theorem hexField?_eq_none_iff {width : Nat} {field : List Char} :
    hexField? width field = none ↔ ∀ n, ¬ HexField width field n := by
  rw [Option.eq_none_iff_forall_ne_some]
  exact forall_congr' fun n => not_congr hexField?_eq_some_iff

theorem readFields_of_fault {fields : List (List Char)} {e : TagError} (h : FieldFault fields e) :
    readFields fields = .error e := by
  cases h with
  | @noInteger kindField fields h =>
    have hnone : integer? kindField = none := by
      rw [Option.eq_none_iff_forall_ne_some]
      exact fun v hv => h v (integer?_eq_some_iff.1 hv).1 (integer?_eq_some_iff.1 hv).2
    rw [readFields, hnone]
  | @unknownKind kindField fields v hkind hrange h =>
    rw [readFields, integer?_eq_some_iff.2 ⟨hkind, hrange⟩]
    simp only [ofIndex?_eq_none_iff.2 h]
  | noNodeId hkind => rw [readFields_kind hkind, readNodeId]
  | nodeId hkind h =>
    rw [readFields_kind hkind, readNodeId, hexField?_eq_none_iff.2 h]
  | noChecksum hkind hid =>
    rw [readFields_kind hkind, readNodeId, hexField?_eq_some_iff.2 hid]
    simp only [readChecksum]
  | checksum hkind hid h =>
    rw [readFields_kind hkind, readNodeId, hexField?_eq_some_iff.2 hid]
    simp only [readChecksum, hexField?_eq_none_iff.2 h]

def Held (fields : List (List Char)) (tag : Tag) : Prop :=
  ∃ kindField idField sumField more, fields = kindField :: idField :: sumField :: more ∧
    Signed kindField tag.kind.index ∧ HexField 4 idField tag.nodeId.value.toNat ∧
    HexField 8 sumField tag.checksum.toNat

theorem readFields_of_held {fields : List (List Char)} {tag : Tag} (h : Held fields tag) :
    readFields fields = .ok tag := by
  obtain ⟨kindField, idField, sumField, more, rfl, hkind, hid, hsum⟩ := h
  rw [readFields_kind hkind, readNodeId, hexField?_eq_some_iff.2 hid]
  simp only [readChecksum, hexField?_eq_some_iff.2 hsum, UInt16.ofNat_toNat, UInt32.ofNat_toNat]

/-- Fields hold a tag or have a fault. -/
theorem held_or_fault {fields : List (List Char)} (hne : fields ≠ []) :
    (∃ tag, Held fields tag) ∨ ∃ e, FieldFault fields e := by
  obtain ⟨kindField, fields, rfl⟩ := List.exists_cons_of_ne_nil hne
  cases hindex : integer? kindField with
  | none =>
    refine .inr ⟨_, .noInteger fun v hv hrange => ?_⟩
    rw [integer?_eq_some_iff.2 ⟨hv, hrange⟩] at hindex
    cases hindex
  | some index =>
    obtain ⟨hsigned, hrange⟩ := integer?_eq_some_iff.1 hindex
    cases hkind : TagKind.ofIndex? index with
    | none => exact .inr ⟨_, .unknownKind hsigned hrange (ofIndex?_eq_none_iff.1 hkind)⟩
    | some kind =>
      obtain rfl := ofIndex?_eq_some_iff.1 hkind
      cases fields with
      | nil => exact .inr ⟨_, .noNodeId hsigned⟩
      | cons idField fields =>
        cases hid : hexField? 4 idField with
        | none => exact .inr ⟨_, .nodeId hsigned (hexField?_eq_none_iff.1 hid)⟩
        | some id =>
          have hidField := hexField?_eq_some_iff.1 hid
          cases fields with
          | nil => exact .inr ⟨_, .noChecksum hsigned hidField⟩
          | cons sumField fields =>
            cases hsum : hexField? 8 sumField with
            | none => exact .inr ⟨_, .checksum hsigned hidField (hexField?_eq_none_iff.1 hsum)⟩
            | some checksum =>
              have hsumField := hexField?_eq_some_iff.1 hsum
              -- The widths of the fields keep the values from being cut off.
              refine .inl ⟨⟨kind, ⟨.ofNat id⟩, .ofNat checksum⟩, kindField, idField, sumField,
                fields, rfl, hsigned, ?_, ?_⟩
              · rwa [UInt16.toNat_ofNat_of_lt' hidField.lt]
              · rwa [UInt32.toNat_ofNat_of_lt' hsumField.lt]

theorem readFields_eq_ok_iff {fields : List (List Char)} (hne : fields ≠ []) {tag : Tag} :
    readFields fields = .ok tag ↔ Held fields tag := by
  refine ⟨fun h => ?_, readFields_of_held⟩
  rcases held_or_fault hne with ⟨tag', hheld⟩ | ⟨e, hfault⟩
  · rw [readFields_of_held hheld] at h
    rwa [← Except.ok.inj h]
  · rw [readFields_of_fault hfault] at h
    cases h

theorem readFields_eq_error_iff {fields : List (List Char)} (hne : fields ≠ []) {e : TagError} :
    readFields fields = .error e ↔ FieldFault fields e := by
  refine ⟨fun h => ?_, readFields_of_fault⟩
  rcases held_or_fault hne with ⟨tag, hheld⟩ | ⟨e', hfault⟩
  · rw [readFields_of_held hheld] at h
    cases h
  · rw [readFields_of_fault hfault] at h
    rwa [← Except.error.inj h]

/-! ## 7. Texts -/

theorem Signed.tilde_not_mem {cs : List Char} {v : Int} (h : Signed cs v) : '~' ∉ cs := by
  have hdigits : ∀ {cs n}, Numeral DecimalDigit 10 cs n → '~' ∉ cs := by
    intro cs n hcs hmem
    obtain ⟨d, hdigit⟩ := hcs.digits _ hmem
    exact not_decimalDigit (by decide) d hdigit
  cases h with
  | plain h => exact hdigits h
  | plus h => simpa using hdigits h
  | minus h => simpa using hdigits h

theorem HexField.tilde_not_mem {width : Nat} {field : List Char} {n : Nat}
    (h : HexField width field n) : '~' ∉ field := by
  obtain ⟨sign, digits, blanks, rfl, hsign, hdigits, -, hblanks⟩ := h
  rw [List.mem_append, List.mem_append]
  rintro ((hmem | hmem) | hmem)
  · rcases hsign with rfl | rfl
    · cases hmem
    · exact absurd hmem (by decide)
  · obtain ⟨d, hdigit⟩ := hdigits.digits _ hmem
    rw [← Text.hexValue?_eq_some_iff] at hdigit
    exact absurd hdigit nofun
  · exact absurd (hblanks _ hmem) (by decide)

/-- The fields of a text hold a tag exactly if it is written there. -/
theorem held_split_iff {rest : List Char} {tag : Tag} :
    Held (Text.split '~' rest) tag ↔
      ∃ kindField idField sumField ending,
        rest = kindField ++ '~' :: idField ++ '~' :: sumField ++ ending ∧
        Signed kindField tag.kind.index ∧ HexField 4 idField tag.nodeId.value.toNat ∧
        HexField 8 sumField tag.checksum.toNat ∧
        (ending = [] ∨ ∃ back, ending = '~' :: back) := by
  constructor
  · rintro ⟨kindField, idField, sumField, more, hsplit, hkind, hid, hsum⟩
    obtain ⟨behindKind, rfl, hbehindKind⟩ := Text.of_split_cons_cons hsplit
    obtain ⟨behindId, rfl, hbehindId⟩ := Text.of_split_cons_cons hbehindKind
    obtain ⟨ending, rfl, hending⟩ := Text.of_split_cons hbehindId
    exact ⟨kindField, idField, sumField, ending, by simp, hkind, hid, hsum, hending⟩
  · rintro ⟨kindField, idField, sumField, ending, rfl, hkind, hid, hsum, hending⟩
    have hlast : ∃ more, Text.split '~' (sumField ++ ending) = sumField :: more := by
      rcases hending with rfl | ⟨back, rfl⟩
      · exact ⟨[], by rw [List.append_nil, Text.split_of_not_mem hsum.tilde_not_mem]⟩
      · exact ⟨_, Text.split_append hsum.tilde_not_mem back⟩
    obtain ⟨more, hmore⟩ := hlast
    refine ⟨kindField, idField, sumField, more, ?_, hkind, hid, hsum⟩
    rw [List.append_assoc, List.append_assoc, List.cons_append,
      Text.split_append hkind.tilde_not_mem, List.cons_append,
      Text.split_append hid.tilde_not_mem, hmore]

theorem parse_eq (text : String) :
    parse text = match dropStart? marker.toList text.toList with
      | none => .error .missingMarker
      | some rest => readFields (Text.split '~' rest) :=
  ofList_eq text.toList

theorem parse_eq_ok_iff {text : String} {tag : Tag} : parse text = .ok tag ↔ Written text tag := by
  rw [parse_eq]
  cases hmarker : dropStart? marker.toList text.toList with
  | none =>
    refine ⟨nofun, ?_⟩
    rintro ⟨kindField, idField, sumField, ending, htext, -⟩
    rw [htext, List.append_assoc, List.append_assoc, List.append_assoc, dropStart?_append]
      at hmarker
    cases hmarker
  | some rest =>
    simp only
    rw [readFields_eq_ok_iff (Text.split_ne_nil '~' rest), held_split_iff, Written,
      dropStart?_eq_some_iff.1 hmarker]
    simp only [List.append_assoc, List.append_cancel_left_eq]

theorem parse_eq_error_iff {text : String} {e : TagError} :
    parse text = .error e ↔ Fault text e := by
  rw [parse_eq]
  cases hmarker : dropStart? marker.toList text.toList with
  | none =>
    have hnot : ∀ rest, text.toList ≠ marker.toList ++ rest := by
      intro rest htext
      rw [htext, dropStart?_append] at hmarker
      cases hmarker
    constructor
    · intro h
      obtain rfl := Except.error.inj h
      exact .noMarker fun ⟨rest, hrest⟩ => hnot rest hrest.symm
    · rintro (_ | ⟨htext, -⟩)
      · rfl
      · exact absurd htext (hnot _)
  | some rest =>
    have htext := dropStart?_eq_some_iff.1 hmarker
    simp only
    rw [readFields_eq_error_iff (Text.split_ne_nil '~' rest)]
    constructor
    · exact fun h => .field htext h
    · rintro (h | ⟨htext', h⟩)
      · exact absurd ⟨rest, htext.symm⟩ h
      · rwa [List.append_cancel_left (htext.symm.trans htext')]

/-- A text is read as a tag exactly if the tag is written in it, with the values that are written. It
is refused exactly if it has a fault, with the error of its first one. What a tag is written as is
read as this tag, whatever stands behind it. -/
theorem parse_grammar (text : String) :
    (∀ tag, parse text = .ok tag ↔ Written text tag) ∧
    (∀ e, parse text = .error e ↔ Fault text e) ∧
    ∀ (tag : Tag) (rest : String), parse (tag.render ++ rest) = .ok tag := by
  refine ⟨fun tag => parse_eq_ok_iff, fun e => parse_eq_error_iff, fun tag rest => ?_⟩
  rw [parse, String.toList_append, ofList_render]

/-- A sign in front of the kind and of the checksum, and blanks behind the fields. -/
example : parse "//~fl~+2~00fF ~+a95eB0
" = .ok ⟨.menuCallback, ⟨0xff⟩, 0xa95eb0⟩ := by decide

end Tag

end FormWeave
