import FormWeave.Json.Printer
import FormWeave.Json.Reader
import FormWeave.Proofs.TagText

/-!
# Strings and numbers in JSON

A text that is encoded as a string is found up to the closing quotation mark and decoded to the same
text. An integer is read back from its digits, if what follows does not go on with the number.
-/

namespace FormWeave.Json

/-! ## 1. Characters of a string -/

namespace Escape

/-- A character is copied, or has a letter behind a backslash, or is a control character. -/
inductive Encoded (c : Char) : List Char → Prop
  | copied (hquote : c ≠ '"') (hescape : c ≠ '\\') (hcontrol : 0x20 ≤ c.toNat) : Encoded c [c]
  | letter {letter : Char} (h : letter? letter = some c) : Encoded c ['\\', letter]
  | control {h1 h2 h3 h4 : Char} (hcontrol : c.toNat < 0x20)
    (hdigits : ∀ digit ∈ [h1, h2, h3, h4], (Text.hexValue? digit).isSome)
    (hvalue : Text.hexNumber? [h1, h2, h3, h4] = some c.toNat) :
    Encoded c ['\\', 'u', h1, h2, h3, h4]

theorem encoded_encodeChar (c : Char) : Encoded c (encodeChar c) := by
  unfold encodeChar
  -- The first seven characters have letters of their own.
  iterate 7
    split
    · next h =>
      subst h
      exact .letter rfl
  split
  · next hcontrol =>
    have hlength := Text.length_hex (by decide : 0 < 4) (lt_trans hcontrol (by decide))
    have hdigits : ∀ digit ∈ (Text.hex 4 c.toNat).toList, (Text.hexValue? digit).isSome :=
      fun _ => Text.isSome_of_mem_hex
    have hvalue := Text.digitsValue?_padZeros 4 c.toNat
    rw [Text.hex, String.toList_ofList] at hlength hdigits
    generalize Text.padZeros 4 (Nat.toDigits 16 c.toNat) = digits at hlength hdigits hvalue
    obtain ⟨h1, h2, h3, h4, rfl⟩ := List.length_eq_four.1 hlength
    exact .control hcontrol hdigits hvalue
  · next hquote hescape _ _ _ _ _ hcontrol => exact .copied hquote hescape (Nat.not_lt.1 hcontrol)

theorem letter_ne {letter c : Char} (h : letter? letter = some c) : letter ≠ 'u' := by
  rintro rfl
  cases h

theorem decodeFrom_encodeChar (c : Char) (rest : List Char) :
    decodeFrom none (encodeChar c ++ rest) = (decodeFrom none rest).map (c :: ·) := by
  have hencoded := encoded_encodeChar c
  generalize encodeChar c = written at hencoded
  cases hencoded with
  | copied _ hescape _ =>
    rw [List.singleton_append, decodeFrom]
    · cases decodeFrom none rest <;> rfl
    · exact fun _ _ _ _ _ heq => absurd heq hescape
    · exact fun _ _ heq => absurd heq hescape
  | letter h =>
    rw [List.cons_append, List.singleton_append, decodeFrom, h]
    · cases decodeFrom none rest <;> rfl
    · exact fun _ _ _ _ _ heq => absurd heq (letter_ne h)
  | control hcontrol _ hvalue =>
    have hhigh : isHigh c.toNat = false := by
      rw [isHigh, Bool.and_eq_false_iff, decide_eq_false_iff_not]
      left
      omega
    have hlow : isLow c.toNat = false := by
      rw [isLow, Bool.and_eq_false_iff, decide_eq_false_iff_not]
      left
      omega
    simp only [List.cons_append, List.nil_append, decodeFrom, hvalue, Option.bind_eq_bind,
      Option.bind_some, hhigh, hlow, Bool.false_eq_true, if_false, Char.ofNat_toNat]
    cases decodeFrom none rest <;> rfl

/-- Decoding undoes encoding. -/
theorem decodeFrom_encode (text : List Char) : decodeFrom none (encode text) = some text := by
  induction text with
  | nil => rfl
  | cons c text ih =>
    rw [encode, List.flatMap_cons, decodeFrom_encodeChar, ← encode, ih]
    rfl

theorem decode?_encode (text : String) : decode? (encode text.toList) = some text := by
  rw [decode?, decodeFrom_encode, Option.map_some, String.ofList_toList]

end Escape

namespace Token

open Escape in
theorem string?_encodeChar (done : List Char) (c : Char) (rest : List Char) :
    string? done (encodeChar c ++ rest) = string? ((encodeChar c).reverse ++ done) rest := by
  have hencoded := encoded_encodeChar c
  generalize encodeChar c = written at hencoded ⊢
  cases hencoded with
  | copied hquote hescape hcontrol =>
    have hplain : (c == '\\' || c.toNat < 0x20) = false := by
      rw [Bool.or_eq_false_iff, beq_eq_false_iff_ne, decide_eq_false_iff_not, Nat.not_lt]
      exact ⟨hescape, hcontrol⟩
    rw [List.singleton_append, string?, hplain, if_neg Bool.false_ne_true]
    · rfl
    · exact fun heq => absurd heq hquote
    · exact fun _ _ _ _ _ heq => absurd heq hescape
    · exact fun _ _ heq => absurd heq hescape
  | letter h =>
    rw [List.cons_append, List.singleton_append, string?, h, Option.isSome_some, if_pos rfl]
    · rfl
    · exact fun _ _ _ _ _ heq => absurd heq (letter_ne h)
  | @control h1 h2 h3 h4 _ hdigits _ =>
    have hall : ([h1, h2, h3, h4].all fun digit => (Text.hexValue? digit).isSome) = true :=
      List.all_eq_true.2 hdigits
    simp only [List.cons_append, List.nil_append, string?, hall, if_true, List.reverse_cons,
      List.reverse_nil]

/-- An encoded text ends at the quotation mark behind it. -/
theorem string?_encode (text rest : List Char) : ∀ done,
    string? done (Escape.encode text ++ '"' :: rest) =
      some (done.reverse ++ Escape.encode text, rest) := by
  induction text with
  | nil =>
    intro done
    rw [Escape.encode, List.flatMap_nil, List.append_nil]
    rfl
  | cons c text ih =>
    intro done
    rw [Escape.encode, List.flatMap_cons, List.append_assoc, string?_encodeChar, ← Escape.encode, ih,
      List.reverse_append, List.reverse_reverse, List.append_assoc]

/-! ## 2. Digits of an integer -/

/-- The digits of a number start with a zero only if it is zero. -/
theorem toDigits_cons (n : Nat) : ∃ first more, Nat.toDigits 10 n = first :: more ∧
    (first = '0' → n = 0) ∧ ∀ c ∈ first :: more, isDigit c = true := by
  have hdigits : ∀ c ∈ Nat.toDigits 10 n, isDigit c = true := fun c hc =>
    Nat.isDigit_of_mem_toDigits (by decide) (by decide) hc
  have hfirst : ∃ first more, Nat.toDigits 10 n = first :: more ∧ (first = '0' → n = 0) := by
    clear hdigits
    induction n using Nat.strongRecOn with
    | ind n ih =>
      by_cases hn : n < 10
      · refine ⟨n.digitChar, [], Nat.toDigits_of_lt_base hn, ?_⟩
        clear ih
        revert n
        decide
      · obtain ⟨first, more, hmore, hzero⟩ := ih (n / 10) (by omega)
        refine ⟨first, more ++ [(n % 10).digitChar], ?_, fun h => by have := hzero h; omega⟩
        rw [Nat.toDigits_of_base_le (by decide) (by omega), hmore, List.cons_append]
  obtain ⟨first, more, hmore, hzero⟩ := hfirst
  exact ⟨first, more, hmore, hzero, hmore ▸ hdigits⟩

def Stops (rest : List Char) : Prop :=
  ∀ c, rest.head? = some c → isDigit c = false ∧ c ≠ '.' ∧ c ≠ 'e' ∧ c ≠ 'E'

variable {rest : List Char}

theorem Stops.digit (h : Stops rest) : rest.head?.any isDigit = false := by
  cases rest with
  | nil => rfl
  | cons c rest => exact (h c rfl).1

theorem digits?_append (h : Stops rest) {first : Char} {more : List Char}
    (hdigits : ∀ c ∈ first :: more, isDigit c = true) :
    digits? (first :: more ++ rest) = some (first :: more, rest) := by
  have htake : rest.takeWhile isDigit = [] := by
    cases rest with
    | nil => rfl
    | cons c rest => exact List.takeWhile_cons_of_neg (Bool.eq_false_iff.1 h.digit)
  have hdrop : rest.dropWhile isDigit = rest := by
    cases rest with
    | nil => rfl
    | cons c rest => exact List.dropWhile_cons_of_neg (Bool.eq_false_iff.1 h.digit)
  have hfirst : (first :: more ++ rest).head?.any isDigit = true :=
    hdigits first List.mem_cons_self
  rw [digits?, if_pos hfirst, List.takeWhile_append_of_pos hdigits,
    List.dropWhile_append_of_pos hdigits, htake, hdrop, List.append_nil]

theorem whole?_toDigits (h : Stops rest) (n : Nat) :
    whole? (Nat.toDigits 10 n ++ rest) = some (Nat.toDigits 10 n, rest) := by
  obtain ⟨first, more, hmore, hzero, hdigits⟩ := toDigits_cons n
  by_cases hfirst : first = '0'
  · have hn := hzero hfirst
    subst hn
    show (if rest.head?.any isDigit then none else some (['0'], rest)) = _
    rw [h.digit]
    rfl
  · rw [hmore, List.cons_append, whole?]
    · exact digits?_append h hdigits
    · exact fun _ heq => absurd (List.cons.inj heq).1 hfirst

theorem fraction?_of_stops (h : Stops rest) : fraction? rest = some (none, rest) := by
  cases rest with
  | nil => rfl
  | cons c rest =>
    rw [fraction?]
    exact fun _ heq => absurd (List.cons.inj heq).1 (h c rfl).2.1

theorem exponent?_of_stops (h : Stops rest) : exponent? rest = some (none, rest) := by
  cases rest with
  | nil => rfl
  | cons c rest =>
    obtain ⟨-, -, he, hE⟩ := h c rfl
    have hnone : (c == 'e' || c == 'E') = false := by
      rw [Bool.or_eq_false_iff, beq_eq_false_iff_ne, beq_eq_false_iff_ne]
      exact ⟨he, hE⟩
    unfold exponent?
    dsimp only
    rw [hnone, if_neg Bool.false_ne_true]

theorem toList_render_ofInt (n : Int) : (Number.ofInt n).render.toList =
    (if n < 0 then ['-'] else []) ++ Nat.toDigits 10 n.natAbs := by
  rw [Number.render, Number.ofInt]
  simp only [String.toList_append, String.toList_ofList]
  by_cases hn : n < 0 <;> simp [hn]

theorem number?_of_whole? (h : Stops rest) {cs digits : List Char}
    (hwhole : whole? cs = some (digits, rest)) (hsign : cs.head? ≠ some '-') :
    number? cs = some ({ whole := digits }, rest) ∧
      number? ('-' :: cs) = some ({ negative := true, whole := digits }, rest) := by
  constructor
  · cases cs with
    | nil => simp [number?, hwhole, fraction?_of_stops h, exponent?_of_stops h]
    | cons c cs =>
      have hc : c ≠ '-' := fun heq => hsign (congrArg some heq)
      simp [number?, hc, hwhole, fraction?_of_stops h, exponent?_of_stops h]
  · simp only [number?, hwhole, fraction?_of_stops h, exponent?_of_stops h, Option.bind_eq_bind,
      Option.bind_some]
    rfl

/-- An integer is taken off the front of a text with all its digits. -/
theorem number?_ofInt (h : Stops rest) (n : Int) :
    number? ((Number.ofInt n).render.toList ++ rest) = some (.ofInt n, rest) := by
  obtain ⟨first, more, hmore, -, hdigits⟩ := toDigits_cons n.natAbs
  have hsign : (Nat.toDigits 10 n.natAbs ++ rest).head? ≠ some '-' := by
    rw [hmore]
    intro heq
    cases heq
    exact absurd (hdigits '-' List.mem_cons_self) (by decide)
  obtain ⟨hplain, hnegative⟩ := number?_of_whole? h (whole?_toDigits h n.natAbs) hsign
  rw [toList_render_ofInt, Number.ofInt]
  by_cases hn : n < 0
  · rw [if_pos hn, decide_eq_true hn]
    exact hnegative
  · rw [if_neg hn, decide_eq_false hn]
    exact hplain

end Token

/-! ## 3. The value of an integer -/

namespace Number

theorem decimalValue?_digitChar {d : Nat} (h : d < 10) :
    Text.decimalValue? d.digitChar = some d := by
  revert d
  decide

theorem decimalUpTo?_toDigits {limit n : Nat} (h : n ≤ limit) :
    Text.decimalUpTo? limit (Nat.toDigits 10 n) = some n := by
  obtain ⟨first, more, hmore, -⟩ := Token.toDigits_cons n
  have hvalue := Text.digitsValue?_toDigits (by decide : 1 < 10)
    (fun _ => decimalValue?_digitChar) n
  have hne : (Nat.toDigits 10 n).isEmpty = false := by
    rw [hmore]
    rfl
  have hcapped : min n (limit + 1) = n := by omega
  rw [Text.decimalUpTo?, hne, if_neg Bool.false_ne_true,
    Text.cappedValue?_eq_map_min _ _ _ (by decide), hvalue, Option.map_some, hcapped]
  exact Option.filter_some_pos (decide_eq_true h)

/-- An integer of 63 bits is read back. -/
theorem toInt?_ofInt {n : Int} (h : n.natAbs < 2 ^ 63) : toInt? (ofInt n) = some n := by
  have hnegative := @decimalUpTo?_toDigits (1 <<< 63) n.natAbs (by omega)
  have hplain := @decimalUpTo?_toDigits ((1 <<< 64) - 1) n.natAbs (by omega)
  rw [toInt?, ofInt]
  dsimp only
  by_cases hn : n < 0
  · have hzero : (n.natAbs == 0) = false := beq_eq_false_iff_ne.2 (by omega)
    have hvalue : -(n.natAbs : Int) = n := by omega
    simp only [Option.isSome_none, Bool.or_self, Bool.false_eq_true, if_false, decide_eq_true hn,
      if_true, hnegative, Option.bind_eq_bind, Option.bind_some, hzero, hvalue]
  · have hvalue : (n.natAbs : Int) = n := by omega
    simp only [Option.isSome_none, Bool.or_self, Bool.false_eq_true, if_false, decide_eq_false hn,
      hplain, Option.bind_eq_bind, Option.bind_some, hvalue]

/-- Reading leading digits stops at the end if the number fits. -/
theorem leading_of_digitsValue? {digits : List Char} : ∀ {start value : Nat},
    Text.digitsValue? Text.decimalValue? 10 start digits = some value → value < 1 <<< 64 →
      start ≤ value ∧ leading start digits = (value, 0) := by
  induction digits with
  | nil =>
    intro start value h _
    cases h
    exact ⟨le_rfl, rfl⟩
  | cons c digits ih =>
    intro start value h hvalue
    rw [Text.digitsValue?] at h
    obtain ⟨digit, hdigit, hmore⟩ := Option.bind_eq_some_iff.1 h
    obtain ⟨hle, hleading⟩ := ih hmore hvalue
    have hsame : c.toNat - '0'.toNat = digit := by
      unfold Text.decimalValue? at hdigit
      split at hdigit
      · exact Option.some.inj hdigit
      · cases hdigit
    refine ⟨by omega, ?_⟩
    rw [leading, hsame, if_pos (by omega), hleading]

theorem isFinite_ofInt {n : Int} (h : n.natAbs < 1 <<< 53) : isFinite (ofInt n) = true := by
  have hvalue := Text.digitsValue?_toDigits (by decide : 1 < 10)
    (fun _ => decimalValue?_digitChar) n.natAbs
  have hleading := (leading_of_digitsValue? hvalue (lt_trans h (by decide))).2
  have hparts : (ofInt n).parts = (n.natAbs, 0) := by
    rw [parts, ofInt]
    simp [hleading, leading]
  have hround : round53 n.natAbs = n.natAbs := if_pos h
  have hone : round53 (Nat.pow 10 (0 : Int).toNat) = 1 := by decide
  have hlimit : 1 <<< 53 < (1 <<< 1024) - (1 <<< 970) := by decide +kernel
  rw [isFinite, hparts]
  dsimp only
  rw [hround, hone, Nat.mul_one, decide_eq_true (lt_trans h hlimit)]
  simp

end Number

end FormWeave.Json
