import Mathlib.Data.List.Basic
import FormWeave.Text.Utf8

/-!
# Texts and their bytes

Reading the bytes of a text gives the text. A character is encoded in one to four bytes, and `take`
takes them off as one piece, whatever follows: the bounds of the lead byte say how many bytes there
are, and those of the second byte rule out overlong forms and surrogates.
-/

namespace FormWeave

/-! ## 1. The bytes of a character -/

section

variable {c : Char}

theorem utf8EncodeChar_ascii (h : c.toNat < 0x80) :
    String.utf8EncodeChar c = [UInt8.ofNat c.toNat] :=
  if_pos (by show c.toNat ≤ 0x7f; omega)

theorem utf8EncodeChar_two (h : 0x80 ≤ c.toNat) (h' : c.toNat < 0x800) :
    String.utf8EncodeChar c =
      [UInt8.ofNat (c.toNat / 64 % 32 + 0xc0), UInt8.ofNat (c.toNat % 64 + 0x80)] :=
  (if_neg (by show ¬ c.toNat ≤ 0x7f; omega)).trans (if_pos (by show c.toNat ≤ 0x7ff; omega))

theorem utf8EncodeChar_three (h : 0x800 ≤ c.toNat) (h' : c.toNat < 0x10000) :
    String.utf8EncodeChar c =
      [UInt8.ofNat (c.toNat / 4096 % 16 + 0xe0), UInt8.ofNat (c.toNat / 64 % 64 + 0x80),
        UInt8.ofNat (c.toNat % 64 + 0x80)] :=
  (if_neg (by show ¬ c.toNat ≤ 0x7f; omega)).trans <|
    (if_neg (by show ¬ c.toNat ≤ 0x7ff; omega)).trans (if_pos (by show c.toNat ≤ 0xffff; omega))

theorem utf8EncodeChar_four (h : 0x10000 ≤ c.toNat) :
    String.utf8EncodeChar c =
      [UInt8.ofNat (c.toNat / 262144 % 8 + 0xf0), UInt8.ofNat (c.toNat / 4096 % 64 + 0x80),
        UInt8.ofNat (c.toNat / 64 % 64 + 0x80), UInt8.ofNat (c.toNat % 64 + 0x80)] :=
  (if_neg (by show ¬ c.toNat ≤ 0x7f; omega)).trans <|
    (if_neg (by show ¬ c.toNat ≤ 0x7ff; omega)).trans (if_neg (by show ¬ c.toNat ≤ 0xffff; omega))

end

theorem utf8_ofList (cs : List Char) : utf8 (String.ofList cs) = cs.flatMap String.utf8EncodeChar := by
  rw [utf8, String.toList_ofList]

theorem utf8_ascii {text : String} (h : ∀ c ∈ text.toList, c.toNat < 0x80) :
    utf8 text = text.toList.map fun c => UInt8.ofNat c.toNat := by
  rw [utf8, List.map_eq_flatMap]
  exact List.flatMap_congr fun c hc => utf8EncodeChar_ascii (h c hc)

namespace Utf8

/-! ## 2. What is taken off the front -/

theorem between_iff (low high b : UInt8) :
    (low ≤ b && b ≤ high) = true ↔ low.toNat ≤ b.toNat ∧ b.toNat ≤ high.toNat := by
  simp only [Bool.and_eq_true, decide_eq_true_eq, UInt8.le_iff_toNat_le]

section

variable {b b1 b2 b3 : UInt8} {rest : Bytes}

theorem take_one (h : b.toNat < 0x80) :
    take b rest = ⟨some (Char.ofNat b.toNat), rest, Nat.le_refl _⟩ := by
  unfold take
  exact if_pos (UInt8.lt_iff_toNat_lt.2 h)

theorem take_two (h : 0xc2 ≤ b.toNat ∧ b.toNat ≤ 0xdf) (h1 : isTail b1 = true) :
    take b (b1 :: rest) =
      ⟨some (Char.ofNat (extend (b.toNat % 32) b1)), rest, Nat.le_succ _⟩ := by
  unfold take
  simp only [UInt8.lt_iff_toNat_lt, between_iff, UInt8.reduceToNat]
  rw [if_neg (by omega), if_pos h]
  simp only [h1, if_true]

theorem take_three (h : 0xe0 ≤ b.toNat ∧ b.toNat ≤ 0xef) (h1 : secondOfThree b b1 = true)
    (h2 : isTail b2 = true) :
    take b (b1 :: b2 :: rest) =
      ⟨some (Char.ofNat (extend (extend (b.toNat % 16) b1) b2)), rest,
        Nat.le_add_right _ 2⟩ := by
  unfold take
  simp only [UInt8.lt_iff_toNat_lt, between_iff, UInt8.reduceToNat]
  rw [if_neg (by omega), if_neg (by omega), if_pos h]
  simp only [h1, h2, if_true]

theorem take_four (h : 0xf0 ≤ b.toNat ∧ b.toNat ≤ 0xf4) (h1 : secondOfFour b b1 = true)
    (h2 : isTail b2 = true) (h3 : isTail b3 = true) :
    take b (b1 :: b2 :: b3 :: rest) =
      ⟨some (Char.ofNat (extend (extend (extend (b.toNat % 8) b1) b2) b3)), rest,
        Nat.le_add_right _ 3⟩ := by
  unfold take
  simp only [UInt8.lt_iff_toNat_lt, between_iff, UInt8.reduceToNat]
  rw [if_neg (by omega), if_neg (by omega), if_neg (by omega), if_pos h]
  simp only [h1, h2, h3, if_true]

theorem secondOfThree_of_bounds (hlow : 0x80 ≤ b1.toNat) (hhigh : b1.toNat ≤ 0xbf)
    (hshort : b.toNat = 0xe0 → 0xa0 ≤ b1.toNat) (hsurrogate : b.toNat = 0xed → b1.toNat ≤ 0x9f) :
    secondOfThree b b1 = true := by
  unfold secondOfThree isTail
  simp only [beq_iff_eq, ← UInt8.toNat_inj, UInt8.reduceToNat]
  split
  · next h => exact (between_iff 0xa0 0xbf b1).2 ⟨hshort h, hhigh⟩
  split
  · next h => exact (between_iff 0x80 0x9f b1).2 ⟨hlow, hsurrogate h⟩
  · exact (between_iff 0x80 0xbf b1).2 ⟨hlow, hhigh⟩

theorem secondOfFour_of_bounds (hlow : 0x80 ≤ b1.toNat) (hhigh : b1.toNat ≤ 0xbf)
    (hshort : b.toNat = 0xf0 → 0x90 ≤ b1.toNat) (hlast : b.toNat = 0xf4 → b1.toNat ≤ 0x8f) :
    secondOfFour b b1 = true := by
  unfold secondOfFour isTail
  simp only [beq_iff_eq, ← UInt8.toNat_inj, UInt8.reduceToNat]
  split
  · next h => exact (between_iff 0x90 0xbf b1).2 ⟨hshort h, hhigh⟩
  split
  · next h => exact (between_iff 0x80 0x8f b1).2 ⟨hlow, hlast h⟩
  · exact (between_iff 0x80 0xbf b1).2 ⟨hlow, hhigh⟩

end

theorem toNat_ofNat {n : Nat} (h : n < 256) : (UInt8.ofNat n).toNat = n :=
  UInt8.toNat_ofNat_of_lt' h

theorem isTail_ofNat {n : Nat} : isTail (UInt8.ofNat (n % 64 + 0x80)) = true := by
  refine (between_iff 0x80 0xbf _).2 ?_
  rw [toNat_ofNat (by omega)]
  show 0x80 ≤ n % 64 + 0x80 ∧ n % 64 + 0x80 ≤ 0xbf
  omega

theorem extend_ofNat (m n : Nat) : extend m (UInt8.ofNat (n % 64 + 0x80)) = m * 64 + n % 64 := by
  rw [extend, toNat_ofNat (by omega)]
  omega

/-! ## 3. A character is taken off whole -/

/-- Whatever follows, `encoded` is taken off as the character `c`. -/
def TakenAs (c : Char) (encoded : Bytes) : Prop :=
  ∃ b tail, encoded = b :: tail ∧
    ∀ rest, (take b (tail ++ rest)).scalar = some c ∧ (take b (tail ++ rest)).rest = rest

section

variable {c : Char}

theorem takenAs_one (h : c.toNat < 0x80) : TakenAs c (String.utf8EncodeChar c) := by
  have hb : (UInt8.ofNat c.toNat).toNat = c.toNat := toNat_ofNat (by omega)
  refine ⟨_, _, utf8EncodeChar_ascii h, fun rest => ?_⟩
  rw [List.nil_append, take_one (by omega), hb, Char.ofNat_toNat]
  exact ⟨rfl, rfl⟩

theorem takenAs_two (h : 0x80 ≤ c.toNat) (h' : c.toNat < 0x800) :
    TakenAs c (String.utf8EncodeChar c) := by
  have hb : (UInt8.ofNat (c.toNat / 64 % 32 + 0xc0)).toNat = c.toNat / 64 + 0xc0 := by
    rw [toNat_ofNat (by omega)]
    omega
  refine ⟨_, _, utf8EncodeChar_two h h', fun rest => ?_⟩
  rw [List.cons_append, List.nil_append, take_two (by omega) isTail_ofNat, extend_ofNat, hb]
  have hvalue : (c.toNat / 64 + 0xc0) % 32 * 64 + c.toNat % 64 = c.toNat := by omega
  rw [hvalue, Char.ofNat_toNat]
  exact ⟨rfl, rfl⟩

theorem takenAs_three (h : 0x800 ≤ c.toNat) (h' : c.toNat < 0x10000) :
    TakenAs c (String.utf8EncodeChar c) := by
  have hvalid : c.toNat < 0xd800 ∨ 0xdfff < c.toNat ∧ c.toNat < 0x110000 := c.valid
  have hb : (UInt8.ofNat (c.toNat / 4096 % 16 + 0xe0)).toNat = c.toNat / 4096 + 0xe0 := by
    rw [toNat_ofNat (by omega)]
    omega
  have hb1 : (UInt8.ofNat (c.toNat / 64 % 64 + 0x80)).toNat = c.toNat / 64 % 64 + 0x80 :=
    toNat_ofNat (by omega)
  -- The character is neither below 0x800 nor a surrogate, and the second byte shows it.
  have hsecond : secondOfThree (UInt8.ofNat (c.toNat / 4096 % 16 + 0xe0))
      (UInt8.ofNat (c.toNat / 64 % 64 + 0x80)) = true := by
    apply secondOfThree_of_bounds <;> omega
  refine ⟨_, _, utf8EncodeChar_three h h', fun rest => ?_⟩
  simp only [List.cons_append, List.nil_append]
  rw [take_three (by omega) hsecond isTail_ofNat, extend_ofNat, extend_ofNat, hb]
  have hvalue : ((c.toNat / 4096 + 0xe0) % 16 * 64 + c.toNat / 64 % 64) * 64 + c.toNat % 64 =
      c.toNat := by omega
  rw [hvalue, Char.ofNat_toNat]
  exact ⟨rfl, rfl⟩

theorem takenAs_four (h : 0x10000 ≤ c.toNat) : TakenAs c (String.utf8EncodeChar c) := by
  have hvalid : c.toNat < 0xd800 ∨ 0xdfff < c.toNat ∧ c.toNat < 0x110000 := c.valid
  have hb : (UInt8.ofNat (c.toNat / 262144 % 8 + 0xf0)).toNat = c.toNat / 262144 + 0xf0 := by
    rw [toNat_ofNat (by omega)]
    omega
  have hb1 : (UInt8.ofNat (c.toNat / 4096 % 64 + 0x80)).toNat = c.toNat / 4096 % 64 + 0x80 :=
    toNat_ofNat (by omega)
  have hsecond : secondOfFour (UInt8.ofNat (c.toNat / 262144 % 8 + 0xf0))
      (UInt8.ofNat (c.toNat / 4096 % 64 + 0x80)) = true := by
    apply secondOfFour_of_bounds <;> omega
  refine ⟨_, _, utf8EncodeChar_four h, fun rest => ?_⟩
  simp only [List.cons_append, List.nil_append]
  rw [take_four (by omega) hsecond isTail_ofNat isTail_ofNat, extend_ofNat, extend_ofNat,
    extend_ofNat, hb]
  have hvalue : (((c.toNat / 262144 + 0xf0) % 8 * 64 + c.toNat / 4096 % 64) * 64 +
      c.toNat / 64 % 64) * 64 + c.toNat % 64 = c.toNat := by omega
  rw [hvalue, Char.ofNat_toNat]
  exact ⟨rfl, rfl⟩

end

theorem takenAs_encode (c : Char) : TakenAs c (String.utf8EncodeChar c) := by
  by_cases h1 : c.toNat < 0x80
  · exact takenAs_one h1
  by_cases h2 : c.toNat < 0x800
  · exact takenAs_two (by omega) h2
  by_cases h3 : c.toNat < 0x10000
  · exact takenAs_three (by omega) h3
  · exact takenAs_four (by omega)

/-! ## 4. Texts -/

theorem scalarsFrom_utf8 (cs : List Char) :
    ∀ done, scalarsFrom done (cs.flatMap String.utf8EncodeChar) = done.reverse ++ cs.map some := by
  induction cs with
  | nil => intro done; simp [scalarsFrom]
  | cons c cs ih =>
    intro done
    obtain ⟨b, tail, hencode, htake⟩ := takenAs_encode c
    obtain ⟨hscalar, hrest⟩ := htake (cs.flatMap String.utf8EncodeChar)
    rw [List.flatMap_cons, hencode, List.cons_append, scalarsFrom, hscalar, hrest, ih]
    simp

theorem scalars_utf8 (text : String) : scalars (utf8 text) = text.toList.map some := by
  rw [scalars, utf8, scalarsFrom_utf8, List.reverse_nil, List.nil_append]

/-- Reading the bytes of a text gives the text. -/
theorem decodeLossy_utf8 (text : String) : decodeLossy (utf8 text) = text := by
  rw [decodeLossy, scalars_utf8, List.map_map,
    show (fun s : Option Char => s.getD '\uFFFD') ∘ some = id from rfl, List.map_id,
    String.ofList_toList]

theorem decode?_utf8 (text : String) : decode? (utf8 text) = some text := by
  have hall : (text.toList.map some).all Option.isSome = true := by simp
  rw [decode?, scalars_utf8, if_pos hall, List.filterMap_map,
    show (id ∘ some : Char → Option Char) = some from rfl,
    List.filterMap_some, String.ofList_toList]

/-! ## 5. ASCII behind any bytes -/

theorem not_isTail {c : UInt8} (hc : c.toNat < 0x80) : isTail c = false := by
  rw [← Bool.not_eq_true, isTail, between_iff]
  show ¬ (0x80 ≤ c.toNat ∧ c.toNat ≤ 0xbf)
  omega

theorem not_between {c low : UInt8} (hc : c.toNat < 0x80) (hlow : 0x80 ≤ low.toNat) (high : UInt8) :
    (low ≤ c && c ≤ high) = false := by
  rw [← Bool.not_eq_true, between_iff]
  omega

theorem not_secondOfThree {c : UInt8} (hc : c.toNat < 0x80) (lead : UInt8) :
    secondOfThree lead c = false := by
  unfold secondOfThree
  split_ifs
  · exact not_between hc (by decide) _
  · exact not_between hc (by decide) _
  · exact not_isTail hc

theorem not_secondOfFour {c : UInt8} (hc : c.toNat < 0x80) (lead : UInt8) :
    secondOfFour lead c = false := by
  unfold secondOfFour
  split_ifs
  · exact not_between hc (by decide) _
  · exact not_between hc (by decide) _
  · exact not_isTail hc

/-- An ASCII byte ends an ill-formed piece in front of it just as the end of the bytes does. -/
theorem take_append {c : UInt8} (hc : c.toNat < 0x80) (b : UInt8) (rest more : Bytes) :
    (take b (rest ++ c :: more)).scalar = (take b rest).scalar ∧
      (take b (rest ++ c :: more)).rest = (take b rest).rest ++ c :: more := by
  have htail := not_isTail hc
  have hthree := not_secondOfThree hc b
  have hfour := not_secondOfFour hc b
  -- Only the next three bytes are looked at, and the new one is among them in three cases.
  match rest with
  | [] =>
    simp only [List.nil_append, take, htail, hthree, hfour, Bool.false_eq_true, if_false]
    split_ifs <;> exact ⟨rfl, rfl⟩
  | [b1] =>
    simp only [List.cons_append, List.nil_append, take, htail, Bool.false_eq_true, if_false]
    split_ifs <;> exact ⟨rfl, rfl⟩
  | [b1, b2] =>
    simp only [List.cons_append, List.nil_append, take, htail, Bool.false_eq_true, if_false]
    split_ifs <;> exact ⟨rfl, rfl⟩
  | b1 :: b2 :: b3 :: rest =>
    simp only [List.cons_append, take]
    split_ifs <;> exact ⟨rfl, rfl⟩

theorem scalarsFrom_append {c : UInt8} (hc : c.toNat < 0x80) (done : List (Option Char))
    (bytes more : Bytes) :
    scalarsFrom done (bytes ++ c :: more) =
      scalarsFrom (some (Char.ofNat c.toNat) :: (scalarsFrom done bytes).reverse) more := by
  induction done, bytes using scalarsFrom.induct with
  | case1 done => simp [scalarsFrom, take_one hc]
  | case2 done b rest ih =>
    obtain ⟨hscalar, hrest⟩ := take_append hc b rest more
    have hstep : scalarsFrom done (b :: rest) =
        scalarsFrom ((take b rest).scalar :: done) (take b rest).rest := by rw [scalarsFrom]
    rw [List.cons_append, scalarsFrom, hscalar, hrest, ih, hstep]

/-- What was read stands in front of what is read. -/
theorem scalarsFrom_eq (done : List (Option Char)) (bytes : Bytes) :
    scalarsFrom done bytes = done.reverse ++ scalars bytes := by
  rw [scalars]
  generalize hsize : bytes.length = size
  induction size using Nat.strongRecOn generalizing done bytes with
  | ind size ih =>
    cases bytes with
    | nil => simp [scalarsFrom]
    | cons b rest =>
      have hshorter := (take b rest).shorter
      rw [List.length_cons] at hsize
      rw [scalarsFrom, scalarsFrom, ih _ (by omega) _ _ rfl, ih _ (by omega) [_] _ rfl]
      simp

/-- Reading can be cut at an ASCII byte, whatever stands in front of it. -/
theorem scalars_append {c : UInt8} (hc : c.toNat < 0x80) (bytes more : Bytes) :
    scalars (bytes ++ c :: more) = scalars bytes ++ some (Char.ofNat c.toNat) :: scalars more := by
  rw [scalars, scalarsFrom_append hc, scalarsFrom_eq, List.reverse_cons, List.reverse_reverse,
    List.append_assoc]
  rfl

theorem toList_decodeLossy_append {c : UInt8} (hc : c.toNat < 0x80) (bytes more : Bytes) :
    (decodeLossy (bytes ++ c :: more)).toList =
      (decodeLossy bytes).toList ++ Char.ofNat c.toNat :: (decodeLossy more).toList := by
  simp only [decodeLossy, scalars_append hc, List.map_append, List.map_cons, String.toList_ofList,
    Option.getD_some]

/-- An ASCII byte behind any bytes is read as its character. -/
theorem toList_decodeLossy_concat {c : UInt8} (hc : c.toNat < 0x80) (bytes : Bytes) :
    (decodeLossy (bytes ++ [c])).toList = (decodeLossy bytes).toList ++ [Char.ofNat c.toNat] := by
  rw [toList_decodeLossy_append hc, show decodeLossy [] = "" from decodeLossy_utf8 ""]
  rfl

/-! ## 6. Bytes in a text -/

/-- A character beyond ASCII has no ASCII byte. -/
theorem high_of_mem_encode {c : Char} (h : 0x80 ≤ c.toNat) {b : UInt8}
    (hb : b ∈ String.utf8EncodeChar c) : 0x80 ≤ b.toNat := by
  have hvalid : c.toNat < 0xd800 ∨ 0xdfff < c.toNat ∧ c.toNat < 0x110000 := c.valid
  by_cases h2 : c.toNat < 0x800
  · rw [utf8EncodeChar_two h h2] at hb
    simp only [List.mem_cons, List.not_mem_nil, or_false] at hb
    rcases hb with rfl | rfl <;> rw [toNat_ofNat (by omega)] <;> omega
  by_cases h3 : c.toNat < 0x10000
  · rw [utf8EncodeChar_three (by omega) h3] at hb
    simp only [List.mem_cons, List.not_mem_nil, or_false] at hb
    rcases hb with rfl | rfl | rfl <;> rw [toNat_ofNat (by omega)] <;> omega
  · rw [utf8EncodeChar_four (by omega)] at hb
    simp only [List.mem_cons, List.not_mem_nil, or_false] at hb
    rcases hb with rfl | rfl | rfl | rfl <;> rw [toNat_ofNat (by omega)] <;> omega

/-- An ASCII byte is a character of its own. -/
theorem eq_of_mem_encode {c : Char} {b : UInt8} (hb : b.toNat < 0x80)
    (h : b ∈ String.utf8EncodeChar c) : c = Char.ofNat b.toNat := by
  by_cases hc : c.toNat < 0x80
  · rw [utf8EncodeChar_ascii hc, List.mem_singleton] at h
    rw [h, toNat_ofNat (by omega), Char.ofNat_toNat]
  · have := high_of_mem_encode (by omega) h
    omega

end Utf8

end FormWeave
