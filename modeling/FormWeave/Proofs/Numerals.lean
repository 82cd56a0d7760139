import FormWeave.Proofs.TagText

/-!
# Numerals

A numeral is a row of digits with a value, in base ten or sixteen. The readers of numbers accept just
the numerals, and return their values.
-/

namespace FormWeave

namespace Text

/-! ## 1. Digits -/

def DecimalDigit (c : Char) (d : Nat) : Prop := "0123456789".toList[d]? = some c

def HexDigit (c : Char) (d : Nat) : Prop :=
  "0123456789abcdef".toList[d]? = some c ∨ "0123456789ABCDEF".toList[d]? = some c

instance (c : Char) (d : Nat) : Decidable (DecimalDigit c d) :=
  inferInstanceAs (Decidable (_ = _))

instance (c : Char) (d : Nat) : Decidable (HexDigit c d) := inferInstanceAs (Decidable (_ ∨ _))

theorem DecimalDigit.lt {c : Char} {d : Nat} (h : DecimalDigit c d) : d < 10 :=
  (List.getElem?_eq_some_iff.1 h).1

theorem HexDigit.lt {c : Char} {d : Nat} (h : HexDigit c d) : d < 16 := by
  rcases h with h | h
  · exact (List.getElem?_eq_some_iff.1 h).1
  · exact (List.getElem?_eq_some_iff.1 h).1

theorem ascii_of_digit {digits : List Char} {c : Char} {d : Nat}
    (hdigits : (digits.all fun c => c.toNat < 128) = true) (h : digits[d]? = some c) :
    c.toNat < 128 := by
  simpa using List.all_eq_true.1 hdigits c (List.mem_of_getElem? h)

/-- Digits are ASCII characters with small values, so a table of them can be checked through. -/
theorem value?_eq_some_iff {value? : Char → Option Nat} {digit : Char → Nat → Prop}
    (hvalue : ∀ c, (value? c).isSome → c.toNat < 128)
    (hascii : ∀ c d, digit c d → c.toNat < 128) (hlt : ∀ c d, digit c d → d < 16)
    (htable : ∀ m < 128, (∀ d ∈ value? (Char.ofNat m), digit (Char.ofNat m) d) ∧
      ∀ d < 16, digit (Char.ofNat m) d → value? (Char.ofNat m) = some d) (c : Char) (d : Nat) :
    value? c = some d ↔ digit c d := by
  constructor
  · intro h
    obtain ⟨hdigit, -⟩ := htable c.toNat (hvalue c (by simp [h]))
    rw [Char.ofNat_toNat] at hdigit
    exact hdigit d h
  · intro h
    obtain ⟨-, hread⟩ := htable c.toNat (hascii c d h)
    rw [Char.ofNat_toNat] at hread
    exact hread d (hlt c d h) h

theorem decimalValue?_eq_some_iff (c : Char) (d : Nat) :
    decimalValue? c = some d ↔ DecimalDigit c d := by
  refine value?_eq_some_iff ?_ ?_ ?_ (by decide +kernel) c d
  · intro c h
    unfold decimalValue? at h
    split_ifs at h with hrange
    · simp only [Bool.and_eq_true, decide_eq_true_eq, Char.le_def, UInt32.le_iff_toNat_le] at hrange
      have : c.toNat ≤ 57 := hrange.2
      omega
    · cases h
  · exact fun c d h => ascii_of_digit (by decide) h
  · exact fun c d h => h.lt.trans (by decide)

theorem hexValue?_eq_some_iff (c : Char) (d : Nat) : hexValue? c = some d ↔ HexDigit c d := by
  refine value?_eq_some_iff ?_ ?_ ?_ (by decide +kernel) c d
  · intro c h
    have := hexDigit_bounds h
    omega
  · rintro c d (h | h)
    · exact ascii_of_digit (by decide) h
    · exact ascii_of_digit (by decide) h
  · exact fun c d h => h.lt

theorem HexDigit.bounds {c : Char} {d : Nat} (h : HexDigit c d) :
    isBlank c = false ∧ c.toNat < 0x80 ∧ c ≠ '+' := by
  have hsome : (hexValue? c).isSome := by
    rw [(hexValue?_eq_some_iff c d).2 h]
    rfl
  refine ⟨hexDigit_not_blank hsome, ?_, hexDigit_ne hsome (by decide)⟩
  have := hexDigit_bounds hsome
  omega

/-! ## 2. Numerals -/

/-- Digits in a row, of which there is at least one, with the value they have in some base. -/
inductive Numeral (digit : Char → Nat → Prop) (base : Nat) : List Char → Nat → Prop
  | single {c : Char} {d : Nat} (hdigit : digit c d) : Numeral digit base [c] d
  | concat {cs : List Char} {n : Nat} {c : Char} {d : Nat} (hcs : Numeral digit base cs n)
      (hdigit : digit c d) : Numeral digit base (cs ++ [c]) (n * base + d)

section

variable {digit : Char → Nat → Prop} {base : Nat} {cs : List Char} {n : Nat}

theorem Numeral.ne_nil (h : Numeral digit base cs n) : cs ≠ [] := by
  cases h <;> simp

theorem Numeral.digits (h : Numeral digit base cs n) : ∀ c ∈ cs, ∃ d, digit c d := by
  induction h with
  | single hdigit => simpa using ⟨_, hdigit⟩
  | concat _ hdigit ih =>
    rw [List.forall_mem_append]
    exact ⟨ih, by simpa using ⟨_, hdigit⟩⟩

theorem Numeral.lt (hlt : ∀ c d, digit c d → d < base) (h : Numeral digit base cs n) :
    n < base ^ cs.length := by
  induction h with
  | single hdigit => simpa using hlt _ _ hdigit
  | @concat cs n c d _ hdigit ih =>
    have hd := hlt c d hdigit
    have hstep : (n + 1) * base ≤ base ^ cs.length * base := Nat.mul_le_mul_right base ih
    rw [List.length_append, List.length_singleton, Nat.pow_succ]
    rw [Nat.add_mul] at hstep
    omega

theorem Numeral.digitsValue? {value? : Char → Option Nat}
    (hvalue : ∀ c d, value? c = some d ↔ digit c d) (h : Numeral digit base cs n) :
    Text.digitsValue? value? base 0 cs = some n := by
  induction h with
  | single hdigit => simp [Text.digitsValue?, (hvalue _ _).2 hdigit]
  | concat _ hdigit ih =>
    rw [digitsValue?_append, ih]
    simp [Text.digitsValue?, (hvalue _ _).2 hdigit]

/-- What has a value is a numeral of this value. -/
theorem numeral_of_digitsValue? {value? : Char → Option Nat}
    (hvalue : ∀ c d, value? c = some d ↔ digit c d) (hne : cs ≠ [])
    (h : digitsValue? value? base 0 cs = some n) : Numeral digit base cs n := by
  induction cs using List.reverseRecOn generalizing n with
  | nil => exact absurd rfl hne
  | append_singleton front c ih =>
    rw [digitsValue?_append] at h
    obtain ⟨start, hstart, hlast⟩ := Option.bind_eq_some_iff.1 h
    obtain ⟨d, hd, hn⟩ := Option.bind_eq_some_iff.1 hlast
    obtain rfl : start * base + d = n := Option.some.inj hn
    have hdigit := (hvalue c d).1 hd
    by_cases hfront : front = []
    · subst hfront
      obtain rfl : 0 = start := Option.some.inj hstart
      rw [Nat.zero_mul, Nat.zero_add]
      exact .single hdigit
    · exact .concat (ih hfront hstart) hdigit

theorem digitsValue?_eq_some_iff {value? : Char → Option Nat}
    (hvalue : ∀ c d, value? c = some d ↔ digit c d) (hne : cs ≠ []) :
    digitsValue? value? base 0 cs = some n ↔ Numeral digit base cs n :=
  ⟨numeral_of_digitsValue? hvalue hne, fun h => h.digitsValue? hvalue⟩

theorem hexNumber?_eq_some_iff : hexNumber? cs = some n ↔ Numeral HexDigit 16 cs n := by
  by_cases hne : cs = []
  · subst hne
    exact ⟨nofun, fun h => absurd rfl h.ne_nil⟩
  · rw [hexNumber?, if_neg (by simpa using hne), digitsValue?_eq_some_iff hexValue?_eq_some_iff hne]

theorem decimalUpTo?_eq_some_iff {limit : Nat} :
    decimalUpTo? limit cs = some n ↔ Numeral DecimalDigit 10 cs n ∧ n ≤ limit := by
  by_cases hne : cs = []
  · subst hne
    exact ⟨nofun, fun h => absurd rfl h.1.ne_nil⟩
  · rw [decimalUpTo?, if_neg (by simpa using hne), cappedValue?_eq_map_min _ _ _ (by decide),
      Option.filter_eq_some_iff, Option.map_eq_some_iff]
    simp only [digitsValue?_eq_some_iff decimalValue?_eq_some_iff hne, decide_eq_true_eq]
    constructor
    · rintro ⟨⟨m, hm, rfl⟩, hlimit⟩
      have hmin : min m (limit + 1) = m := by omega
      rw [hmin] at hlimit ⊢
      exact ⟨hm, hlimit⟩
    · rintro ⟨hn, hlimit⟩
      exact ⟨⟨n, hn, by omega⟩, hlimit⟩

end

end Text

end FormWeave
