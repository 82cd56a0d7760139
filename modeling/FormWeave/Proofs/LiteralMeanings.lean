import FormWeave.Proofs.StringLiterals

/-!
# What a literal means

A text of a design is written between quotation marks in one of two ways: quoted, with escapes for
what a literal cannot hold, or bare. A quoted literal always means its text. A bare one does so only
if the text has nothing to escape, since whatever a compiler does not copy takes more than it gives.
-/

namespace FormWeave

namespace CString

open Literal (ascii)

def IsPlain (byte : UInt8) : Prop := byte ≠ ascii '"' ∧ byte ≠ ascii '\n' ∧ byte ≠ ascii '\\'

instance (byte : UInt8) : Decidable (IsPlain byte) := inferInstanceAs (Decidable (_ ∧ _))

/-! ## 1. Bare literals are read -/

theorem read?_bare {text : Bytes} (h : ∀ byte ∈ text, IsPlain byte) :
    read? true (text ++ [ascii '"']) = some text := by
  induction text with
  | nil => exact (read?_quote true []).trans read?.eq_1
  | cons byte rest ih =>
    rw [List.forall_mem_cons] at h
    obtain ⟨⟨hquote, hfeed, hbackslash⟩, hrest⟩ := h
    rw [List.cons_append, read?_plain hquote hfeed hbackslash, ih hrest]
    rfl

theorem decode?_bare {text : Bytes} (h : ∀ byte ∈ text, IsPlain byte) :
    decode? (ascii '"' :: (text ++ [ascii '"'])) = some text := by
  have hline : ascii '\n' ∉ ascii '"' :: (text ++ [ascii '"']) := by
    intro hmem
    rcases List.mem_cons.1 hmem with hquote | hmem
    · exact absurd hquote (by decide)
    rcases List.mem_append.1 hmem with hmem | hmem
    · exact (h _ hmem).2.1 rfl
    · exact absurd (List.mem_singleton.1 hmem) (by decide)
  rw [decode?, unsplice_line hline]
  exact (if_pos rfl).trans ((read?_quote false _).trans (read?_bare h))

/-! ## 2. How much is read -/

theorem length_unsplice_le (bytes : Bytes) : (unsplice bytes).length ≤ bytes.length := by
  induction bytes using unsplice.induct with
  | case1 => exact le_rfl
  | case2 => exact le_rfl
  | case3 first second rest h ih =>
    rw [unsplice, if_pos h]
    exact ih.trans (by simp only [List.length_cons]; omega)
  | case4 first second rest h ih =>
    rw [unsplice, if_neg h]
    exact Nat.succ_le_succ ih

/-- Behind an opening quotation mark the first byte ends the literal, starts an escape, or is read as
it is. -/
theorem read?_cons {byte : UInt8} {rest text : Bytes} (h : read? true (byte :: rest) = some text) :
    (byte = ascii '"' ∧ read? false rest = some text) ∨
      (∃ value behind inner, escape? rest = some (value, behind) ∧
        read? true behind = some inner ∧ text = value :: inner) ∨
      ∃ inner, IsPlain byte ∧ read? true rest = some inner ∧ text = byte :: inner := by
  by_cases hquote : byte = ascii '"'
  · subst hquote
    exact .inl ⟨rfl, (read?_quote true rest).symm.trans h⟩
  by_cases hbackslash : byte = ascii '\\'
  · subst hbackslash
    rw [read?_backslash] at h
    obtain ⟨⟨value, behind⟩, hescape, hbehind⟩ := Option.bind_eq_some_iff.1 h
    obtain ⟨inner, hinner, htext⟩ := Option.map_eq_some_iff.1 hbehind
    exact .inr (.inl ⟨value, behind, inner, hescape, hinner, htext.symm⟩)
  by_cases hfeed : byte = ascii '\n'
  · rw [read?, if_neg hquote, if_pos hfeed] at h
    cases h
  · rw [read?_plain hquote hfeed hbackslash] at h
    obtain ⟨inner, hinner, htext⟩ := Option.map_eq_some_iff.1 h
    exact .inr (.inr ⟨inner, ⟨hquote, hfeed, hbackslash⟩, hinner, htext.symm⟩)

/-- Between literals a quotation mark or a blank is passed over. -/
theorem read?_between {byte : UInt8} {rest text : Bytes}
    (h : read? false (byte :: rest) = some text) :
    read? true rest = some text ∨ read? false rest = some text := by
  rw [read?] at h
  split_ifs at h
  · exact .inl h
  · exact .inr h

/-- Literals are at least as long as what they stand for, and what is left of one is longer by its
closing quotation mark. -/
theorem length_le_of_read? {inside : Bool} {written text : Bytes}
    (h : read? inside written = some text) :
    text.length + (if inside then 1 else 0) ≤ written.length := by
  induction hsize : written.length using Nat.strongRecOn generalizing inside written text with
  | ind size ih =>
    cases written with
    | nil =>
      cases inside with
      | false =>
        rw [read?] at h
        cases h
        exact Nat.zero_le _
      | true =>
        rw [read?] at h
        cases h
    | cons byte rest =>
      rw [List.length_cons] at hsize
      cases inside with
      | false =>
        -- Between two literals a byte is a blank, or it opens the next literal.
        rcases read?_between h with hrest | hrest
        · have := ih _ (by omega) hrest rfl
          simp only [if_true, Bool.false_eq_true, if_false] at this ⊢
          omega
        · have := ih _ (by omega) hrest rfl
          simp only [Bool.false_eq_true, if_false] at this ⊢
          omega
      | true =>
        rcases read?_cons h with ⟨-, hrest⟩ | ⟨value, behind, inner, hescape, hinner, rfl⟩ |
          ⟨inner, -, hinner, rfl⟩
        · have := ih _ (by omega) hrest rfl
          simp only [if_true, Bool.false_eq_true, if_false] at this ⊢
          omega
        · -- An escape takes a backslash and at least one byte behind it.
          have hshorter := escape?_shorter hescape
          have := ih _ (by omega) hinner rfl
          simp only [if_true, List.length_cons] at this ⊢
          omega
        · have := ih _ (by omega) hinner rfl
          simp only [if_true, List.length_cons] at this ⊢
          omega

/-- A literal that is no longer than its text and its closing quotation mark holds the text as it
is. -/
theorem plain_of_read? {written text : Bytes} (h : read? true written = some text)
    (hlength : written.length ≤ text.length + 1) :
    written = text ++ [ascii '"'] ∧ ∀ byte ∈ text, IsPlain byte := by
  induction written generalizing text with
  | nil =>
    rw [read?] at h
    cases h
  | cons byte rest ih =>
    rw [List.length_cons] at hlength
    rcases read?_cons h with ⟨rfl, hrest⟩ | ⟨value, behind, inner, hescape, hinner, rfl⟩ |
      ⟨inner, hplain, hinner, rfl⟩
    · -- Whatever stood behind the closing mark would make the literal too long.
      cases rest with
      | nil =>
        rw [read?] at hrest
        cases hrest
        exact ⟨rfl, List.forall_mem_nil _⟩
      | cons next rest =>
        rw [List.length_cons] at hlength
        rcases read?_between hrest with hnext | hnext
        · have := length_le_of_read? hnext
          simp only [if_true] at this
          omega
        · have := length_le_of_read? hnext
          simp only [Bool.false_eq_true, if_false] at this
          omega
    · -- An escape is longer than its byte, so that too much would be left for the rest.
      have hshorter := escape?_shorter hescape
      have := length_le_of_read? hinner
      simp only [if_true] at this
      rw [List.length_cons] at hlength
      omega
    · obtain ⟨rfl, hall⟩ := ih hinner (by rw [List.length_cons] at hlength; omega)
      exact ⟨rfl, List.forall_mem_cons.2 ⟨hplain, hall⟩⟩

/-- A bare literal means its text exactly if every byte stands for itself. -/
theorem decode?_bare_iff (text : Bytes) :
    decode? (ascii '"' :: (text ++ [ascii '"'])) = some text ↔ ∀ byte ∈ text, IsPlain byte := by
  refine ⟨fun h => ?_, decode?_bare⟩
  have hopened : unsplice (ascii '"' :: (text ++ [ascii '"'])) =
      ascii '"' :: unsplice (text ++ [ascii '"']) := unsplice_cons (.inl (by decide))
  rw [decode?, hopened] at h
  have hread : read? true (unsplice (text ++ [ascii '"'])) = some text :=
    (read?_quote false _).symm.trans ((if_pos rfl).symm.trans h)
  have hlength := length_unsplice_le (text ++ [ascii '"'])
  rw [List.length_append, List.length_singleton] at hlength
  exact (plain_of_read? hread hlength).2

end CString

/-! ## 3. The two ways to write a text -/

inductive LiteralStyle
  /-- With escapes. -/
  | quoted
  /-- Between quotation marks, as it is. -/
  | bare
  deriving DecidableEq

structure TextLiteral where
  style : LiteralStyle
  text : Bytes
  deriving DecidableEq

namespace TextLiteral

def written (utf8Source : Bool) (literal : TextLiteral) : Bytes :=
  match literal.style with
  | .quoted => Literal.quoted literal.text utf8Source
  | .bare => Literal.ascii '"' :: (literal.text ++ [Literal.ascii '"'])

theorem decode?_written_iff (utf8Source : Bool) (literal : TextLiteral) :
    CString.decode? (literal.written utf8Source) = some literal.text ↔
      literal.style = .quoted ∨ ∀ byte ∈ literal.text, CString.IsPlain byte := by
  obtain ⟨style, text⟩ := literal
  cases style with
  | quoted => exact iff_of_true (Literal.decode?_quoted text utf8Source) (.inl rfl)
  | bare => simpa [written] using CString.decode?_bare_iff text

end TextLiteral

end FormWeave
