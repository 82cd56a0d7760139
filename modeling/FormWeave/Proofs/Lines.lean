import Mathlib.Data.List.DropRight
import Mathlib.Data.List.Infix
import FormWeave.Merge.Scan

/-!
# Lines of a file and tag markers

Where a file can be cut without cutting a line, and which lines hold a tag marker. A part of a file
that is nothing but complete lines has its own lines, whatever follows it.
-/

namespace FormWeave

/-! ## 1. Bytes of texts -/

theorem utf8_append (a b : String) : utf8 (a ++ b) = utf8 a ++ utf8 b := by
  simp only [utf8, String.toList_append, List.flatMap_append]

def EndsLine (text : String) : Prop := (utf8 text).getLast? = some 0x0a

instance (text : String) : Decidable (EndsLine text) := inferInstanceAs (Decidable (_ = _))

/-- What stands in front does not matter. -/
theorem EndsLine.append {text : String} (h : EndsLine text) (front : String) :
    EndsLine (front ++ text) := by
  rw [EndsLine, utf8_append, List.getLast?_append, h]
  rfl

namespace Text

/-! ## 2. Pieces of a sequence -/

section

variable {α : Type} [BEq α] {sep : α} {xs piece : List α}

theorem infix_of_mem_splitInclusive (h : piece ∈ splitInclusive sep xs) : piece <:+: xs := by
  obtain ⟨before, after, hpieces⟩ := List.mem_iff_append.1 h
  refine ⟨before.flatten, after.flatten, ?_⟩
  rw [← flatten_splitInclusive sep xs, hpieces]
  simp

variable [LawfulBEq α]

/-- Pieces with their separators put back, and one more separator behind the last. -/
theorem flatMap_split (sep : α) (xs : List α) :
    (split sep xs).flatMap (· ++ [sep]) = xs ++ [sep] := by
  induction xs with
  | nil => simp [split]
  | cons x xs ih =>
    by_cases h : x = sep
    · simp [split, h, ih]
    · obtain ⟨piece, pieces, hsplit⟩ := List.exists_cons_of_ne_nil (split_ne_nil sep xs)
      rw [hsplit] at ih
      simpa [split, h, hsplit] using ih

theorem infix_of_mem_split (h : piece ∈ split sep xs) : piece <:+: xs := by
  obtain ⟨before, after, hpieces⟩ := List.mem_iff_append.1 h
  have hxs := flatMap_split sep xs
  rw [hpieces, List.flatMap_append, List.flatMap_cons, List.append_assoc, List.singleton_append]
    at hxs
  -- The separator behind the last piece is not one of the sequence.
  have hdrop := congrArg List.dropLast hxs
  rw [List.dropLast_concat, ← List.append_assoc, List.dropLast_append_of_ne_nil (by simp)] at hdrop
  rw [← hdrop]
  exact ⟨_, _, rfl⟩

end

/-! ## 3. Complete lines -/

/-- Bytes that are nothing but complete lines: there are none, or the last one is a line feed. -/
def Complete (bytes : Bytes) : Prop := ∀ b ∈ bytes.getLast?, b = 0x0a

instance (bytes : Bytes) : Decidable (Complete bytes) := Option.decidableForallMem _

theorem complete_nil : Complete [] := by simp [Complete]

theorem Complete.of_cons {b : UInt8} {bytes : Bytes} (h : Complete (b :: bytes)) :
    Complete bytes := by
  cases bytes with
  | nil => exact complete_nil
  | cons c rest => simpa [Complete] using h

theorem Complete.append {front back : Bytes} (hfront : Complete front) (hback : Complete back) :
    Complete (front ++ back) := by
  intro b hb
  rw [List.getLast?_append] at hb
  cases hlast : back.getLast? with
  | none => exact hfront b (by simpa [hlast] using hb)
  | some c => exact hback b (by simpa [hlast] using hb)

theorem Complete.behind {back : Bytes} (h : Complete back) (hne : back ≠ []) (front : Bytes) :
    Complete (front ++ back) := by
  intro b hb
  rw [List.getLast?_append, List.getLast?_eq_some_getLast hne] at hb
  exact h b (by rw [List.getLast?_eq_some_getLast hne]; exact hb)

theorem Complete.of_append {front back : Bytes} (h : Complete (front ++ back)) : Complete back := by
  induction front with
  | nil => exact h
  | cons b rest ih => exact ih h.of_cons

/-- What stands behind complete lines starts a line. -/
theorem Complete.lineStart {front : Bytes} (h : Complete front) (back : Bytes) :
    front.length = 0 ∨ (front ++ back)[front.length - 1]? = some 0x0a := by
  rcases List.eq_nil_or_concat front with rfl | ⟨init, b, rfl⟩
  · exact .inl rfl
  · -- The last byte in front is a line feed.
    right
    rw [h b (by simp)]
    simp

/-- Complete lines behind anything end it at the end of a line, if there are any. -/
theorem Complete.append_of_endsLine (bytes : Bytes) {text : String} (h : EndsLine text) :
    Complete (bytes ++ utf8 text) := by
  intro b hb
  rw [List.getLast?_append, show (utf8 text).getLast? = some 0x0a from h] at hb
  simpa [eq_comm] using hb

/-- A file cut behind a complete line: the lines are those of the two parts. -/
theorem splitInclusive_append {front : Bytes} (h : Complete front) (back : Bytes) :
    splitInclusive 0x0a (front ++ back) =
      splitInclusive 0x0a front ++ splitInclusive 0x0a back := by
  induction front with
  | nil => rfl
  | cons b rest ih =>
    have hrest := ih h.of_cons
    simp only [List.cons_append, splitInclusive, hrest]
    -- A line feed ends the first line here, whatever follows.
    by_cases hb : b = 0x0a
    · simp [hb]
    · -- The line goes on, so there is a rest, and the rest has a first line.
      have hne : splitInclusive 0x0a rest ≠ [] := by
        rintro hnil
        have : rest = [] := by rw [← flatten_splitInclusive 0x0a rest, hnil]; rfl
        subst this
        exact hb (h b rfl)
      obtain ⟨line, lines, hlines⟩ := List.exists_cons_of_ne_nil hne
      simp [hb, hlines]

/-- A line feed behind bytes without one makes them one line. -/
theorem splitInclusive_line {bytes : Bytes} (h : 0x0a ∉ bytes) :
    splitInclusive 0x0a (bytes ++ [0x0a]) = [bytes ++ [0x0a]] := by
  induction bytes with
  | nil => rfl
  | cons b rest ih =>
    have hb : b ≠ 0x0a := fun e => h (e ▸ List.mem_cons_self)
    have hrest : (0x0a : UInt8) ∉ rest := fun m => h (List.mem_cons_of_mem _ m)
    simp [splitInclusive, hb, ih hrest]

/-- Bytes without a line feed, if there are any, are one line. -/
theorem splitInclusive_open {bytes : Bytes} (hne : bytes ≠ []) (h : 0x0a ∉ bytes) :
    splitInclusive 0x0a bytes = [bytes] := by
  induction bytes with
  | nil => exact absurd rfl hne
  | cons b rest ih =>
    have hb : b ≠ 0x0a := fun e => h (e ▸ List.mem_cons_self)
    have hrest : (0x0a : UInt8) ∉ rest := fun m => h (List.mem_cons_of_mem _ m)
    cases rest with
    | nil => simp [splitInclusive, hb]
    | cons c rest => rw [splitInclusive, ih (by simp) hrest]; simp [hb]

/-- Bytes are complete lines and the start of one more. -/
theorem exists_complete_open (bytes : Bytes) :
    ∃ front line, bytes = front ++ line ∧ Complete front ∧ 0x0a ∉ line := by
  refine ⟨bytes.rdropWhile (· != 0x0a), bytes.rtakeWhile (· != 0x0a),
    List.rdropWhile_append_rtakeWhile.symm, ?_, ?_⟩
  · intro b hb
    have hne : bytes.rdropWhile (· != 0x0a) ≠ [] := by
      rintro hnil
      simp [hnil] at hb
    have hlast := List.rdropWhile_last_not (· != 0x0a) bytes hne
    rw [List.getLast?_eq_some_getLast hne, Option.mem_some] at hb
    simpa [hb] using hlast
  · intro h
    simpa using List.mem_rtakeWhile_imp h

/-! ## 4. What the lines of a file are -/

def FullLine (line : Bytes) : Prop := ∃ body, 0x0a ∉ body ∧ line = body ++ [0x0a]

theorem FullLine.complete {line : Bytes} (h : FullLine line) : Complete line := by
  obtain ⟨body, -, rfl⟩ := h
  simp [Complete]

theorem FullLine.ne_nil {line : Bytes} (h : FullLine line) : line ≠ [] := by
  obtain ⟨body, -, rfl⟩ := h
  simp

/-- Pieces that can be the lines of a file: each ends in its only line feed, and the last one may
lack it if it is not empty. -/
inductive AreLines : List Bytes → Prop
  | nil : AreLines []
  | last {line : Bytes} (hne : line ≠ []) (hopen : 0x0a ∉ line) : AreLines [line]
  | cons {line : Bytes} {lines : List Bytes} (hline : FullLine line) (hlines : AreLines lines) :
      AreLines (line :: lines)

theorem areLines_splitInclusive (bytes : Bytes) : AreLines (splitInclusive 0x0a bytes) := by
  induction bytes with
  | nil => exact .nil
  | cons b rest ih =>
    rw [splitInclusive]
    by_cases hb : b = 0x0a
    · subst hb
      exact .cons ⟨[], by simp, rfl⟩ ih
    rw [if_neg (by simpa using hb)]
    -- The byte joins the first line of the rest, if there is one.
    have hnot : ∀ {body : Bytes}, (0x0a : UInt8) ∉ body → 0x0a ∉ b :: body := fun h m =>
      (List.mem_cons.1 m).elim (fun e => hb e.symm) h
    cases hlines : splitInclusive 0x0a rest with
    | nil => exact .last (by simp) (hnot (by simp))
    | cons line lines =>
      rw [hlines] at ih
      cases ih with
      | last hne hopen => exact .last (by simp) (hnot hopen)
      | cons hline hrest =>
        obtain ⟨body, hbody, rfl⟩ := hline
        exact .cons ⟨b :: body, hnot hbody, rfl⟩ hrest

/-- Lines put together are cut into these lines again. -/
theorem AreLines.splitInclusive_flatten {lines : List Bytes} (h : AreLines lines) :
    splitInclusive 0x0a lines.flatten = lines := by
  induction h with
  | nil => rfl
  | last hne hopen => rw [List.flatten_singleton, splitInclusive_open hne hopen]
  | cons hline _ ih =>
    obtain ⟨body, hbody, rfl⟩ := hline
    rw [List.flatten_cons, splitInclusive_append (by simp [Complete]), ih,
      splitInclusive_line hbody, List.singleton_append]

theorem AreLines.tail {line : Bytes} {lines : List Bytes} (h : AreLines (line :: lines)) :
    AreLines lines := by
  cases h with
  | last => exact .nil
  | cons _ hlines => exact hlines

theorem AreLines.head {line : Bytes} {lines : List Bytes} (h : AreLines (line :: lines))
    (hne : lines ≠ []) : FullLine line := by
  cases h with
  | last => exact absurd rfl hne
  | cons hline _ => exact hline

theorem AreLines.ne_nil {lines : List Bytes} (h : AreLines lines) : ∀ line ∈ lines, line ≠ [] := by
  induction h with
  | nil => simp
  | last hne hopen => simpa using hne
  | cons hline _ ih => exact List.forall_mem_cons.2 ⟨hline.ne_nil, ih⟩

/-- Lines that end where a line ends all have their line feed. -/
theorem AreLines.fullLine_of_complete {lines : List Bytes} (h : AreLines lines)
    (hcomplete : Complete lines.flatten) : ∀ line ∈ lines, FullLine line := by
  induction h with
  | nil => simp
  | @last line hne hopen =>
    -- An open last line would end the file.
    rw [List.flatten_singleton] at hcomplete
    have hlast := hcomplete _ (List.getLast?_eq_some_getLast hne)
    exact absurd (hlast ▸ List.getLast_mem hne) hopen
  | cons hline _ ih =>
    rw [List.flatten_cons] at hcomplete
    rw [List.forall_mem_cons]
    exact ⟨hline, ih hcomplete.of_append⟩

/-- The first lines of a file are lines by themselves. -/
theorem AreLines.of_append {front back : List Bytes} (h : AreLines (front ++ back)) :
    AreLines front := by
  induction front with
  | nil => exact .nil
  | cons line rest ih =>
    rw [List.cons_append] at h
    by_cases hrest : rest = []
    · -- The last one that is kept may lack its line feed.
      subst hrest
      cases h with
      | last hne hopen => exact .last hne hopen
      | cons hline _ => exact .cons hline .nil
    · exact .cons (h.head (by simp [hrest])) (ih h.tail)

/-- One of several lines may be put in another's place. -/
theorem AreLines.replace {front back : List Bytes} {line line' : Bytes}
    (h : AreLines (front ++ line :: back)) (hline' : FullLine line') :
    AreLines (front ++ line' :: back) := by
  induction front with
  | nil => exact .cons hline' h.tail
  | cons first rest ih => exact .cons (h.head (by simp)) (ih h.tail)

end Text

/-! ## 5. Tag markers -/

/-- Bytes that hold the marker of a tag somewhere. -/
def Marked (bytes : Bytes) : Prop := utf8 Tag.marker <:+: bytes

instance (bytes : Bytes) : Decidable (Marked bytes) := inferInstanceAs (Decidable (_ <:+: _))

def Unmarked (bytes : Bytes) : Prop := ∀ line ∈ Text.splitInclusive 0x0a bytes, ¬ Marked line

instance (bytes : Bytes) : Decidable (Unmarked bytes) := List.decidableBAll (¬ Marked ·) _

theorem unmarked_of_not_marked {bytes : Bytes} (h : ¬ Marked bytes) : Unmarked bytes :=
  fun _ hline hmarked => h (hmarked.trans (Text.infix_of_mem_splitInclusive hline))

namespace Merge

/-- A line has no part from the marker on exactly if it has no marker. -/
theorem fromMarker?_eq_none_iff (line : Bytes) : fromMarker? line = none ↔ ¬ Marked line := by
  induction line with
  | nil => decide
  | cons b rest ih =>
    rw [fromMarker?, Marked, List.infix_cons_iff]
    -- The marker stands right here or further on.
    by_cases h : utf8 Tag.marker <+: b :: rest
    · simp [h, List.isPrefixOf_iff_prefix.2 h]
    · have hp : ((utf8 Tag.marker).isPrefixOf (b :: rest)) = false := by
        rw [← Bool.not_eq_true, List.isPrefixOf_iff_prefix]
        exact h
      simp only [hp, Bool.false_eq_true, if_false, h, false_or]
      exact ih

/-- A line that starts with the marker is a tag from its start on. -/
theorem fromMarker?_of_prefix {line : Bytes} (h : utf8 Tag.marker <+: line) :
    fromMarker? line = some line := by
  cases line with
  | nil => exact absurd (List.prefix_nil.1 h) (by decide)
  | cons b rest => rw [fromMarker?, if_pos (List.isPrefixOf_iff_prefix.2 h)]

end Merge

end FormWeave
