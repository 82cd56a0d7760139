import Mathlib.Data.List.DropRight
import FormWeave.Proofs.Lines

/-!
# What counts in a checksum

A checksum ignores layout. `Checksum.counted` is the part of a text that reaches the register, and
two texts with the same counted part have the same checksum. Lines count on their own, blanks in
front of a line do not count, and taking the indentation off a block changes nothing that counts.
-/

namespace FormWeave

namespace Checksum

/-! ## 1. The counted part -/

/-- The bytes that reach the register, in order. -/
def counted : (atLineStart : Bool) → Bytes → Bytes
  | _, [] => []
  | atLineStart, b :: rest =>
    if atLineStart && isSpace b then counted atLineStart rest
    else if b == 0x0d then counted false rest
    else b :: counted (b == 0x0a || (atLineStart && b == 0)) rest

/-- The register runs over what counts and over nothing else. -/
theorem register_add (bytes : Bytes) :
    ∀ sum : Running, (sum.add bytes).register =
      (counted sum.atLineStart bytes).foldl Crc32.update sum.register := by
  induction bytes with
  | nil => intro sum; rfl
  | cons b rest ih =>
    intro sum
    rw [Running.add_cons, ih, Running.addByte, counted]
    by_cases hspace : (sum.atLineStart && isSpace b) = true
    · rw [if_pos hspace, if_pos hspace]
    by_cases hreturn : (b == 0x0d) = true
    · -- A carriage return is no NUL, so the line has begun behind it.
      have hzero : (b == 0) = false := by rw [beq_iff_eq.1 hreturn]; rfl
      simp only [hspace, hreturn, hzero, Bool.and_false, Bool.false_eq_true, if_false, if_true]
    · simp only [hspace, hreturn, Bool.false_eq_true, if_false, List.foldl_cons]

/-- The checksum of a block is the CRC-32 of its counted part. -/
theorem ofBlock_eq (block : Bytes) : ofBlock block = Crc32.ofBytes (counted true block) :=
  congrArg Crc32.finish (register_add block {})

theorem ofBlock_congr {block block' : Bytes} (h : counted true block = counted true block') :
    ofBlock block = ofBlock block' := by
  rw [ofBlock_eq, ofBlock_eq, h]

/-! ## 2. Lines and blanks -/

theorem counted_return (atLineStart : Bool) (rest : Bytes) :
    counted atLineStart (0x0d :: rest) = counted atLineStart rest := by
  cases atLineStart <;> rfl

/-- A line feed counts unless its line is empty so far, and behind it a line starts. -/
theorem counted_feed (atLineStart : Bool) (rest : Bytes) :
    counted atLineStart (0x0a :: rest) =
      (if atLineStart then [] else [0x0a]) ++ counted true rest := by
  cases atLineStart <;> rfl

theorem counted_space {b : UInt8} (h : isSpace b = true) (rest : Bytes) :
    counted true (b :: rest) = counted true rest := by
  rw [counted, h, Bool.and_self, if_pos rfl]

theorem counted_cons_congr (atLineStart : Bool) (b : UInt8) {xs ys : Bytes}
    (h : ∀ atLineStart, counted atLineStart xs = counted atLineStart ys) :
    counted atLineStart (b :: xs) = counted atLineStart (b :: ys) := by
  simp only [counted, h]

theorem counted_spaces {blanks : Bytes} (h : ∀ b ∈ blanks, isSpace b = true) (back : Bytes) :
    counted true (blanks ++ back) = counted true back := by
  induction blanks with
  | nil => rfl
  | cons b rest ih =>
    rw [List.cons_append, counted_space (h b List.mem_cons_self)]
    exact ih fun c hc => h c (List.mem_cons_of_mem _ hc)

/-- Counting starts anew behind a line feed. -/
theorem counted_line (front back : Bytes) :
    ∀ atLineStart, counted atLineStart (front ++ 0x0a :: back) =
      counted atLineStart (front ++ [0x0a]) ++ counted true back := by
  induction front with
  | nil =>
    intro atLineStart
    rw [List.nil_append, List.nil_append, counted_feed, counted_feed]
    simp [counted]
  | cons b rest ih =>
    intro atLineStart
    simp only [List.cons_append, counted, ih]
    split
    · rfl
    split
    · rfl
    · rfl

theorem counted_append {front : Bytes} (h : Text.Complete front) (back : Bytes) :
    counted true (front ++ back) = counted true front ++ counted true back := by
  rcases List.eq_nil_or_concat' front with rfl | ⟨init, b, rfl⟩
  · rfl
  · -- The last byte in front is a line feed, so the bytes behind it start a line.
    have hb : b = 0x0a := h b (by simp)
    rw [hb, List.append_assoc]
    exact counted_line init back true

end Checksum

namespace Merge

open Checksum

/-! ## 3. Blocks without their indentation -/

-- Taking a block apart byte by byte, one case is all that is needed of each of the three branches:
-- a carriage return is dropped, a blank of the indentation is dropped, any other byte is kept.
theorem unindentFrom_cases (skipped : Option Nat) (b : UInt8) :
    (b = 0x0d ∧ ∀ rest, unindentFrom skipped (b :: rest) = unindentFrom skipped rest) ∨
    (∃ n, skipped = some n ∧ (b = 0x20 ∨ b = 0x09) ∧
      ∀ rest, unindentFrom skipped (b :: rest) = unindentFrom (some (n + 1)) rest) ∨
    (∀ rest, unindentFrom skipped (b :: rest) =
      b :: unindentFrom (if b == 0x0a then some 0 else none) rest) := by
  by_cases hreturn : b = 0x0d
  · subst hreturn
    exact .inl ⟨rfl, fun rest => by conv_lhs => unfold unindentFrom; exact if_pos rfl⟩
  have hbyte : ¬ (b == 0x0d) = true := by simpa using hreturn
  cases skipped with
  | none => exact .inr (.inr fun rest => by conv_lhs => unfold unindentFrom; exact if_neg hbyte)
  | some n =>
    by_cases hblank : (n < 2 && (b == 0x20 || b == 0x09)) = true
    · refine .inr (.inl ⟨n, rfl, ?_, fun rest => ?_⟩)
      · have hboth : n < 2 ∧ (b = 0x20 ∨ b = 0x09) := by simpa using hblank
        exact hboth.2
      · conv_lhs => unfold unindentFrom
        rw [if_neg hbyte]
        exact if_pos hblank
    · refine .inr (.inr fun rest => ?_)
      conv_lhs => unfold unindentFrom
      rw [if_neg hbyte]
      exact if_neg hblank

/-- What is dropped does not count: carriage returns, and blanks where a line starts. -/
theorem counted_unindentFrom (bytes : Bytes) :
    ∀ (skipped : Option Nat) (atLineStart : Bool), (skipped.isSome → atLineStart = true) →
      counted atLineStart (unindentFrom skipped bytes) = counted atLineStart bytes := by
  induction bytes with
  | nil => intro skipped atLineStart _; rfl
  | cons b rest ih =>
    intro skipped atLineStart hstart
    rcases unindentFrom_cases skipped b with ⟨rfl, h⟩ | ⟨n, rfl, hblank, h⟩ | h
    · rw [h, counted_return]
      exact ih skipped atLineStart hstart
    · -- Blanks are only dropped where a line starts, and there they do not count.
      have hline : atLineStart = true := hstart rfl
      have hspace : isSpace b = true := by rcases hblank with rfl | rfl <;> rfl
      rw [h, hline, counted_space hspace]
      exact ih (some (n + 1)) true fun _ => rfl
    · rw [h]
      by_cases hfeed : b = 0x0a
      · -- The next line starts for both, however the one before it ended.
        subst hfeed
        rw [counted_feed, counted_feed]
        exact congrArg _ (ih (some 0) true fun _ => rfl)
      · rw [if_neg (by simpa using hfeed)]
        exact counted_cons_congr atLineStart b fun start => ih none start nofun

theorem unindentFrom_append_feed (bytes : Bytes) :
    ∀ skipped, unindentFrom skipped (bytes ++ [0x0a]) = unindentFrom skipped bytes ++ [0x0a] := by
  induction bytes with
  | nil => intro skipped; cases skipped <;> simp [unindentFrom]
  | cons b rest ih =>
    intro skipped
    rw [List.cons_append]
    rcases unindentFrom_cases skipped b with ⟨-, h⟩ | ⟨n, -, -, h⟩ | h
    · rw [h, h, ih]
    · rw [h, h, ih]
    · rw [h, h, ih, List.cons_append]

/-- Of several line feeds at the end only the first can count. -/
theorem counted_dropFeeds (bytes : Bytes) :
    counted true (bytes.rdropWhile (· == 0x0a) ++ [0x0a]) = counted true (bytes ++ [0x0a]) := by
  induction bytes using List.reverseRecOn with
  | nil => rfl
  | append_singleton init b ih =>
    by_cases hfeed : b = 0x0a
    · -- Behind this line feed stands another one, which finds its line empty.
      subst hfeed
      rw [List.rdropWhile_concat_pos _ _ _ rfl, ih, List.append_assoc, List.singleton_append,
        counted_line init [0x0a] true]
      exact (List.append_nil _).symm
    · rw [List.rdropWhile_concat_neg _ _ _ (by simpa using hfeed)]

/-- Without its indentation, and closed by one line feed, a block of complete lines counts as
before. -/
theorem counted_unindentBytes {block : Bytes} (h : Text.Complete block) :
    counted true (unindentBytes block ++ [0x0a]) = counted true block := by
  have hdrop : unindentBytes block = (unindentFrom (some 0) block).rdropWhile (· == 0x0a) := rfl
  rw [hdrop, ← counted_unindentFrom block (some 0) true fun _ => rfl]
  rcases List.eq_nil_or_concat' block with rfl | ⟨init, b, rfl⟩
  · rfl
  · have hb : b = 0x0a := h b (by simp)
    rw [hb, unindentFrom_append_feed, List.rdropWhile_concat_pos _ _ _ rfl]
    exact counted_dropFeeds _

end Merge

end FormWeave
