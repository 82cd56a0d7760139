import Mathlib.Data.List.TakeWhile
import FormWeave.Proofs.StringLiterals

/-!
# String literals for every compiler

Some compilers go on behind the third digit of an octal escape, and some replace trigraphs in front
of everything else. A quoted literal holds no two question marks in a row, and none of its octal
escapes has a digit behind it, so all of them read the same bytes.
-/

namespace FormWeave

/-! ## 1. How far an octal escape goes -/

namespace CString

open Literal (ascii isHexDigit)

/-- What stands behind each octal escape of literals on joined lines. -/
def behindOctals : Bytes → List Bytes
  | [] | [_] => []
  | first :: second :: rest =>
    if first = ascii '\\' then
      if isOctalDigit second then
        let more := (rest.takeWhile isOctalDigit).take 2
        rest.drop more.length :: behindOctals (rest.drop more.length)
      else behindOctals rest
    else behindOctals (second :: rest)
termination_by bytes => bytes.length
decreasing_by all_goals simp only [List.length_cons, List.length_drop]; omega

/-- How a compiler reads octal escapes: which bytes it takes for digits behind the first one, and up
to how many digits, if there is a limit. It takes the octal digits, and no less than three. -/
structure Dialect where
  isDigit : UInt8 → Bool
  limit : Option Nat
  octal : ∀ digit, isOctalDigit digit = true → isDigit digit = true
  hexadecimal : ∀ digit, isDigit digit = true → isHexDigit digit = true
  three : ∀ most ∈ limit, 3 ≤ most

namespace Dialect

variable (dialect : Dialect)

def more (rest : Bytes) : Bytes :=
  let digits := rest.takeWhile dialect.isDigit
  match dialect.limit with
  | none => digits
  | some most => digits.take (most - 1)

def escape? : Bytes → Option (UInt8 × Bytes)
  | [] => none
  | first :: rest =>
    if isOctalDigit first then
      let more := dialect.more rest
      (byte? 8 (first :: more)).map (·, rest.drop more.length)
    else CString.escape? (first :: rest)

theorem escape?_shorter {bytes rest : Bytes} {value : UInt8}
    (h : dialect.escape? bytes = some (value, rest)) : rest.length < bytes.length := by
  cases bytes with
  | nil => cases h
  | cons first behind =>
    unfold escape? at h
    dsimp only at h
    split at h
    · obtain ⟨_, -, heq⟩ := Option.map_eq_some_iff.1 h
      cases heq
      rw [List.length_drop, List.length_cons]
      omega
    · exact CString.escape?_shorter h

/-- The bytes that literals stand for, read from between literals or from `inside` of one. -/
def read? : (inside : Bool) → Bytes → Option Bytes
  | false, [] => some []
  | true, [] => none
  | false, byte :: rest =>
    if byte = ascii '"' then read? true rest
    else if byte = ascii ' ' ∨ byte = ascii '\n' then read? false rest
    else none
  | true, byte :: rest =>
    if byte = ascii '"' then read? false rest
    else if byte = ascii '\n' then none
    else if byte = ascii '\\' then
      match h : dialect.escape? rest with
      | none => none
      | some (value, behind) =>
        have : behind.length < rest.length + 1 := Nat.lt_succ_of_lt (dialect.escape?_shorter h)
        (read? true behind).map (value :: ·)
    else (read? true rest).map (byte :: ·)
termination_by _ bytes => bytes.length

def decode? (written : Bytes) : Option Bytes :=
  let joined := unsplice written
  if joined.head? = some (ascii '"') then dialect.read? false joined else none

/-- The dialect that goes on as long as there are hexadecimal digits. -/
def greedy : Dialect where
  isDigit := isHexDigit
  limit := none
  octal := Literal.isOctalDigit_isHexDigit
  hexadecimal _ h := h
  three := nofun

example : greedy.escape? (utf8 "7F") = some (71, []) ∧
    CString.escape? (utf8 "7F") = some (7, utf8 "F") := by
  decide +kernel

end Dialect

/-! ## 2. Where no digit follows, all read alike -/

variable {byte : UInt8} {rest joined : Bytes}

theorem behindOctals_cons (h : byte ≠ ascii '\\') (rest : Bytes) :
    behindOctals (byte :: rest) = behindOctals rest := by
  cases rest with
  | nil => rw [behindOctals, behindOctals]
  | cons second rest => rw [behindOctals, if_neg h]

theorem behindOctals_append {front : Bytes} (h : ascii '\\' ∉ front) (rest : Bytes) :
    behindOctals (front ++ rest) = behindOctals rest := by
  induction front with
  | nil => rfl
  | cons first front ih =>
    obtain ⟨hfirst, hfront⟩ := not_or.1 (mt List.mem_cons.2 h)
    rw [List.cons_append, behindOctals_cons (Ne.symm hfirst), ih hfront]

theorem behindOctals_letter {letter : UInt8} (h : ¬ isOctalDigit letter = true) (rest : Bytes) :
    behindOctals (ascii '\\' :: letter :: rest) = behindOctals rest := by
  rw [behindOctals, if_pos rfl, if_neg h]

theorem behindOctals_digit {digit : UInt8} (h : isOctalDigit digit = true) (rest : Bytes) :
    let more := (rest.takeWhile isOctalDigit).take 2
    behindOctals (ascii '\\' :: digit :: rest) =
      rest.drop more.length :: behindOctals (rest.drop more.length) := by
  rw [behindOctals, if_pos rfl, if_pos h]

def OctalsEnd (joined : Bytes) : Prop :=
  ∀ behind ∈ behindOctals joined, behind.head?.any isHexDigit = false

/-- Behind an escape that is no octal one the next octal escapes are those behind the backslash. -/
theorem OctalsEnd.behind_letter {letter : UInt8} (h : OctalsEnd (ascii '\\' :: letter :: rest))
    (hletter : ¬ isOctalDigit letter = true) {value : UInt8} {behind : Bytes}
    (hescape : escape? (letter :: rest) = some (value, behind)) : OctalsEnd behind := by
  rw [OctalsEnd, behindOctals_letter hletter] at h
  rw [escape?, if_neg hletter] at hescape
  split at hescape
  · dsimp only at hescape
    split at hescape
    · cases hescape
    · obtain ⟨_, -, heq⟩ := Option.map_eq_some_iff.1 hescape
      cases heq
      have hclean : ascii '\\' ∉ rest.takeWhile isHexDigit := fun hmem =>
        absurd (List.mem_takeWhile_imp hmem) (by decide)
      rw [OctalsEnd, ← behindOctals_append hclean, List.takeWhile_append_dropWhile]
      exact h
  · obtain ⟨_, -, heq⟩ := Option.map_eq_some_iff.1 hescape
    cases heq
    exact h

namespace Dialect

variable (dialect : Dialect)

/-- An octal escape that ends is the same in every dialect, and the escapes behind it end as well. -/
theorem escape?_digit {digit : UInt8} (h : OctalsEnd (ascii '\\' :: digit :: rest))
    (hdigit : isOctalDigit digit = true) :
    dialect.escape? (digit :: rest) = CString.escape? (digit :: rest) ∧
      ∀ value behind, CString.escape? (digit :: rest) = some (value, behind) → OctalsEnd behind := by
  rw [OctalsEnd, behindOctals_digit hdigit, List.forall_mem_cons] at h
  rw [escape?, CString.escape?, if_pos hdigit, if_pos hdigit]
  dsimp only
  generalize hmore : (rest.takeWhile isOctalDigit).take 2 = more at h ⊢
  obtain ⟨behind, rfl⟩ : more <+: rest :=
    hmore ▸ (List.take_prefix _ _).trans (List.takeWhile_prefix _)
  have hdigits : ∀ b ∈ more, dialect.isDigit b = true := fun b hb =>
    dialect.octal b (List.mem_takeWhile_imp (List.mem_of_mem_take (hmore ▸ hb)))
  have hlength : more.length ≤ 2 := hmore ▸ List.length_take_le 2 _
  rw [List.drop_left] at h ⊢
  obtain ⟨hstop, hends⟩ := h
  have hnone : behind.head?.any dialect.isDigit = false := by
    cases hhead : behind.head? with
    | none => rfl
    | some next =>
      rw [hhead] at hstop
      exact Bool.eq_false_iff.2 fun hnext =>
        Bool.eq_false_iff.1 hstop (dialect.hexadecimal next hnext)
  -- A dialect takes all digits there are, or three of them: both end in front of the same byte.
  have htake : dialect.more (more ++ behind) = more := by
    rw [Dialect.more, takeWhile_of_stop hdigits hnone]
    split
    · rfl
    · next most hlimit =>
      have hthree := dialect.three most hlimit
      exact List.take_of_length_le (by omega)
  rw [htake, List.drop_left]
  refine ⟨rfl, fun value left hescape => ?_⟩
  obtain ⟨_, -, heq⟩ := Option.map_eq_some_iff.1 hescape
  cases heq
  exact hends

theorem escape?_eq (h : OctalsEnd (ascii '\\' :: rest)) :
    dialect.escape? rest = CString.escape? rest ∧
      ∀ value behind, CString.escape? rest = some (value, behind) → OctalsEnd behind := by
  cases rest with
  | nil => exact ⟨rfl, nofun⟩
  | cons first rest =>
    by_cases hdigit : isOctalDigit first = true
    · exact dialect.escape?_digit h hdigit
    · refine ⟨?_, fun _ _ hescape => h.behind_letter hdigit hescape⟩
      rw [escape?, if_neg hdigit]

theorem read?_backslash (rest : Bytes) :
    dialect.read? true (ascii '\\' :: rest) =
      (dialect.escape? rest).bind fun (value, behind) =>
        (dialect.read? true behind).map (value :: ·) := by
  rw [read?, if_neg (by decide), if_neg (by decide), if_pos rfl]
  split
  · next hnone => simp only [hnone, Option.bind_none]
  · next hsome => simp only [hsome, Option.bind_some]

/-- Literals whose octal escapes end are read alike in every dialect. -/
theorem read?_eq (inside : Bool) (joined : Bytes) (h : OctalsEnd joined) :
    dialect.read? inside joined = CString.read? inside joined := by
  induction hsize : joined.length using Nat.strongRecOn generalizing inside joined with
  | ind size ih =>
    cases joined with
    | nil => cases inside <;> rw [read?, CString.read?]
    | cons byte rest =>
      rw [List.length_cons] at hsize
      by_cases hbackslash : byte = ascii '\\'
      · subst hbackslash
        obtain ⟨hsame, hbehind⟩ := dialect.escape?_eq h
        cases inside with
        | false =>
          -- Between literals there is no escape.
          rw [read?, CString.read?, if_neg (by decide), if_neg (by decide), if_neg (by decide),
            if_neg (by decide)]
        | true =>
          rw [read?_backslash, CString.read?_backslash, hsame]
          cases hescape : CString.escape? rest with
          | none => rfl
          | some pair =>
            have hshorter := CString.escape?_shorter hescape
            exact congrArg (Option.map _)
              (ih pair.2.length (by omega) true pair.2 (hbehind _ _ hescape) rfl)
      · rw [OctalsEnd, behindOctals_cons hbackslash] at h
        have hrest := fun inside => ih rest.length (by omega) inside rest h rfl
        cases inside
        · rw [read?, CString.read?, hrest, hrest]
        · rw [read?, CString.read?, hrest, hrest, if_neg hbackslash, if_neg hbackslash]

theorem decode?_eq {written : Bytes} (h : OctalsEnd (unsplice written)) :
    dialect.decode? written = CString.decode? written := by
  rw [decode?, CString.decode?]
  exact congrArg (ite _ · none) (dialect.read?_eq false _ h)

end Dialect

end CString

/-! ## 3. Quoted literals -/

namespace Literal

open CString

variable {utf8Verbatim : Bool} {previous : Option UInt8} {bytes joined : Bytes} {byte : UInt8}

/-- The octal escapes of tokens end. -/
theorem Joined.octalsEnd (h : Joined (tokens utf8Verbatim previous bytes) joined) :
    OctalsEnd joined := by
  induction bytes generalizing previous joined with
  | nil =>
    cases h
    exact fun behind hbehind => absurd hbehind (by simp [behindOctals])
  | cons byte rest ih =>
    obtain ⟨inner, hinner, ⟨hnone, rfl⟩ | ⟨letter, hletter, rfl⟩ | ⟨behind, hbehind, rfl⟩⟩ :=
      h.cons_cases
    · rw [OctalsEnd, behindOctals_cons (ne_of_shortEscape?_eq_none hnone).2.2]
      exact ih hinner
    · have hdigit := (ne_of_lookup (lookup_of_shortEscape? hletter)).1
      rw [OctalsEnd, behindOctals_letter hdigit]
      exact ih hinner
    · obtain ⟨first, more, htext, hdigits, -, hthree⟩ := exists_octal_digits byte
      have hstop := hinner.not_digit hbehind
      have hmore := fun digit hdigit => hdigits digit (List.mem_cons_of_mem first hdigit)
      have htake : ((more ++ (behind ++ inner)).takeWhile isOctalDigit).take 2 = more := by
        rw [takeWhile_of_stop hmore (not_octal_of_not_hex hstop)]
        rw [List.length_cons] at hthree
        exact List.take_of_length_le (by omega)
      rw [htext, List.cons_append, OctalsEnd, behindOctals_digit (hdigits first List.mem_cons_self),
        htake, List.drop_left, List.forall_mem_cons,
        behindOctals_append (backslash_not_mem_split hbehind)]
      exact ⟨hstop, ih hinner⟩

def NoMarks (joined : Bytes) : Prop := ¬ [ascii '?', ascii '?'] <:+: joined

theorem NoMarks.cons (h : NoMarks joined)
    (hhead : byte = ascii '?' → joined.head? ≠ some (ascii '?')) : NoMarks (byte :: joined) := by
  intro hmarks
  rcases List.infix_cons_iff.1 hmarks with hfront | hbehind
  · obtain ⟨hbyte, hsecond⟩ := List.cons_prefix_cons.1 hfront
    obtain ⟨rest, rfl⟩ := hsecond
    exact hhead hbyte.symm rfl
  · exact h hbehind

theorem NoMarks.append {front : Bytes} (h : NoMarks joined) (hfront : ascii '?' ∉ front) :
    NoMarks (front ++ joined) := by
  induction front with
  | nil => exact h
  | cons first front ih =>
    obtain ⟨hfirst, hrest⟩ := not_or.1 (mt List.mem_cons.2 hfront)
    exact (ih hrest).cons fun heq => absurd heq.symm hfirst

theorem mark_not_mem_octal {first : UInt8} {more behind : Bytes} {split : Bool}
    (hdigits : ∀ digit ∈ first :: more, isOctalDigit digit = true) (hbehind : IsSplit split behind) :
    ascii '?' ∉ ascii '\\' :: (first :: more ++ behind) := by
  have hsplit : ascii '?' ∉ behind := by
    unfold IsSplit at hbehind
    split at hbehind
    · rcases hbehind with rfl | rfl <;> decide
    · rw [hbehind]
      exact List.not_mem_nil
  intro hmem
  rcases List.mem_cons.1 hmem with heq | hmem
  · exact absurd heq (by decide)
  rcases List.mem_append.1 hmem with hmem | hmem
  · exact absurd (hdigits _ hmem) (by decide)
  · exact hsplit hmem

/-- Tokens hold no two question marks in a row, and start with none behind another one. -/
theorem Joined.noMarks (h : Joined (tokens utf8Verbatim previous bytes) joined) :
    (previous = some (ascii '?') → joined.head? ≠ some (ascii '?')) ∧ NoMarks joined := by
  have hbackslash : some (ascii '\\') ≠ some (ascii '?') := by decide
  induction bytes generalizing previous joined with
  | nil =>
    cases h
    exact ⟨fun _ => by decide, fun hmarks => absurd hmarks.length_le (by decide)⟩
  | cons byte rest ih =>
    obtain ⟨inner, hinner, ⟨hnone, rfl⟩ | ⟨letter, hletter, rfl⟩ | ⟨behind, hbehind, rfl⟩⟩ :=
      h.cons_cases
    · obtain ⟨hnext, hmarks⟩ := ih hinner
      refine ⟨?_, hmarks.cons fun hbyte => hnext (congrArg some hbyte)⟩
      -- A question mark behind another one has a short escape.
      rintro rfl heq
      rw [Option.some.inj heq] at hnone
      cases hnone
    · obtain ⟨hnext, hmarks⟩ := ih hinner
      refine ⟨fun _ => hbackslash, NoMarks.cons (hmarks.cons fun heq => ?_) fun heq => ?_⟩
      · -- The letter of a question mark is the question mark itself.
        have hlookup := lookup_of_shortEscape? hletter
        rw [heq] at hlookup
        exact hnext hlookup.symm
      · exact absurd heq (by decide)
    · obtain ⟨first, more, htext, hdigits, -⟩ := exists_octal_digits byte
      refine ⟨fun _ => hbackslash, ?_⟩
      rw [htext, ← List.append_assoc, ← List.cons_append]
      exact (ih hinner).2.append (mark_not_mem_octal hdigits hbehind)

/-- A quoted literal is read as the bytes it was made from, in every dialect: with its lines joined
it holds no trigraph, and no octal escape has a hexadecimal digit behind it. -/
theorem quoted_portable (bytes : Bytes) (utf8Verbatim : Bool) :
    decode? (quoted bytes utf8Verbatim) = some bytes ∧
      ¬ [ascii '?', ascii '?'] <:+: unsplice (quoted bytes utf8Verbatim) ∧
      (∀ behind ∈ behindOctals (unsplice (quoted bytes utf8Verbatim)),
        behind.head?.any isHexDigit = false) ∧
      ∀ dialect : Dialect, dialect.decode? (quoted bytes utf8Verbatim) = some bytes := by
  have hdecode := decode?_quoted bytes utf8Verbatim
  obtain ⟨joined, hjoined, htokens⟩ := unsplice_quoted bytes utf8Verbatim
  have hends : OctalsEnd (unsplice (quoted bytes utf8Verbatim)) := by
    rw [hjoined, OctalsEnd, behindOctals_cons (by decide)]
    exact htokens.octalsEnd
  refine ⟨hdecode, ?_, hends, fun dialect => (dialect.decode?_eq hends).trans hdecode⟩
  rw [hjoined]
  exact htokens.noMarks.2.cons fun heq => absurd heq (by decide)

example : quoted [7, ascii 'F', ascii '?', ascii '?'] false = utf8 "\"\\7\"\"F?\\?\"" := by
  decide +kernel

end Literal

end FormWeave
