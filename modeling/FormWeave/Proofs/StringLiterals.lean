import Mathlib.Data.FinEnum
import Mathlib.Data.Nat.Digits.Defs
import FormWeave.Literal.Quoted
import FormWeave.Proofs.TextBytes

/-!
# String literals read back

The rules by which a C compiler reads string literals: lines that end in a backslash are joined,
escapes stand for bytes, and adjacent literals are one. By these rules `Literal.quoted` is the bytes
it was made from. It may be read in parts: no break stands inside an escape, and an octal escape of
less than three digits is followed by what is no digit.
-/

namespace FormWeave

/-! ## 1. The rules of the language -/

namespace CString

open Literal (ascii isHexDigit)

/-- Joins the lines that end in a backslash with the lines behind them. -/
def unsplice : Bytes → Bytes
  | [] => []
  | [byte] => [byte]
  | first :: second :: rest =>
    if first = ascii '\\' ∧ second = ascii '\n' then unsplice rest
    else first :: unsplice (second :: rest)

def isOctalDigit (byte : UInt8) : Bool := ascii '0' ≤ byte && byte ≤ ascii '7'

def digitValue (digit : UInt8) : Nat :=
  if digit ≤ ascii '9' then digit.toNat % 16 else digit.toNat % 16 + 9

def valueOf (base : Nat) (digits : Bytes) : Nat :=
  digits.foldl (fun value digit => value * base + digitValue digit) 0

def byte? (base : Nat) (digits : Bytes) : Option UInt8 :=
  let value := valueOf base digits
  if value < 256 then some (.ofNat value) else none

def letters : List (UInt8 × UInt8) :=
  [(ascii 'a', 7), (ascii 'b', 8), (ascii 't', 9), (ascii 'n', 10), (ascii 'v', 11),
    (ascii 'f', 12), (ascii 'r', 13), (ascii '"', ascii '"'), (ascii '\'', ascii '\''),
    (ascii '?', ascii '?'), (ascii '\\', ascii '\\')]

/-- What the escape behind a backslash stands for, and the bytes behind it. An octal escape has up
to three digits, a hexadecimal one as many as there are. -/
def escape? : Bytes → Option (UInt8 × Bytes)
  | [] => none
  | first :: rest =>
    if isOctalDigit first then
      let more := (rest.takeWhile isOctalDigit).take 2
      (byte? 8 (first :: more)).map (·, rest.drop more.length)
    else if first = ascii 'x' then
      let digits := rest.takeWhile isHexDigit
      if digits.isEmpty then none else (byte? 16 digits).map (·, rest.dropWhile isHexDigit)
    else (letters.lookup first).map (·, rest)

theorem escape?_shorter {bytes rest : Bytes} {value : UInt8} (h : escape? bytes = some (value, rest)) :
    rest.length < bytes.length := by
  cases bytes with
  | nil => cases h
  | cons first behind =>
    have hpair : ∀ {value? : Option UInt8} {left : Bytes}, left.length ≤ behind.length →
        value?.map (·, left) = some (value, rest) → rest.length < (first :: behind).length := by
      intro value? left hleft hvalue
      obtain ⟨_, -, heq⟩ := Option.map_eq_some_iff.1 hvalue
      cases heq
      exact Nat.lt_succ_of_le hleft
    unfold escape? at h
    dsimp only at h
    split at h
    · exact hpair (by rw [List.length_drop]; omega) h
    split at h
    · split at h
      · cases h
      · exact hpair (List.dropWhile_sublist _).length_le h
    · exact hpair le_rfl h

/-- The bytes that literals stand for. Reading starts between literals or `inside` of one; between
them may be spaces and line ends. -/
def read? : (inside : Bool) → Bytes → Option Bytes
  | false, [] => some []
  | true, [] => none
  | false, byte :: rest =>
    if byte = ascii '"' then read? true rest
    else if byte = ascii ' ' ∨ byte = ascii '\n' then read? false rest
    else none
  | true, byte :: rest =>
    if byte = ascii '"' then read? false rest
    else if byte = ascii '\n' then none
    else if byte = ascii '\\' then
      match h : escape? rest with
      | none => none
      | some (value, behind) =>
        have : behind.length < rest.length + 1 := Nat.lt_succ_of_lt (escape?_shorter h)
        (read? true behind).map (value :: ·)
    else (read? true rest).map (byte :: ·)
termination_by _ bytes => bytes.length

def decode? (written : Bytes) : Option Bytes :=
  let joined := unsplice written
  if joined.head? = some (ascii '"') then read? false joined else none

/-! ### One rule at a time -/

variable {byte : UInt8} {rest : Bytes}

theorem unsplice_splice (rest : Bytes) :
    unsplice (ascii '\\' :: ascii '\n' :: rest) = unsplice rest := by
  rw [unsplice, if_pos ⟨rfl, rfl⟩]

theorem unsplice_cons (h : byte ≠ ascii '\\' ∨ rest.head? ≠ some (ascii '\n')) :
    unsplice (byte :: rest) = byte :: unsplice rest := by
  cases rest with
  | nil => rfl
  | cons second rest =>
    rw [unsplice, if_neg]
    rintro ⟨hfirst, hsecond⟩
    exact h.elim (· hfirst) (· (congrArg some hsecond))

theorem unsplice_pair {second : UInt8} (h : second ≠ ascii '\n') :
    unsplice (byte :: second :: rest) = byte :: unsplice (second :: rest) := by
  rw [unsplice, if_neg fun hboth => h hboth.2]

theorem unsplice_append {front : Bytes} (h : ascii '\\' ∉ front) (rest : Bytes) :
    unsplice (front ++ rest) = front ++ unsplice rest := by
  induction front with
  | nil => rfl
  | cons first front ih =>
    obtain ⟨hfirst, hfront⟩ := not_or.1 (mt List.mem_cons.2 h)
    rw [List.cons_append, unsplice_cons (.inl (Ne.symm hfirst)), ih hfront, List.cons_append]

theorem unsplice_line {bytes : Bytes} (h : ascii '\n' ∉ bytes) : unsplice bytes = bytes := by
  induction bytes with
  | nil => rfl
  | cons first rest ih =>
    have hrest := mt (List.mem_cons_of_mem first) h
    rw [unsplice_cons (.inr fun hhead => hrest (List.mem_of_mem_head? hhead)), ih hrest]

theorem read?_quote (inside : Bool) (rest : Bytes) :
    read? inside (ascii '"' :: rest) = read? (!inside) rest := by
  cases inside <;> rw [read?, if_pos rfl] <;> rfl

theorem read?_plain (hquote : byte ≠ ascii '"') (hfeed : byte ≠ ascii '\n')
    (hescape : byte ≠ ascii '\\') (rest : Bytes) :
    read? true (byte :: rest) = (read? true rest).map (byte :: ·) := by
  rw [read?, if_neg hquote, if_neg hfeed, if_neg hescape]

theorem read?_backslash (rest : Bytes) :
    read? true (ascii '\\' :: rest) =
      (escape? rest).bind fun (value, behind) => (read? true behind).map (value :: ·) := by
  rw [read?, if_neg (by decide), if_neg (by decide), if_pos rfl]
  split
  · next hnone => simp only [hnone, Option.bind_none]
  · next hsome => simp only [hsome, Option.bind_some]

theorem read?_escape {written : Bytes} (h : escape? written = some (byte, rest)) :
    read? true (ascii '\\' :: written) = (read? true rest).map (byte :: ·) := by
  rw [read?_backslash, h]
  rfl

theorem ne_of_lookup {letter : UInt8} (h : letters.lookup letter = some byte) :
    ¬ isOctalDigit letter = true ∧ letter ≠ ascii 'x' := by
  have hletter : ∀ letter, (letters.lookup letter).isSome →
      ¬ isOctalDigit letter = true ∧ letter ≠ ascii 'x' := by decide +kernel
  exact hletter letter (by rw [h]; rfl)

theorem escape?_letter {letter : UInt8} (h : letters.lookup letter = some byte) (rest : Bytes) :
    escape? (letter :: rest) = some (byte, rest) := by
  obtain ⟨hdigit, hx⟩ := ne_of_lookup h
  rw [escape?, if_neg hdigit, if_neg hx, h]
  rfl

theorem takeWhile_of_stop {p : UInt8 → Bool} {front behind : Bytes}
    (hfront : ∀ byte ∈ front, p byte = true) (hstop : behind.head?.any p = false) :
    (front ++ behind).takeWhile p = front := by
  rw [List.takeWhile_append_of_pos hfront]
  cases behind with
  | nil => exact List.append_nil front
  | cons next behind =>
    have hnext : ¬ p next = true := Bool.eq_false_iff.1 hstop
    rw [List.takeWhile_cons_of_neg hnext, List.append_nil]

/-- Digits are an octal escape if there are three of them or no other digit follows. -/
theorem escape?_digits {digits : Bytes} (hvalue : byte? 8 digits = some byte) (hne : digits ≠ [])
    (hdigits : ∀ digit ∈ digits, isOctalDigit digit = true) (hlength : digits.length ≤ 3)
    (hstop : digits.length = 3 ∨ rest.head?.any isOctalDigit = false) :
    escape? (digits ++ rest) = some (byte, rest) := by
  cases digits with
  | nil => exact absurd rfl hne
  | cons first more =>
    have hmore : ((more ++ rest).takeWhile isOctalDigit).take 2 = more := by
      have hmore := fun d hd => hdigits d (List.mem_cons_of_mem first hd)
      rw [List.length_cons] at hlength hstop
      rcases hstop with hthree | hstop
      · rw [List.takeWhile_append_of_pos hmore]
        exact List.take_left' (by omega)
      · rw [takeWhile_of_stop hmore hstop]
        exact List.take_of_length_le (by omega)
    rw [List.cons_append, escape?, if_pos (hdigits first List.mem_cons_self)]
    dsimp only
    rw [hmore, hvalue, List.drop_left]
    rfl

/-! ## 2. Octal digits -/

theorem isOctalDigit_digitChar {d : Nat} (h : d < 8) :
    isOctalDigit (.ofNat d.digitChar.toNat) = true ∧ digitValue (.ofNat d.digitChar.toNat) = d := by
  revert d
  decide

theorem octal_toDigits (n : Nat) :
    let digits : Bytes := (Nat.toDigits 8 n).map fun c => .ofNat c.toNat
    (∀ digit ∈ digits, isOctalDigit digit = true) ∧ valueOf 8 digits = n := by
  induction n using Nat.strongRecOn with
  | ind n ih =>
    by_cases hn : n < 8
    · obtain ⟨hdigit, hvalue⟩ := isOctalDigit_digitChar hn
      rw [Nat.toDigits_of_lt_base hn]
      exact ⟨List.forall_mem_singleton.2 hdigit, by simp [valueOf, hvalue]⟩
    · obtain ⟨hdigits, hvalue⟩ := ih (n / 8) (by omega)
      obtain ⟨hlast, hlastValue⟩ := isOctalDigit_digitChar (Nat.mod_lt n (by decide : 8 > 0))
      rw [Nat.toDigits_of_base_le (by decide) (by omega), List.map_append]
      refine ⟨List.forall_mem_append.2 ⟨hdigits, List.forall_mem_singleton.2 hlast⟩, ?_⟩
      rw [valueOf] at hvalue ⊢
      rw [List.foldl_append, hvalue, List.map_singleton, List.foldl_cons, List.foldl_nil, hlastValue]
      omega

theorem utf8_octal (width n : Nat) : utf8 (Text.octal width n) =
    List.replicate (width - (Nat.toDigits 8 n).length) (ascii '0') ++
      (Nat.toDigits 8 n).map fun c => .ofNat c.toNat := by
  have hascii : ∀ c ∈ (Text.octal width n).toList, c.toNat < 0x80 := by
    intro c hc
    rw [Text.octal, String.toList_ofList, Text.padZeros] at hc
    rcases List.mem_append.1 hc with hc | hc
    · rw [List.eq_of_mem_replicate hc]
      decide
    · have hdigit := Nat.isDigit_of_mem_toDigits (by decide) (by decide) hc
      rw [Char.isDigit, Bool.and_eq_true, decide_eq_true_eq, decide_eq_true_eq] at hdigit
      exact lt_of_le_of_lt (UInt32.le_iff_toNat_le.1 hdigit.2) (by decide)
  rw [utf8_ascii hascii, Text.octal, String.toList_ofList, Text.padZeros, List.map_append,
    List.map_replicate]
  rfl

/-- The octal form of a byte, at any width. -/
theorem octal_byte (width : Nat) (byte : UInt8) : let digits := utf8 (Text.octal width byte.toNat)
    (∀ digit ∈ digits, isOctalDigit digit = true) ∧ byte? 8 digits = some byte ∧
      digits.length = max width (Nat.toDigits 8 byte.toNat).length := by
  obtain ⟨hdigits, hvalue⟩ := octal_toDigits byte.toNat
  have hzeros : ∀ count, valueOf 8 (List.replicate count (ascii '0')) = 0 := by
    intro count
    induction count with
    | zero => rfl
    | succ count ih => exact ih
  dsimp only
  rw [utf8_octal]
  refine ⟨List.forall_mem_append.2 ⟨fun digit hdigit => ?_, hdigits⟩, ?_, ?_⟩
  · rw [List.eq_of_mem_replicate hdigit]
    decide
  · have hall : valueOf 8 (List.replicate (width - (Nat.toDigits 8 byte.toNat).length) (ascii '0') ++
        (Nat.toDigits 8 byte.toNat).map fun c => .ofNat c.toNat) = byte.toNat := by
      have hfront := hzeros (width - (Nat.toDigits 8 byte.toNat).length)
      rw [valueOf] at hfront hvalue ⊢
      rw [List.foldl_append, hfront, hvalue]
    rw [byte?, hall, if_pos byte.toNat_lt, UInt8.ofNat_toNat]
  · rw [List.length_append, List.length_replicate, List.length_map]
    omega

theorem length_octal {width : Nat} (hwidth : width ≤ 3) (byte : UInt8) :
    (utf8 (Text.octal width byte.toNat)).length ≤ 3 := by
  have hlength := Nat.toDigits_length 8 byte.toNat 3 (by decide)
    (lt_of_lt_of_le byte.toNat_lt (by decide))
  rw [(octal_byte width byte).2.2]
  omega

end CString

/-! ## 3. The text of a token -/

namespace Literal

open CString

def Token.text : Token → Bytes
  | .plain byte => [byte]
  | .escaped letter => [ascii '\\', letter]
  | .verbatim byte => [byte]
  | .octal byte _ => ascii '\\' :: utf8 (Text.octal 1 byte.toNat)

def Token.splits : Token → Bool
  | .octal _ split => split
  | _ => false

def IsBreak (bytes : Bytes) : Prop := bytes = [] ∨ bytes = [ascii '\\', ascii '\n']

def IsSplit (split : Bool) (bytes : Bytes) : Prop :=
  if split then bytes = [ascii '"', ascii '"'] ∨ bytes = [ascii '"', ascii '\n', ascii '"']
  else bytes = []

namespace Line

theorem breakAt_written (line : Line) (limit : Nat) :
    ∃ front, IsBreak front ∧ (line.breakAt limit).written = front.reverse ++ line.written := by
  unfold breakAt
  split
  · exact ⟨_, .inr rfl, rfl⟩
  · exact ⟨[], .inl rfl, rfl⟩

theorem reopen_written (line : Line) :
    ∃ behind, IsSplit true behind ∧ line.reopen.written = behind.reverse ++ line.written := by
  unfold reopen
  dsimp only
  split
  · exact ⟨_, .inr rfl, rfl⟩
  · exact ⟨_, .inl rfl, rfl⟩

theorem putToken_written (line : Line) (t : Token) :
    ∃ front behind, IsBreak front ∧ IsSplit t.splits behind ∧
      (line.putToken t).written = (front ++ (t.text ++ behind)).reverse ++ line.written := by
  -- Only inside a multi-byte character there is never a break in front of a token.
  have hput : ∀ (limit : Nat) (bytes : Bytes), ∃ front, IsBreak front ∧
      ((line.breakAt limit).put bytes).written = (front ++ (bytes ++ [])).reverse ++ line.written := by
    intro limit bytes
    obtain ⟨front, hfront, hwritten⟩ := line.breakAt_written limit
    refine ⟨front, hfront, ?_⟩
    rw [put, hwritten]
    simp
  cases t with
  | plain byte =>
    obtain ⟨front, hfront, hwritten⟩ := hput 78 [byte]
    exact ⟨front, [], hfront, rfl, hwritten⟩
  | escaped letter =>
    obtain ⟨front, hfront, hwritten⟩ := hput 77 [ascii '\\', letter]
    exact ⟨front, [], hfront, rfl, hwritten⟩
  | verbatim byte =>
    rw [putToken]
    split
    · obtain ⟨front, hfront, hwritten⟩ := hput 78 [byte]
      exact ⟨front, [], hfront, rfl, hwritten⟩
    · exact ⟨[], [], .inl rfl, rfl, rfl⟩
  | octal byte split =>
    rw [putToken]
    obtain ⟨front, hfront, hwritten⟩ := hput (if byte < 8 then 76 else if byte < 64 then 75 else 74)
      (Token.octal byte split).text
    rw [Token.text] at hwritten
    cases split with
    | false => exact ⟨front, [], hfront, rfl, hwritten⟩
    | true =>
      obtain ⟨behind, hbehind, hreopened⟩ := reopen_written ((line.breakAt
        (if byte < 8 then 76 else if byte < 64 then 75 else 74)).put
          (ascii '\\' :: utf8 (Text.octal 1 byte.toNat)))
      refine ⟨front, behind, hfront, hbehind, hreopened.trans ?_⟩
      rw [hwritten, Token.text]
      simp

end Line

/-! ## 4. Joined lines -/

/-- The token for a byte between `previous` and `next`, with what that says of the byte. -/
inductive Token.Stands (previous next : Option UInt8) : Token → UInt8 → Prop
  | plain {byte : UInt8} (none : shortEscape? previous byte = none) :
      Stands previous next (.plain byte) byte
  | verbatim {byte : UInt8} (none : shortEscape? previous byte = none) :
      Stands previous next (.verbatim byte) byte
  | escaped {letter byte : UInt8} (some : shortEscape? previous byte = some letter) :
      Stands previous next (.escaped letter) byte
  | octal {byte : UInt8} : Stands previous next (.octal byte (next.any isHexDigit)) byte

theorem stands_token (utf8Verbatim : Bool) (previous : Option UInt8) (byte : UInt8)
    (next : Option UInt8) : (token utf8Verbatim previous byte next).Stands previous next byte := by
  unfold token
  split
  · next letter hescape => exact .escaped hescape
  · next hnone =>
    split
    · exact .plain hnone
    split
    · exact .verbatim hnone
    · exact .octal

theorem lookup_of_shortEscape? {previous : Option UInt8} {byte letter : UInt8}
    (h : shortEscape? previous byte = some letter) : letters.lookup letter = some byte := by
  -- The byte before matters only if it is a question mark.
  have hall : ∀ byte, ∀ questioned : Bool,
      (shortEscape? (if questioned then some (ascii '?') else none) byte).all
        (letters.lookup · = some byte) = true := by
    decide +kernel
  have hsame : shortEscape? previous byte =
      shortEscape? (if previous == some (ascii '?') then some (ascii '?') else none) byte := by
    cases hquestion : previous == some (ascii '?') with
    | false => simp [shortEscape?, hquestion]
    | true => rw [eq_of_beq hquestion, if_pos rfl]
  have := hall byte (previous == some (ascii '?'))
  rw [← hsame, h] at this
  exact of_decide_eq_true this

theorem ne_of_shortEscape?_eq_none {previous : Option UInt8} {byte : UInt8}
    (h : shortEscape? previous byte = none) :
    byte ≠ ascii '"' ∧ byte ≠ ascii '\n' ∧ byte ≠ ascii '\\' := by
  refine ⟨?_, ?_, ?_⟩ <;> rintro rfl <;> cases h

theorem isOctalDigit_isHexDigit : ∀ digit, isOctalDigit digit = true → isHexDigit digit = true := by
  decide +kernel

theorem isOctalDigit_ne : ∀ digit, isOctalDigit digit = true →
    digit ≠ ascii '\\' ∧ digit ≠ ascii '\n' := by
  decide +kernel

/-- The digits of an octal escape. -/
theorem exists_octal_digits (byte : UInt8) : ∃ first more,
    utf8 (Text.octal 1 byte.toNat) = first :: more ∧
      (∀ digit ∈ first :: more, isOctalDigit digit = true) ∧
      byte? 8 (first :: more) = some byte ∧ (first :: more).length ≤ 3 := by
  obtain ⟨hdigits, hvalue, hlength⟩ := octal_byte 1 byte
  have hthree := length_octal (by decide : 1 ≤ 3) byte
  generalize utf8 (Text.octal 1 byte.toNat) = digits at hdigits hvalue hlength hthree
  obtain ⟨first, more, rfl⟩ : ∃ first more, digits = first :: more :=
    List.exists_cons_of_ne_nil (List.ne_nil_of_length_pos (by omega))
  exact ⟨first, more, rfl, hdigits, hvalue, hthree⟩

theorem backslash_not_mem_split {split : Bool} {behind : Bytes} (h : IsSplit split behind) :
    ascii '\\' ∉ behind := by
  unfold IsSplit at h
  split at h
  · rcases h with rfl | rfl <;> decide
  · rw [h]
    exact List.not_mem_nil

variable {previous next : Option UInt8} {t : Token} {byte : UInt8} {behind written joined : Bytes}

/-- A token keeps its text when lines are joined, and so does what splits the literal behind it. -/
theorem Token.Stands.unsplice (h : t.Stands previous next byte) (hbehind : IsSplit t.splits behind)
    (hstart : written.head? ≠ some (ascii '\n')) :
    unsplice (t.text ++ (behind ++ written)) = t.text ++ (behind ++ unsplice written) ∧
      (t.text ++ (behind ++ written)).head? ≠ some (ascii '\n') := by
  have hbackslash : ascii '\\' ≠ ascii '\n' := by decide
  cases h with
  | plain none =>
    obtain ⟨-, hfeed, hescape⟩ := ne_of_shortEscape?_eq_none none
    rw [show behind = [] from hbehind]
    exact ⟨unsplice_cons (.inl hescape), fun heq => hfeed (Option.some.inj heq)⟩
  | verbatim none =>
    obtain ⟨-, hfeed, hescape⟩ := ne_of_shortEscape?_eq_none none
    rw [show behind = [] from hbehind]
    exact ⟨unsplice_cons (.inl hescape), fun heq => hfeed (Option.some.inj heq)⟩
  | @escaped letter _ some =>
    have hfeed : letter ≠ ascii '\n' := by
      rintro rfl
      cases lookup_of_shortEscape? some
    rw [show behind = [] from hbehind]
    refine ⟨?_, mt Option.some.inj hbackslash⟩
    show CString.unsplice (ascii '\\' :: letter :: written) = _
    rw [unsplice_pair hfeed, unsplice_cons (.inr hstart)]
    rfl
  | octal =>
    obtain ⟨first, more, htext, hdigits, -⟩ := exists_octal_digits byte
    -- Behind the backslash there is no other one, so the lines are only joined behind the token.
    have hclean : ascii '\\' ∉ first :: more ++ behind := by
      intro hmem
      rcases List.mem_append.1 hmem with hmem | hmem
      · exact (isOctalDigit_ne _ (hdigits _ hmem)).1 rfl
      · exact backslash_not_mem_split hbehind hmem
    have hfeed := (isOctalDigit_ne first (hdigits first List.mem_cons_self)).2
    refine ⟨?_, mt Option.some.inj hbackslash⟩
    rw [Token.text, htext, List.cons_append, List.cons_append, unsplice_pair hfeed,
      ← List.cons_append, ← List.append_assoc, unsplice_append hclean, List.append_assoc]
    rfl

theorem unsplice_break {front : Bytes} (hfront : IsBreak front) (written : Bytes) :
    unsplice (front ++ written) = unsplice written := by
  rcases hfront with rfl | rfl
  · rfl
  · exact unsplice_splice written

theorem head?_break {front : Bytes} (hfront : IsBreak front)
    (h : written.head? ≠ some (ascii '\n')) : (front ++ written).head? ≠ some (ascii '\n') := by
  rcases hfront with rfl | rfl
  · exact h
  · exact mt Option.some.inj (by decide : ascii '\\' ≠ ascii '\n')

/-- What tokens are, up to the end of the literal, when the lines are joined. -/
inductive Joined : List Token → Bytes → Prop
  | nil : Joined [] [ascii '"']
  | cons {t : Token} {ts : List Token} {behind joined : Bytes} (split : IsSplit t.splits behind)
      (rest : Joined ts joined) : Joined (t :: ts) (t.text ++ (behind ++ joined))

/-- Behind whatever was written, the tokens of bytes are written one after the other. -/
theorem joined_tokens (utf8Verbatim : Bool) (bytes : Bytes) :
    ∀ (previous : Option UInt8) (line : Line), ∃ added,
      ((tokens utf8Verbatim previous bytes).foldl Line.putToken line).written =
        added.reverse ++ line.written ∧
      (added ++ [ascii '"']).head? ≠ some (ascii '\n') ∧
      Joined (tokens utf8Verbatim previous bytes) (unsplice (added ++ [ascii '"'])) := by
  induction bytes with
  | nil => exact fun _ _ => ⟨[], rfl, by decide, .nil⟩
  | cons byte rest ih =>
    intro previous line
    rw [tokens, List.foldl_cons]
    have hstands := stands_token utf8Verbatim previous byte rest.head?
    generalize token utf8Verbatim previous byte rest.head? = t at hstands
    obtain ⟨front, behind, hfront, hbehind, hput⟩ := line.putToken_written t
    obtain ⟨added, hadded, hstart, hjoined⟩ := ih (some byte) (line.putToken t)
    obtain ⟨hunsplice, hhead⟩ := hstands.unsplice hbehind hstart
    have hassoc : front ++ (t.text ++ behind) ++ added ++ [ascii '"'] =
        front ++ (t.text ++ (behind ++ (added ++ [ascii '"']))) := by
      simp only [List.append_assoc]
    refine ⟨front ++ (t.text ++ behind) ++ added, ?_, ?_, ?_⟩
    · rw [hadded, hput]
      simp only [List.reverse_append, List.append_assoc]
    · rw [hassoc]
      exact head?_break hfront hhead
    · rw [hassoc, unsplice_break hfront, hunsplice]
      exact .cons hbehind hjoined

/-- With its lines joined a quoted literal is a quotation mark and the tokens of its bytes. -/
theorem unsplice_quoted (bytes : Bytes) (utf8Verbatim : Bool) :
    ∃ joined, unsplice (quoted bytes utf8Verbatim) = ascii '"' :: joined ∧
      Joined (tokens utf8Verbatim none bytes) joined := by
  obtain ⟨added, hadded, -, hjoined⟩ := joined_tokens utf8Verbatim bytes none ⟨[ascii '"'], 1⟩
  have hquoted : quoted bytes utf8Verbatim = ascii '"' :: (added ++ [ascii '"']) := by
    rw [quoted, hadded]
    simp
  rw [hquoted]
  exact ⟨_, unsplice_cons (.inl (by decide)), hjoined⟩

/-! ## 5. Literals read back -/

/-- Between the parts of a literal that was split, nothing is read. -/
theorem read?_split {split : Bool} (hbehind : IsSplit split behind) (joined : Bytes) :
    read? true (behind ++ joined) = read? true joined := by
  cases split with
  | false => rw [show behind = [] from hbehind, List.nil_append]
  | true =>
    rcases hbehind with rfl | rfl
    · exact (read?_quote true _).trans (read?_quote false _)
    · have hfeed : read? false (ascii '\n' :: ascii '"' :: joined) =
          read? false (ascii '"' :: joined) := by
        rw [read?, if_neg (by decide), if_pos (.inr rfl)]
      exact (read?_quote true _).trans (hfeed.trans (read?_quote false _))

variable {utf8Verbatim : Bool} {bytes : Bytes}

/-- The first token of joined text: a byte as it is, a short escape, or an octal one, which is split
off from a hexadecimal digit behind it. -/
theorem Joined.cons_cases (h : Joined (tokens utf8Verbatim previous (byte :: bytes)) joined) :
    ∃ inner, Joined (tokens utf8Verbatim (some byte) bytes) inner ∧
      (shortEscape? previous byte = none ∧ joined = byte :: inner ∨
        (∃ letter, shortEscape? previous byte = some letter ∧
          joined = ascii '\\' :: letter :: inner) ∨
        ∃ behind, IsSplit (bytes.head?.any isHexDigit) behind ∧
          joined = ascii '\\' :: (utf8 (Text.octal 1 byte.toNat) ++ (behind ++ inner))) := by
  have hstands := stands_token utf8Verbatim previous byte bytes.head?
  rw [tokens] at h
  generalize token utf8Verbatim previous byte bytes.head? = t at h hstands
  obtain _ | @⟨_, _, behind, inner, hbehind, hinner⟩ := h
  refine ⟨inner, hinner, ?_⟩
  cases hstands with
  | plain none =>
    rw [show behind = [] from hbehind]
    exact .inl ⟨none, rfl⟩
  | verbatim none =>
    rw [show behind = [] from hbehind]
    exact .inl ⟨none, rfl⟩
  | @escaped letter _ some =>
    rw [show behind = [] from hbehind]
    exact .inr (.inl ⟨letter, some, rfl⟩)
  | octal => exact .inr (.inr ⟨behind, hbehind, rfl⟩)

/-- Joined text starts with a hexadecimal digit only if that is the first byte it stands for. -/
theorem Joined.digit (h : Joined (tokens utf8Verbatim previous bytes) joined)
    (hdigit : joined.head?.any isHexDigit = true) : bytes.head?.any isHexDigit = true := by
  have hbackslash : ¬ isHexDigit (ascii '\\') = true := by decide
  cases bytes with
  | nil =>
    cases h
    exact absurd hdigit (by decide)
  | cons byte rest =>
    obtain ⟨inner, -, ⟨-, rfl⟩ | ⟨letter, -, rfl⟩ | ⟨behind, -, rfl⟩⟩ := h.cons_cases
    · exact hdigit
    · exact absurd hdigit hbackslash
    · exact absurd hdigit hbackslash

/-- What follows an octal escape is no digit. -/
theorem Joined.not_digit (h : Joined (tokens utf8Verbatim previous bytes) joined)
    (hbehind : IsSplit (bytes.head?.any isHexDigit) behind) :
    (behind ++ joined).head?.any isHexDigit = false := by
  unfold IsSplit at hbehind
  split at hbehind
  · rcases hbehind with rfl | rfl <;> rfl
  · next hnot =>
    rw [hbehind, List.nil_append]
    exact Bool.eq_false_iff.2 fun hdigit => hnot (h.digit hdigit)

theorem not_octal_of_not_hex {digit? : Option UInt8} (h : digit?.any isHexDigit = false) :
    digit?.any isOctalDigit = false := by
  cases digit? with
  | none => rfl
  | some digit =>
    exact Bool.eq_false_iff.2 fun hoctal => Bool.eq_false_iff.1 h (isOctalDigit_isHexDigit _ hoctal)

/-- Tokens are read as the bytes they stand for. -/
theorem Joined.read (h : Joined (tokens utf8Verbatim previous bytes) joined) :
    read? true joined = some bytes := by
  induction bytes generalizing previous joined with
  | nil =>
    cases h
    exact (read?_quote true []).trans read?.eq_1
  | cons byte rest ih =>
    obtain ⟨inner, hinner, ⟨hnone, rfl⟩ | ⟨letter, hletter, rfl⟩ | ⟨behind, hbehind, rfl⟩⟩ :=
      h.cons_cases
    · obtain ⟨hquote, hfeed, hbackslash⟩ := ne_of_shortEscape?_eq_none hnone
      rw [read?_plain hquote hfeed hbackslash, ih hinner]
      rfl
    · rw [read?_escape (escape?_letter (lookup_of_shortEscape? hletter) inner), ih hinner]
      rfl
    · obtain ⟨first, more, htext, hdigits, hvalue, hthree⟩ := exists_octal_digits byte
      have hstop := not_octal_of_not_hex (hinner.not_digit hbehind)
      rw [htext, read?_escape (escape?_digits hvalue (List.cons_ne_nil _ _) hdigits hthree
        (.inr hstop)), read?_split hbehind, ih hinner]
      rfl

/-- A quoted literal is read as the bytes it was made from. -/
theorem decode?_quoted (bytes : Bytes) (utf8Verbatim : Bool) :
    decode? (quoted bytes utf8Verbatim) = some bytes := by
  obtain ⟨joined, hquoted, hjoined⟩ := unsplice_quoted bytes utf8Verbatim
  rw [decode?, hquoted]
  exact (if_pos rfl).trans ((read?_quote false joined).trans hjoined.read)

end Literal

end FormWeave
