import FormWeave.Proofs.LiteralLines
import FormWeave.Proofs.TrackedRuns

/-!
# Array initializers read back

An array initializer is read as a compiler reads it, and its elements are the bytes it was made
from: so an array has as many elements as its declarator says. Its lines have 80 columns at most,
although the value that opens a line is not counted: a value takes four columns at most, and a line
is broken in front of the one that would end in column 77.
-/

namespace FormWeave

/-! ## 1. The rules of the language -/

namespace CArray

open Literal (ascii)

def isDecimalDigit (byte : UInt8) : Bool := ascii '0' ≤ byte && byte ≤ ascii '9'

/-- The value of a decimal constant with line ends around it. No other one than zero begins with a
zero, as that would be an octal constant. -/
def constant? (text : Bytes) : Option UInt8 :=
  let digits := (text.dropWhile (· == ascii '\n')).rdropWhile (· == ascii '\n')
  if digits.isEmpty || !digits.all isDecimalDigit then none
  else if digits.head? == some (ascii '0') && digits.length != 1 then none
  else CString.byte? 10 digits

/-- The elements of an array initializer: constants between commas, in braces. -/
def elements? : Bytes → Option Bytes
  | [] => none
  | first :: rest =>
    if first = ascii '\x7b' ∧ rest.getLast? = some (ascii '\x7d') then
      if rest.dropLast.isEmpty then some []
      else (Text.split (ascii ',') rest.dropLast).mapM constant?
    else none

end CArray

namespace Literal

/-! ## 2. Values -/

def digits (byte : UInt8) : Bytes := utf8 (toString byte.toNat)

def value (opens : Bool) (byte : UInt8) : Bytes :=
  if opens then ascii '\n' :: digits byte else digits byte

/-- A value is read with a line end in front of it and without, it holds neither a comma nor a line
end, and it has the width that is counted for it and a comma. -/
theorem digits_spec : ∀ byte, CArray.constant? (digits byte) = some byte ∧
    CArray.constant? (ascii '\n' :: digits byte) = some byte ∧
    ascii ',' ∉ digits byte ∧ ascii '\n' ∉ digits byte ∧
    (digits byte).length + 1 = valueWidth byte := by
  have hdigits : ∀ byte, digits byte =
      (Nat.toDigits 10 byte.toNat).flatMap String.utf8EncodeChar := fun byte => utf8_ofList _
  simp only [hdigits]
  decide +kernel

theorem constant?_value (opens : Bool) (byte : UInt8) :
    CArray.constant? (value opens byte) = some byte := by
  cases opens with
  | false => exact (digits_spec byte).1
  | true => exact (digits_spec byte).2.1

theorem comma_not_mem_value (opens : Bool) (byte : UInt8) : ascii ',' ∉ value opens byte := by
  have hdigits := (digits_spec byte).2.2.1
  cases opens with
  | false => exact hdigits
  | true => exact List.not_mem_cons_of_ne_of_not_mem (by decide) hdigits

theorem valueWidth_le (byte : UInt8) : valueWidth byte ≤ 4 := by
  unfold valueWidth
  split
  · exact le_rfl
  split
  · decide
  · decide

def opens (column : Nat) (byte : UInt8) : Bool := column + valueWidth byte ≥ 77

def columnBehind (column : Nat) (byte : UInt8) : Nat :=
  if opens column byte then 0 else column + valueWidth byte

def body (column : Nat) (bytes : Bytes) : Bytes :=
  utf8 (String.join (initializerValues column bytes))

theorem initializer_eq (bytes : Bytes) :
    utf8 (initializer bytes) = ascii '\x7b' :: (body 1 bytes ++ [ascii '\x7d']) := by
  rw [initializer, utf8_append, utf8_append]
  rfl

theorem body_cons (column : Nat) (byte : UInt8) (rest : Bytes) :
    body column (byte :: rest) = value (opens column byte) byte ++
      ((if rest.isEmpty then [] else [ascii ',']) ++ body (columnBehind column byte) rest) := by
  have hcomma : utf8 (if rest.isEmpty then "" else ",") =
      if rest.isEmpty then [] else [ascii ','] := by
    split <;> rfl
  rw [body, initializerValues]
  by_cases h : column + valueWidth byte ≥ 77
  · have hopens : opens column byte = true := decide_eq_true h
    rw [if_pos h, columnBehind, hopens, String.join_cons, utf8_append, utf8_append, utf8_append,
      hcomma, List.append_assoc]
    rfl
  · have hopens : opens column byte = false := decide_eq_false h
    rw [if_neg h, columnBehind, hopens, String.join_cons, utf8_append, utf8_append, hcomma,
      List.append_assoc]
    rfl

theorem body_singleton (column : Nat) (byte : UInt8) :
    body column [byte] = value (opens column byte) byte := by
  rw [body_cons]
  exact List.append_nil _

/-! ## 3. Reading the elements -/

theorem mapM_split_body (rest : Bytes) : ∀ byte column,
    (Text.split (ascii ',') (body column (byte :: rest))).mapM CArray.constant? =
      some (byte :: rest) := by
  induction rest with
  | nil =>
    intro byte column
    rw [body_singleton, Text.split_of_not_mem (comma_not_mem_value _ _), List.mapM_cons,
      constant?_value]
    rfl
  | cons next rest ih =>
    intro byte column
    rw [body_cons]
    rw [List.isEmpty_cons, if_neg Bool.false_ne_true, List.singleton_append,
      Text.split_append (comma_not_mem_value _ _), List.mapM_cons, constant?_value, ih]
    rfl

theorem elements?_initializer (bytes : Bytes) :
    CArray.elements? (utf8 (initializer bytes)) = some bytes := by
  rw [initializer_eq, CArray.elements?, if_pos ⟨rfl, List.getLast?_concat⟩, List.dropLast_concat]
  cases bytes with
  | nil => rfl
  | cons byte rest =>
    have hvalues := mapM_split_body rest byte 1
    -- The text of a value is not empty, as nothing is no constant.
    have hne : (body 1 (byte :: rest)).isEmpty = false := by
      cases hbody : body 1 (byte :: rest) with
      | nil =>
        rw [hbody] at hvalues
        cases hvalues
      | cons => rfl
    rw [hne, if_neg Bool.false_ne_true, hvalues]

/-! ## 4. The lines -/

/-- The true column is at most four more than the one that is counted, also behind a value with a
comma or a brace. -/
theorem room_value {column width : Nat} {front : Bytes}
    (h : Text.Room (ascii '\n') 80 width front) (hwidth : width ≤ column + 4)
    (hcolumn : column < 77) (byte : UInt8) {last : UInt8} (hlast : last ≠ ascii '\n') :
    ∃ width',
      Text.Room (ascii '\n') 80 width' (front ++ (value (opens column byte) byte ++ [last])) ∧
      width' ≤ columnBehind column byte + 4 ∧ columnBehind column byte < 77 := by
  have hmore : ascii '\n' ∉ digits byte ++ [last] := by
    rw [List.mem_append, List.mem_singleton]
    exact not_or.2 ⟨(digits_spec byte).2.2.2.1, hlast.symm⟩
  have hlength : (digits byte ++ [last]).length = valueWidth byte :=
    List.length_append.trans (digits_spec byte).2.2.2.2
  unfold columnBehind
  cases hopens : opens column byte with
  | true =>
    have hvalue : front ++ (value true byte ++ [last]) =
        front ++ [ascii '\n'] ++ (digits byte ++ [last]) := by
      rw [List.append_assoc]
      rfl
    have hmost := valueWidth_le byte
    rw [if_pos rfl, hvalue]
    refine ⟨0 + valueWidth byte, ?_, by omega, by decide⟩
    rw [← hlength]
    exact (h.break (by omega)).append hmore
  | false =>
    have hnext : column + valueWidth byte < 77 := Nat.not_le.1 (of_decide_eq_false hopens)
    rw [if_neg Bool.false_ne_true, value, if_neg Bool.false_ne_true]
    refine ⟨width + valueWidth byte, ?_, by omega, hnext⟩
    rw [← hlength]
    exact h.append hmore

theorem lines_body (rest : Bytes) : ∀ (byte : UInt8) (column width : Nat) (front : Bytes),
    Text.Room (ascii '\n') 80 width front → width ≤ column + 4 → column < 77 →
    ∀ line ∈ Text.split (ascii '\n')
      (front ++ (body column (byte :: rest) ++ [ascii '\x7d'])), line.length ≤ 80 := by
  induction rest with
  | nil =>
    intro byte column width front h hwidth hcolumn
    obtain ⟨width', hroom, hwidth', hcolumn'⟩ :=
      room_value h hwidth hcolumn byte (by decide : ascii '\x7d' ≠ ascii '\n')
    rw [body_singleton]
    exact hroom.fits (by omega)
  | cons next rest ih =>
    intro byte column width front h hwidth hcolumn
    obtain ⟨width', hroom, hwidth', hcolumn'⟩ :=
      room_value h hwidth hcolumn byte (by decide : ascii ',' ≠ ascii '\n')
    have hlines := ih next _ width' _ hroom hwidth' hcolumn'
    rw [body_cons, List.isEmpty_cons, if_neg Bool.false_ne_true]
    simpa only [List.append_assoc] using hlines

theorem lines_initializer (bytes : Bytes) :
    ∀ line ∈ Text.split (ascii '\n') (utf8 (initializer bytes)), line.length ≤ 80 := by
  have hstart : Text.Room (ascii '\n') 80 1 [ascii '\x7b'] :=
    Text.room_nil.append (by decide : ascii '\n' ∉ [ascii '\x7b'])
  rw [initializer_eq]
  cases bytes with
  | nil => decide +kernel
  | cons byte rest =>
    rw [← List.singleton_append]
    exact lines_body rest byte 1 1 [ascii '\x7b'] hstart (by decide) (by decide)

end Literal

/-! ## 5. Data -/

namespace Node

open Emit Literal

theorem writeInitializer_live {w : Writer} (hlive : w.dryRun = false) {bytes : Bytes}
    (hshown : w.preview = false ∨ bytes.length ≤ Writer.previewLimit) :
    w.writeInitializer (some bytes) = w.putSource (utf8 (initializer bytes)) := by
  have hwhole : ¬ (w.preview && bytes.length > Writer.previewLimit) = true := by
    rw [Bool.and_eq_true, decide_eq_true_eq]
    rintro ⟨hpreview, hlong⟩
    rcases hshown with hshown | hshort
    · exact Bool.false_ne_true (hshown.symm.trans hpreview)
    · exact Nat.not_lt.2 hshort hlong
  rw [Writer.writeInitializer, Writer.writeLiteral, Writer.unlessDry, hlive,
    if_neg Bool.false_ne_true]
  exact if_neg hwhole

/-- Binary data is written with a declarator in front of it, which stands in the header as well if
the data is shared. -/
theorem writeData_wrote {node : Node} {bytes : Bytes}
    (hcontent : node.resource.map Resource.content = some bytes) {name declarator : String}
    (hdeclarator : declarator =
      "const unsigned char " ++ name ++ "[" ++ toString bytes.length ++ "]")
    {visibility : Visibility} {shared : Bool}
    (hshared : shared = (visibility != .priv && node.scope == .file)) {w : Writer}
    (hlive : w.dryRun = false) (hshown : w.preview = false ∨ bytes.length ≤ Writer.previewLimit) :
    ∃ after, writeData node name .binary visibility w = (.ok (), after) ∧
      w.Wrote ((if shared then [.header (utf8 ("extern " ++ declarator ++ ";\n"))] else []) ++
        [.source (utf8 ((if shared then "" else "static ") ++ declarator ++ " =\n")),
          .source (utf8 (initializer bytes)), .source (utf8 ";\n")]) after := by
  have hheader : ∃ w₁, onlyIf shared (header ("extern " ++ declarator ++ ";\n")) w = (.ok (), w₁) ∧
      w.Wrote (if shared then [.header (utf8 ("extern " ++ declarator ++ ";\n"))] else []) w₁ := by
    cases shared with
    | false => exact ⟨w, rfl, .refl w⟩
    | true => exact ⟨_, rfl, Writer.live_writeHeader hlive _⟩
  obtain ⟨w₁, hrun, hwrote⟩ := hheader
  have hlive₁ : w₁.dryRun = false := hwrote.dryRun.trans hlive
  have hlead := Writer.live_writeSource hlive₁
    ((if shared then "" else "static ") ++ declarator ++ " =\n")
  have hlive₂ := hlead.dryRun.trans hlive₁
  have hvalue := Writer.kept_putSource
    (w₁.writeSource ((if shared then "" else "static ") ++ declarator ++ " =\n"))
    (utf8 (initializer bytes))
  rw [← writeInitializer_live hlive₂ (by rwa [hlead.preview, hwrote.preview])] at hvalue
  have hclosed := Writer.live_writeSource (hvalue.dryRun.trans hlive₂) ";\n"
  refine ⟨_, ?_, hwrote.trans (hlead.toWrote.trans (hvalue.toWrote.trans hclosed.toWrote))⟩
  rw [hdeclarator] at hrun ⊢
  unfold writeData writeDataValue
  rw [hcontent, ← hshared]
  exact (bind_run ((bind_run hrun).trans rfl)).trans rfl

/-- The elements of an array initializer are the bytes it was made from, whatever they are, and no
line of it has more than 80 bytes. Data is declared with as many elements as it has bytes, and this
is its value, unless a preview leaves it out. -/
theorem initializer_elements (bytes : Bytes) :
    CArray.elements? (utf8 (initializer bytes)) = some bytes ∧
      (∀ line ∈ Text.split (ascii '\n') (utf8 (initializer bytes)), line.length ≤ 80) ∧
      ∀ (node : Node) (name : String) (visibility : Visibility) (w : Writer),
        node.resource.map Resource.content = some bytes → w.dryRun = false →
        (w.preview = false ∨ bytes.length ≤ Writer.previewLimit) →
        let shared := visibility != .priv && node.scope == .file
        let declarator := "const unsigned char " ++ name ++ "[" ++ toString bytes.length ++ "]"
        ∃ after, writeData node name .binary visibility w = (.ok (), after) ∧
          after.source = w.source ++ utf8 ((if shared then "" else "static ") ++ declarator ++
            " =\n") ++ utf8 (initializer bytes) ++ utf8 ";\n" ∧
          after.header = w.header ++
            if shared then utf8 ("extern " ++ declarator ++ ";\n") else [] := by
  refine ⟨elements?_initializer bytes, lines_initializer bytes, ?_⟩
  intro node name visibility w hcontent hlive hshown shared declarator
  obtain ⟨after, hrun, hwrote⟩ := writeData_wrote hcontent (rfl : declarator = _)
    (rfl : shared = (visibility != .priv && node.scope == .file)) hlive hshown
  refine ⟨after, hrun, ?_, ?_⟩
  · rw [hwrote.source]
    cases shared <;> simp [Chunk.sourceBytes]
  · rw [hwrote.header]
    cases shared <;> simp [Chunk.headerBytes]

def fourBytes : Node where
  id := ⟨1⟩
  depth := 0
  scope := .file
  hasChildren := false
  hasChildWidgets := false
  body := .data "logo" "logo.bin" .binary .pub
  resource := some (.bytes [0, 9, 10, 255])
  labelNumber := 0
  tooltipNumber := 0

theorem initializer_elements_four :
    let w : Writer := { settings := {} }
    fourBytes.resource.map Resource.content = some [0, 9, 10, 255] ∧ w.dryRun = false ∧
      w.preview = false ∧ CArray.elements? (utf8 "\x7b0,9,10,255\x7d") = some [0, 9, 10, 255] ∧
      ∃ after, writeData fourBytes "logo" .binary .pub w = (.ok (), after) ∧
        after.source = utf8 "const unsigned char logo[4] =\n\x7b0,9,10,255\x7d;\n" ∧
        after.header = utf8 "extern const unsigned char logo[4];\n" := by
  intro w
  obtain ⟨helements, -, hdata⟩ := initializer_elements [0, 9, 10, 255]
  obtain ⟨after, hrun, hsource, hheader⟩ := hdata fourBytes "logo" .pub w rfl rfl (.inl rfl)
  refine ⟨rfl, rfl, rfl, helements, after, hrun, ?_, ?_⟩
  · rw [hsource]
    decide +kernel
  · rw [hheader]
    decide +kernel

end Node

end FormWeave
