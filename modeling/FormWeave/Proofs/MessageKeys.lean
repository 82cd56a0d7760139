import FormWeave.Proofs.CatalogNumbers
import FormWeave.Proofs.StringLiterals

/-!
# The keys of messages

A translation is found by its key: the text that code passes on at run time must be the one that the
catalog lists. The literal in the code always is the text of the design. The key in the catalog,
read by the same rules, is the text unless it has a backslash: all bytes that have a meaning of their
own are escaped there but this one, so what follows a backslash is taken for an escape.
-/

namespace FormWeave

namespace Literal

open CString

/-! ## 1. Bytes of messages -/

/-- A byte that is copied to a message and has no meaning of its own in a literal. -/
def isPlain (byte : UInt8) : Bool :=
  32 ≤ byte && byte ≤ 126 && byte ≠ ascii '"' && byte ≠ ascii '\\'

def messageBytes (byte : UInt8) : Bytes := utf8 (messageByte byte)

theorem utf8_message (text : String) : utf8 (message text) = (utf8 text).flatMap messageBytes := by
  rw [message, utf8, String.toList_join, List.flatMap_map, List.flatMap_assoc]
  rfl

variable {byte : UInt8}

theorem plain_bounds (h : isPlain byte = true) :
    byte ≠ ascii '"' ∧ byte ≠ ascii '\n' ∧ byte ≠ ascii '\\' := by
  revert byte
  decide +kernel

theorem messageBytes_copied (h : isPlain byte = true ∨ byte = ascii '\\') :
    messageBytes byte = [byte] := by
  have hrange : (byte < 32 || byte > 126 || byte == 34) = false ∧ byte.toNat < 0x80 ∧
      (Char.ofNat byte.toNat).toNat = byte.toNat := by
    revert byte
    decide +kernel
  obtain ⟨hcopied, hascii, hchar⟩ := hrange
  rw [messageBytes, messageByte, hcopied, if_neg Bool.false_ne_true]
  rw [utf8_ascii] <;> simp [hchar, hascii]

/-- All other bytes are three octal digits. -/
theorem messageBytes_escaped (hplain : ¬ isPlain byte = true) (hcopied : byte ≠ ascii '\\') :
    ∃ digits, messageBytes byte = ascii '\\' :: digits ∧ digits.length = 3 ∧
      (∀ digit ∈ digits, isOctalDigit digit = true) ∧ byte? 8 digits = some byte := by
  have hrange : (byte < 32 || byte > 126 || byte == 34) = true := by
    revert byte
    decide +kernel
  obtain ⟨hdigits, hvalue, hlength⟩ := octal_byte 3 byte
  have hthree := length_octal (by decide : 3 ≤ 3) byte
  have hbackslash : utf8 "\\" = [ascii '\\'] := by decide +kernel
  refine ⟨utf8 (Text.octal 3 byte.toNat), ?_, by omega, hdigits, hvalue⟩
  rw [messageBytes, messageByte, hrange, if_pos rfl, utf8_append, hbackslash,
    List.singleton_append]

/-! ## 2. Messages read back -/

def rawMessage (bytes : Bytes) : Bytes := bytes.flatMap messageBytes ++ [ascii '"']

theorem rawMessage_copied (h : isPlain byte = true ∨ byte = ascii '\\') (bytes : Bytes) :
    rawMessage (byte :: bytes) = byte :: rawMessage bytes := by
  rw [rawMessage, List.flatMap_cons, messageBytes_copied h]
  rfl

theorem rawMessage_append {front : Bytes} (h : ∀ byte ∈ front, isPlain byte = true)
    (bytes : Bytes) : rawMessage (front ++ bytes) = front ++ rawMessage bytes := by
  induction front with
  | nil => rfl
  | cons first front ih =>
    rw [List.cons_append, rawMessage_copied (.inl (h first List.mem_cons_self)),
      ih fun byte hbyte => h byte (List.mem_cons_of_mem _ hbyte)]
    rfl

theorem rawMessage_escaped (hplain : ¬ isPlain byte = true) (hcopied : byte ≠ ascii '\\') :
    ∃ digits, digits.length = 3 ∧ (∀ digit ∈ digits, isOctalDigit digit = true) ∧
      byte? 8 digits = some byte ∧
      ∀ bytes, rawMessage (byte :: bytes) = ascii '\\' :: (digits ++ rawMessage bytes) := by
  obtain ⟨digits, hbytes, hlength, hdigits, hvalue⟩ := messageBytes_escaped hplain hcopied
  refine ⟨digits, hlength, hdigits, hvalue, fun bytes => ?_⟩
  rw [rawMessage, List.flatMap_cons, hbytes]
  simp [rawMessage]

/-- Each byte other than the backslash is read back. -/
theorem read?_rawMessage_cons (h : byte ≠ ascii '\\') (bytes : Bytes) :
    read? true (rawMessage (byte :: bytes)) =
      (read? true (rawMessage bytes)).map (byte :: ·) := by
  by_cases hplain : isPlain byte = true
  · obtain ⟨hquote, hfeed, -⟩ := plain_bounds hplain
    rw [rawMessage_copied (.inl hplain), read?_plain hquote hfeed h]
  · obtain ⟨digits, hlength, hdigits, hvalue, hraw⟩ := rawMessage_escaped hplain h
    have hne : digits ≠ [] := List.ne_nil_of_length_pos (by omega)
    rw [hraw, read?_escape (escape?_digits hvalue hne hdigits (by omega) (.inl hlength))]

theorem read?_rawMessage {bytes : Bytes} (h : ascii '\\' ∉ bytes) :
    read? true (rawMessage bytes) = some bytes := by
  induction bytes with
  | nil => exact (read?_quote true []).trans (read?.eq_1)
  | cons byte bytes ih =>
    obtain ⟨hbyte, hbytes⟩ := not_or.1 (mt List.mem_cons.2 h)
    rw [read?_rawMessage_cons (Ne.symm hbyte), ih hbytes]
    rfl

/-! ## 3. Messages with a backslash -/

def weight (byte : UInt8) : Nat := if isPlain byte then 1 else 4

def totalWeight (bytes : Bytes) : Nat := (bytes.map weight).sum

theorem totalWeight_cons (byte : UInt8) (bytes : Bytes) :
    totalWeight (byte :: bytes) = weight byte + totalWeight bytes := List.sum_cons

theorem totalWeight_append (front back : Bytes) :
    totalWeight (front ++ back) = totalWeight front + totalWeight back := by
  simp [totalWeight]

theorem weight_le (byte : UInt8) : 1 ≤ weight byte ∧ weight byte ≤ 4 := by
  unfold weight
  split <;> decide

theorem takeWhile_rawMessage {p : UInt8 → Bool} (hplain : ∀ byte, p byte = true → isPlain byte = true)
    (bytes : Bytes) : (rawMessage bytes).takeWhile p = bytes.takeWhile p := by
  have hstop : ∀ byte, ¬ isPlain byte = true → p byte = false := fun byte hbyte =>
    Bool.eq_false_iff.2 (mt (hplain byte) hbyte)
  induction bytes with
  | nil => exact List.takeWhile_cons_of_neg (Bool.eq_false_iff.1 (hstop _ (by decide)))
  | cons byte bytes ih =>
    by_cases hbyte : isPlain byte = true
    · rw [rawMessage_copied (.inl hbyte), List.takeWhile_cons, List.takeWhile_cons, ih]
    · have hnone := hstop byte hbyte
      rw [List.takeWhile_cons_of_neg (Bool.eq_false_iff.1 hnone)]
      obtain ⟨rest, hraw⟩ : ∃ rest, rawMessage (byte :: bytes) = ascii '\\' :: rest := by
        by_cases hescape : byte = ascii '\\'
        · exact ⟨_, (rawMessage_copied (.inr hescape) bytes).trans (by rw [hescape])⟩
        · obtain ⟨digits, -, -, -, hraw⟩ := rawMessage_escaped hbyte hescape
          exact ⟨_, hraw bytes⟩
      rw [hraw, List.takeWhile_cons_of_neg (Bool.eq_false_iff.1 (hstop _ (by decide)))]

theorem dropWhile_rawMessage {p : UInt8 → Bool} (hplain : ∀ byte, p byte = true → isPlain byte = true)
    (bytes : Bytes) : (rawMessage bytes).dropWhile p = rawMessage (bytes.dropWhile p) := by
  have hsplit := List.takeWhile_append_dropWhile (p := p) (l := rawMessage bytes)
  have hdigits : ∀ byte ∈ bytes.takeWhile p, isPlain byte = true := fun byte hbyte =>
    hplain byte (List.mem_takeWhile_imp hbyte)
  have hfront := rawMessage_append hdigits (bytes.dropWhile p)
  rw [List.takeWhile_append_dropWhile] at hfront
  rw [takeWhile_rawMessage hplain] at hsplit
  exact List.append_cancel_left (hsplit.trans hfront)

theorem isPlain_digit : ∀ byte, (isOctalDigit byte = true → isPlain byte = true) ∧
    (isHexDigit byte = true → isPlain byte = true) := by
  decide +kernel

/-- An escape takes something away from the text behind the backslash. Of a byte that is escaped
itself it takes the backslash only, and the digits are left. -/
theorem escape?_rawMessage {bytes behind : Bytes} {value : UInt8}
    (h : escape? (rawMessage bytes) = some (value, behind)) :
    behind = [] ∨ ∃ front rest, behind = front ++ rawMessage rest ∧
      (∀ byte ∈ front, isPlain byte = true) ∧ rest.length < bytes.length ∧
      front.length + totalWeight rest < totalWeight bytes := by
  cases bytes with
  | nil =>
    left
    cases h
    rfl
  | cons first rest =>
    right
    have hweight := (weight_le first).1
    have hletter := escape?_letter (by rfl : letters.lookup (ascii '\\') = some (ascii '\\'))
    -- The escape may go on to digits behind its first byte.
    have hleft : ∀ digits left, rest = digits ++ left → ∃ front rest', rawMessage left =
        front ++ rawMessage rest' ∧ (∀ byte ∈ front, isPlain byte = true) ∧
        rest'.length < (first :: rest).length ∧
        front.length + totalWeight rest' < totalWeight (first :: rest) := by
      rintro digits left rfl
      refine ⟨[], left, rfl, fun _ hnone => absurd hnone List.not_mem_nil, ?_, ?_⟩
      · simp only [List.length_cons, List.length_append]
        omega
      · rw [totalWeight_cons, totalWeight_append, List.length_nil]
        omega
    by_cases hplain : isPlain first = true
    · rw [rawMessage_copied (.inl hplain), escape?] at h
      dsimp only at h
      rw [takeWhile_rawMessage fun byte => (isPlain_digit byte).1,
        takeWhile_rawMessage fun byte => (isPlain_digit byte).2,
        dropWhile_rawMessage fun byte => (isPlain_digit byte).2] at h
      split at h
      · obtain ⟨_, -, heq⟩ := Option.map_eq_some_iff.1 h
        cases heq
        generalize hmore : (rest.takeWhile isOctalDigit).take 2 = more
        have hprefix : more <+: rest :=
          hmore ▸ (List.take_prefix _ _).trans (List.takeWhile_prefix _)
        obtain ⟨left, hrest⟩ := hprefix
        have hdigits : ∀ byte ∈ more, isPlain byte = true := fun byte hbyte =>
          (isPlain_digit byte).1 (List.mem_takeWhile_imp (List.mem_of_mem_take (hmore ▸ hbyte)))
        rw [← hrest, rawMessage_append hdigits, List.drop_left, hrest]
        exact hleft more left hrest.symm
      split at h
      · split at h
        · cases h
        · obtain ⟨_, -, heq⟩ := Option.map_eq_some_iff.1 h
          cases heq
          exact hleft _ _ List.takeWhile_append_dropWhile.symm
      · obtain ⟨_, -, heq⟩ := Option.map_eq_some_iff.1 h
        cases heq
        exact hleft [] rest rfl
    by_cases hcopied : first = ascii '\\'
    · rw [rawMessage_copied (.inr hcopied), hcopied, hletter] at h
      cases h
      exact hleft [] rest rfl
    · obtain ⟨digits, hlength, hdigits, -, hraw⟩ := rawMessage_escaped hplain hcopied
      rw [hraw, hletter] at h
      cases h
      refine ⟨digits, rest, rfl, fun byte hbyte => (isPlain_digit byte).1 (hdigits byte hbyte),
        Nat.lt_succ_self _, ?_⟩
      have hheavy : weight first = 4 := if_neg hplain
      rw [totalWeight_cons]
      omega

theorem read?_front {front : Bytes} (h : ∀ byte ∈ front, isPlain byte = true) (rest : Bytes) :
    read? true (front ++ rest) = (read? true rest).map (front ++ ·) := by
  induction front with
  | nil => exact Option.map_id_fun'.symm ▸ rfl
  | cons first front ih =>
    obtain ⟨hquote, hfeed, hescape⟩ := plain_bounds (h first List.mem_cons_self)
    rw [List.cons_append, read?_plain hquote hfeed hescape,
      ih fun byte hbyte => h byte (List.mem_cons_of_mem _ hbyte), Option.map_map]
    rfl

theorem totalWeight_plain {front : Bytes} (h : ∀ byte ∈ front, isPlain byte = true) :
    totalWeight front = front.length := by
  induction front with
  | nil => rfl
  | cons first front ih =>
    have hfirst : weight first = 1 := if_pos (h first List.mem_cons_self)
    rw [totalWeight_cons, hfirst, ih fun byte hbyte => h byte (List.mem_cons_of_mem _ hbyte),
      List.length_cons]
    omega

/-- What is read from a message weighs no more than its text, and less if that has a backslash. -/
theorem totalWeight_read (bytes : Bytes) : ∀ {read : Bytes},
    read? true (rawMessage bytes) = some read → totalWeight read ≤ totalWeight bytes ∧
      (ascii '\\' ∈ bytes → totalWeight read < totalWeight bytes) := by
  -- An escape takes several bytes, so the induction is on the length.
  induction hsize : bytes.length using Nat.strongRecOn generalizing bytes with
  | ind size ih =>
    intro read h
    cases bytes with
    | nil =>
      have hnil : read? true (rawMessage []) = some [] := read?_rawMessage List.not_mem_nil
      cases hnil.symm.trans h
      exact ⟨le_rfl, fun hmem => absurd hmem List.not_mem_nil⟩
    | cons byte rest =>
      rw [List.length_cons] at hsize
      by_cases hbyte : byte = ascii '\\'
      · suffices hless : totalWeight read < totalWeight (byte :: rest) from ⟨hless.le, fun _ => hless⟩
        rw [rawMessage_copied (.inr hbyte), hbyte] at h
        cases hescape : escape? (rawMessage rest) with
        | none =>
          rw [read?, if_neg (by decide), if_neg (by decide), if_pos rfl] at h
          split at h
          · cases h
          · next hsome => cases hescape.symm.trans hsome
        | some pair =>
          obtain ⟨value, behind⟩ := pair
          rw [read?_escape hescape] at h
          obtain ⟨more, hmore, rfl⟩ := Option.map_eq_some_iff.1 h
          -- The bare backslash weighs more than the byte which it makes of those behind it.
          rcases escape?_rawMessage hescape with rfl | ⟨front, left, rfl, hfront, hlength, hweight⟩
          · rw [read?] at hmore
            cases hmore
          · rw [read?_front hfront] at hmore
            obtain ⟨last, hlast, rfl⟩ := Option.map_eq_some_iff.1 hmore
            have hle := (ih left.length (by omega) left rfl hlast).1
            have hvalue := (weight_le value).2
            have hheavy : weight byte = 4 := by rw [hbyte]; rfl
            rw [totalWeight_cons, totalWeight_cons, totalWeight_append, totalWeight_plain hfront]
            omega
      · rw [read?_rawMessage_cons hbyte] at h
        obtain ⟨more, hmore, rfl⟩ := Option.map_eq_some_iff.1 h
        obtain ⟨hle, hless⟩ := ih rest.length (by omega) rest rfl hmore
        rw [totalWeight_cons, totalWeight_cons]
        refine ⟨by omega, fun hmem => ?_⟩
        have := hless ((List.mem_cons.1 hmem).resolve_left (Ne.symm hbyte))
        omega

theorem read?_rawMessage_iff {bytes : Bytes} :
    read? true (rawMessage bytes) = some bytes ↔ ascii '\\' ∉ bytes := by
  refine ⟨fun h hmem => ?_, read?_rawMessage⟩
  exact absurd ((totalWeight_read bytes h).2 hmem) (lt_irrefl _)

/-! ## 4. Keys -/

theorem backslash_mem_utf8 {text : String} : ascii '\\' ∈ utf8 text ↔ '\\' ∈ text.toList := by
  rw [utf8, List.mem_flatMap]
  constructor
  · rintro ⟨c, hc, hmem⟩
    have hbackslash : c = Char.ofNat (ascii '\\').toNat := Utf8.eq_of_mem_encode (by decide) hmem
    exact hbackslash ▸ hc
  · exact fun hmem => ⟨_, hmem, by decide⟩

/-- The key of a text as it stands in a catalog. -/
def key (text : String) : String := "\"" ++ message text ++ "\""

theorem utf8_key (text : String) : utf8 (key text) = ascii '"' :: rawMessage (utf8 text) := by
  rw [key, utf8_append, utf8_append, utf8_message]
  rfl

theorem feed_not_mem_rawMessage (bytes : Bytes) : ascii '\n' ∉ rawMessage bytes := by
  induction bytes with
  | nil => decide
  | cons byte bytes ih =>
    by_cases hplain : isPlain byte = true
    · rw [rawMessage_copied (.inl hplain), List.mem_cons, not_or]
      exact ⟨(plain_bounds hplain).2.1.symm, ih⟩
    by_cases hescape : byte = ascii '\\'
    · rw [rawMessage_copied (.inr hescape), List.mem_cons, not_or, hescape]
      exact ⟨by decide, ih⟩
    · obtain ⟨digits, -, hdigits, -, hraw⟩ := rawMessage_escaped hplain hescape
      have hnot : ascii '\n' ∉ digits := fun hmem => absurd (hdigits _ hmem) (by decide)
      rw [hraw, List.mem_cons, List.mem_append, not_or, not_or]
      exact ⟨by decide, hnot, ih⟩

/-- A key stands for its text if and only if the text has no backslash. -/
theorem decode?_key (text : String) :
    decode? (utf8 (key text)) = some (utf8 text) ↔ '\\' ∉ text.toList := by
  have hline : ascii '\n' ∉ ascii '"' :: rawMessage (utf8 text) := by
    rw [List.mem_cons, not_or]
    exact ⟨by decide, feed_not_mem_rawMessage _⟩
  rw [← backslash_mem_utf8, ← read?_rawMessage_iff, utf8_key, decode?, unsplice_line hline]
  exact Eq.congr_left ((if_pos rfl).trans (read?_quote false _))

theorem key_injective {text other : String} (htext : '\\' ∉ text.toList)
    (hother : '\\' ∉ other.toList) (h : key text = key other) : text = other := by
  have hread := (decode?_key text).2 htext
  rw [h, (decode?_key other).2 hother] at hread
  have hsame := congrArg Utf8.decodeLossy (Option.some.inj hread)
  rw [Utf8.decodeLossy_utf8, Utf8.decodeLossy_utf8] at hsame
  exact hsame.symm

end Literal

/-! ## 5. Catalog and code -/

def Context.gettext (context : Context) (text : String) (_number : Nat) : List Span :=
  spell (context.settings.translation.gnuFunction ++ "(") ++ (context.quoted text ++ spell ")")

theorem Node.translated_gnu {context : Context}
    (hgnu : context.settings.translation.mode = .gnu) :
    Node.translated context = context.gettext := by
  funext text number
  rw [Node.translated]
  dsimp only
  rw [hgnu]
  rfl

/-- A literal in the code is the text, unless the code is a preview and the text is long. -/
theorem Context.quoted_text (context : Context) {text : String}
    (h : context.preview = false ∨ (utf8 text).length ≤ Writer.previewLimit) :
    ∃ literal, context.quoted text = [.text literal] ∧
      CString.decode? literal = some (utf8 text) := by
  have hwhole : (context.preview && (utf8 text).length > Writer.previewLimit) = false := by
    rw [Bool.and_eq_false_iff, decide_eq_false_iff_not, Nat.not_lt]
    exact h
  refine ⟨_, ?_, Literal.decode?_quoted (utf8 text) context.settings.utf8Source⟩
  rw [quoted, literal, hwhole]
  exact if_neg Bool.false_ne_true

namespace Catalog

def pair (text : ShownText) : String :=
  "msgid " ++ Literal.key text.text ++ "\nmsgstr " ++ Literal.key text.text ++ "\n"

theorem entries_gnu (found : List ShownText) : ∀ number,
    entries .gnu number (found.map ShownText.text) = found.map pair := by
  have hentry : ∀ number (text : ShownText), entry .gnu number text.text = pair text := by
    intro number text
    have hmiddle : "\"\nmsgstr \"" = "\"" ++ ("\nmsgstr " ++ "\"") := rfl
    have hfront : "msgid \"" = "msgid " ++ "\"" := rfl
    have hend : "\"\n" = "\"" ++ "\n" := rfl
    rw [pair, Literal.key, entry, hmiddle, hfront, hend]
    simp only [String.append_assoc]
  induction found with
  | nil => exact fun _ => rfl
  | cons first rest ih =>
    intro number
    rw [List.map_cons, entries, ih, hentry, List.map_cons]

/-- The keys of a catalog and those in the code. -/
structure Keyed (design : Design) (settings : Settings) (options : RunOptions) : Prop where
  /-- The file lists the keys of all texts. -/
  content : ofNodes design.nodes settings.translation = {
    count := (shown design.nodes).length
    content := head settings.translation ++ String.join ((shown design.nodes).map pair) }
  /-- The code of a node calls for the translation of its texts, -/
  code : ∃ generated, generate design settings options = .ok generated ∧
    generated.source =
      (Generation.written design settings options).flatMap Generation.Piece.source ∧
    ∀ piece ∈ Generation.written design settings options, ∀ phase node,
      piece.step = .write phase node → node.kind.hasCallback = true →
      ∃ depth names present declared,
        let context : Context := ⟨settings, options.preview, depth⟩
        let segments := node.segments context names phase present declared
        spans piece.chunks = segments.flatMap (Segment.spans context.gettext) ∧
          segments.filterMap (Segment.request? node) =
            if phase = .setup ∨ phase = .closing then []
            else node.shownTexts.map fun text => (text, node.numberOf text.part)
  /-- with literals that are the texts. -/
  literal : ∀ depth text, options.preview = false ∨ (utf8 text).length ≤ Writer.previewLimit →
    ∃ literal, (Context.mk settings options.preview depth).quoted text = [.text literal] ∧
      CString.decode? literal = some (utf8 text)
  /-- A key is the text only if that has no backslash. -/
  key : ∀ text, CString.decode? (utf8 (Literal.key text)) = some (utf8 text) ↔ '\\' ∉ text.toList
  /-- Up to there, different texts have different keys. -/
  injective : ∀ text other, '\\' ∉ text.toList → '\\' ∉ other.toList →
    Literal.key text = Literal.key other → text = other

/-- The keys of a catalog are those in the code, as far as the texts have no backslash. -/
theorem keys_match (design : Design) {settings : Settings}
    (hgnu : settings.translation.mode = .gnu) (options : RunOptions) :
    Keyed design settings options := by
  constructor
  case content =>
    rw [ofNodes, texts_eq, hgnu, entries_gnu, List.length_map]
  case code =>
    obtain ⟨generated, hgenerated, hsource, -⟩ :=
      Generation.generate_written design settings options
    refine ⟨generated, hgenerated, hsource, fun piece hpiece phase node hstep hkind => ?_⟩
    obtain ⟨-, depth, names, present, declared, hspans⟩ :=
      Generation.segments_written design settings options hpiece hstep hkind
    refine ⟨depth, names, present, declared, ?_, Node.requests_segments ..⟩
    rw [hspans, Node.translated_gnu hgnu]
  case literal => exact fun depth text h => Context.quoted_text _ h
  case key => exact Literal.decode?_key
  case injective => exact fun _ _ htext hother h => Literal.key_injective htext hother h

theorem keys_match_buttons :
    Keyed buttonWithMenuDesign { translation := { mode := .gnu } } {} ∧
      (shown buttonWithMenuDesign.nodes).map pair =
        ["msgid \"Save\"\nmsgstr \"Save\"\n",
          "msgid \"Saves \\042all\\042\"\nmsgstr \"Saves \\042all\\042\"\n",
          "msgid \"Quit\"\nmsgstr \"Quit\"\n"] ∧
      CString.decode? (utf8 (Literal.key "Saves \"all\"")) = some (utf8 "Saves \"all\"") := by
  have hkeyed := @keys_match buttonWithMenuDesign { translation := { mode := .gnu } } rfl {}
  exact ⟨hkeyed, by decide +kernel, (hkeyed.key _).2 (by decide)⟩

def pathItem : Node where
  id := ⟨1⟩
  depth := 0
  scope := .file
  hasChildren := false
  hasChildWidgets := false
  body := .menuItem "C:\\new" none none
  resource := none
  labelNumber := 1
  tooltipNumber := 0

theorem key_of_path :
    (ofNodes [pathItem] { mode := .gnu }).content =
        "# generated by formgen version 0.3.0\nmsgid \"C:\\new\"\nmsgstr \"C:\\new\"\n" ∧
      CString.decode? (utf8 "\"C:\\new\"") = some (utf8 "C:\new") ∧
      CString.decode? (Literal.quoted (utf8 "C:\\new") false) = some (utf8 "C:\\new") ∧
      utf8 "C:\new" ≠ utf8 "C:\\new" ∧
      Literal.message "\"" = Literal.message "\\042" := by
  decide +kernel

end Catalog

end FormWeave
