import Mathlib.Logic.Relation
import FormWeave.Proofs.DesignIds
import FormWeave.Proofs.Scanning

/-!
# Reformatting is no edit

Blanks in front of lines, blank lines, and carriage returns in front of line feeds make no difference
to a scan: it finds the same edits in the same order, or fails with the same cause. Only line numbers
and texts differ, so the proof is about what a scan finds without them, its gist: at the start of a
line, whatever is layout leaves the gist as it is.
-/

namespace FormWeave

/-! ## 1. Line ends behind a tag -/

namespace Tag

def LineEnd (cs : List Char) : Prop := cs ≠ [] ∧ ∀ c ∈ cs, c = '\r' ∨ c = '\n'

variable {ending ending' : List Char}

theorem dropStart?_lineEnd (h : LineEnd ending) {start : List Char}
    (hstart : ∀ c ∈ start, c ≠ '\r' ∧ c ≠ '\n') (cs : List Char) :
    dropStart? start (cs ++ ending) = (dropStart? start cs).map (· ++ ending) := by
  induction start generalizing cs with
  | nil => rfl
  | cons s start ih =>
    have hs := hstart s List.mem_cons_self
    have hrest := ih fun c hc => hstart c (List.mem_cons_of_mem _ hc)
    cases cs with
    | nil =>
      obtain ⟨c, rest, rfl⟩ := List.exists_cons_of_ne_nil h.1
      have hne : s ≠ c := by
        rintro rfl
        exact (h.2 s List.mem_cons_self).elim hs.1 hs.2
      simp [dropStart?, hne]
    | cons c cs =>
      by_cases hsc : s = c
      · simp [dropStart?, hsc, hrest]
      · simp [dropStart?, hsc]

theorem cutField_lineEnd (h : LineEnd ending) (cs : List Char) :
    cutField (cs ++ ending) =
      (if '~' ∈ cs then (cutField cs).1 else (cutField cs).1 ++ ending,
        (cutField cs).2.map (· ++ ending)) := by
  induction cs with
  | nil =>
    have hend : ∀ t : List Char, (∀ c ∈ t, c = '\r' ∨ c = '\n') → cutField t = (t, none) := by
      intro t ht
      induction t with
      | nil => rfl
      | cons c t ih =>
        have hc : c ≠ '~' := by
          rintro rfl
          exact absurd (ht '~' List.mem_cons_self) (by decide)
        simp [cutField, hc, ih fun d hd => ht d (List.mem_cons_of_mem _ hd)]
    simpa [cutField] using hend ending h.2
  | cons c cs ih =>
    by_cases hc : c = '~'
    · simp [cutField, hc]
    · have hmem : '~' ∈ c :: cs ↔ '~' ∈ cs := by simp [Ne.symm hc]
      simp only [List.cons_append, cutField, hc, beq_iff_eq, if_false, ih, hmem]
      split_ifs <;> rfl

/-- A line end is no part of a number. -/
theorem decimalUpTo?_lineEnd (h : LineEnd ending) (limit : Nat) (cs : List Char) :
    Text.decimalUpTo? limit (cs ++ ending) = none := by
  have hvalue : Text.digitsValue? Text.decimalValue? 10 0 (cs ++ ending) = none := by
    by_contra hne
    obtain ⟨n, hn⟩ := Option.ne_none_iff_exists'.1 hne
    obtain ⟨c, rest, rfl⟩ := List.exists_cons_of_ne_nil h.1
    have hdigit := Text.isSome_of_digitsValue? hn c (by simp)
    rcases h.2 c List.mem_cons_self with rfl | rfl
    · exact absurd hdigit (by decide)
    · exact absurd hdigit (by decide)
  rw [Text.decimalUpTo?, Text.cappedValue?_eq_map_min _ _ _ (by decide), hvalue]
  split_ifs <;> rfl

theorem integer?_lineEnd (h : LineEnd ending) (cs : List Char) :
    integer? (cs ++ ending) = none := by
  -- A sign in front is none of the line end.
  have hsign : ∀ sign digits, sign ≠ '\r' → sign ≠ '\n' → cs ++ ending = sign :: digits →
      ∃ rest, digits = rest ++ ending := by
    intro sign digits hr hn heq
    cases cs with
    | nil =>
      rw [List.nil_append] at heq
      rcases h.2 sign (heq ▸ List.mem_cons_self) with rfl | rfl
      · exact absurd rfl hr
      · exact absurd rfl hn
    | cons c rest => exact ⟨rest, (List.cons.inj heq).2.symm⟩
  unfold integer?
  split
  · next digits heq =>
    obtain ⟨rest, rfl⟩ := hsign '-' digits (by decide) (by decide) heq
    rw [decimalUpTo?_lineEnd h]
    rfl
  · next digits heq =>
    obtain ⟨rest, rfl⟩ := hsign '+' digits (by decide) (by decide) heq
    rw [decimalUpTo?_lineEnd h]
    rfl
  · rw [decimalUpTo?_lineEnd h]
    rfl

theorem hexField?_lineEnd (h : LineEnd ending) (width : Nat) (cs : List Char) :
    hexField? width (cs ++ ending) = hexField? width cs := by
  have hdrop : Text.dropBlanksEnd (cs ++ ending) = Text.dropBlanksEnd cs := by
    rw [Text.dropBlanksEnd, Text.dropBlanksEnd, List.reverse_append, List.dropWhile_append_of_pos]
    intro c hc
    rcases h.2 c (List.mem_reverse.1 hc) with rfl | rfl <;> decide
  rw [hexField?, hexField?, hdrop]

theorem hexField?_cutField (h : LineEnd ending) (width : Nat) (cs : List Char) :
    hexField? width (cutField (cs ++ ending)).1 = hexField? width (cutField cs).1 := by
  rw [cutField_lineEnd h]
  by_cases hcut : '~' ∈ cs
  · rw [if_pos hcut]
  · rw [if_neg hcut, hexField?_lineEnd h]

/-- Which line end stands behind a tag makes no difference to what is read. -/
theorem ofList_lineEnd (h : LineEnd ending) (h' : LineEnd ending') (cs : List Char) :
    ofList (cs ++ ending) = ofList (cs ++ ending') := by
  have hmarker : ∀ c ∈ marker.toList, c ≠ '\r' ∧ c ≠ '\n' := by
    rw [show marker.toList = ['/', '/', '~', 'f', 'l', '~'] from rfl]
    simp
  rw [ofList, ofList, dropStart?_lineEnd h hmarker, dropStart?_lineEnd h' hmarker]
  cases dropStart? marker.toList cs with
  | none => rfl
  | some rest =>
    simp only [Option.map_some, cutField_lineEnd h rest, cutField_lineEnd h' rest]
    by_cases hkind : '~' ∈ rest
    · rw [if_pos hkind, if_pos hkind]
      cases (cutField rest).2 with
      | none => rfl
      | some rest =>
        simp only [Option.map_some, hexField?_cutField h, hexField?_cutField h',
          (congrArg Prod.snd (cutField_lineEnd h rest)), (congrArg Prod.snd (cutField_lineEnd h' rest))]
        cases (cutField rest).2 with
        | none => rfl
        | some rest => simp only [Option.map_some, hexField?_cutField h, hexField?_cutField h']
    · -- The line end stands in the first field, which is no number then.
      rw [if_neg hkind, if_neg hkind, integer?_lineEnd h, integer?_lineEnd h']

/-- A tag is read in the same way with a carriage return in front of its line feed. -/
theorem parse_return (bytes : Bytes) :
    parse (Utf8.decodeLossy (bytes ++ [0x0d, 0x0a])) = parse (Utf8.decodeLossy (bytes ++ [0x0a])) := by
  have hfeed : ∀ front, (Utf8.decodeLossy (front ++ [0x0a])).toList =
      (Utf8.decodeLossy front).toList ++ ['\n'] :=
    Utf8.toList_decodeLossy_concat (by decide)
  have hreturn : (Utf8.decodeLossy (bytes ++ [0x0d])).toList =
      (Utf8.decodeLossy bytes).toList ++ ['\r'] :=
    Utf8.toList_decodeLossy_concat (by decide) bytes
  have hboth : bytes ++ [0x0d, 0x0a] = (bytes ++ [0x0d]) ++ [0x0a] := by simp
  have hlf : LineEnd ['\n'] := by simp [LineEnd]
  have hcrlf : LineEnd ['\r', '\n'] := by simp [LineEnd]
  rw [parse, parse, hboth, hfeed, hreturn, hfeed, List.append_assoc]
  exact ofList_lineEnd hcrlf hlf _

end Tag

namespace Merge

/-! ## 2. Where a line is cut -/

theorem prefix_append_iff {marker front back : Bytes} {b : UInt8} (h : b ∉ marker) :
    marker <+: front ++ b :: back ↔ marker <+: front := by
  constructor
  · intro hprefix
    rcases List.prefix_or_prefix_of_prefix hprefix (List.prefix_append front _) with hin | ⟨rest, rfl⟩
    · exact hin
    cases rest with
    | nil => rw [List.append_nil]
    | cons c rest =>
      -- The marker would run across the byte.
      have hcons := (List.prefix_append_right_inj front).1 hprefix
      obtain ⟨rfl, -⟩ := List.cons_prefix_cons.1 hcons
      exact absurd (List.mem_append_right _ List.mem_cons_self) h
  · exact fun hprefix => hprefix.trans (List.prefix_append _ _)

/-- A byte that is in no marker keeps what stands behind it away from a line. -/
theorem fromMarker?_append {b : UInt8} (hb : b ∉ utf8 Tag.marker) (front back : Bytes) :
    fromMarker? (front ++ b :: back) =
      match fromMarker? front with
      | some bytes => some (bytes ++ b :: back)
      | none => fromMarker? back := by
  have hprefix : ∀ front, (utf8 Tag.marker).isPrefixOf (front ++ b :: back) =
      (utf8 Tag.marker).isPrefixOf front := by
    intro front
    rw [Bool.eq_iff_iff, List.isPrefixOf_iff_prefix, List.isPrefixOf_iff_prefix]
    exact prefix_append_iff hb
  induction front with
  | nil =>
    have hnil := hprefix []
    rw [List.nil_append] at hnil
    show fromMarker? (b :: back) = fromMarker? back
    rw [fromMarker?, hnil]
    rfl
  | cons c front ih =>
    have hcons := hprefix (c :: front)
    rw [List.cons_append] at hcons ⊢
    rw [fromMarker?, hcons, ih, fromMarker?]
    by_cases h : (utf8 Tag.marker).isPrefixOf (c :: front) = true
    · rw [if_pos h, if_pos h]
      rfl
    · rw [if_neg h, if_neg h]

/-! ## 3. The gist of a scan -/

/-- A state of a scan without places and texts: the open checksum, and the edits, last one first. -/
structure Gist where
  checksum : Checksum.Running := {}
  found : List (TagKind × NodeId × Bool) := []

end Merge

def ChangedBlock.outline (block : ChangedBlock) : TagKind × NodeId × Bool :=
  (block.kind, block.nodeId, block.resolved)

namespace Merge

variable {ν : Type} [DesignNode ν] (nodes : List ν)

def ScanState.gist (state : ScanState) : Gist where
  checksum := state.checksum
  found := state.changed.map ChangedBlock.outline

def Gist.close (g : Gist) (tag : Tag) : Gist where
  found :=
    if g.checksum.value = tag.checksum then g.found
    else
      (tag.kind, tag.nodeId, tag.kind == .generic || accepts nodes tag.nodeId tag.kind) :: g.found

def gistLine (g : Gist) (line : Bytes) : Except TagError Gist :=
  match fromMarker? line with
  | none => .ok { g with checksum := g.checksum.add line }
  | some bytes => (Tag.parse (Utf8.decodeLossy bytes)).map (g.close nodes)

def gistOf (source : Bytes) : Except TagError Gist :=
  (Text.splitInclusive 0x0a source).foldlM (gistLine nodes) {}

inductive HasGist : Except Error ScanState → Except TagError Gist → Prop
  | ok (state : ScanState) : HasGist (.ok state) (.ok state.gist)
  | error (line : Nat) (text : String) (cause : TagError) :
      HasGist (.error (.malformedTag line text cause)) (.error cause)

theorem HasGist.of_ok {result : Except Error ScanState} {g : Gist} (h : HasGist result (.ok g)) :
    ∃ state, result = .ok state ∧ state.gist = g := by
  cases h with
  | ok state => exact ⟨state, rfl, rfl⟩

theorem HasGist.of_error {result : Except Error ScanState} {cause : TagError}
    (h : HasGist result (.error cause)) :
    ∃ line text, result = .error (.malformedTag line text cause) := by
  cases h with
  | error line text => exact ⟨line, text, rfl⟩

theorem hasGist_scanLine (state : ScanState) (line : Bytes) :
    HasGist (scanLine nodes state line) (gistLine nodes state.gist line) := by
  rw [scanLine, gistLine]
  cases fromMarker? line with
  | none => exact .ok _
  | some bytes =>
    simp only [readTag]
    cases Tag.parse (Utf8.decodeLossy bytes) with
    | error cause => exact .error _ _ cause
    | ok tag =>
      simp only [Except.mapError, Except.map, bind, Except.bind, Gist.close, beq_iff_eq]
      by_cases h : state.checksum.value = tag.checksum
      · rw [if_pos h, if_pos (show state.gist.checksum.value = tag.checksum from h)]
        exact .ok { lines := state.lines + 1, changed := state.changed }
      · rw [if_neg h, if_neg (show ¬ state.gist.checksum.value = tag.checksum from h)]
        exact .ok { lines := state.lines + 1, changed := _ :: state.changed }

theorem hasGist_foldlM (lines : List Bytes) :
    ∀ state, HasGist (lines.foldlM (scanLine nodes) state) (lines.foldlM (gistLine nodes) state.gist) := by
  induction lines with
  | nil => exact fun state => .ok state
  | cons line rest ih =>
    intro state
    have hline := hasGist_scanLine nodes state line
    rw [List.foldlM_cons, List.foldlM_cons]
    generalize scanLine nodes state line = result at hline
    generalize gistLine nodes state.gist line = g at hline
    cases hline with
    | ok next => exact ih next
    | error number text cause => exact .error number text cause

/-! ## 4. Layout makes no difference to a gist -/

section

variable {g : Gist}

theorem addByte_return (sum : Checksum.Running) : sum.addByte 0x0d = sum := by
  obtain ⟨register, atLineStart⟩ := sum
  cases atLineStart <;> rfl

theorem addByte_space {sum : Checksum.Running} {b : UInt8} (h : sum.atLineStart = true)
    (hb : Checksum.isSpace b = true) : sum.addByte b = sum := by
  rw [Checksum.Running.addByte, h, hb]
  rfl

/-- Behind a full line a line starts, whatever the line is. -/
theorem gistLine_lineStart {line : Bytes} (hline : Text.FullLine line) {g' : Gist}
    (h : gistLine nodes g line = .ok g') : g'.checksum.atLineStart = true := by
  obtain ⟨body, -, rfl⟩ := hline
  rw [gistLine] at h
  cases hmarker : fromMarker? (body ++ [0x0a]) with
  | none =>
    rw [hmarker] at h
    cases h
    have hfeed : ∀ sum : Checksum.Running, (sum.addByte 0x0a).atLineStart = true := by
      intro sum
      obtain ⟨register, atLineStart⟩ := sum
      cases atLineStart <;> rfl
    simp only [Checksum.Running.add_append, Checksum.Running.add_cons, Checksum.Running.add_nil]
    exact hfeed _
  | some bytes =>
    simp only [hmarker] at h
    cases htag : Tag.parse (Utf8.decodeLossy bytes) with
    | error cause =>
      rw [htag] at h
      cases h
    | ok tag =>
      rw [htag] at h
      cases h
      rfl

theorem foldlM_lineStart {lines : List Bytes} (hlines : ∀ line ∈ lines, Text.FullLine line) :
    ∀ {g g' : Gist}, g.checksum.atLineStart = true → lines.foldlM (gistLine nodes) g = .ok g' →
      g'.checksum.atLineStart = true := by
  induction lines with
  | nil =>
    intro g g' hg h
    cases h
    exact hg
  | cons line rest ih =>
    intro g g' hg h
    rw [List.foldlM_cons] at h
    cases hline : gistLine nodes g line with
    | error cause =>
      rw [hline] at h
      cases h
    | ok next =>
      rw [hline] at h
      have hnext := gistLine_lineStart nodes (hlines line List.mem_cons_self) hline
      exact ih (fun l hl => hlines l (List.mem_cons_of_mem _ hl)) hnext h

/-- Complete lines in front of others come first, and behind them a line starts. -/
theorem gistOf_congr {front back back' : Bytes} (hfront : Text.Complete front)
    (h : ∀ g : Gist, g.checksum.atLineStart = true →
      (Text.splitInclusive 0x0a back).foldlM (gistLine nodes) g =
        (Text.splitInclusive 0x0a back').foldlM (gistLine nodes) g) :
    gistOf nodes (front ++ back) = gistOf nodes (front ++ back') := by
  have hlines := Text.areLines_splitInclusive front
  have hfull := hlines.fullLine_of_complete (by rwa [Text.flatten_splitInclusive])
  rw [gistOf, gistOf, Text.splitInclusive_append hfront, Text.splitInclusive_append hfront,
    List.foldlM_append, List.foldlM_append]
  cases hrun : (Text.splitInclusive 0x0a front).foldlM (gistLine nodes) {} with
  | error cause => rfl
  | ok g => exact h g (foldlM_lineStart nodes hfull rfl hrun)

theorem isBlank_byte {b : UInt8} (hb : b = 0x20 ∨ b = 0x09) :
    Checksum.isSpace b = true ∧ b ≠ 0x0a ∧ b ∉ utf8 Tag.marker := by
  rcases hb with rfl | rfl
  · decide
  · decide

/-- A blank in front of a line, be it a tag line or any other. -/
theorem gistLine_indent {b : UInt8} (hb : b = 0x20 ∨ b = 0x09) (hg : g.checksum.atLineStart = true)
    (line : Bytes) : gistLine nodes g (b :: line) = gistLine nodes g line := by
  obtain ⟨hspace, -, hmarker⟩ := isBlank_byte hb
  have hcut : fromMarker? (b :: line) = fromMarker? line := fromMarker?_append hmarker [] line
  have hsum : g.checksum.add (b :: line) = g.checksum.add line := by
    rw [Checksum.Running.add_cons, addByte_space hg hspace]
  rw [gistLine, gistLine, hcut, hsum]

theorem gistOf_indent {front : Bytes} (hfront : Text.Complete front) {b : UInt8}
    (hb : b = 0x20 ∨ b = 0x09) (back : Bytes) :
    gistOf nodes (front ++ b :: back) = gistOf nodes (front ++ back) := by
  refine gistOf_congr nodes hfront fun g hg => ?_
  have hne : (b == 0x0a) = false := by simpa using (isBlank_byte hb).2.1
  rw [Text.splitInclusive, hne, if_neg Bool.false_ne_true]
  cases Text.splitInclusive 0x0a back with
  | nil =>
    -- Behind the last line, the blank is a line of its own.
    show [[b]].foldlM (gistLine nodes) g = .ok g
    rw [List.foldlM_cons, gistLine_indent nodes hb hg]
    rfl
  | cons line lines =>
    show ((b :: line) :: lines).foldlM (gistLine nodes) g = _
    rw [List.foldlM_cons, List.foldlM_cons, gistLine_indent nodes hb hg]

/-- A carriage return in front of a line feed. -/
theorem gistLine_return (body : Bytes) :
    gistLine nodes g (body ++ [0x0d, 0x0a]) = gistLine nodes g (body ++ [0x0a]) := by
  rw [gistLine, gistLine, fromMarker?_append (by decide), fromMarker?_append (by decide)]
  cases fromMarker? body with
  | none =>
    -- Neither byte is part of a marker, and the checksum skips the first.
    have hsum : g.checksum.add (body ++ [0x0d, 0x0a]) = g.checksum.add (body ++ [0x0a]) := by
      simp only [Checksum.Running.add_append, Checksum.Running.add_cons, addByte_return]
    have hreturn : fromMarker? [0x0a] = none := rfl
    have hnil : fromMarker? [] = none := rfl
    simp only [hsum, hreturn, hnil]
  | some bytes => simp only [Tag.parse_return]

theorem gistOf_return (front back : Bytes) :
    gistOf nodes (front ++ 0x0d :: 0x0a :: back) = gistOf nodes (front ++ 0x0a :: back) := by
  obtain ⟨head, body, rfl, hhead, hbody⟩ := Text.exists_complete_open front
  have hreturn : (0x0a : UInt8) ∉ body ++ [0x0d] := by simp [hbody]
  have hline := Text.splitInclusive_line hbody
  have hline' := Text.splitInclusive_line hreturn
  rw [List.append_assoc, List.append_assoc]
  refine gistOf_congr nodes hhead fun g hg => ?_
  -- The line that ends here, and the lines behind it.
  have hcut : ∀ line : Bytes, Text.splitInclusive 0x0a (line ++ 0x0a :: back) =
      Text.splitInclusive 0x0a (line ++ [0x0a]) ++ Text.splitInclusive 0x0a back := by
    intro line
    rw [← Text.splitInclusive_append (by simp [Text.Complete])]
    simp
  have hboth : body ++ 0x0d :: 0x0a :: back = (body ++ [0x0d]) ++ 0x0a :: back := by simp
  rw [hboth, hcut, hcut, hline, hline', List.singleton_append, List.singleton_append,
    List.foldlM_cons, List.foldlM_cons, List.append_assoc]
  exact congrArg (· >>= _) (gistLine_return nodes body)

theorem gistLine_blank {blanks : Bytes} (hblanks : ∀ b ∈ blanks, b = 0x20 ∨ b = 0x09)
    (hg : g.checksum.atLineStart = true) : gistLine nodes g (blanks ++ [0x0a]) = .ok g := by
  induction blanks with
  | nil =>
    have hcut : fromMarker? [0x0a] = none := rfl
    rw [List.nil_append, gistLine, hcut]
    simp only [Checksum.Running.add_cons, Checksum.Running.add_nil, addByte_space hg (b := 0x0a) rfl]
  | cons b rest ih =>
    rw [List.cons_append, gistLine_indent nodes (hblanks b List.mem_cons_self) hg]
    exact ih fun c hc => hblanks c (List.mem_cons_of_mem _ hc)

theorem gistOf_blankLine {front : Bytes} (hfront : Text.Complete front) {blanks : Bytes}
    (hblanks : ∀ b ∈ blanks, b = 0x20 ∨ b = 0x09) (back : Bytes) :
    gistOf nodes (front ++ (blanks ++ 0x0a :: back)) = gistOf nodes (front ++ back) := by
  have hbody : (0x0a : UInt8) ∉ blanks := fun h => (isBlank_byte (hblanks _ h)).2.1 rfl
  refine gistOf_congr nodes hfront fun g hg => ?_
  have hcut : blanks ++ 0x0a :: back = (blanks ++ [0x0a]) ++ back := by simp
  rw [hcut, Text.splitInclusive_append (by simp [Text.Complete]), Text.splitInclusive_line hbody,
    List.singleton_append, List.foldlM_cons, gistLine_blank nodes hblanks hg]
  rfl

end

/-! ## 5. Reformatted files -/

/-- One change to the layout of a file. A line starts at the start of the file and behind each of its
line feeds. -/
inductive LayoutEdit : Bytes → Bytes → Prop
  /-- A space or a tab at the start of a line. -/
  | indent {front : Bytes} (hfront : Text.Complete front) {b : UInt8} (hb : b = 0x20 ∨ b = 0x09)
      (back : Bytes) : LayoutEdit (front ++ back) (front ++ b :: back)
  /-- A carriage return in front of a line feed. -/
  | carriageReturn (front back : Bytes) :
      LayoutEdit (front ++ 0x0a :: back) (front ++ 0x0d :: 0x0a :: back)
  /-- A new line without anything but spaces and tabs. -/
  | blankLine {front : Bytes} (hfront : Text.Complete front) {blanks : Bytes}
      (hblanks : ∀ b ∈ blanks, b = 0x20 ∨ b = 0x09) (back : Bytes) :
      LayoutEdit (front ++ back) (front ++ (blanks ++ 0x0a :: back))

theorem LayoutEdit.gistOf_eq {source source' : Bytes} (h : LayoutEdit source source') :
    gistOf nodes source' = gistOf nodes source := by
  cases h with
  | indent hfront hb back => exact gistOf_indent nodes hfront hb back
  | carriageReturn front back => exact gistOf_return nodes front back
  | blankLine hfront hblanks back => exact gistOf_blankLine nodes hfront hblanks back

/-- A file with any number of changes to its layout, one after the other. -/
def Reformatted (source source' : Bytes) : Prop := Relation.ReflTransGen LayoutEdit source source'

theorem Reformatted.gistOf_eq {source source' : Bytes} (h : Reformatted source source') :
    gistOf nodes source' = gistOf nodes source := by
  induction h with
  | refl => rfl
  | tail _ hedit ih => exact (hedit.gistOf_eq nodes).trans ih

/-- Summaries that agree but for lines and texts. -/
structure SameFindings (summary summary' : MergeSummary) : Prop where
  structuralChanges : summary'.structuralChanges = summary.structuralChanges
  codeChanges : summary'.codeChanges = summary.codeChanges
  callbackChanges : summary'.callbackChanges = summary.callbackChanges
  unresolvedIds : summary'.unresolvedIds = summary.unresolvedIds
  blocks : summary'.blocks.map ChangedBlock.outline = summary.blocks.map ChangedBlock.outline

theorem sameFindings_ofBlocks {blocks blocks' : List ChangedBlock}
    (h : blocks'.map ChangedBlock.outline = blocks.map ChangedBlock.outline) :
    SameFindings (.ofBlocks blocks) (.ofBlocks blocks') := by
  -- What is counted can be seen in the outline.
  have hcount : ∀ p : TagKind × NodeId × Bool → Bool,
      blocks'.countP (fun block => p block.outline) = blocks.countP fun block => p block.outline := by
    intro p
    have := congrArg (List.countP p) h
    rwa [List.countP_map, List.countP_map] at this
  exact ⟨hcount fun o => o.1 == .generic, hcount fun o => o.1 == .code,
    hcount fun o => o.1.isCallback, hcount fun o => !o.2.2, h⟩

/-- A reformatted file is scanned like the file itself: both scans succeed and find the same, or both
fail with the same cause. -/
theorem scan_reformatted {source source' : Bytes} (h : Reformatted source source') (nodes : List ν) :
    (∃ summary summary', scan source nodes = .ok summary ∧ scan source' nodes = .ok summary' ∧
      SameFindings summary summary') ∨
    ∃ line line' text text' cause,
      scan source nodes = .error (.malformedTag line text cause) ∧
        scan source' nodes = .error (.malformedTag line' text' cause) := by
  have hsource : HasGist _ (gistOf nodes source) := hasGist_foldlM nodes _ {}
  have hsource' : HasGist _ (gistOf nodes source') := hasGist_foldlM nodes _ {}
  rw [h.gistOf_eq nodes] at hsource'
  rw [scan, scan]
  cases hgist : gistOf nodes source with
  | ok g =>
    rw [hgist] at hsource hsource'
    obtain ⟨state, hrun, hstate⟩ := hsource.of_ok
    obtain ⟨state', hrun', hstate'⟩ := hsource'.of_ok
    have hchanged : state'.changed.map ChangedBlock.outline =
        state.changed.map ChangedBlock.outline := congrArg Gist.found (hstate'.trans hstate.symm)
    left
    rw [hrun, hrun']
    refine ⟨_, _, rfl, rfl, sameFindings_ofBlocks ?_⟩
    rw [List.map_reverse, List.map_reverse, hchanged]
  | error cause =>
    rw [hgist] at hsource hsource'
    obtain ⟨line, text, hrun⟩ := hsource.of_error
    obtain ⟨line', text', hrun'⟩ := hsource'.of_error
    right
    rw [hrun, hrun']
    exact ⟨line, line', text, text', cause, rfl, rfl⟩

def sampleCode : Bytes := utf8 "a();" ++ 0x0a :: utf8 "//~fl~1~0002~00000000~~\n"

def sampleReformatted : Bytes :=
  (0x20 :: utf8 "a();" ++ [0x0d, 0x0a]) ++ ([0x09] ++ 0x0a :: utf8 "//~fl~1~0002~00000000~~\n")

theorem reformatted_sample : Reformatted sampleCode sampleReformatted := by
  have hindent : LayoutEdit sampleCode (0x20 :: sampleCode) :=
    .indent Text.complete_nil (.inl rfl) sampleCode
  have hreturn := LayoutEdit.carriageReturn (0x20 :: utf8 "a();")
    (utf8 "//~fl~1~0002~00000000~~\n")
  have hblank : LayoutEdit _ sampleReformatted :=
    .blankLine (by decide +kernel) (by decide +kernel) (utf8 "//~fl~1~0002~00000000~~\n")
  rw [List.append_assoc] at hblank
  exact ((Relation.ReflTransGen.single hindent).tail hreturn).tail hblank

theorem scan_reformatted_sample :
    ∃ summary summary', scan sampleCode Design.sample.nodes = .ok summary ∧
      scan sampleReformatted Design.sample.nodes = .ok summary' ∧
      summary.codeChanges = 1 ∧ SameFindings summary summary' := by
  have hscan : scan sampleCode Design.sample.nodes =
      .ok { codeChanges := 1, blocks := [⟨.code, ⟨2⟩, 2, "a();", true⟩] } := by decide +kernel
  rcases scan_reformatted reformatted_sample Design.sample.nodes with
    ⟨summary, summary', hsource, hsource', hsame⟩ | ⟨_, _, _, _, _, hsource, -⟩
  · refine ⟨summary, summary', hsource, hsource', ?_, hsame⟩
    rw [hscan] at hsource
    cases hsource
    rfl
  · rw [hscan] at hsource
    cases hsource

end Merge

end FormWeave
