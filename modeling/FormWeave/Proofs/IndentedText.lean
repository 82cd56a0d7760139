import FormWeave.Proofs.NormalForm
import FormWeave.Proofs.Regeneration

/-!
# Indented lines without their indentation

Lines of code are written with two blanks for each level, and a merge takes up to two blanks off
each line. So what comes back depends on the level: at level 1 every line as it was, above that the
lines with more blanks, below it the lines without blanks of their own. Both go line by line, so
lines that stay in an edited block come back as if nothing had been edited.
-/

namespace FormWeave

/-! ## 1. Lines -/

namespace Text

def withoutReturns (cs : List Char) : List Char := cs.filter (· != '\r')

/-- A line without the blanks at its start, but without `n` of them at most. -/
def dropBlanks : (n : Nat) → List Char → List Char
  | n + 1, c :: rest => if c == ' ' || c == '\t' then dropBlanks n rest else c :: rest
  | _, line => line

def unlines (lines : List (List Char)) : List Char := lines.flatMap (· ++ ['\n'])

theorem unlines_append (front back : List (List Char)) :
    unlines (front ++ back) = unlines front ++ unlines back := List.flatMap_append

theorem unlines_concat (front : List (List Char)) (line : List Char) :
    unlines (front ++ [line]) = unlines front ++ line ++ ['\n'] := by
  rw [unlines_append, List.append_assoc]
  exact congrArg _ (List.flatMap_singleton ..)

/-- Lines are found again, whatever stands behind them. -/
theorem split_unlines {lines : List (List Char)} (h : ∀ line ∈ lines, '\n' ∉ line)
    (rest : List Char) : split '\n' (unlines lines ++ rest) = lines ++ split '\n' rest := by
  induction lines with
  | nil => rfl
  | cons line lines ih =>
    rw [List.forall_mem_cons] at h
    have hcons : unlines (line :: lines) ++ rest = line ++ '\n' :: (unlines lines ++ rest) := by
      simp [unlines]
    rw [hcons, split_append h.1, ih h.2, List.cons_append]

theorem feed_not_mem_split {cs line : List Char} (h : line ∈ split '\n' cs) : '\n' ∉ line := by
  induction cs generalizing line with
  | nil =>
    rw [List.mem_singleton.1 h]
    exact List.not_mem_nil
  | cons c cs ih =>
    obtain ⟨piece, pieces, hsplit⟩ := List.exists_cons_of_ne_nil (split_ne_nil '\n' cs)
    rw [hsplit] at ih
    -- A feed starts a line of its own, any other character joins the first line.
    by_cases hfeed : c = '\n'
    · simp only [split, hfeed, beq_self_eq_true, if_true, hsplit] at h
      rcases List.mem_cons.1 h with rfl | h
      · exact List.not_mem_nil
      · exact ih h
    · simp only [split, beq_iff_eq, hfeed, if_false, hsplit] at h
      rcases List.mem_cons.1 h with rfl | h
      · exact fun hmem => (List.mem_cons.1 hmem).elim (Ne.symm hfeed) (ih List.mem_cons_self)
      · exact ih (List.mem_cons_of_mem _ h)

theorem mem_withoutReturns {cs : List Char} {c : Char} :
    c ∈ withoutReturns cs ↔ c ∈ cs ∧ c ≠ '\r' := by
  simp [withoutReturns]

theorem withoutReturns_unlines (lines : List (List Char)) :
    withoutReturns (unlines lines) = unlines (lines.map withoutReturns) := by
  induction lines with
  | nil => rfl
  | cons line rest ih =>
    rw [List.map_cons, unlines, List.flatMap_cons, withoutReturns, List.filter_append,
      List.filter_append]
    exact congrArg _ ih

end Text

open Text

/-! ## 2. Lines as they are written -/

namespace Writer

/-- The bytes of lines of code that are written at a level, each with its line feed. -/
def linesAt (depth : Int32) (lines : List (List Char)) : Bytes :=
  (lines.flatMap fun line => indentedLine (indentAt depth) line ++ ["\n"]).flatMap utf8

def margin (width : Nat) (line : List Char) : List Char :=
  if line.isEmpty || line.head? == some '#' then [] else List.replicate width ' '

/-- Half the width of the indentation at a level: it is not below zero and not above the widest. -/
def stepsAt (depth : Int32) : Nat := min depth.toInt.toNat 16

theorem indentAt_eq (depth : Int32) :
    indentAt depth = String.ofList (List.replicate (2 * stepsAt depth) ' ') := by
  have hwidth : min (2 * depth.toInt).toNat maxIndent = 2 * stepsAt depth := by
    unfold stepsAt maxIndent
    omega
  rw [indentAt, hwidth]

def withMargins (width : Nat) (lines : List (List Char)) : List Char :=
  unlines (lines.map fun line => margin width line ++ line)

theorem linesAt_eq (depth : Int32) (lines : List (List Char)) :
    linesAt depth lines =
      (withMargins (2 * stepsAt depth) lines).flatMap String.utf8EncodeChar := by
  have hline : ∀ line, (indentedLine (indentAt depth) line ++ ["\n"]).flatMap utf8 =
      (margin (2 * stepsAt depth) line ++ line ++ ['\n']).flatMap String.utf8EncodeChar := by
    intro line
    have hfeed : utf8 "\n" = ['\n'].flatMap String.utf8EncodeChar := rfl
    rw [indentAt_eq, indentedLine, margin, List.flatMap_append, List.flatMap_append,
      List.flatMap_singleton, hfeed]
    -- The lines that are written bare are the ones that have no margin.
    cases hempty : line.isEmpty with
    | true =>
      rw [List.isEmpty_iff.1 hempty]
      rfl
    | false =>
      cases hhash : line.head? == some '#' with
      | true =>
        simp only [Bool.false_eq_true, if_false, Bool.or_true, if_true, List.nil_append,
          List.flatMap_singleton, utf8_ofList]
      | false =>
        simp only [Bool.false_eq_true, if_false, Bool.or_false, List.flatMap_singleton,
          utf8_append, utf8_ofList, List.flatMap_append]
  rw [linesAt, List.flatMap_assoc, withMargins, unlines, List.flatMap_map, List.flatMap_assoc]
  exact List.flatMap_congr fun line _ => hline line

theorem linesAt_append (depth : Int32) (front back : List (List Char)) :
    linesAt depth (front ++ back) = linesAt depth front ++ linesAt depth back := by
  rw [linesAt, List.flatMap_append, List.flatMap_append]
  rfl

/-- What a text is written as is its lines. -/
theorem linesAt_split (depth : Int32) (text : String) :
    linesAt depth (split '\n' text.toList) =
      (indentedPieces (indentAt depth) (some '\n') (split '\n' text.toList)).flatMap utf8 := by
  rw [indentedPieces_feed _ (split_ne_nil '\n' text.toList)]
  rfl

end Writer

/-! ## 3. Lines as they come back -/

namespace Merge

open Writer (linesAt margin stepsAt withMargins)

/-- What is left of a line, of which `skipped` blanks were dropped if it has just begun. -/
def remains (skipped : Option Nat) (line : List Char) : List Char :=
  match skipped with
  | some n => dropBlanks (2 - n) (withoutReturns line)
  | none => withoutReturns line

/-- Characters are dropped or kept as a whole. -/
theorem unindentFrom_encode (skipped : Option Nat) (c : Char) (rest : Bytes) :
    unindentFrom skipped (String.utf8EncodeChar c ++ rest) =
      if c = '\r' then unindentFrom skipped rest
      else
        match skipped with
        | some n =>
          if n < 2 ∧ (c = ' ' ∨ c = '\t') then unindentFrom (some (n + 1)) rest
          else String.utf8EncodeChar c ++ unindentFrom (if c = '\n' then some 0 else none) rest
        | none =>
          String.utf8EncodeChar c ++ unindentFrom (if c = '\n' then some 0 else none) rest := by
  by_cases hc : c.toNat < 0x80
  · -- A byte that is a character of its own.
    have hbyte : ∀ d : Char, d.toNat < 0x80 →
        ((UInt8.ofNat c.toNat == UInt8.ofNat d.toNat) = true ↔ c = d) := by
      intro d hd
      rw [beq_iff_eq, ← UInt8.toNat_inj, Utf8.toNat_ofNat (by omega), Utf8.toNat_ofNat (by omega)]
      exact ⟨fun h => Char.toNat_inj.1 h, congrArg Char.toNat⟩
    have hreturn := hbyte '\r' (by decide)
    have hblank := hbyte ' ' (by decide)
    have htab := hbyte '\t' (by decide)
    have hfeed := hbyte '\n' (by decide)
    simp only [show UInt8.ofNat '\r'.toNat = 0x0d from rfl,
      show UInt8.ofNat ' '.toNat = 0x20 from rfl, show UInt8.ofNat '\t'.toNat = 0x09 from rfl,
      show UInt8.ofNat '\n'.toNat = 0x0a from rfl] at hreturn hblank htab hfeed
    rw [utf8EncodeChar_ascii hc, List.singleton_append]
    conv_lhs => unfold unindentFrom
    simp only [Bool.and_eq_true, Bool.or_eq_true, decide_eq_true_eq, hreturn, hblank, htab, hfeed]
    rfl
  · -- No byte of the character is one of those that are looked for.
    have hne : ∀ d : Char, d.toNat < 0x80 → c ≠ d := by
      rintro d hd rfl
      exact hc hd
    have hhigh := unindentFrom_high (fun b hb => Utf8.high_of_mem_encode (by omega) hb)
      (String.utf8EncodeChar_ne_nil (c := c)) skipped rest
    have hreturn := hne '\r' (by decide)
    have hblank := hne ' ' (by decide)
    have htab := hne '\t' (by decide)
    have hfeed := hne '\n' (by decide)
    rw [hhigh]
    cases skipped <;> simp [hreturn, hblank, htab, hfeed]

/-- A line loses its carriage returns and up to two blanks, and the next line is begun behind it. -/
theorem unindentFrom_line {line : List Char} (h : '\n' ∉ line) (rest : Bytes) :
    ∀ skipped, unindentFrom skipped (line.flatMap String.utf8EncodeChar ++ 0x0a :: rest) =
      (remains skipped line).flatMap String.utf8EncodeChar ++
        0x0a :: unindentFrom (some 0) rest := by
  induction line with
  | nil =>
    intro skipped
    cases skipped <;> simp [unindentFrom, remains, withoutReturns, dropBlanks]
  | cons c line ih =>
    have hc : c ≠ '\n' ∧ '\n' ∉ line := by simpa [eq_comm] using h
    intro skipped
    rw [List.flatMap_cons, List.append_assoc, unindentFrom_encode, if_neg hc.1]
    by_cases hreturn : c = '\r'
    · have hdrop : withoutReturns (c :: line) = withoutReturns line := by
        simp [withoutReturns, hreturn]
      rw [if_pos hreturn, ih hc.2]
      unfold remains
      rw [hdrop]
    have hkeep : withoutReturns (c :: line) = c :: withoutReturns line := by
      simp [withoutReturns, hreturn]
    rw [if_neg hreturn]
    cases skipped with
    | none =>
      simp only [ih hc.2, remains, hkeep, List.flatMap_cons, List.append_assoc]
    | some n =>
      dsimp only
      split
      · next hblank =>
        -- One blank less may be dropped behind this one.
        have hleft : 2 - n = (2 - (n + 1)) + 1 := by omega
        rw [ih hc.2, remains, remains, hkeep, hleft, dropBlanks, if_pos (by simpa using hblank.2)]
      · next hblank =>
        have hstop : dropBlanks (2 - n) (c :: withoutReturns line) = c :: withoutReturns line := by
          rcases hcount : 2 - n with _ | left
          · rfl
          · rw [dropBlanks, if_neg (by simpa using fun hd => hblank ⟨by omega, hd⟩)]
        rw [ih hc.2, remains, remains, hkeep, hstop, List.flatMap_cons, List.append_assoc]

/-- Complete lines are taken apart on their own. -/
theorem unindentFrom_append {front : Bytes} (h : Text.Complete front) (back : Bytes) :
    unindentFrom (some 0) (front ++ back) =
      unindentFrom (some 0) front ++ unindentFrom (some 0) back := by
  -- Whatever is skipped in front of it, a line feed starts a line of which nothing is skipped yet.
  have hfeed : ∀ bytes skipped, unindentFrom skipped (bytes ++ 0x0a :: back) =
      unindentFrom skipped (bytes ++ [0x0a]) ++ unindentFrom (some 0) back := by
    intro bytes
    induction bytes with
    | nil => intro skipped; cases skipped <;> simp [unindentFrom]
    | cons b rest ih =>
      intro skipped
      rw [List.cons_append, List.cons_append]
      rcases unindentFrom_cases skipped b with ⟨-, hb⟩ | ⟨n, -, -, hb⟩ | hb
      · rw [hb, hb, ih]
      · rw [hb, hb, ih]
      · rw [hb, hb, ih, List.cons_append]
  rcases List.eq_nil_or_concat' front with rfl | ⟨init, b, rfl⟩
  · rfl
  · rw [h b (by simp), List.append_assoc]
    exact hfeed init (some 0)

theorem unindentFrom_unlines {lines : List (List Char)} (h : ∀ line ∈ lines, '\n' ∉ line)
    (rest : Bytes) :
    unindentFrom (some 0) ((unlines lines).flatMap String.utf8EncodeChar ++ rest) =
      (unlines (lines.map (remains (some 0)))).flatMap String.utf8EncodeChar ++
        unindentFrom (some 0) rest := by
  induction lines with
  | nil => rfl
  | cons line lines ih =>
    rw [List.forall_mem_cons] at h
    have hbytes : ∀ (line : List Char) lines rest,
        (unlines (line :: lines)).flatMap String.utf8EncodeChar ++ rest =
          line.flatMap String.utf8EncodeChar ++
            0x0a :: ((unlines lines).flatMap String.utf8EncodeChar ++ rest) := by
      intro line lines rest
      simp [unlines, List.flatMap_append, show String.utf8EncodeChar '\n' = [0x0a] from rfl]
    rw [hbytes, unindentFrom_line h.1, ih h.2, List.map_cons, hbytes]

/-- What comes back of a line that is written `level` steps deep. At the first level it is the line,
below it the line without up to two blanks of its own, and above it the line with two blanks more
for each level. Carriage returns are lost at all levels. -/
def lineBack (level : Nat) (line : List Char) : List Char :=
  match level with
  | 0 => dropBlanks 2 (withoutReturns line)
  | n + 1 => margin (2 * n) line ++ withoutReturns line

theorem remains_margin (level : Nat) (line : List Char) :
    remains (some 0) (margin (2 * level) line ++ line) = lineBack level line := by
  show dropBlanks 2 (withoutReturns (margin (2 * level) line ++ line)) = _
  have hmargin : withoutReturns (margin (2 * level) line ++ line) =
      margin (2 * level) line ++ withoutReturns line := by
    unfold margin withoutReturns
    split
    · rfl
    · rw [List.filter_append, List.filter_replicate_of_pos (by decide)]
  rw [hmargin]
  cases level with
  | zero =>
    have hnone : margin (2 * 0) line = [] := by
      unfold margin
      split <;> rfl
    rw [hnone]
    rfl
  | succ n =>
    rw [lineBack]
    unfold margin
    split
    · next hbare =>
      -- There is no margin and no blank in the line that could be taken for it.
      rw [List.nil_append]
      cases line with
      | nil => rfl
      | cons c line =>
        have hhash : c = '#' := by simpa using hbare
        subst hhash
        rfl
    · rfl

theorem feed_not_mem_margin (width : Nat) (line : List Char) : '\n' ∉ margin width line := by
  unfold margin
  split
  · exact List.not_mem_nil
  · exact fun hmem => absurd (List.eq_of_mem_replicate hmem) (by decide)

/-- The lines of a block come back one by one. -/
theorem unindentFrom_linesAt (depth : Int32) {lines : List (List Char)}
    (h : ∀ line ∈ lines, '\n' ∉ line) (rest : Bytes) :
    unindentFrom (some 0) (linesAt depth lines ++ rest) =
      (unlines (lines.map (lineBack (stepsAt depth)))).flatMap String.utf8EncodeChar ++
        unindentFrom (some 0) rest := by
  have hfeed : ∀ line ∈ lines.map fun line => margin (2 * stepsAt depth) line ++ line,
      '\n' ∉ line := by
    intro written hwritten
    obtain ⟨line, hline, rfl⟩ := List.mem_map.1 hwritten
    rw [List.mem_append, not_or]
    exact ⟨feed_not_mem_margin _ line, h line hline⟩
  rw [Writer.linesAt_eq, withMargins, unindentFrom_unlines hfeed, List.map_map]
  exact congrArg (fun lines => (unlines lines).flatMap String.utf8EncodeChar ++ _)
    (List.map_congr_left fun line _ => remains_margin (stepsAt depth) line)

/-- What comes back of a block of lines. -/
theorem toList_unindent_linesAt (depth : Int32) {lines : List (List Char)}
    (h : ∀ line ∈ lines, '\n' ∉ line) :
    (unindent (linesAt depth lines)).toList =
      (unlines (lines.map (lineBack (stepsAt depth)))).rdropWhile (· == '\n') := by
  have hbytes := unindentFrom_linesAt depth h []
  rw [List.append_nil] at hbytes
  have hunindent : unindentBytes (linesAt depth lines) = utf8 (String.ofList
      ((unlines (lines.map (lineBack (stepsAt depth)))).rdropWhile (· == '\n'))) := by
    rw [utf8_ofList, ← rdropWhile_encode]
    show (unindentFrom (some 0) (linesAt depth lines)).rdropWhile (· == 0x0a) = _
    rw [hbytes]
    exact congrArg _ (List.append_nil _)
  rw [unindent, hunindent, Utf8.decodeLossy_utf8, String.toList_ofList]

/-! ## 4. Texts that come back as they were -/

/-- A text without carriage returns and without the line feeds at its end. -/
def settled (text : String) : List Char := (withoutReturns text.toList).rdropWhile (· == '\n')

/-- A line that loses and gains no blanks if it is written `level` steps deep. -/
def Restored (level : Nat) (line : List Char) : Prop :=
  match level with
  | 0 => ∀ c ∈ (withoutReturns line).head?, c ≠ ' ' ∧ c ≠ '\t'
  | 1 => True
  | _ + 2 => ∀ c ∈ line.head?, c = '#'

theorem dropBlanks_suffix (n : Nat) (cs : List Char) : dropBlanks n cs <:+ cs := by
  induction n generalizing cs with
  | zero => exact List.suffix_rfl
  | succ n ih =>
    cases cs with
    | nil => exact List.suffix_rfl
    | cons c cs =>
      rw [dropBlanks]
      split
      · exact (ih cs).trans (List.suffix_cons c cs)
      · exact List.suffix_rfl

theorem dropBlanks_eq_self_iff (n : Nat) (cs : List Char) :
    dropBlanks (n + 1) cs = cs ↔ ∀ c ∈ cs.head?, c ≠ ' ' ∧ c ≠ '\t' := by
  cases cs with
  | nil => simp [dropBlanks]
  | cons c cs =>
    rw [dropBlanks]
    split
    · next hblank =>
      have hshorter := (dropBlanks_suffix n cs).length_le
      constructor
      · intro h
        have hlength := congrArg List.length h
        rw [List.length_cons] at hlength
        omega
      · intro h
        have hc := h c rfl
        simp [hc.1, hc.2] at hblank
    · next hblank => simpa using hblank

theorem lineBack_eq_iff (level : Nat) (line : List Char) :
    lineBack level line = withoutReturns line ↔ Restored level line := by
  match level with
  | 0 => exact dropBlanks_eq_self_iff 1 _
  | 1 =>
    have hnone : margin (2 * 0) line = [] := by
      unfold margin
      split <;> rfl
    rw [lineBack, hnone]
    exact iff_of_true rfl trivial
  | n + 2 =>
    rw [lineBack, List.append_left_eq_self]
    cases line with
    | nil => exact iff_of_true rfl nofun
    | cons c line =>
      have hwide : List.replicate (2 * (n + 1)) ' ' ≠ [] := by simp
      by_cases hhash : c = '#'
      · simp [margin, Restored, hhash]
      · simp [margin, Restored, hhash]

/-- Line feeds at the end make no difference to how many other characters there are. -/
theorem countP_dropFeeds (cs : List Char) :
    (cs.rdropWhile (· == '\n')).countP (· != '\n') = cs.countP (· != '\n') := by
  induction cs using List.reverseRecOn with
  | nil => rfl
  | append_singleton init c ih =>
    by_cases hfeed : c = '\n'
    · subst hfeed
      rw [List.rdropWhile_concat_pos _ _ _ rfl, ih, List.countP_append]
      rfl
    · rw [List.rdropWhile_concat_neg _ _ _ (by simpa using hfeed)]

/-- If every line of a text is cut at its start and the text is the same, then nothing is cut. -/
theorem eq_of_unlines_eq {cut whole : List Char → List Char} {lines : List (List Char)}
    (hcut : ∀ line ∈ lines, cut line <:+ whole line) (hfeed : ∀ line ∈ lines, '\n' ∉ whole line)
    (h : (unlines (lines.map cut)).rdropWhile (· == '\n') =
      (unlines (lines.map whole)).rdropWhile (· == '\n')) :
    ∀ line ∈ lines, cut line = whole line := by
  have hcount := congrArg (List.countP (· != '\n')) h
  rw [countP_dropFeeds, countP_dropFeeds] at hcount
  clear h
  -- Line by line there can only be fewer characters, so there are as many in each.
  suffices hboth : (unlines (lines.map cut)).countP (· != '\n') ≤
      (unlines (lines.map whole)).countP (· != '\n') ∧
      ((unlines (lines.map cut)).countP (· != '\n') =
        (unlines (lines.map whole)).countP (· != '\n') → ∀ line ∈ lines, cut line = whole line) from
    hboth.2 hcount
  clear hcount
  induction lines with
  | nil => exact ⟨Nat.le_refl _, fun _ => nofun⟩
  | cons line rest ih =>
    rw [List.forall_mem_cons] at hcut hfeed
    obtain ⟨hle, heq⟩ := ih hcut.2 hfeed.2
    have hlength : ∀ cs : List Char, '\n' ∉ cs → cs.countP (· != '\n') = cs.length :=
      fun cs hcs => List.countP_eq_length.2 fun c hc => bne_iff_ne.2 fun hn => hcs (hn ▸ hc)
    have hwhole := hlength _ hfeed.1
    have hpart := hlength _ fun hmem => hfeed.1 (hcut.1.subset hmem)
    have hshorter := hcut.1.length_le
    have hcons : ∀ (part : List Char → List Char), (unlines ((line :: rest).map part)).countP
        (· != '\n') = (part line).countP (· != '\n') +
          (unlines (rest.map part)).countP (· != '\n') := by
      intro part
      rw [List.map_cons, unlines, List.flatMap_cons, List.countP_append, List.countP_append]
      rfl
    rw [hcons, hcons, hwhole, hpart]
    refine ⟨by omega, fun hsum => ?_⟩
    rw [List.forall_mem_cons]
    exact ⟨hcut.1.eq_of_length (by omega), heq (by omega)⟩

theorem feed_not_mem_withoutReturns {line : List Char} (h : '\n' ∉ line) :
    '\n' ∉ withoutReturns line := fun hmem => h (mem_withoutReturns.1 hmem).1

/-- A text comes back from its block just as it was, but for carriage returns and the line feeds at
its end, if and only if all its lines do. -/
theorem unindent_eq_settled_iff (depth : Int32) (text : String) :
    (unindent (linesAt depth (split '\n' text.toList))).toList = settled text ↔
      ∀ line ∈ split '\n' text.toList, Restored (stepsAt depth) line := by
  have hfeed : ∀ line ∈ split '\n' text.toList, '\n' ∉ line := fun line => feed_not_mem_split
  have hsettled : settled text =
      (unlines ((split '\n' text.toList).map withoutReturns)).rdropWhile (· == '\n') := by
    have hlines : withoutReturns (text.toList ++ ['\n']) = withoutReturns text.toList ++ ['\n'] :=
      List.filter_append ..
    rw [← withoutReturns_unlines, unlines, flatMap_split, hlines,
      List.rdropWhile_concat_pos _ _ _ rfl, settled]
  rw [toList_unindent_linesAt depth hfeed, hsettled]
  simp only [← lineBack_eq_iff]
  constructor
  · -- At level 0 what comes back is part of each line, and above it each line is part of that.
    intro h
    cases hsteps : stepsAt depth with
    | zero =>
      rw [hsteps] at h
      exact eq_of_unlines_eq (fun line _ => dropBlanks_suffix 2 _)
        (fun line hline => feed_not_mem_withoutReturns (hfeed line hline)) h
    | succ n =>
      rw [hsteps] at h
      have hwhole : ∀ line ∈ split '\n' text.toList, '\n' ∉ lineBack (n + 1) line := by
        intro line hline
        rw [lineBack, List.mem_append, not_or]
        exact ⟨feed_not_mem_margin _ _, feed_not_mem_withoutReturns (hfeed line hline)⟩
      have hback := eq_of_unlines_eq (fun line _ => List.suffix_append _ _) hwhole h.symm
      exact fun line hline => (hback line hline).symm
  · intro h
    rw [List.map_congr_left h]

end Merge

/-! ## 5. Lines that stay in an edited block -/

namespace Text

def trimFeeds (bytes : Bytes) : Bytes := bytes.rdropWhile (· == 0x0a)

def trimLines (lines : List (List Char)) : List (List Char) := lines.rdropWhile List.isEmpty

/-- A list of groups that follow one another, with something that `fits` between each two. -/
inductive Interleaved {α : Type} (fits : List α → Prop) : List (List α) → List α → Prop
  | last (group : List α) : Interleaved fits [group] group
  | more (group : List α) {fill rest : List α} {groups : List (List α)} (hfill : fits fill)
    (h : Interleaved fits groups rest) : Interleaved fits (group :: groups) (group ++ fill ++ rest)

theorem Interleaved.subset {α : Type} {fits : List α → Prop} {groups : List (List α)}
    {whole : List α} (h : Interleaved fits groups whole) : ∀ group ∈ groups, group ⊆ whole := by
  induction h with
  | last group => exact fun other hother => (List.mem_singleton.1 hother) ▸ fun _ => id
  | @more group fill rest groups _ _ ih =>
    rw [List.forall_mem_cons]
    refine ⟨fun a ha => ?_, fun other hother a ha => ?_⟩
    · exact List.mem_append_left _ (List.mem_append_left _ ha)
    · exact List.mem_append_right _ (ih other hother ha)

theorem split_concat_feed (cs : List Char) : split '\n' (cs ++ ['\n']) = split '\n' cs ++ [[]] := by
  have hfeed : ∀ line ∈ split '\n' cs, '\n' ∉ line := fun line => feed_not_mem_split
  have h := split_unlines hfeed []
  rwa [List.append_nil, unlines, flatMap_split] at h

/-- Line feeds at the end are read as empty lines at the end. -/
theorem trimLines_split_trimFeeds (bytes : Bytes) :
    trimLines (split '\n' (Utf8.decodeLossy (trimFeeds bytes)).toList) =
      trimLines (split '\n' (Utf8.decodeLossy bytes).toList) := by
  induction bytes using List.reverseRecOn with
  | nil => rfl
  | append_singleton init b ih =>
    by_cases hfeed : b = 0x0a
    · subst hfeed
      have hchar : Char.ofNat (0x0a : UInt8).toNat = '\n' := rfl
      rw [trimFeeds, List.rdropWhile_concat_pos _ _ _ rfl,
        Utf8.toList_decodeLossy_concat (by decide), hchar, split_concat_feed,
        trimLines, trimLines, List.rdropWhile_concat_pos _ _ _ rfl]
      exact ih
    · rw [trimFeeds, List.rdropWhile_concat_neg _ _ _ (by simpa using hfeed)]

end Text

/-- Behind complete lines the reading of a text starts anew. -/
theorem Utf8.toList_decodeLossy_complete {front : Bytes} (h : Text.Complete front) (back : Bytes) :
    (decodeLossy (front ++ back)).toList =
      (decodeLossy front).toList ++ (decodeLossy back).toList := by
  rcases List.eq_nil_or_concat' front with rfl | ⟨init, b, rfl⟩
  · rw [show decodeLossy [] = "" from decodeLossy_utf8 ""]
    rfl
  · rw [h b (by simp), toList_decodeLossy_concat (by decide), List.append_assoc,
      List.singleton_append, toList_decodeLossy_append (by decide), List.append_assoc]
    rfl

theorem Utf8.toList_decodeLossy_encode (cs : List Char) :
    (decodeLossy (cs.flatMap String.utf8EncodeChar)).toList = cs := by
  rw [← utf8_ofList, decodeLossy_utf8, String.toList_ofList]

theorem complete_encode_unlines (lines : List (List Char)) :
    Text.Complete ((unlines lines).flatMap String.utf8EncodeChar) := by
  rcases List.eq_nil_or_concat' lines with rfl | ⟨init, line, rfl⟩
  · exact Text.complete_nil
  · rw [unlines_concat, List.flatMap_append]
    exact Text.Complete.append_of_endsLine _ (show EndsLine "\n" by decide)

/-- Empty lines at the end are written as line feeds at the end. -/
theorem Writer.trimFeeds_linesAt (depth : Int32) (lines : List (List Char)) :
    trimFeeds (linesAt depth (trimLines lines)) = trimFeeds (linesAt depth lines) := by
  induction lines using List.reverseRecOn with
  | nil => rfl
  | append_singleton init line ih =>
    cases line with
    | nil =>
      have hlast : linesAt depth [[]] = [0x0a] := rfl
      have htrim : trimLines (init ++ [[]]) = trimLines init :=
        List.rdropWhile_concat_pos _ _ _ rfl
      rw [htrim, ih, linesAt_append, hlast, trimFeeds, trimFeeds,
        List.rdropWhile_concat_pos _ _ _ rfl]
    | cons c line => rw [trimLines, List.rdropWhile_concat_neg _ _ _ (by simp)]

namespace Merge

open Writer (linesAt stepsAt)

/-- A line that comes back just as it is when it is written at a level. -/
def Stays (depth : Int32) (line : List Char) : Prop := '\r' ∉ line ∧ Restored (stepsAt depth) line

theorem Stays.lineBack {depth : Int32} {line : List Char} (h : Stays depth line) :
    lineBack (stepsAt depth) line = line := by
  rw [(lineBack_eq_iff _ line).2 h.2]
  exact List.filter_eq_self.2 fun c hc => bne_iff_ne.2 fun hreturn => h.1 (hreturn ▸ hc)

/-- A block that holds `groups` with complete lines between them, but for empty lines at the end. -/
def Keeps (groups : List Bytes) (block : Bytes) : Prop :=
  ∃ whole, Interleaved Text.Complete groups whole ∧ trimFeeds block = trimFeeds whole

theorem keeps_linesAt (depth : Int32) {lines whole : List (List Char)}
    {groups : List (List (List Char))} (h : Interleaved (fun _ => True) groups whole)
    (hlines : trimLines lines = trimLines whole) :
    Keeps (groups.map (linesAt depth)) (linesAt depth lines) := by
  refine ⟨linesAt depth whole, ?_, ?_⟩
  · clear hlines
    induction h with
    | last group => exact .last _
    | @more group fill rest groups _ _ ih =>
      have hfill : Text.Complete (linesAt depth fill) := by
        rw [Writer.linesAt_eq]
        exact complete_encode_unlines _
      rw [Writer.linesAt_append, Writer.linesAt_append]
      exact .more _ hfill ih
  · rw [← Writer.trimFeeds_linesAt, hlines, Writer.trimFeeds_linesAt]

/-- Line feeds at the end of a block make no difference to its text. -/
theorem unindent_trimFeeds (block : Bytes) : unindent (trimFeeds block) = unindent block := by
  have hbytes : unindentBytes (trimFeeds block) = unindentBytes block := by
    induction block using List.reverseRecOn with
    | nil => rfl
    | append_singleton init b ih =>
      by_cases hfeed : b = 0x0a
      · subst hfeed
        have hmore : unindentBytes (init ++ [0x0a]) = unindentBytes init := by
          show (unindentFrom (some 0) (init ++ [0x0a])).rdropWhile (· == 0x0a) = _
          rw [unindentFrom_append_feed, List.rdropWhile_concat_pos _ _ _ rfl]
          rfl
        rw [hmore, ← ih, trimFeeds, List.rdropWhile_concat_pos _ _ _ rfl]
        rfl
      · rw [trimFeeds, List.rdropWhile_concat_neg _ _ _ (by simpa using hfeed)]
  rw [unindent, hbytes, unindent]

theorem unindentFrom_stays {depth : Int32} {group : List (List Char)}
    (hfeed : ∀ line ∈ group, '\n' ∉ line) (hstays : ∀ line ∈ group, Stays depth line)
    (rest : Bytes) : unindentFrom (some 0) (linesAt depth group ++ rest) =
      (unlines group).flatMap String.utf8EncodeChar ++ unindentFrom (some 0) rest := by
  have hkept : group.map (lineBack (stepsAt depth)) = group :=
    (List.map_congr_left fun line hline => (hstays line hline).lineBack).trans (List.map_id _)
  rw [unindentFrom_linesAt depth hfeed, hkept]

/-- Complete lines without their indentation are complete lines. -/
theorem exists_unlines_unindentFrom {lines : Bytes} (h : Text.Complete lines) :
    Text.Complete (unindentFrom (some 0) lines) ∧
      ∃ read, (Utf8.decodeLossy (unindentFrom (some 0) lines)).toList = unlines read ∧
        ∀ line ∈ read, '\n' ∉ line := by
  rcases List.eq_nil_or_concat' lines with rfl | ⟨init, b, rfl⟩
  · exact ⟨Text.complete_nil, [], Utf8.toList_decodeLossy_encode [], nofun⟩
  · rw [h b (by simp), unindentFrom_append_feed, Utf8.toList_decodeLossy_concat (by decide)]
    exact ⟨Text.Complete.append_of_endsLine _ (show EndsLine "\n" by decide),
      split '\n' (Utf8.decodeLossy (unindentFrom (some 0) init)).toList, (flatMap_split ..).symm,
      fun line => feed_not_mem_split⟩

theorem exists_lines_interleaved {depth : Int32} {groups : List (List (List Char))}
    (hfeed : ∀ group ∈ groups, ∀ line ∈ group, '\n' ∉ line)
    (hstays : ∀ group ∈ groups, ∀ line ∈ group, Stays depth line) {whole : Bytes}
    (h : Interleaved Text.Complete (groups.map (linesAt depth)) whole) :
    ∃ lines, Interleaved (fun _ => True) groups lines ∧ (∀ line ∈ lines, '\n' ∉ line) ∧
      (Utf8.decodeLossy (unindentFrom (some 0) whole)).toList = unlines lines := by
  induction groups generalizing whole with
  | nil => cases h
  | cons group groups ih =>
    rw [List.forall_mem_cons] at hfeed hstays
    have hgroup := unindentFrom_stays hfeed.1 hstays.1
    rw [List.map_cons] at h
    generalize hrest : groups.map (linesAt depth) = others at h ih
    -- A group, the lines behind it and the other groups are read apart, since all are complete.
    cases h with
    | last =>
      obtain rfl := List.map_eq_nil_iff.1 hrest
      have hwhole := hgroup []
      rw [List.append_nil] at hwhole
      refine ⟨group, .last group, hfeed.1, ?_⟩
      rw [hwhole]
      exact (congrArg (fun bytes => (Utf8.decodeLossy bytes).toList) (List.append_nil _)).trans
        (Utf8.toList_decodeLossy_encode _)
    | more _ hfill hmore =>
      obtain ⟨lines, hlines, hcomplete, hread⟩ := ih hfeed.2 hstays.2 hmore
      obtain ⟨hclosed, fill, hfillRead, hfillFeed⟩ := exists_unlines_unindentFrom hfill
      refine ⟨group ++ fill ++ lines, .more group trivial hlines, ?_, ?_⟩
      · simp only [List.forall_mem_append]
        exact ⟨⟨hfeed.1, hfillFeed⟩, hcomplete⟩
      · rw [List.append_assoc, hgroup, unindentFrom_append hfill,
          Utf8.toList_decodeLossy_complete (complete_encode_unlines group),
          Utf8.toList_decodeLossy_complete hclosed, Utf8.toList_decodeLossy_encode, hfillRead,
          hread, unlines_append, unlines_append, List.append_assoc]

/-- Groups of lines in a block come back as they are, whatever stands between them. -/
theorem exists_lines_unindent {depth : Int32} {groups : List (List (List Char))}
    (hfeed : ∀ group ∈ groups, ∀ line ∈ group, '\n' ∉ line)
    (hstays : ∀ group ∈ groups, ∀ line ∈ group, Stays depth line) {block : Bytes}
    (h : Keeps (groups.map (linesAt depth)) block) :
    ∃ lines, Interleaved (fun _ => True) groups lines ∧
      trimLines (split '\n' (unindent block).toList) = trimLines lines := by
  obtain ⟨whole, hwhole, hblock⟩ := h
  obtain ⟨lines, hlines, hlinesFeed, hread⟩ := exists_lines_interleaved hfeed hstays hwhole
  have hsplit := split_unlines hlinesFeed []
  have htrim : unindent whole = Utf8.decodeLossy (trimFeeds (unindentFrom (some 0) whole)) := rfl
  rw [List.append_nil] at hsplit
  refine ⟨lines, hlines, ?_⟩
  rw [← unindent_trimFeeds block, hblock, unindent_trimFeeds, htrim, trimLines_split_trimFeeds,
    hread, hsplit, trimLines]
  exact List.rdropWhile_concat_pos _ _ _ rfl

end Merge

end FormWeave
