import Mathlib.Data.List.DropRight
import Mathlib.Logic.Relation
import FormWeave.Proofs.CountedBytes

/-!
# The normal form of a text

A checksum takes its bytes one at a time and in chunks. Its value is said here without a state: a text
has a normal form, made line by line, and the checksum is the CRC-32 of the normal form of what was
added since the last reset. So chunks make no difference, and neither does layout.
-/

namespace FormWeave

namespace Text

variable {α : Type} [BEq α] [LawfulBEq α] {sep : α} {piece : List α}

theorem split_of_not_mem (h : sep ∉ piece) : split sep piece = [piece] := by
  induction piece with
  | nil => rfl
  | cons x rest ih =>
    obtain ⟨hx, hrest⟩ := not_or.1 (mt List.mem_cons.2 h)
    simp [split, Ne.symm hx, ih hrest]

/-- The first piece ends in front of the first separator. -/
theorem split_append (h : sep ∉ piece) (back : List α) :
    split sep (piece ++ sep :: back) = piece :: split sep back := by
  induction piece with
  | nil => simp [split]
  | cons x rest ih =>
    obtain ⟨hx, hrest⟩ := not_or.1 (mt List.mem_cons.2 h)
    simp [split, Ne.symm hx, ih hrest]

end Text

namespace Checksum

/-! ## 1. The normal form -/

def isLead (byte : UInt8) : Bool := isSpace byte || byte == 0

/-- The normal form of a line without its line feed. In front of the first byte that is neither white
space nor NUL only the NULs are kept, and behind it all but carriage returns. -/
def normalBody (body : Bytes) : Bytes :=
  (body.takeWhile isLead).filter (· == 0) ++ (body.dropWhile isLead).filter (· != 0x0d)

/-- A line feed is kept if anything else than white space and NULs was kept of its line. -/
def normalEnd (body : Bytes) : Bytes :=
  if (normalBody body).any fun byte => !isLead byte then [0x0a] else []

def normalLines : List Bytes → Bytes
  | [] => []
  | [last] => normalBody last
  | body :: rest => normalBody body ++ normalEnd body ++ normalLines rest

def normalForm (text : Bytes) : Bytes := normalLines (Text.split 0x0a text)

/-! ## 2. One line -/

/-- White space and NULs do not begin a line, and of them the NULs count. -/
theorem counted_lead {front : Bytes} (h : ∀ b ∈ front, isLead b = true) (back : Bytes) :
    counted true (front ++ back) = front.filter (· == 0) ++ counted true back := by
  induction front with
  | nil => rfl
  | cons b rest ih =>
    have hrest := ih fun c hc => h c (List.mem_cons_of_mem _ hc)
    rw [List.cons_append]
    rcases Bool.or_eq_true_iff.1 (h b List.mem_cons_self) with hspace | hzero
    · have hkept : ¬ (b == 0) = true := by
        intro hzero
        rw [beq_iff_eq.1 hzero] at hspace
        cases hspace
      rw [counted_space hspace, hrest, List.filter_cons, if_neg hkept]
    · obtain rfl := beq_iff_eq.1 hzero
      have hcounted : counted true (0 :: (rest ++ back)) = 0 :: counted true (rest ++ back) := rfl
      rw [hcounted, hrest, List.filter_cons, if_pos hzero, List.cons_append]

/-- The first byte that is neither white space nor NUL begins the line. -/
theorem counted_first {b : UInt8} (h : isLead b = false) (back : Bytes) :
    counted true (b :: back) = b :: counted false back := by
  obtain ⟨hspace, hzero⟩ := Bool.or_eq_false_iff.1 h
  have hreturn : (b == 0x0d) = false := by
    rw [beq_eq_false_iff_ne]
    rintro rfl
    cases hspace
  have hfeed : (b == 0x0a) = false := by
    rw [beq_eq_false_iff_ne]
    rintro rfl
    cases hspace
  simp [counted, hspace, hreturn, hfeed, hzero]

/-- On a line that has begun, all but carriage returns count. -/
theorem counted_begun {body : Bytes} (h : 0x0a ∉ body) (back : Bytes) :
    counted false (body ++ back) = body.filter (· != 0x0d) ++ counted false back := by
  induction body with
  | nil => rfl
  | cons b rest ih =>
    obtain ⟨hfeed, hrest⟩ := not_or.1 (mt List.mem_cons.2 h)
    rw [List.cons_append]
    by_cases hreturn : b = 0x0d
    · subst hreturn
      rw [counted_return, ih hrest]
      rfl
    · have hfeed' : (b == 0x0a) = false := beq_eq_false_iff_ne.2 (Ne.symm hfeed)
      have hcounted : counted false (b :: (rest ++ back)) = b :: counted false (rest ++ back) := by
        simp [counted, hreturn, hfeed']
      rw [hcounted, ih hrest, List.filter_cons, if_pos (by simpa using hreturn), List.cons_append]

theorem isLead_of_mem_takeWhile {body : Bytes} : ∀ b ∈ body.takeWhile isLead, isLead b = true :=
  fun _ hb => List.mem_takeWhile_imp hb

/-- Of a line that has not begun nothing but NULs is kept. -/
theorem normalBody_lead {body : Bytes} (h : body.dropWhile isLead = []) :
    (∀ b ∈ body, isLead b = true) ∧ normalBody body = body.filter (· == 0) ∧
      normalEnd body = [] := by
  have hall : ∀ b ∈ body, isLead b = true := List.dropWhile_eq_nil_iff.1 h
  have hbody : normalBody body = body.filter (· == 0) := by
    rw [normalBody, h, List.takeWhile_eq_self_iff.2 hall]
    exact List.append_nil _
  refine ⟨hall, hbody, ?_⟩
  rw [normalEnd, hbody, if_neg]
  rw [Bool.not_eq_true, List.any_eq_false]
  intro b hb
  simp [hall b (List.mem_of_mem_filter hb)]

/-- Of a line that has begun at least the byte that begins it is kept, and so is its line feed. -/
theorem normalBody_begun {body more : Bytes} {b : UInt8} (h : body.dropWhile isLead = b :: more) :
    isLead b = false ∧
      normalBody body = (body.takeWhile isLead).filter (· == 0) ++ b :: more.filter (· != 0x0d) ∧
      normalEnd body = [0x0a] := by
  have hb : isLead b = false := by
    have hhead := List.head?_dropWhile_not isLead body
    rw [h] at hhead
    exact hhead
  have hkept : (b != 0x0d) = true := by
    rw [bne_iff_ne]
    rintro rfl
    cases hb
  have hbody : normalBody body =
      (body.takeWhile isLead).filter (· == 0) ++ b :: more.filter (· != 0x0d) := by
    rw [normalBody, h, List.filter_cons, if_pos hkept]
  refine ⟨hb, hbody, ?_⟩
  rw [normalEnd, hbody, if_pos]
  simp [hb]

/-- What counts of a line, without its line feed and with it. -/
theorem counted_body {body : Bytes} (h : 0x0a ∉ body) :
    counted true body = normalBody body ∧
      counted true (body ++ [0x0a]) = normalBody body ++ normalEnd body := by
  have hlead := @isLead_of_mem_takeWhile body
  cases hrest : body.dropWhile isLead with
  | nil =>
    obtain ⟨hall, hbody, hend⟩ := normalBody_lead hrest
    rw [hbody, hend]
    refine ⟨?_, ?_⟩
    · have := counted_lead hall []
      simpa [counted] using this
    · exact counted_lead hall [0x0a]
  | cons b more =>
    obtain ⟨hb, hbody, hend⟩ := normalBody_begun hrest
    have hsplit : body = body.takeWhile isLead ++ b :: more := by
      rw [← hrest, List.takeWhile_append_dropWhile]
    have hmore : (0x0a : UInt8) ∉ more := fun hmem =>
      h (by rw [hsplit]; exact List.mem_append_right _ (List.mem_cons_of_mem _ hmem))
    have hcounted : ∀ back, counted true (body ++ back) = normalBody body ++ counted false back := by
      intro back
      conv_lhs => rw [hsplit]
      rw [hbody, List.append_assoc, List.cons_append, counted_lead hlead, counted_first hb,
        counted_begun hmore, List.append_assoc, List.cons_append]
    rw [hend]
    refine ⟨?_, hcounted [0x0a]⟩
    have := hcounted []
    simpa [counted] using this

/-! ## 3. All lines -/

/-- What counts of a text is its normal form. -/
theorem counted_eq_normalForm (text : Bytes) : counted true text = normalForm text := by
  induction hsize : text.length using Nat.strongRecOn generalizing text with
  | ind size ih =>
    by_cases h : 0x0a ∈ text
    · -- The first line counts on its own, and the lines behind it are a shorter text.
      obtain ⟨body, back, rfl, hbody⟩ := List.eq_append_cons_of_mem h
      have hback : back.length < size := by
        rw [← hsize, List.length_append, List.length_cons]
        omega
      obtain ⟨piece, pieces, hpieces⟩ :=
        List.exists_cons_of_ne_nil (Text.split_ne_nil (0x0a : UInt8) back)
      have hnormal : normalForm (body ++ 0x0a :: back) =
          normalBody body ++ normalEnd body ++ normalForm back := by
        rw [normalForm, normalForm, Text.split_append hbody, hpieces, normalLines]
        exact nofun
      rw [hnormal, ← ih _ hback back rfl, ← (counted_body hbody).2]
      exact counted_line body back true
    · rw [normalForm, Text.split_of_not_mem h, normalLines]
      exact (counted_body h).1

/-! ## 4. Calls -/

inductive Running.Call
  | add (chunk : Bytes)
  /-- Back to the start, at the start of a line. -/
  | reset

namespace Running

def Call.chunk : Call → Bytes
  | add chunk => chunk
  | reset => []

def Call.isReset : Call → Bool
  | add _ => false
  | reset => true

def after (sum : Running) : Call → Running
  | .add chunk => sum.add chunk
  | .reset => {}

def behind (calls : List Call) : Running := calls.foldl after {}

end Running

def sinceReset (calls : List Running.Call) : Bytes :=
  (calls.rtakeWhile fun call => !call.isReset).flatMap Running.Call.chunk

/-- The state depends on nothing but the bytes since the last reset. -/
theorem behind_eq_add (calls : List Running.Call) :
    Running.behind calls = ({} : Running).add (sinceReset calls) := by
  induction calls using List.reverseRecOn with
  | nil => rfl
  | append_singleton front call ih =>
    have hlast : Running.behind (front ++ [call]) = (Running.behind front).after call :=
      List.foldl_concat ..
    rw [hlast]
    cases call with
    | add chunk =>
      rw [sinceReset, List.rtakeWhile_concat_pos _ _ _ rfl, List.flatMap_append, ← sinceReset,
        Running.add_append, ← ih, List.flatMap_singleton]
      rfl
    | reset =>
      rw [sinceReset, List.rtakeWhile_concat_neg _ _ _ (by decide)]
      rfl

/-! ## 5. Layout -/

/-- One change to the layout of a text. -/
inductive LayoutChange : Bytes → Bytes → Prop
  /-- White space at the start of a line: more indentation, or lines without anything else. -/
  | blanks {front : Bytes} (hfront : Text.Complete front) {blanks : Bytes}
      (hblanks : ∀ b ∈ blanks, isSpace b = true) (back : Bytes) :
      LayoutChange (front ++ back) (front ++ (blanks ++ back))
  | carriageReturn (front back : Bytes) : LayoutChange (front ++ back) (front ++ 0x0d :: back)

theorem LayoutChange.counted_eq {text text' : Bytes} (h : LayoutChange text text') :
    counted true text = counted true text' := by
  cases h with
  | blanks hfront hblanks back =>
    rw [counted_append hfront, counted_append hfront, counted_spaces hblanks]
  | carriageReturn front back =>
    have hany : ∀ atLineStart, counted atLineStart (front ++ back) =
        counted atLineStart (front ++ 0x0d :: back) := by
      induction front with
      | nil => exact fun atLineStart => (counted_return atLineStart back).symm
      | cons b rest ih => exact fun atLineStart => counted_cons_congr atLineStart b ih
    exact hany true

/-- Texts that differ in their layout only. -/
def SameLines : Bytes → Bytes → Prop := Relation.EqvGen LayoutChange

theorem SameLines.counted_eq {text text' : Bytes} (h : SameLines text text') :
    counted true text = counted true text' := by
  induction h with
  | rel _ _ hchange => exact hchange.counted_eq
  | refl => rfl
  | symm _ _ _ ih => exact ih.symm
  | trans _ _ _ _ _ ih ih' => exact ih.trans ih'

/-- The value behind any calls is the CRC-32 of the normal form of the bytes since the last reset. It
is the same behind other calls if the bytes since their last reset differ in layout only. -/
theorem value_behind (calls : List Running.Call) :
    (Running.behind calls).value = Crc32.ofBytes (normalForm (sinceReset calls)) ∧
      ∀ calls', SameLines (sinceReset calls) (sinceReset calls') →
        (Running.behind calls').value = (Running.behind calls).value := by
  have hvalue : ∀ calls, (Running.behind calls).value =
      Crc32.ofBytes (counted true (sinceReset calls)) := by
    intro calls
    rw [behind_eq_add]
    exact ofBlock_eq (sinceReset calls)
  refine ⟨?_, fun calls' hsame => ?_⟩
  · rw [hvalue, counted_eq_normalForm]
  · rw [hvalue, hvalue, hsame.counted_eq]

/-- A line in two chunks, and the same line indented, with a blank line and a carriage return. -/
theorem value_behind_reformatted :
    let calls : List Running.Call := [.add (utf8 "x"), .reset, .add (utf8 "a("), .add (utf8 ");\n")]
    let calls' : List Running.Call := [.add (utf8 "\n\ta();\r\n")]
    normalForm (utf8 "a();\n") = utf8 "a();\n" ∧
      (Running.behind calls').value = (Running.behind calls).value := by
  have hblanks : LayoutChange ([] ++ utf8 "a();\n") ([] ++ (utf8 "\n\t" ++ utf8 "a();\n")) :=
    .blanks Text.complete_nil (by decide +kernel) _
  have hreturn := LayoutChange.carriageReturn (utf8 "\n\ta();") (utf8 "\n")
  refine ⟨by decide, (value_behind _).2 _ ?_⟩
  exact .trans _ _ _ (.rel _ _ hblanks) (.rel _ _ hreturn)

end Checksum

end FormWeave
