import FormWeave.Proofs.CallRuns
import Mathlib.Data.List.DropRight

/-!
# Lines written once

Which calls were made decides which lines are written: a call for a line of the header writes it
unless an earlier one did, and a call for a line of the source unless it was asked for in either
file. Calls in dry runs do not count, and neither do calls in front of the last reset, which may
itself be part of a dry run. `Writer.Remembers` says that a writer knows these calls; one more call
keeps it.
-/

namespace FormWeave

/-! ## 1. Declarations -/

namespace Declarations

variable {known : Declarations} {scope : Scope} {line other : String}

theorem contains_claim_header :
    (known.claim scope line).2.contains .header other = true ↔
      known.contains .header other = true ∨ scope = .header ∧ other = line := by
  unfold claim
  split
  · next hknown =>
    refine ⟨.inl, fun h => h.elim id ?_⟩
    rintro ⟨rfl, rfl⟩
    exact hknown
  · cases scope with
    | header => simp [contains, or_comm]
    | source => simp [contains]

theorem contains_claim_source :
    (known.claim scope line).2.contains .source other = true ↔
      known.contains .source other = true ∨ other = line := by
  unfold claim
  split
  · next hknown =>
    refine ⟨.inl, fun h => h.elim id ?_⟩
    rintro rfl
    -- A line of the header can be seen in the source, too.
    cases scope with
    | header => exact Bool.or_eq_true_iff.2 (.inl hknown)
    | source => exact hknown
  · cases scope with
    | header => simp [contains, or_comm, or_assoc]
    | source => simp [contains, or_comm, or_left_comm]

theorem claim_fst : (known.claim scope line).1 = !known.contains scope line := by
  unfold claim
  cases known.contains scope line with
  | true => rfl
  | false => cases scope <;> rfl

end Declarations

def Writer.file (w : Writer) : Scope → Bytes
  | .header => w.header
  | .source => w.source

/-! ## 2. Calls that were made -/

namespace Call

def sinceReset (calls : List Call) : List Call := calls.rtakeWhile fun call => !call.clears

def once : Scope → String → Call
  | .header, line => .headerOnce line
  | .source, line => .sourceOnce line

/-- Whether a line that was asked for by `calls` can be seen in a file. The source includes the
header. -/
def Claimed (calls : List Call) : Scope → String → Prop
  | .header, line => .headerOnce line ∈ calls
  | .source, line => .headerOnce line ∈ calls ∨ .sourceOnce line ∈ calls

theorem sinceReset_append (calls : List Call) (call : Call) :
    sinceReset (calls ++ [call]) = if call.clears then [] else sinceReset calls ++ [call] := by
  rw [sinceReset, List.rtakeWhile_concat]
  cases call.clears <;> rfl

end Call

namespace Writer

variable {w w' w'' : Writer} {since : List Call}

/-! ## 3. Calls that have nothing to do with lines that are written once -/

structure SameLines (w w' : Writer) : Prop where
  dryRun : w'.dryRun = w.dryRun
  declarations : w'.declarations = w.declarations

theorem SameLines.refl (w : Writer) : w.SameLines w := ⟨rfl, rfl⟩

theorem SameLines.trans (h : w.SameLines w') (h' : w'.SameLines w'') : w.SameLines w'' :=
  ⟨h'.dryRun.trans h.dryRun, h'.declarations.trans h.declarations⟩

theorem sameLines_unlessDry {write : Writer → Writer} (h : w.SameLines (write w)) :
    w.SameLines (w.unlessDry write) := by
  unfold unlessDry
  split
  · exact ⟨rfl, rfl⟩
  · exact h

theorem sameLines_writeSource (w : Writer) (text : String) : w.SameLines (w.writeSource text) :=
  sameLines_unlessDry ⟨rfl, rfl⟩

theorem sameLines_writeHeader (w : Writer) (text : String) : w.SameLines (w.writeHeader text) := by
  unfold writeHeader
  split <;> exact ⟨rfl, rfl⟩

theorem sameLines_writeSources (pieces : List String) :
    ∀ w : Writer, w.SameLines (pieces.foldl writeSource w) := by
  induction pieces with
  | nil => exact .refl
  | cons piece rest ih =>
    intro w
    exact (w.sameLines_writeSource piece).trans (ih _)

theorem sameLines_writeLiteral (w : Writer) (data : Option Bytes) (unknownPreview : String)
    (longPreview : Nat → String) (unknown unknownLiteral : String) (literal : Bytes → Bytes) :
    w.SameLines
      (w.writeLiteral data unknownPreview longPreview unknown unknownLiteral literal) := by
  refine sameLines_unlessDry ?_
  cases data with
  | none => dsimp only; split <;> exact ⟨rfl, rfl⟩
  | some bytes => dsimp only; split <;> exact ⟨rfl, rfl⟩

theorem sameLines_writeTag (w : Writer) (kind : TagKind) (id : NodeId) :
    w.SameLines (w.writeTag kind id) := by
  unfold writeTag
  split
  · exact .refl w
  · dsimp only
    split <;> exact ⟨rfl, rfl⟩

theorem sameLines_writeAccess (w : Writer) (level : Visibility) :
    w.SameLines (w.writeAccess level) := by
  unfold writeAccess
  split
  · exact .refl w
  split
  · exact .refl w
  split
  · exact .refl w
  · exact ⟨(sameLines_writeHeader _ _).dryRun, (sameLines_writeHeader _ _).declarations⟩

/-! ## 4. What a writer remembers -/

/-- A writer that is not in a dry run and knows the lines that were asked for by `since`. -/
structure Remembers (w : Writer) (since : List Call) : Prop where
  live : w.dryRun = false
  known : ∀ scope line, w.declarations.contains scope line = true ↔ Call.Claimed since scope line

/-- A call that asks for no line adds nothing to what is remembered. -/
theorem Remembers.same (h : w.Remembers since) (hw : w.SameLines w') {call : Call}
    (hcall : ∀ scope line, call ≠ .once scope line) : w'.Remembers (since ++ [call]) where
  live := hw.dryRun.trans h.live
  known scope line := by
    have hheader : Call.headerOnce line ≠ call := (hcall .header line).symm
    have hsource : Call.sourceOnce line ≠ call := (hcall .source line).symm
    rw [hw.declarations, h.known]
    cases scope <;> simp [Call.Claimed, hheader, hsource]

/-- Behind a reset nothing is remembered. -/
theorem Remembers.nothing (hlive : w.dryRun = false) (hlines : w.declarations = {}) :
    w.Remembers [] where
  live := hlive
  known scope line := by
    rw [hlines]
    cases scope <;> simp [Declarations.contains, Call.Claimed]

theorem file_putHeader (w : Writer) (bytes : Bytes) (scope : Scope) :
    (w.putHeader bytes).file scope = w.file scope ++ (if scope = .header then bytes else []) := by
  cases scope <;> simp [file, header, source, putHeader, Chunk.headerBytes, Chunk.sourceBytes]

theorem file_putSource (w : Writer) (bytes : Bytes) (scope : Scope) :
    (w.putSource bytes).file scope = w.file scope ++ (if scope = .source then bytes else []) := by
  cases scope <;> simp [file, header, source, putSource, Chunk.headerBytes, Chunk.sourceBytes]

/-- `w'` has claimed a line for a file, and written it if the line was `isNew` there. -/
structure Claims (w : Writer) (scope : Scope) (line : String) (isNew : Bool) (w' : Writer) :
    Prop where
  answer : isNew = !w.declarations.contains scope line
  dryRun : w'.dryRun = w.dryRun
  declarations : w'.declarations = (w.declarations.claim scope line).2
  file : ∀ other, w'.file other =
    w.file other ++ (if isNew = true ∧ other = scope then utf8 line ++ utf8 "\n" else [])

/-- Claiming a line, and putting it to the file if it is new. -/
theorem claimed_put {scope : Scope} {put : Writer → Bytes → Writer}
    (hlines : ∀ w bytes, SameLines w (put w bytes))
    (hfile : ∀ w bytes other, file (put w bytes) other =
      file w other ++ (if other = scope then bytes else []))
    (w : Writer) (line : String) :
    let claim := w.declarations.claim scope line
    let known := { w with declarations := claim.2 }
    w.Claims scope line claim.1
      (if claim.1 then put (put known (utf8 line)) (utf8 "\n") else known) := by
  intro claim known
  have hclaim : claim.1 = !w.declarations.contains scope line := Declarations.claim_fst
  cases hnew : claim.1 with
  | false =>
    refine ⟨hnew ▸ hclaim, rfl, rfl, fun other => ?_⟩
    simp [known, file, header, source]
  | true =>
    have hput := (hlines known (utf8 line)).trans (hlines _ (utf8 "\n"))
    refine ⟨hnew ▸ hclaim, hput.dryRun, hput.declarations, fun other => ?_⟩
    have hknown : known.file other = w.file other := rfl
    rw [if_pos rfl, hfile, hfile, hknown]
    by_cases hother : other = scope <;> simp [hother]

/-- A call for a line writes it and says so, unless it can be seen in the file. -/
theorem run_once (hlive : w.dryRun = false) (scope : Scope) (line : String) :
    ∃ isNew w', (Call.once scope line).run w = (.ok (.flag isNew), w') ∧
      w.Claims scope line isNew w' := by
  have hwrite : ¬ w.dryRun = true := by rw [hlive]; exact Bool.false_ne_true
  cases scope with
  | header =>
    refine ⟨_, _, ?_, @claimed_put .header putHeader (fun _ _ => ⟨rfl, rfl⟩) file_putHeader w line⟩
    show (Except.ok (Reply.flag (w.writeHeaderOnce line).1), (w.writeHeaderOnce line).2) = _
    rw [writeHeaderOnce, if_neg hwrite]
    dsimp only
    cases (w.declarations.claim .header line).1 <;> rfl
  | source =>
    refine ⟨_, _, ?_, @claimed_put .source putSource (fun _ _ => ⟨rfl, rfl⟩) file_putSource w line⟩
    show (Except.ok (Reply.flag (w.writeSourceOnce line).1), (w.writeSourceOnce line).2) = _
    rw [writeSourceOnce, if_neg hwrite]
    dsimp only
    cases (w.declarations.claim .source line).1 <;> rfl

theorem Remembers.claims (h : w.Remembers since) {scope : Scope} {line : String} {isNew : Bool}
    (hw : w.Claims scope line isNew w') : w'.Remembers (since ++ [.once scope line]) where
  live := hw.dryRun.trans h.live
  known other text := by
    rw [hw.declarations]
    cases other with
    | header =>
      rw [Declarations.contains_claim_header, h.known]
      cases scope <;> simp [Call.Claimed, Call.once]
    | source =>
      rw [Declarations.contains_claim_source, h.known]
      cases scope <;> simp [Call.Claimed, Call.once, or_assoc, or_comm, or_left_comm]

/-- A call that asks for no line and resets nothing leaves the lines alone. -/
theorem sameLines_run {call : Call} (honce : ∀ scope line, call ≠ .once scope line)
    (hkept : call.clears = false) (w : Writer) : w.SameLines (call.run w).2 := by
  cases call with
  | headerOnce line => exact absurd rfl (honce .header line)
  | sourceOnce line => exact absurd rfl (honce .source line)
  | reset => cases hkept
  | dryRun calls =>
    have hdry := Call.untouched_dryRun calls w
    rw [show Call.anyClears calls = false from hkept] at hdry
    exact ⟨hdry.dryRun, hdry.declarations⟩
  | source text => exact w.sameLines_writeSource text
  | sourceStatement lead code comment => exact w.sameLines_writeSource _
  | header text => exact w.sameLines_writeHeader text
  | headerStatement lead code comment => exact w.sameLines_writeHeader _
  | indented text extra trail => exact sameLines_writeSources _ w
  | quoted data =>
    show w.SameLines (w.writeQuoted data)
    exact w.sameLines_writeLiteral ..
  | initializer data =>
    show w.SameLines (w.writeInitializer data)
    exact w.sameLines_writeLiteral ..
  | tag kind id => exact w.sameLines_writeTag kind id
  | access level => exact w.sameLines_writeAccess level
  | uniqueId | seen | indentMore | indentLess | setIndentation | indent | indentPlus | enterClass
  | leaveClass | currentClass | flags | fail => exact ⟨rfl, rfl⟩

/-- A call that comes to reset the writer makes it forget the lines. -/
theorem Remembers.forget (h : w.Remembers since) {call : Call} (hclears : call.clears = true) :
    (call.run w).2.Remembers [] := by
  cases call with
  | reset => exact .nothing h.live rfl
  | dryRun calls =>
    have hdry := Call.untouched_dryRun calls w
    rw [show Call.anyClears calls = true from hclears] at hdry
    exact .nothing (hdry.dryRun.trans h.live) hdry.declarations
  | _ => cases hclears

/-- One more call is remembered, or everything in front of it is forgotten. -/
theorem Remembers.run (h : w.Remembers since) (call : Call) :
    (call.run w).2.Remembers (if call.clears then [] else since ++ [call]) := by
  by_cases honce : ∃ scope line, call = .once scope line
  · obtain ⟨scope, line, rfl⟩ := honce
    obtain ⟨isNew, w', hrun, hclaims⟩ := run_once h.live scope line
    have hkept : (Call.once scope line).clears = false := by cases scope <;> rfl
    rw [hrun, hkept]
    exact h.claims hclaims
  · cases hclears : call.clears with
    | true => exact h.forget hclears
    | false =>
      have hother : ∀ scope line, call ≠ .once scope line :=
        fun scope line heq => honce ⟨scope, line, heq⟩
      exact h.same (sameLines_run hother hclears w) hother

/-- A new writer remembers the calls since the last reset. -/
theorem remembers_after (settings : Settings) (preview : Bool) (calls : List Call) :
    (after { settings, preview } calls).Remembers (Call.sinceReset calls) := by
  induction calls using List.reverseRecOn with
  | nil => exact .nothing rfl rfl
  | append_singleton front call ih =>
    rw [after_append, Call.sinceReset_append]
    exact ih.run call

/-! ## 5. Lines in a run -/

/-- What a call for a line does depends on the calls since the last reset. -/
theorem Remembers.once (h : w.Remembers since) (scope : Scope) (line : String) :
    ∃ isNew w', (Call.once scope line).run w = (.ok (.flag isNew), w') ∧
      (isNew = true ↔ ¬ Call.Claimed since scope line) ∧
      ∀ file, w'.file file =
        w.file file ++ (if isNew = true ∧ file = scope then utf8 line ++ utf8 "\n" else []) := by
  obtain ⟨isNew, w', hrun, hclaims⟩ := run_once h.live scope line
  refine ⟨isNew, w', hrun, ?_, hclaims.file⟩
  rw [hclaims.answer, ← h.known]
  simp

/-- A call for a line that was not asked for writes it. -/
theorem Remembers.once_new (h : w.Remembers since) {scope : Scope} {line : String}
    (hnew : ¬ Call.Claimed since scope line) :
    ((Call.once scope line).run w).1 = .ok (.flag true) := by
  obtain ⟨isNew, w', hrun, hiff, -⟩ := h.once scope line
  rw [hrun, hiff.2 hnew]

/-- In any run of calls, a line is written to a file, with a line feed, exactly if no call since the
last reset has asked for it where it can be seen from there. Nothing else is written to either file.
So a line that was only tried in a dry run is written, and a line of the source does not stand in
the way of the same line in the header. -/
theorem once_lines (settings : Settings) (preview : Bool) (calls : List Call) (scope : Scope)
    (line : String) :
    let w : Writer := after { settings, preview } calls
    let since := Call.sinceReset calls
    (∃ isNew w', (Call.once scope line).run w = (.ok (.flag isNew), w') ∧
      (isNew = true ↔ ¬ Call.Claimed since scope line) ∧
      ∀ file, w'.file file =
        w.file file ++ (if isNew = true ∧ file = scope then utf8 line ++ utf8 "\n" else [])) ∧
    (¬ Call.Claimed since scope line → ∀ tried : List Call,
      ((Call.once scope line).run (w.after [.dryRun tried])).1 = .ok (.flag true)) ∧
    (¬ Call.Claimed since .header line →
      ((Call.once .header line).run (w.after [.once .source line])).1 = .ok (.flag true)) := by
  intro w since
  have hw : w.Remembers since := remembers_after settings preview calls
  refine ⟨hw.once scope line, fun hnew tried => ?_, fun hnew => ?_⟩
  · have hbehind := hw.run (.dryRun tried)
    refine hbehind.once_new fun hclaimed => ?_
    -- The dry run is not a call for a line itself, whatever it tries.
    split at hclaimed
    · cases scope <;> simp [Call.Claimed] at hclaimed
    · cases scope <;> exact hnew (by simpa [Call.Claimed] using hclaimed)
  · have hbehind := hw.run (.once .source line)
    refine hbehind.once_new fun hclaimed => hnew ?_
    simpa [Call.Claimed, Call.once, Call.clears] using hclaimed

/-- A line of the source, tried in a dry run, then asked for in the source, in the header and in the
source again; a reset within a dry run lets it be written once more. -/
example :
    let line : Call := .sourceOnce "#include <a.h>"
    let calls : List Call := [.dryRun [line], line, .headerOnce "#include <a.h>", line,
      .dryRun [.reset, .fail], line]
    (after { settings := {} } calls).source = utf8 "#include <a.h>\n#include <a.h>\n" := by
  decide

end Writer

end FormWeave
