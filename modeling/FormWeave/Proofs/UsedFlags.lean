import FormWeave.Proofs.CallRuns

/-!
# What a dry run notes

A dry run answers whether its calls would write to the source. Each call that is an attempt to do so
is noted, whatever comes of it later, but for tags: these are left out of dry runs without a note.
What is tried in a dry run within it is noted there and forgotten behind it.
-/

namespace FormWeave

namespace Writer

/-! ## 1. Indented text -/

theorem indentedPieces_eq_nil {indent : String} {trail : Option Char} {line : List Char}
    {lines : List (List Char)} :
    indentedPieces indent trail (line :: lines) = [] ↔ line = [] ∧ lines = [] ∧ trail = none := by
  cases lines with
  | nil => cases line <;> cases trail <;> simp [indentedPieces, indentedLine]; split <;> simp
  | cons next rest => simp [indentedPieces]

/-- There is nothing to write only if there is neither text nor a trail. -/
theorem indentedPieces_split {indent : String} {trail : Option Char} {text : List Char} :
    indentedPieces indent trail (Text.split '\n' text) = [] ↔ text = [] ∧ trail = none := by
  cases text with
  | nil => simp [Text.split, indentedPieces_eq_nil]
  | cons c rest =>
    have hne := Text.split_ne_nil '\n' rest
    rw [Text.split]
    split
    · simp [indentedPieces_eq_nil, hne]
    · split <;> simp [indentedPieces_eq_nil]

theorem sourceUsed_writeSources (pieces : List String) :
    ∀ {w : Writer}, w.dryRun = true →
      (pieces.foldl writeSource w).sourceUsed = (w.sourceUsed || !pieces.isEmpty) := by
  induction pieces with
  | nil => exact fun _ => (Bool.or_false _).symm
  | cons piece rest ih =>
    intro w hdry
    have hnoted : w.markUsed.dryRun = true := hdry
    rw [List.foldl_cons, writeSource_dry hdry, ih hnoted]
    exact (Bool.or_true _).symm

theorem sourceUsed_writeIndented {w : Writer} (hdry : w.dryRun = true) (text : String)
    (extra : Int32) (trail : Option Char) :
    (w.writeIndented text extra trail).sourceUsed =
      (w.sourceUsed || (text != "" || trail.isSome)) := by
  have hpieces : (!(indentedPieces (w.indentPlus extra) trail
      (Text.split '\n' text.toList)).isEmpty) = (text != "" || trail.isSome) := by
    rw [Bool.eq_iff_iff]
    simp [indentedPieces_split, Option.isSome_iff_ne_none, imp_iff_not_or]
  rw [writeIndented, sourceUsed_writeSources _ hdry, hpieces]

end Writer

/-! ## 2. Attempts to write to the source -/

namespace Call

/-- Whether a call is an attempt to write to the source. -/
def writesSource : Call → Bool
  | .source _ | .sourceStatement .. | .quoted _ | .initializer _ | .sourceOnce _ | .tag .. => true
  | .indented text _ trail => text != "" || trail.isSome
  | _ => false

def isTag : Call → Bool
  | .tag .. => true
  | _ => false

/-- A call in a dry run is noted if it is an attempt to write to the source, but not to write a
tag. -/
theorem sourceUsed_run {w : Writer} (hdry : w.dryRun = true) (call : Call) :
    (call.run w).2.sourceUsed = (w.sourceUsed || (call.writesSource && !call.isTag)) := by
  -- A call leaves the flag as it is or sets it.
  have hnone : w.sourceUsed = (w.sourceUsed || false) := (Bool.or_false _).symm
  have hnoted : w.markUsed.sourceUsed = (w.sourceUsed || true) := (Bool.or_true _).symm
  cases call with
  | source text =>
    show (w.writeSource text).sourceUsed = _
    rw [Writer.writeSource_dry hdry]
    exact hnoted
  | sourceStatement lead code comment =>
    show (w.writeSource _).sourceUsed = _
    rw [Writer.writeSource_dry hdry]
    exact hnoted
  | header text =>
    show (w.writeHeader text).sourceUsed = _
    rw [Writer.writeHeader_dry hdry]
    exact hnone
  | headerStatement lead code comment =>
    show (w.writeHeader _).sourceUsed = _
    rw [Writer.writeHeader_dry hdry]
    exact hnone
  | indented text extra trail =>
    show (w.writeIndented text extra trail).sourceUsed = _
    rw [Writer.sourceUsed_writeIndented hdry]
    simp [writesSource, isTag]
  | quoted data =>
    show (w.writeQuoted data).sourceUsed = _
    rw [Writer.writeQuoted, Writer.writeLiteral_dry hdry]
    exact hnoted
  | initializer data =>
    show (w.writeInitializer data).sourceUsed = _
    rw [Writer.writeInitializer, Writer.writeLiteral_dry hdry]
    exact hnoted
  | tag kind id =>
    show (w.writeTag kind id).sourceUsed = _
    rw [Writer.writeTag_dry hdry]
    exact hnone
  | headerOnce line =>
    show (w.writeHeaderOnce line).2.sourceUsed = _
    rw [Writer.writeHeaderOnce_dry hdry]
    exact hnone
  | sourceOnce line =>
    show (w.writeSourceOnce line).2.sourceUsed = _
    rw [Writer.writeSourceOnce_dry hdry]
    exact hnoted
  | access level =>
    show (w.writeAccess level).sourceUsed = _
    rw [Writer.writeAccess_dry hdry]
    exact hnone
  | dryRun calls =>
    rw [run_dryRun]
    exact hnone
  | uniqueId | seen | indentMore | indentLess | setIndentation | indent | indentPlus | enterClass
  | leaveClass | currentClass | flags | reset | fail => exact hnone

theorem sourceUsed_runAll (calls : List Call) :
    ∀ {w : Writer}, anyFails calls = false → w.dryRun = true →
      (runAll calls w).2.sourceUsed =
        (w.sourceUsed || calls.any fun call => call.writesSource && !call.isTag) := by
  induction calls with
  | nil => exact fun _ _ => (Bool.or_false _).symm
  | cons call rest ih =>
    intro w hfails hdry
    obtain ⟨hcall, hrest⟩ := Bool.or_eq_false_iff.1 hfails
    rw [state_runAll_cons, hcall, if_neg Bool.false_ne_true, ih hrest ((dryRun_run call w).trans hdry),
      sourceUsed_run hdry, List.any_cons, Bool.or_assoc]

/-! ## 3. The answer of a dry run -/

/-- A dry run of calls that do not fail answers that it is used exactly if one of them, not counting
those within dry runs of their own, is an attempt to write to the source besides tags. -/
theorem run_dryRun_used {calls : List Call} (h : anyFails calls = false) (w : Writer) :
    ∃ replies w', (Call.dryRun calls).run w =
      (.ok (.dryRun (calls.any fun call => call.writesSource && !call.isTag) replies), w') := by
  have hok := isOk_runAll calls (Emit.inDryRun w)
  have hused := sourceUsed_runAll calls (w := Emit.inDryRun w) h rfl
  rw [run_dryRun, hused]
  cases hresult : (runAll calls (Emit.inDryRun w)).1 with
  | ok replies => exact ⟨replies, _, rfl⟩
  | error fault =>
    rw [hresult, h] at hok
    cases hok

/-- A tag, a line of the header and a text within a dry run of its own are not noted; the empty
text that is written behind them is. -/
theorem run_dryRun_used_empty :
    let calls : List Call :=
      [.tag .code ⟨1⟩, .headerOnce "#include <a.h>", .dryRun [.source "f();\n"],
        .indented "" 1 none]
    let w : Writer := { settings := { mergeTags := true } }
    anyFails calls = false ∧ anyFails (calls ++ [.source ""]) = false ∧
      (∃ replies w', (Call.dryRun calls).run w = (.ok (.dryRun false replies), w')) ∧
      ∃ replies w', (Call.dryRun (calls ++ [.source ""])).run w =
        (.ok (.dryRun true replies), w') :=
  ⟨rfl, rfl, run_dryRun_used rfl _, run_dryRun_used rfl _⟩

/-- A tag is written to the source, but a dry run of it answers that nothing would be. -/
theorem run_dryRun_tag :
    let call : Call := .tag .code ⟨1⟩
    let w : Writer := { settings := { mergeTags := true } }
    call.fails = false ∧ call.writesSource = true ∧ (call.run w).2.source ≠ w.source ∧
      ((Call.dryRun [call]).run w).1 = .ok (.dryRun false [.nothing]) := by
  refine ⟨rfl, rfl, ?_, rfl⟩
  decide

end Call

end FormWeave
