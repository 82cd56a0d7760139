import FormWeave.Proofs.Composition
import FormWeave.Writer.Script

/-!
# Dry runs leave no trace

Within a dry run each operation that writes does nothing but note that the source would be written
to, and a tag or a line of the header does not even that. So whatever code does in a dry run, calls
that fail and dry runs of its own included, the output, the checksum and the declarations are as
before, and behind it the writer goes on in the mode it was in. What may be another are the tables
of identifiers and objects, the indentation and the class being declared.
-/

namespace FormWeave

namespace Writer

variable {w w' w'' : Writer}

/-! ## 1. Operations within a dry run -/

theorem unlessDry_dry (h : w.dryRun = true) (write : Writer → Writer) :
    w.unlessDry write = w.markUsed := if_pos h

theorem writeSource_dry (h : w.dryRun = true) (text : String) : w.writeSource text = w.markUsed :=
  unlessDry_dry h _

theorem writeHeader_dry (h : w.dryRun = true) (text : String) : w.writeHeader text = w := if_pos h

theorem writeLiteral_dry (h : w.dryRun = true) (data : Option Bytes) (unknownPreview : String)
    (longPreview : Nat → String) (unknown unknownLiteral : String) (literal : Bytes → Bytes) :
    w.writeLiteral data unknownPreview longPreview unknown unknownLiteral literal = w.markUsed :=
  unlessDry_dry h _

theorem writeTag_dry (h : w.dryRun = true) (kind : TagKind) (id : NodeId) :
    w.writeTag kind id = w := if_pos h

theorem writeHeaderOnce_dry (h : w.dryRun = true) (line : String) :
    w.writeHeaderOnce line = (false, w) := if_pos h

theorem writeSourceOnce_dry (h : w.dryRun = true) (line : String) :
    w.writeSourceOnce line = (false, w.markUsed) := if_pos h

theorem writeAccess_dry (h : w.dryRun = true) (level : Visibility) : w.writeAccess level = w :=
  if_pos h

/-! ## 2. What stays untouched -/

/-- `w'` has written what `w` has, and it is in the same mode. -/
structure Untouched (w w' : Writer) : Prop where
  settings : w'.settings = w.settings
  preview : w'.preview = w.preview
  output : w'.output = w.output
  sourcePosition : w'.sourcePosition = w.sourcePosition
  headerPosition : w'.headerPosition = w.headerPosition
  declarations : w'.declarations = w.declarations
  checksum : w'.checksum = w.checksum
  dryRun : w'.dryRun = w.dryRun

theorem Untouched.refl (w : Writer) : w.Untouched w := ⟨rfl, rfl, rfl, rfl, rfl, rfl, rfl, rfl⟩

theorem Untouched.trans (h : w.Untouched w') (h' : w'.Untouched w'') : w.Untouched w'' where
  settings := h'.settings.trans h.settings
  preview := h'.preview.trans h.preview
  output := h'.output.trans h.output
  sourcePosition := h'.sourcePosition.trans h.sourcePosition
  headerPosition := h'.headerPosition.trans h.headerPosition
  declarations := h'.declarations.trans h.declarations
  checksum := h'.checksum.trans h.checksum
  dryRun := h'.dryRun.trans h.dryRun

theorem untouched_markUsed (w : Writer) : w.Untouched w.markUsed :=
  ⟨rfl, rfl, rfl, rfl, rfl, rfl, rfl, rfl⟩

theorem untouched_writeSources (pieces : List String) :
    ∀ {w : Writer}, w.dryRun = true → w.Untouched (pieces.foldl writeSource w) := by
  induction pieces with
  | nil => exact fun _ => .refl _
  | cons piece rest ih =>
    intro w h
    rw [List.foldl_cons, writeSource_dry h]
    exact w.untouched_markUsed.trans (ih h)

/-- Behind a dry run the writer is back in its mode, so only four of its parts may be others. -/
theorem Untouched.behindDryRun {inner : Writer} (h : (Emit.inDryRun w).Untouched inner) :
    Emit.behindDryRun w inner =
      { w with
        identifiers := inner.identifiers, objects := inner.objects
        indentation := inner.indentation, classScope := inner.classScope } := by
  obtain ⟨hsettings, hpreview, houtput, hsource, hheader, hdeclarations, hchecksum, -⟩ := h
  unfold Emit.behindDryRun
  rw [hsettings, hpreview, houtput, hsource, hheader, hdeclarations, hchecksum]
  rfl

end Writer

/-! ## 3. Code within a dry run -/

namespace Emit

variable {α β : Type} {sees : ObjectId → Prop} {emit : Emit α}

/-- An operation within a dry run touches nothing. -/
theorem Operation.untouched {f : Writer → α × Writer} (h : Operation sees f) {w : Writer}
    (hdry : w.dryRun = true) : w.Untouched (f w).2 := by
  have hmark := w.untouched_markUsed
  have hsame := Writer.Untouched.refl w
  cases h with
  | source text =>
    show w.Untouched (w.writeSource text)
    rwa [Writer.writeSource_dry hdry]
  | header text =>
    show w.Untouched (w.writeHeader text)
    rwa [Writer.writeHeader_dry hdry]
  | indented text extra trail => exact Writer.untouched_writeSources _ hdry
  | quoted data =>
    show w.Untouched (w.writeQuoted data)
    rwa [Writer.writeQuoted, Writer.writeLiteral_dry hdry]
  | initializer data =>
    show w.Untouched (w.writeInitializer data)
    rwa [Writer.writeInitializer, Writer.writeLiteral_dry hdry]
  | tag kind id =>
    show w.Untouched (w.writeTag kind id)
    rwa [Writer.writeTag_dry hdry]
  | headerOnce line =>
    show w.Untouched (w.writeHeaderOnce line).2
    rwa [Writer.writeHeaderOnce_dry hdry]
  | sourceOnce line =>
    show w.Untouched (w.writeSourceOnce line).2
    rwa [Writer.writeSourceOnce_dry hdry]
  | access level =>
    show w.Untouched (w.writeAccess level)
    rwa [Writer.writeAccess_dry hdry]
  | uniqueId | seen | indentMore | indentLess | setIndentation | indent | indentPlus | enterClass
  | leaveClass | currentClass | configured => exact ⟨rfl, rfl, rfl, rfl, rfl, rfl, rfl, rfl⟩

/-- Code that never resets the writer. It reads the writer and operates on it, and goes on as the
answers say; it may fail, and go on behind a failure, and try such code in dry runs. -/
inductive Resetless : {α : Type} → Emit α → Prop
  | pure {α : Type} (a : α) : Resetless (Pure.pure a : Emit α)
  | fail {α : Type} (fault : FileFault) : Resetless (throw fault : Emit α)
  | ask {α : Type} (f : Writer → α) : Resetless (Emit.ask f)
  | step {α : Type} {f : Writer → α × Writer} (h : Operation (fun _ => True) f) :
    Resetless (Emit.step f)
  | bind {α β : Type} {emit : Emit α} {next : α → Emit β} (h : Resetless emit)
    (hnext : ∀ a, Resetless (next a)) : Resetless (emit >>= next)
  | recover {α : Type} {emit : Emit α} {handler : FileFault → Emit α} (h : Resetless emit)
    (hhandler : ∀ fault, Resetless (handler fault)) : Resetless (tryCatch emit handler)
  | dryRun {α : Type} {emit : Emit α} (h : Resetless emit) : Resetless (Emit.dryRun emit)

theorem tryCatch_apply (emit : Emit α) (handler : FileFault → Emit α) (w : Writer) :
    (tryCatch emit handler : Emit α) w =
      match emit w with
      | (.ok a, w') => (.ok a, w')
      | (.error fault, w') => handler fault w' := by
  simp only [tryCatch, tryCatchThe, MonadExceptOf.tryCatch, ExceptT.tryCatch, ExceptT.mk, bind,
    StateT.bind]
  cases emit w with
  | mk result w' => cases result <;> rfl

/-- Within a dry run code touches nothing, whether it fails or not. -/
theorem Resetless.untouched (h : emit.Resetless) :
    ∀ {w : Writer}, w.dryRun = true → w.Untouched (emit w).2 := by
  induction h with
  | pure | fail | ask => exact fun _ => .refl _
  | step hoperation => exact fun hdry => hoperation.untouched hdry
  | @bind _ _ emit _ _ _ ih ihnext =>
    intro w hdry
    have hfirst := ih hdry
    have hstill := hfirst.dryRun.trans hdry
    rw [bind_apply]
    cases hrun : emit w with
    | mk result w' =>
      rw [hrun] at hfirst hstill
      cases result with
      | ok a => exact hfirst.trans (ihnext a hstill)
      | error fault => exact hfirst
  | @recover _ emit _ _ _ ih ihhandler =>
    intro w hdry
    have hfirst := ih hdry
    have hstill := hfirst.dryRun.trans hdry
    rw [tryCatch_apply]
    cases hrun : emit w with
    | mk result w' =>
      rw [hrun] at hfirst hstill
      cases result with
      | ok a => exact hfirst
      | error fault => exact hfirst.trans (ihhandler fault hstill)
  | dryRun _ ih =>
    intro w _
    rw [dryRun_apply, (ih rfl).behindDryRun]
    exact ⟨rfl, rfl, rfl, rfl, rfl, rfl, rfl, rfl⟩

@[grind ←] theorem Composed.map (h : emit.Composed sees) (f : α → β) :
    (f <$> emit : Emit β).Composed sees := by
  rw [map_eq_pure_bind]
  exact h.bind fun a => .pure (f a)

/-- The code of nodes is such code, and so is the prologue. -/
theorem Composed.resetless (h : emit.Composed sees) : emit.Resetless := by
  replace h : emit.Composed fun _ => True := h.mono fun _ _ => trivial
  induction h with
  | pure a => exact .pure a
  | bind _ _ ih ihnext => exact .bind ih ihnext
  | step hf => exact .step hf
  | dryRun _ ih => exact .dryRun ih

end Emit

/-! ## 4. Calls within a dry run -/

namespace Call

open Emit

mutual
/-- Whether a call resets the writer, or one of the calls that it makes in dry runs does. -/
def resets : Call → Bool
  | .reset => true
  | .dryRun calls => anyResets calls
  | _ => false

def anyResets : List Call → Bool
  | [] => false
  | call :: rest => call.resets || anyResets rest
end

def isOperation : Call → Bool
  | .dryRun _ | .flags | .reset | .fail => false
  | _ => true

theorem composed_run {call : Call} (h : call.isOperation = true) :
    call.run.Composed fun _ => True := by
  cases call with
  | dryRun | flags | reset | fail => cases h
  | _ =>
    unfold Call.run
    grind

mutual
/-- Calls are code that never resets the writer if none of them does. -/
theorem resetless_run (call : Call) (h : call.resets = false) : call.run.Resetless := by
  cases call with
  | fail => exact .fail .other
  | reset => cases h
  | flags => exact .ask _
  | dryRun calls =>
    unfold Call.run
    exact .bind (.dryRun (resetless_runAll calls h)) fun _ => .pure _
  | _ => exact (composed_run rfl).resetless

theorem resetless_runAll (calls : List Call) (h : Call.anyResets calls = false) :
    (Call.runAll calls).Resetless := by
  cases calls with
  | nil =>
    unfold Call.runAll
    exact .pure []
  | cons call rest =>
    obtain ⟨hcall, hrest⟩ := Bool.or_eq_false_iff.1 h
    unfold Call.runAll
    exact .bind (resetless_run call hcall) fun _ => .bind (resetless_runAll rest hrest) fun _ =>
      .pure _
end

end Call

/-! ## 5. Behind a dry run -/

namespace Emit

variable {α : Type} {emit : Emit α}

/-- Whatever was tried in a dry run, behind it the writer is the one in front of it, but for the
identifiers, the objects, the indentation and the class being declared. That is so if what was
tried failed, and if the dry run is itself part of one. -/
theorem dryRun_leaves (h : emit.Resetless) (w : Writer) :
    (dryRun emit w).2 =
      { w with
        identifiers := (dryRun emit w).2.identifiers
        objects := (dryRun emit w).2.objects
        indentation := (dryRun emit w).2.indentation
        classScope := (dryRun emit w).2.classScope } := by
  have hrun : (dryRun emit w).2 = behindDryRun w (emit (inDryRun w)).2 := rfl
  rw [hrun, (h.untouched rfl).behindDryRun]

/-- Calls that are tried within a dry run that came to a use already. They write a line and a tag,
claim a line, get deeper and fail within a dry run of their own. -/
theorem dryRun_leaves_failed :
    let calls : List Call :=
      [.source "f();\n", .tag .code ⟨7⟩, .headerOnce "#include <a.h>", .indentMore,
        .dryRun [.sourceOnce "#include <b.h>", .quoted none, .fail], .source "g();\n"]
    let outer : Writer := { settings := {}, dryRun := true, sourceUsed := true }
    let after := (dryRun (Call.runAll calls) outer).2
    Call.anyResets calls = false ∧ (dryRun (Call.runAll calls) outer).1 = .error .other ∧
      after.indentation = 1 ∧
      after =
        { outer with
          identifiers := after.identifiers
          objects := after.objects
          indentation := after.indentation
          classScope := after.classScope } :=
  ⟨rfl, rfl, rfl, dryRun_leaves (Call.resetless_runAll _ rfl) _⟩

end Emit

end FormWeave
