import FormWeave.Proofs.Frames

/-!
# Runs of calls

Whether a call fails does not depend on the writer it is made on, and calls that are made one after
the other stop at the first that fails. What such calls leave behind is a matter of one call and of
what the rest makes of it. The calls of a dry run come to at most a reset of the writer.
-/

namespace FormWeave

namespace Call

/-! ## 1. Failure -/

mutual
/-- Whether a call fails. A dry run fails if one of its calls does. -/
def fails : Call → Bool
  | .fail => true
  | .dryRun calls => anyFails calls
  | _ => false

def anyFails : List Call → Bool
  | [] => false
  | call :: rest => call.fails || anyFails rest
end

theorem fails_operation {call : Call} (h : call.isOperation = true) : call.fails = false := by
  cases call with
  | dryRun | fail => cases h
  | _ => rfl

theorem runAll_cons (call : Call) (rest : List Call) :
    runAll (call :: rest) = call.run >>= fun reply => runAll rest >>= fun replies =>
      pure (reply :: replies) := by
  rw [runAll]

/-- The result of a dry run is what became of its calls. -/
theorem run_dryRun (calls : List Call) (w : Writer) :
    (Call.dryRun calls).run w =
      ((runAll calls (Emit.inDryRun w)).1.map
          (.dryRun (runAll calls (Emit.inDryRun w)).2.sourceUsed),
        Emit.behindDryRun w (runAll calls (Emit.inDryRun w)).2) := by
  rw [Call.run, Emit.bind_apply, Emit.dryRun_apply]
  cases (runAll calls (Emit.inDryRun w)).1 <;> rfl

mutual
theorem isOk_run (call : Call) (w : Writer) : (call.run w).1.isOk = !call.fails := by
  cases hoperation : call.isOperation with
  | true =>
    obtain ⟨reply, hreply⟩ := (composed_run hoperation).run w
    rw [hreply, fails_operation hoperation]
    rfl
  | false =>
    cases call with
    | fail | reset | flags => rfl
    | dryRun calls =>
      have htried := isOk_runAll calls (Emit.inDryRun w)
      rw [run_dryRun]
      cases hresult : (runAll calls (Emit.inDryRun w)).1 <;>
        rw [hresult] at htried <;> exact htried
    | _ => cases hoperation

theorem isOk_runAll (calls : List Call) (w : Writer) :
    (runAll calls w).1.isOk = !anyFails calls := by
  cases calls with
  | nil => rfl
  | cons call rest =>
    have hcall := isOk_run call w
    rw [runAll_cons, Emit.bind_apply, anyFails]
    cases hrun : call.run w with
    | mk result w' =>
      rw [hrun] at hcall
      cases result with
      | error fault =>
        rw [show call.fails = true by simpa [Except.isOk, Except.toBool] using hcall]
        rfl
      | ok reply =>
        rw [show call.fails = false by simpa [Except.isOk, Except.toBool] using hcall]
        have hrest := isOk_runAll rest w'
        dsimp only
        rw [Emit.bind_apply]
        cases hruns : runAll rest w' with
        | mk results w'' =>
          rw [hruns] at hrest
          cases results <;> exact hrest
end

/-! ## 2. What calls leave behind -/

/-- A call leaves the writer in its mode, in a dry run or out of it. -/
theorem dryRun_run (call : Call) (w : Writer) : (call.run w).2.dryRun = w.dryRun := by
  cases hoperation : call.isOperation with
  | true =>
    obtain ⟨chunks, hwrote⟩ := (composed_run hoperation).wrote w
    exact hwrote.dryRun
  | false =>
    cases call with
    | fail | reset | flags => rfl
    | dryRun calls =>
      rw [run_dryRun]
      rfl
    | _ => cases hoperation

theorem state_runAll_cons (call : Call) (rest : List Call) (w : Writer) :
    (runAll (call :: rest) w).2 =
      if call.fails then (call.run w).2 else (runAll rest (call.run w).2).2 := by
  have hok := isOk_run call w
  rw [runAll_cons, Emit.bind_apply]
  cases hrun : call.run w with
  | mk result w' =>
    rw [hrun] at hok
    cases result with
    | error fault =>
      rw [if_pos (by simpa [Except.isOk, Except.toBool] using hok)]
    | ok reply =>
      rw [if_neg (by simpa [Except.isOk, Except.toBool] using hok)]
      dsimp only
      rw [Emit.bind_apply]
      cases runAll rest w' with
      | mk results w'' => cases results <;> rfl

/-! ## 3. Resets -/

mutual
/-- Whether a call comes to reset the writer. In a dry run, no call behind one that fails is
made. -/
def clears : Call → Bool
  | .reset => true
  | .dryRun calls => anyClears calls
  | _ => false

def anyClears : List Call → Bool
  | [] => false
  | call :: rest => call.clears || (!call.fails && anyClears rest)
end

theorem clears_operation {call : Call} (h : call.isOperation = true) : call.clears = false := by
  cases call with
  | dryRun | reset => cases h
  | _ => rfl

end Call

namespace Writer

variable {w w' w'' : Writer}

def resetIf (w : Writer) (cleared : Bool) : Writer := if cleared then w.reset else w

theorem Untouched.reset (h : w.Untouched w') : w.reset.Untouched w'.reset :=
  ⟨h.settings, h.preview, h.output, h.sourcePosition, h.headerPosition, rfl, rfl, h.dryRun⟩

/-- Of two resets the later one would do. -/
theorem Untouched.then {cleared cleared' : Bool} (h : (w.resetIf cleared).Untouched w')
    (h' : (w'.resetIf cleared').Untouched w'') :
    (w.resetIf (cleared || cleared')).Untouched w'' := by
  cases cleared' with
  | false =>
    rw [Bool.or_false]
    exact h.trans h'
  | true =>
    rw [Bool.or_true]
    cases cleared with
    | false => exact h.reset.trans h'
    | true =>
      have hagain : w.reset.Untouched w'.reset := h.reset
      exact hagain.trans h'

theorem Untouched.behindReset {cleared : Bool} {inner : Writer}
    (h : ((Emit.inDryRun w).resetIf cleared).Untouched inner) :
    (w.resetIf cleared).Untouched (Emit.behindDryRun w inner) := by
  cases cleared <;> exact ⟨h.settings, h.preview, h.output, h.sourcePosition, h.headerPosition,
    h.declarations, h.checksum, rfl⟩

end Writer

namespace Call

mutual
/-- In a dry run, a call touches no more than a reset does, and nothing unless it comes to one. -/
theorem untouched_run_dry (call : Call) {w : Writer} (hdry : w.dryRun = true) :
    (w.resetIf call.clears).Untouched (call.run w).2 := by
  cases hoperation : call.isOperation with
  | true =>
    rw [clears_operation hoperation]
    exact (composed_run hoperation).resetless.untouched hdry
  | false =>
    cases call with
    | fail | reset | flags => exact .refl _
    | dryRun calls =>
      rw [run_dryRun]
      exact .behindReset (untouched_runAll_dry calls rfl)
    | _ => cases hoperation

theorem untouched_runAll_dry (calls : List Call) {w : Writer} (hdry : w.dryRun = true) :
    (w.resetIf (anyClears calls)).Untouched (runAll calls w).2 := by
  cases calls with
  | nil => exact .refl w
  | cons call rest =>
    have hcall := untouched_run_dry call hdry
    rw [state_runAll_cons, anyClears]
    cases call.fails with
    | true => simpa using hcall
    | false =>
      have hrest := untouched_runAll_dry rest ((dryRun_run call w).trans hdry)
      simpa using hcall.then hrest
end

/-- A dry run touches no more than a reset does, and nothing unless one of its calls comes to one. -/
theorem untouched_dryRun (calls : List Call) (w : Writer) :
    (w.resetIf (anyClears calls)).Untouched ((Call.dryRun calls).run w).2 := by
  rw [run_dryRun]
  exact .behindReset (untouched_runAll_dry calls rfl)

end Call

/-- The writer behind calls that are made one after the other, also if some of them fail. -/
def Writer.after (w : Writer) (calls : List Call) : Writer :=
  calls.foldl (fun w call => (call.run w).2) w

theorem Writer.after_append (w : Writer) (calls : List Call) (call : Call) :
    w.after (calls ++ [call]) = (call.run (w.after calls)).2 := by
  rw [after, List.foldl_append]
  rfl

end FormWeave
