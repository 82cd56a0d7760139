import FormWeave.Merge.Basic
import FormWeave.Proofs.Scanning

/-!
# The calls of a merge

A traced host does what the host does and keeps record of the calls and of their answers. The notes
on blocks that reached a node stand for the calls of its setters. A merge first decides what to do,
before the host does anything, and then takes one of the courses that `Merge.Course` lists, each with
its events, its result and the nodes it leaves.
-/

namespace FormWeave

/-! ## 1. Traced hosts -/

/-- A call of the host, with its answer. -/
inductive MergeEvent
  | checkpoint (answer : Except Error Unit)
  | confirm (summary : MergeSummary) (text : String) (answer : Bool)
  | message (text : String)
  | setModified
  | refreshViews
  | note (note : MergeNote)

namespace MergeEvent

def isCheckpoint : MergeEvent → Bool
  | checkpoint _ => true
  | _ => false

def isConfirm : MergeEvent → Bool
  | confirm .. => true
  | _ => false

/-- Whether a setter of a node was called. -/
def isSetter : MergeEvent → Bool
  | note (.merged ..) | note (.notTaken ..) => true
  | _ => false

def isTaken : MergeEvent → Bool
  | note (.merged ..) => true
  | _ => false

def isUpdate : MergeEvent → Bool
  | setModified | refreshViews => true
  | _ => false

/-- Whether an event has nothing to do with a change of the design. -/
def isIdle : MergeEvent → Bool
  | checkpoint _ | setModified | refreshViews | note (.merged ..) | note (.notTaken ..) => false
  | _ => true

theorem isIdle_iff (e : MergeEvent) :
    e.isIdle = true ↔ e.isCheckpoint = false ∧ e.isSetter = false ∧ e.isUpdate = false := by
  cases e with
  | note note => cases note <;> simp [isIdle, isCheckpoint, isSetter, isUpdate]
  | _ => simp [isIdle, isCheckpoint, isSetter, isUpdate]

end MergeEvent

section

variable {σ α β : Type}

def recorded (call : StateM σ α) (event : α → MergeEvent) : StateM (σ × List MergeEvent) α :=
  fun state => ((call state.1).1, ((call state.1).2, state.2 ++ [event (call state.1).1]))

def MergeHost.traced (host : MergeHost (StateM σ)) : MergeHost (StateM (σ × List MergeEvent)) where
  checkpoint := recorded host.checkpoint .checkpoint
  confirm summary text := recorded (host.confirm summary text) (.confirm summary text)
  message text := recorded (host.message text) fun _ => .message text
  setModified := recorded host.setModified fun _ => .setModified
  refreshViews := recorded host.refreshViews fun _ => .refreshViews
  note n := recorded (host.note n) fun _ => .note n

/-- `traced` does what `plain` does, and its events and its result are of some kind. -/
def Traces (traced : StateM (σ × List MergeEvent) α) (plain : StateM σ α)
    (course : List MergeEvent → α → Prop) : Prop :=
  ∀ s log, ∃ events, traced (s, log) = ((plain s).1, ((plain s).2, log ++ events)) ∧
    course events (plain s).1

theorem Traces.pure {course : List MergeEvent → α → Prop} {a : α} (h : course [] a) :
    Traces (σ := σ) (pure a) (pure a) course :=
  fun s log => ⟨[], by rw [List.append_nil]; rfl, h⟩

theorem Traces.bind {traced : StateM (σ × List MergeEvent) α} {plain : StateM σ α}
    {next : α → StateM (σ × List MergeEvent) β} {next' : α → StateM σ β}
    {first : List MergeEvent → α → Prop} {course : List MergeEvent → β → Prop}
    (h : Traces traced plain first)
    (hnext : ∀ front a, first front a →
      Traces (next a) (next' a) fun back b => course (front ++ back) b) :
    Traces (traced >>= next) (plain >>= next') course := by
  intro s log
  -- The second part goes on with the record that the first one left.
  obtain ⟨front, hrun, hfront⟩ := h s log
  obtain ⟨back, hrun', hback⟩ := hnext front _ hfront (plain s).2 (log ++ front)
  refine ⟨front ++ back, ?_, hback⟩
  show (next (traced (s, log)).1) (traced (s, log)).2 = _
  rw [hrun, ← List.append_assoc]
  exact hrun'

theorem traces_recorded (call : StateM σ α) (event : α → MergeEvent) :
    Traces (recorded call event) call fun events a => events = [event a] :=
  fun s _ => ⟨[event (call s).1], rfl, rfl⟩

section

variable (host : MergeHost (StateM σ))

theorem traces_checkpoint :
    Traces host.traced.checkpoint host.checkpoint fun events a => events = [.checkpoint a] :=
  traces_recorded _ _

theorem traces_confirm (summary : MergeSummary) (text : String) :
    Traces (host.traced.confirm summary text) (host.confirm summary text)
      fun events a => events = [.confirm summary text a] := traces_recorded _ _

theorem traces_message (text : String) :
    Traces (host.traced.message text) (host.message text)
      fun events _ => events = [.message text] :=
  traces_recorded (host.message text) fun _ => .message text

theorem traces_setModified :
    Traces host.traced.setModified host.setModified fun events _ => events = [.setModified] :=
  traces_recorded host.setModified fun _ => .setModified

theorem traces_refreshViews :
    Traces host.traced.refreshViews host.refreshViews fun events _ => events = [.refreshViews] :=
  traces_recorded host.refreshViews fun _ => .refreshViews

theorem traces_note (note : MergeNote) :
    Traces (host.traced.note note) (host.note note) fun events _ => events = [.note note] :=
  traces_recorded (host.note note) fun _ => .note note

end

theorem traces_notes (host : MergeHost (StateM σ)) (notes : List MergeNote) :
    Traces (notes.forM host.traced.note) (notes.forM host.note)
      fun events _ => events = notes.map .note := by
  induction notes with
  | nil => exact .pure rfl
  | cons note rest ih =>
    refine (traces_note host note).bind fun front _ hfront => ?_
    intro s log
    obtain ⟨events, hrun, hevents⟩ := ih s log
    exact ⟨events, hrun, by rw [hfront, hevents]; rfl⟩

end

/-! ## 2. What a merge decides first -/

namespace Merge

variable {ν σ : Type} [DesignNode ν]

def mergeable (summary : MergeSummary) : List ChangedBlock :=
  summary.blocks.filter (·.kind.isMergeable)

/-- What a merge did before it went on to copy blocks. -/
inductive Admitted (summary : MergeSummary) : MergeMode → List MergeEvent → Prop
  | go : Admitted summary .go []
  | goSafe (safe : summary.structuralChanges = 0) : Admitted summary .goSafe []
  | interactive : Admitted summary .interactive [.confirm summary summary.describe true]

/-- What is decided by the mode, the settings and the scan, before the host does anything. -/
inductive Decision
  | stop (result : Except Error MergeOutcome)
  | refuse (summary : MergeSummary)
  | warn (text : String) (summary : MergeSummary)
  | ask (summary : MergeSummary)
  | copy (summary : MergeSummary)

namespace Decision

def perform {m : Type → Type} [Monad m] (host : MergeHost m) (nodes : List ν) :
    Decision → m (Except Error MergeOutcome × List ν)
  | stop result => return (result, nodes)
  | refuse summary => do
    host.note (.refused summary.structuralChanges)
    return (.ok (.conflict summary), nodes)
  | warn text summary => do
    host.message text
    return (.ok (.conflict summary), nodes)
  | ask summary => do
    if ← host.confirm summary summary.describe then apply host nodes summary
    else return (.ok .cancelled, nodes)
  | copy summary => apply host nodes summary

/-- A decision reports nothing as merged, and copies blocks only as the mode admits and only from
the summary of a scan. -/
def Sound (mode : MergeMode) (source : Except FileFault Bytes) (nodes : List ν) : Decision → Prop
  | stop result => ∀ summary, result ≠ .ok (.merged summary)
  | refuse _ | warn .. => True
  | ask summary =>
    Admitted summary mode [.confirm summary summary.describe true] ∧
      ∃ bytes, source = .ok bytes ∧ scan bytes nodes = .ok summary
  | copy summary =>
    Admitted summary mode [] ∧ ∃ bytes, source = .ok bytes ∧ scan bytes nodes = .ok summary

end Decision

/-- A merge makes a sound decision and carries it out, whatever its host is. -/
theorem exists_decision (settings : Settings) (mode : MergeMode) (source : Except FileFault Bytes)
    (nodes : List ν) :
    ∃ decision : Decision, decision.Sound mode source nodes ∧
      ∀ {m : Type → Type} [Monad m] (host : MergeHost m),
        run settings mode host source nodes = decision.perform host nodes := by
  unfold run
  split
  · exact ⟨.stop (.ok .noChanges), nofun, fun _ => rfl⟩
  rcases source with fault | bytes
  · exact ⟨.stop (.error (.file fault)), nofun, fun _ => rfl⟩
  dsimp only
  cases hscan : scan bytes nodes with
  | error error => exact ⟨.stop (.error error), nofun, fun _ => rfl⟩
  | ok summary =>
    dsimp only
    unfold proceed
    cases mode with
    | check => exact ⟨.stop (.ok (.report summary)), nofun, fun _ => rfl⟩
    | go => exact ⟨.copy summary, ⟨.go, bytes, rfl, hscan⟩, fun _ => rfl⟩
    | goSafe =>
      dsimp only
      split
      · exact ⟨.refuse summary, trivial, fun _ => rfl⟩
      · exact ⟨.copy summary, ⟨.goSafe (by omega), bytes, rfl, hscan⟩, fun _ => rfl⟩
    | interactive =>
      dsimp only
      split
      · exact ⟨.stop (.ok .noChanges), nofun, fun _ => rfl⟩
      split
      · exact ⟨.warn _ summary, trivial, fun _ => rfl⟩
      · exact ⟨.ask summary, ⟨.interactive, bytes, rfl, hscan⟩, fun _ => rfl⟩

/-! ## 3. The courses of a merge -/

/-- What becomes of the nodes and of the host when edited blocks are copied. -/
inductive Applied (nodes : List ν) (summary : MergeSummary) :
    List MergeEvent → Except Error MergeOutcome × List ν → Prop
  /-- No node takes any block. -/
  | nowhere (events : List MergeEvent) (idle : ∀ e ∈ events, e.isIdle = true)
      (lands : (mergeable summary).any (·.resolved) = false) :
      Applied nodes summary events (.ok .noChanges, nodes)
  /-- The checkpoint failed. -/
  | refused (error : Error) (lands : (mergeable summary).any (·.resolved) = true) :
      Applied nodes summary [.checkpoint (.error error)] (.error error, nodes)
  /-- No setter took its text. -/
  | declined (lands : (mergeable summary).any (·.resolved) = true)
      (none : (applyBlocks nodes (mergeable summary)).2.any MergeNote.isMerged = false) :
      Applied nodes summary
        (.checkpoint (.ok ()) :: (applyBlocks nodes (mergeable summary)).2.map .note)
        (.ok .noChanges, (applyBlocks nodes (mergeable summary)).1)
  | merged (lands : (mergeable summary).any (·.resolved) = true)
      (some : (applyBlocks nodes (mergeable summary)).2.any MergeNote.isMerged = true) :
      Applied nodes summary
        (.checkpoint (.ok ()) :: (applyBlocks nodes (mergeable summary)).2.map .note ++
          [.setModified, .refreshViews])
        (.ok (.merged summary), (applyBlocks nodes (mergeable summary)).1)

inductive Course (mode : MergeMode) (source : Except FileFault Bytes) (nodes : List ν) :
    List MergeEvent → Except Error MergeOutcome × List ν → Prop
  /-- Nothing is copied. -/
  | stopped (events : List MergeEvent) (result : Except Error MergeOutcome)
      (idle : ∀ e ∈ events, e.isIdle = true)
      (unmerged : ∀ summary, result ≠ .ok (.merged summary)) :
      Course mode source nodes events (result, nodes)
  | applied (bytes : Bytes) (summary : MergeSummary) (front back : List MergeEvent)
      (result : Except Error MergeOutcome × List ν) (read : source = .ok bytes)
      (scanned : scan bytes nodes = .ok summary) (admitted : Admitted summary mode front)
      (course : Applied nodes summary back result) :
      Course mode source nodes (front ++ back) result

variable (nodes : List ν) (host : MergeHost (StateM σ))

theorem traces_apply (summary : MergeSummary) :
    Traces (apply host.traced nodes summary) (apply host nodes summary)
      (Applied nodes summary) := by
  unfold apply
  dsimp only
  split
  · next hlands =>
    -- The way out in front of the checkpoint; the host is told of blocks without a node.
    have hnowhere : (mergeable summary).any (·.resolved) = false := by
      rw [mergeable, ← Bool.not_eq_true', hlands]
    split
    · refine (traces_note host _).bind fun front _ hfront => .pure ?_
      refine Applied.nowhere _ (fun e he => ?_) hnowhere
      rw [hfront, List.append_nil, List.mem_singleton] at he
      rw [he]
      rfl
    · exact .pure (.nowhere [] (by simp) hnowhere)
  · next hlands =>
    have hsomewhere : (mergeable summary).any (·.resolved) = true := by
      rw [Bool.not_eq_true', Bool.not_eq_false] at hlands
      exact hlands
    -- From here on the checkpoint has been called, and nodes may change if it succeeds.
    refine (traces_checkpoint host).bind fun front answer hfront => ?_
    rw [hfront]
    rcases answer with error | ⟨⟩
    · exact .pure (.refused error hsomewhere)
    · refine (traces_notes host _).bind fun middle _ hmiddle => ?_
      rw [hmiddle]
      split
      · next hnone =>
        rw [Bool.not_eq_true'] at hnone
        refine .pure ?_
        rw [List.append_nil]
        exact .declined hsomewhere hnone
      · next hsome =>
        rw [Bool.not_eq_true', Bool.not_eq_false] at hsome
        refine (traces_setModified host).bind fun _ _ hset => ?_
        refine (traces_refreshViews host).bind fun _ _ hrefresh => .pure ?_
        rw [hset, hrefresh]
        exact .merged hsomewhere hsome

/-- Copying blocks takes one of its courses behind what admitted it. -/
theorem traces_admitted {mode : MergeMode} {bytes : Bytes} {summary : MergeSummary}
    {front : List MergeEvent} (hadmitted : Admitted summary mode front)
    (hscan : scan bytes nodes = .ok summary) :
    Traces (apply host.traced nodes summary) (apply host nodes summary)
      fun back result => Course mode (.ok bytes) nodes (front ++ back) result := by
  intro s log
  obtain ⟨back, hrun, hback⟩ := traces_apply nodes host summary s log
  exact ⟨back, hrun, .applied bytes summary front back _ rfl hscan hadmitted hback⟩

theorem Course.of_idle {mode : MergeMode} {source : Except FileFault Bytes} {event : MergeEvent}
    (hidle : event.isIdle = true) {outcome : MergeOutcome}
    (hresult : ∀ summary, outcome ≠ .merged summary) :
    Course mode source nodes [event] (.ok outcome, nodes) :=
  .stopped [event] (.ok outcome) (by simpa using hidle) fun summary h =>
    hresult summary (Except.ok.inj h)

theorem Decision.Sound.traces {mode : MergeMode} {source : Except FileFault Bytes}
    {decision : Decision} (h : decision.Sound mode source nodes) :
    Traces (decision.perform host.traced nodes) (decision.perform host nodes)
      (Course mode source nodes) := by
  cases decision with
  | stop result => exact .pure (.stopped [] result (by simp) h)
  | refuse summary =>
    refine (traces_note host _).bind fun front _ hfront => .pure ?_
    rw [hfront]
    exact .of_idle nodes rfl nofun
  | warn text summary =>
    refine (traces_message host text).bind fun front _ hfront => .pure ?_
    rw [hfront]
    exact .of_idle nodes rfl nofun
  | ask summary =>
    obtain ⟨hadmitted, bytes, rfl, hscan⟩ := h
    refine (traces_confirm host _ _).bind fun front answer hfront => ?_
    rw [hfront]
    cases answer with
    | true => exact traces_admitted nodes host hadmitted hscan
    | false => exact .pure (.of_idle nodes rfl nofun)
  | copy summary =>
    obtain ⟨hadmitted, bytes, rfl, hscan⟩ := h
    exact traces_admitted nodes host hadmitted hscan

/-- A merge takes one of the courses, and tracing it changes nothing else. -/
theorem traces_run (settings : Settings) (mode : MergeMode) (source : Except FileFault Bytes) :
    Traces (run settings mode host.traced source nodes) (run settings mode host source nodes)
      (Course mode source nodes) := by
  obtain ⟨decision, hsound, hperform⟩ := exists_decision settings mode source nodes
  rw [hperform, hperform]
  exact hsound.traces nodes host

end Merge

end FormWeave
