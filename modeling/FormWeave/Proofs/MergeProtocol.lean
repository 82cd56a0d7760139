import FormWeave.Proofs.DesignIds
import FormWeave.Proofs.MergeCalls

/-!
# The protocol of a merge

Whatever the host answers, a merge changes nodes only behind a checkpoint that succeeded, and if it
does not report edits as merged, it leaves the nodes as they were.
-/

namespace FormWeave.Merge

variable {ν σ : Type} [DesignNode ν]

/-! ## 1. How copying blocks ends -/

theorem countP_eq_zero_of_false {α : Type} {p : α → Bool} {list : List α}
    (h : ∀ a ∈ list, p a = false) : list.countP p = 0 := by
  rw [List.countP_eq_zero]
  intro a ha
  rw [h a ha]
  exact Bool.false_ne_true

theorem applyBlocks_cons (nodes : List ν) (block : ChangedBlock) (rest : List ChangedBlock) :
    applyBlocks nodes (block :: rest) =
      ((applyBlocks (applyBlock nodes block).1 rest).1,
        (applyBlock nodes block).2 :: (applyBlocks (applyBlock nodes block).1 rest).2) := rfl

/-- If no setter takes its text, the nodes stay. -/
theorem applyBlocks_of_none_merged {blocks : List ChangedBlock} :
    ∀ {nodes : List ν}, (applyBlocks nodes blocks).2.any MergeNote.isMerged = false →
      (applyBlocks nodes blocks).1 = nodes := by
  induction blocks with
  | nil => exact fun _ => rfl
  | cons block rest ih =>
    intro nodes h
    rw [applyBlocks_cons] at h ⊢
    rw [List.any_cons, Bool.or_eq_false_iff] at h
    -- A block leaves the nodes alone unless its note says that it was merged.
    have hsame : (applyBlock nodes block).1 = nodes := by
      have hnote := h.1
      unfold applyBlock at hnote ⊢
      split
      · rfl
      · next hfind =>
        split
        · rfl
        · next hpatched =>
          rw [hfind] at hnote
          simp only [hpatched] at hnote
          cases hnote
    exact (ih h.2).trans hsame

def ending (nodes : List ν) (summary : MergeSummary) (answer : Except Error Unit) :
    Except Error MergeOutcome × List ν :=
  if (mergeable summary).any (·.resolved) then
    match answer with
    | .error error => (.error error, nodes)
    | .ok _ =>
      if (applyBlocks nodes (mergeable summary)).2.any MergeNote.isMerged then
        (.ok (.merged summary), (applyBlocks nodes (mergeable summary)).1)
      else (.ok .noChanges, (applyBlocks nodes (mergeable summary)).1)
  else (.ok .noChanges, nodes)

theorem bind_fst {α β : Type} {call : StateM σ α} {next : α → StateM σ β} {s : σ} {b : β}
    (h : ∀ t, (next (call s).1 t).1 = b) : ((call >>= next) s).1 = b := h (call s).2

/-- Nothing else the host does makes a difference. -/
theorem apply_ending (host : MergeHost (StateM σ)) (nodes : List ν) (summary : MergeSummary)
    (s : σ) : (apply host nodes summary s).1 = ending nodes summary (host.checkpoint s).1 := by
  unfold apply ending
  rw [← mergeable]
  cases hlands : (mergeable summary).any (·.resolved) with
  | false =>
    simp only [Bool.not_false, if_true, Bool.false_eq_true, if_false]
    split
    · exact bind_fst fun _ => rfl
    · rfl
  | true =>
    simp only [Bool.not_true, Bool.false_eq_true, if_false, if_true]
    refine bind_fst fun t => ?_
    cases (host.checkpoint s).1 with
    | error error => rfl
    | ok _ =>
      refine bind_fst fun t => ?_
      cases hmerged : (applyBlocks nodes (mergeable summary)).2.any MergeNote.isMerged with
      | false => rfl
      | true => exact bind_fst fun t => bind_fst fun t => rfl

variable {settings : Settings} {bytes : Bytes} {nodes : List ν} {summary : MergeSummary}

theorem run_scanned {m : Type → Type} [Monad m] (htags : settings.mergeTags = true)
    (hscan : scan bytes nodes = .ok summary) (mode : MergeMode) (host : MergeHost m) :
    run settings mode host (.ok bytes) nodes = proceed mode host nodes summary := by
  rw [run, htags]
  simp only [Bool.not_true, Bool.false_eq_true, if_false, hscan]

theorem run_go (htags : settings.mergeTags = true) (hscan : scan bytes nodes = .ok summary)
    (host : MergeHost (StateM σ)) (s : σ) :
    (run settings .go host (.ok bytes) nodes s).1 =
      ending nodes summary (host.checkpoint s).1 := by
  rw [run_scanned htags hscan]
  exact apply_ending host nodes summary s

/-- Without structural edits a safe merge is like any other. -/
theorem run_goSafe (htags : settings.mergeTags = true) (hscan : scan bytes nodes = .ok summary)
    (hsafe : summary.structuralChanges = 0) (host : MergeHost (StateM σ)) (s : σ) :
    (run settings .goSafe host (.ok bytes) nodes s).1 =
      ending nodes summary (host.checkpoint s).1 := by
  -- The guard of the mode does not apply.
  have hnot : ¬ summary.structuralChanges > 0 := by omega
  rw [run_scanned htags hscan, proceed, if_neg hnot]
  exact apply_ending host nodes summary s

theorem hasChanges_of_hasMergeableChanges (h : summary.hasMergeableChanges = true) :
    summary.hasChanges = true := by
  simp only [MergeSummary.hasMergeableChanges, MergeSummary.hasChanges, decide_eq_true_eq] at h ⊢
  omega

/-- A merge that was asked for and accepted is like any other. -/
theorem run_interactive (htags : settings.mergeTags = true) (hscan : scan bytes nodes = .ok summary)
    (hmergeable : summary.hasMergeableChanges = true) (host : MergeHost (StateM σ)) {s t : σ}
    (haccepted : host.confirm summary summary.describe s = (true, t)) :
    (run settings .interactive host (.ok bytes) nodes s).1 =
      ending nodes summary (host.checkpoint t).1 := by
  have hchanges := hasChanges_of_hasMergeableChanges hmergeable
  rw [run_scanned htags hscan, proceed]
  simp only [hchanges, hmergeable, Bool.not_true, Bool.false_eq_true, if_false]
  show ((if (host.confirm summary summary.describe s).1 = true then apply host nodes summary
    else pure (.ok .cancelled, nodes)) (host.confirm summary summary.describe s).2).1 = _
  rw [haccepted, if_pos rfl]
  exact apply_ending host nodes summary t

/-! ## 2. What each part of a course says -/

theorem isNote_of_mem {notes : List MergeNote} {e : MergeEvent} (h : e ∈ notes.map .note) :
    e.isCheckpoint = false ∧ e.isConfirm = false ∧ e.isUpdate = false := by
  obtain ⟨note, -, rfl⟩ := List.mem_map.1 h
  exact ⟨rfl, rfl, rfl⟩

theorem Admitted.idle {mode : MergeMode} {front : List MergeEvent}
    (h : Admitted summary mode front) : ∀ e ∈ front, e.isIdle = true := by
  cases h <;> simp [MergeEvent.isIdle]

/-- Behind the events that have nothing to do with a change stands nothing, or a checkpoint with the
notes of the blocks and the updates of the host. -/
theorem Applied.shape {events : List MergeEvent} {result : Except Error MergeOutcome}
    {after : List ν} (h : Applied nodes summary events (result, after)) :
    ((∀ e ∈ events, e.isIdle = true) ∧ after = nodes ∧ ∀ s, result ≠ .ok (.merged s)) ∨
      ∃ answer notes updates, (mergeable summary).any (·.resolved) = true ∧
        events = .checkpoint answer :: (notes.map .note ++ updates) ∧
        (answer = .ok () ∨ notes = []) ∧
        (updates = [] ∧ after = nodes ∧ (∀ s, result ≠ .ok (.merged s)) ∨
          updates = [.setModified, .refreshViews] ∧ result = .ok (.merged summary)) := by
  generalize hpair : (result, after) = pair at h
  cases h with
  | nowhere _ idle _ =>
    obtain ⟨rfl, rfl⟩ := Prod.mk.inj hpair
    exact .inl ⟨idle, rfl, nofun⟩
  | refused error lands =>
    obtain ⟨rfl, rfl⟩ := Prod.mk.inj hpair
    exact .inr ⟨.error error, [], [], lands, rfl, .inr rfl, .inl ⟨rfl, rfl, nofun⟩⟩
  | declined lands none =>
    obtain ⟨rfl, rfl⟩ := Prod.mk.inj hpair
    refine .inr ⟨.ok (), _, [], lands, by rw [List.append_nil], .inl rfl, .inl ⟨rfl, ?_, nofun⟩⟩
    exact applyBlocks_of_none_merged none
  | merged lands some =>
    obtain ⟨rfl, rfl⟩ := Prod.mk.inj hpair
    exact .inr ⟨.ok (), _, _, lands, rfl, .inl rfl, .inr ⟨rfl, rfl⟩⟩

/-! ## 3. The protocol -/

/-- What holds of the events of a merge, of its result and of the nodes it leaves. -/
structure Protocol (mode : MergeMode) (source : Except FileFault Bytes) (nodes : List ν)
    (events : List MergeEvent) (result : Except Error MergeOutcome) (after : List ν) : Prop where
  /-- Unless edits are reported as merged, the nodes stay. -/
  atomic : (∀ summary, result ≠ .ok (.merged summary)) → after = nodes
  checkpoint_once : events.countP MergeEvent.isCheckpoint ≤ 1
  /-- A setter is called only behind a checkpoint that succeeded. -/
  checkpoint_first : (∃ event ∈ events, event.isSetter = true) →
    ∃ front back, events = front ++ .checkpoint (.ok ()) :: back ∧
      ∀ event ∈ front, event.isSetter = false
  /-- The checkpoint is called only for an edited block that a node takes. -/
  checkpoint_resolves : (∃ event ∈ events, event.isCheckpoint = true) →
    ∃ bytes summary, source = .ok bytes ∧ scan bytes nodes = .ok summary ∧
      ∃ block ∈ summary.blocks, block.kind.isMergeable = true ∧
        accepts nodes block.nodeId block.kind = true
  merged : ∀ summary, result = .ok (.merged summary) →
    ∃ front, events = front ++ [.setModified, .refreshViews] ∧
      ∀ event ∈ front, event.isUpdate = false
  unmerged : (∀ summary, result ≠ .ok (.merged summary)) →
    ∀ event ∈ events, event.isUpdate = false
  check : mode = .check → ∀ event ∈ events, event.isSetter = false
  goSafe : mode = .goSafe → ∀ bytes summary, source = .ok bytes →
    scan bytes nodes = .ok summary → 0 < summary.structuralChanges →
      ∀ event ∈ events, event.isSetter = false
  /-- A setter is called only behind the one confirmation, which was given. -/
  interactive : mode = .interactive → (∃ event ∈ events, event.isSetter = true) →
    ∃ summary text back, events = .confirm summary text true :: back ∧
      ∀ event ∈ back, event.isConfirm = false

theorem Protocol.of_idle (mode : MergeMode) (source : Except FileFault Bytes)
    {events : List MergeEvent} {result : Except Error MergeOutcome} {after : List ν}
    (hidle : ∀ e ∈ events, e.isIdle = true) (hafter : after = nodes)
    (hresult : ∀ s, result ≠ .ok (.merged s)) : Protocol mode source nodes events result after := by
  have hnone : ∀ e ∈ events, e.isCheckpoint = false ∧ e.isSetter = false ∧ e.isUpdate = false :=
    fun e he => (MergeEvent.isIdle_iff e).1 (hidle e he)
  have hsetter : ∀ e ∈ events, ¬ e.isSetter = true := by
    intro e he
    rw [(hnone e he).2.1]
    exact Bool.false_ne_true
  refine ⟨fun _ => hafter, ?_, ?_, ?_, fun s hs => absurd hs (hresult s),
    fun _ e he => (hnone e he).2.2, fun _ e he => (hnone e he).2.1,
    fun _ _ _ _ _ _ e he => (hnone e he).2.1, ?_⟩
  · have hzero : events.countP MergeEvent.isCheckpoint = 0 :=
      countP_eq_zero_of_false fun e he => (hnone e he).1
    omega
  · rintro ⟨e, he, hs⟩
    exact absurd hs (hsetter e he)
  · rintro ⟨e, he, hcheckpoint⟩
    rw [(hnone e he).1] at hcheckpoint
    cases hcheckpoint
  · rintro - ⟨e, he, hs⟩
    exact absurd hs (hsetter e he)

/-- The course of a merge that gets as far as the checkpoint. -/
theorem Protocol.of_checkpoint {mode : MergeMode} {front : List MergeEvent}
    {answer : Except Error Unit} {notes : List MergeNote} {updates : List MergeEvent}
    {result : Except Error MergeOutcome} {after : List ν}
    (hscan : scan bytes nodes = .ok summary) (hfront : Admitted summary mode front)
    (hlands : (mergeable summary).any (·.resolved) = true)
    (hanswer : answer = .ok () ∨ notes = [])
    (hend : updates = [] ∧ after = nodes ∧ (∀ s, result ≠ .ok (.merged s)) ∨
      updates = [.setModified, .refreshViews] ∧ result = .ok (.merged summary)) :
    Protocol mode (.ok bytes) nodes (front ++ .checkpoint answer :: (notes.map .note ++ updates))
      result after := by
  have hidle : ∀ e ∈ front, e.isCheckpoint = false ∧ e.isSetter = false ∧ e.isUpdate = false :=
    fun e he => (MergeEvent.isIdle_iff e).1 (hfront.idle e he)
  have hupdates : ∀ e ∈ updates,
      e.isCheckpoint = false ∧ e.isSetter = false ∧ e.isConfirm = false := by
    intro e he
    rcases hend with ⟨rfl, -⟩ | ⟨rfl, -⟩
    · cases he
    · rcases he with _ | ⟨_, _ | ⟨_, he⟩⟩
      · exact ⟨rfl, rfl, rfl⟩
      · exact ⟨rfl, rfl, rfl⟩
      · cases he
  constructor
  case atomic =>
    intro hnot
    rcases hend with ⟨-, hafter, -⟩ | ⟨-, hmerged⟩
    · exact hafter
    · exact absurd hmerged (hnot summary)
  case checkpoint_once =>
    have hbefore : front.countP MergeEvent.isCheckpoint = 0 :=
      countP_eq_zero_of_false fun e he => (hidle e he).1
    have hbehind : (notes.map MergeEvent.note ++ updates).countP MergeEvent.isCheckpoint = 0 := by
      apply countP_eq_zero_of_false
      intro e he
      rcases List.mem_append.1 he with he | he
      · exact (isNote_of_mem he).1
      · exact (hupdates e he).1
    rw [List.countP_append, List.countP_cons, hbefore, hbehind]
    split <;> omega
  case checkpoint_first =>
    rintro ⟨e, he, hsetter⟩
    have hfree : ∀ e ∈ front, e.isSetter = false := fun e he => (hidle e he).2.1
    -- After a failed checkpoint there are no notes, so no setter was called.
    rcases hanswer with rfl | rfl
    · exact ⟨front, _, rfl, hfree⟩
    · exfalso
      have hnone : e.isSetter = false := by
        rcases List.mem_append.1 he with he | _ | ⟨_, he⟩
        · exact hfree e he
        · rfl
        · exact (hupdates e he).2.1
      rw [hnone] at hsetter
      cases hsetter
  case checkpoint_resolves =>
    intro _
    obtain ⟨block, hblock, hresolved⟩ := List.any_eq_true.1 hlands
    obtain ⟨hmem, hkind⟩ := List.mem_filter.1 hblock
    refine ⟨bytes, summary, rfl, hscan, block, hmem, hkind, ?_⟩
    -- The scan asked the nodes about the block, and they still are as they were.
    have hright := (scan_resolved nodes hscan).2 block hmem
    rw [hright.accepts_eq nodes hkind, hresolved]
  case merged =>
    intro s hs
    rcases hend with ⟨-, -, hnot⟩ | ⟨rfl, -⟩
    · exact absurd hs (hnot s)
    · refine ⟨front ++ .checkpoint answer :: notes.map .note, by simp, ?_⟩
      intro e he
      rcases List.mem_append.1 he with he | _ | ⟨_, he⟩
      · exact (hidle e he).2.2
      · rfl
      · exact (isNote_of_mem he).2.2
  case unmerged =>
    intro hnot e he
    rcases hend with ⟨rfl, -⟩ | ⟨-, hmerged⟩
    · rw [List.append_nil] at he
      rcases List.mem_append.1 he with he | _ | ⟨_, he⟩
      · exact (hidle e he).2.2
      · rfl
      · exact (isNote_of_mem he).2.2
    · exact absurd hmerged (hnot summary)
  case check =>
    -- This mode is never admitted.
    rintro rfl
    cases hfront
  case goSafe =>
    rintro rfl bytes' summary' hbytes hscan' hstructural
    obtain rfl := Except.ok.inj hbytes
    -- A scan has one result, so the guard of the mode saw these structural edits.
    obtain rfl := Except.ok.inj (hscan.symm.trans hscan')
    cases hfront with
    | goSafe hsafe => omega
  case interactive =>
    rintro rfl -
    cases hfront with
    | interactive =>
      refine ⟨summary, summary.describe, _, rfl, ?_⟩
      intro e he
      rcases he with _ | ⟨_, he⟩
      · rfl
      · rcases List.mem_append.1 he with he | he
        · exact (isNote_of_mem he).2.1
        · exact (hupdates e he).2.2

theorem Course.protocol {mode : MergeMode} {source : Except FileFault Bytes}
    {events : List MergeEvent} {result : Except Error MergeOutcome} {after : List ν}
    (h : Course mode source nodes events (result, after)) :
    Protocol mode source nodes events result after := by
  generalize hpair : (result, after) = pair at h
  cases h with
  | stopped _ _ idle unmerged =>
    obtain ⟨rfl, rfl⟩ := Prod.mk.inj hpair
    exact .of_idle mode source idle rfl unmerged
  | applied bytes summary front back _ read scanned admitted course =>
    subst hpair read
    rcases course.shape with ⟨hidle, hafter, hresult⟩ |
      ⟨answer, notes, updates, hlands, rfl, hanswer, hend⟩
    · refine .of_idle mode _ (fun e he => ?_) hafter hresult
      rcases List.mem_append.1 he with he | he
      · exact admitted.idle e he
      · exact hidle e he
    · exact .of_checkpoint scanned admitted hlands hanswer hend

/-- Whatever a host answers, a merge keeps to the protocol. If only code and callbacks were edited,
the modes that merge end alike, given that the checkpoint does not depend on the confirmation. -/
theorem run_protocol (settings : Settings) (mode : MergeMode) (host : MergeHost (StateM σ))
    (source : Except FileFault Bytes) (nodes : List ν) (s : σ) :
    (∃ events, run settings mode host.traced source nodes (s, []) =
        ((run settings mode host source nodes s).1,
          ((run settings mode host source nodes s).2, events)) ∧
      Protocol mode source nodes events (run settings mode host source nodes s).1.1
        (run settings mode host source nodes s).1.2) ∧
    ∀ bytes summary, settings.mergeTags = true → source = .ok bytes →
      scan bytes nodes = .ok summary → summary.structuralChanges = 0 →
      summary.hasMergeableChanges = true →
        (run settings .goSafe host source nodes s).1 = (run settings .go host source nodes s).1 ∧
        ∀ t, host.confirm summary summary.describe s = (true, t) →
          (host.checkpoint t).1 = (host.checkpoint s).1 →
          (run settings .interactive host source nodes s).1 =
            (run settings .go host source nodes s).1 := by
  constructor
  · obtain ⟨events, hrun, hcourse⟩ := traces_run nodes host settings mode source s []
    exact ⟨events, hrun, hcourse.protocol⟩
  · rintro bytes summary htags rfl hscan hsafe hmergeable
    have hgo := run_go htags hscan host s
    refine ⟨(run_goSafe htags hscan hsafe host s).trans hgo.symm, fun t haccepted hanswer => ?_⟩
    rw [run_interactive htags hscan hmergeable host haccepted, hanswer, hgo]

/-- The course of a merge that is accepted, for one block which its node takes. -/
theorem run_accepted {note : MergeNote} (htags : settings.mergeTags = true)
    (hscan : scan bytes nodes = .ok summary) (hmergeable : summary.hasMergeableChanges = true)
    (hlands : (mergeable summary).any (·.resolved) = true)
    (hnotes : (applyBlocks nodes (mergeable summary)).2 = [note]) (hmerged : note.isMerged = true) :
    run settings .interactive (MergeHost.recording true (.ok ())).traced (.ok bytes) nodes
        ([], []) =
      ((.ok (.merged summary), (applyBlocks nodes (mergeable summary)).1),
        [.confirm summary summary.describe, .checkpoint, .setModified, .refreshViews],
        [.confirm summary summary.describe true, .checkpoint (.ok ()), .note note, .setModified,
          .refreshViews]) := by
  have hchanges := hasChanges_of_hasMergeableChanges hmergeable
  rw [run_scanned htags hscan, proceed]
  simp only [hchanges, hmergeable, Bool.not_true, Bool.false_eq_true, if_false]
  show apply (MergeHost.recording true (.ok ())).traced nodes summary _ = _
  rw [apply, ← mergeable]
  simp only [hlands, hnotes, List.any_cons, hmerged, Bool.true_or, Bool.not_true,
    Bool.false_eq_true, if_false]
  rfl

def sampleEdit : Layout where
  sections := [⟨utf8 "  return 1;\n", ⟨.code, ⟨2⟩, 0⟩⟩]

theorem scan_sampleEdit : scan sampleEdit.render Design.sample.nodes =
    .ok (.ofBlocks (changedBlocks Design.sample.nodes 0 sampleEdit.sections)) := by
  refine scan_render Design.sample.nodes (fun s hs => ?_) (by decide)
  rw [List.mem_singleton.1 hs]
  exact ⟨by decide +kernel, by decide +kernel⟩

/-- The merge of the edit, asked for or not: the one setter that is called stands behind the one
checkpoint, and the updates behind the setter. -/
theorem run_protocol_sample :
    let host := MergeHost.recording true (.ok ())
    let summary := .ofBlocks (changedBlocks Design.sample.nodes 0 sampleEdit.sections)
    (run { mergeTags := true } .interactive host (.ok sampleEdit.render) Design.sample.nodes []).1 =
      (run { mergeTags := true } .go host (.ok sampleEdit.render) Design.sample.nodes []).1 ∧
    ∃ after events,
      run { mergeTags := true } .interactive host.traced (.ok sampleEdit.render) Design.sample.nodes
          ([], []) =
        ((.ok (.merged summary), after),
          [.confirm summary summary.describe, .checkpoint, .setModified, .refreshViews], events) ∧
      Protocol .interactive (.ok sampleEdit.render) Design.sample.nodes events
        (.ok (.merged summary)) after ∧
      events = [.confirm summary summary.describe true, .checkpoint (.ok ()),
        .note (.merged ⟨2⟩ .code), .setModified, .refreshViews] := by
  intro host summary
  have htags : ({ mergeTags := true } : Settings).mergeTags = true := rfl
  have hscan : scan sampleEdit.render Design.sample.nodes = .ok summary := scan_sampleEdit
  have hmergeable : summary.hasMergeableChanges = true := by decide +kernel
  have hsafe : summary.structuralChanges = 0 := by decide +kernel
  have hlands : (mergeable summary).any (·.resolved) = true := by decide +kernel
  have hnotes : (applyBlocks Design.sample.nodes (mergeable summary)).2 = [.merged ⟨2⟩ .code] := by
    decide +kernel
  -- Nothing else is needed of the summary, and it is not evaluated again.
  clear_value summary
  have hcourse := run_accepted htags hscan hmergeable hlands hnotes rfl
  obtain ⟨⟨events, hrun, hprotocol⟩, hmodes⟩ := run_protocol { mergeTags := true } .interactive host
    (.ok sampleEdit.render) Design.sample.nodes []
  have halike := hmodes _ _ htags rfl hscan hsafe hmergeable
  obtain ⟨hfirst, hsecond⟩ := Prod.mk.inj (hrun.symm.trans hcourse)
  obtain ⟨-, rfl⟩ := Prod.mk.inj hsecond
  rw [hfirst] at hprotocol
  exact ⟨halike.2 _ rfl rfl, _, _, hcourse, hprotocol, rfl⟩

end FormWeave.Merge
