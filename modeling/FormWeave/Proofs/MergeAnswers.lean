import FormWeave.Proofs.GoMerge

/-!
# Merges with the same answers

What a merge does depends on its host only through the answers of the host. Hosts that give the same
answers end with the same result, and what a host looks after besides changes only at the checkpoint.
-/

namespace FormWeave.Merge

variable {ν : Type} [DesignNode ν]

/-! ## 1. What a host looks after -/

section

variable {σ γ : Type}

/-- All calls but the checkpoint leave alone what is observed of the state. -/
structure Leaves (host : MergeHost (StateM σ)) (observe : σ → γ) : Prop where
  confirm : ∀ summary text s, observe (host.confirm summary text s).2 = observe s
  message : ∀ text s, observe (host.message text s).2 = observe s
  setModified : ∀ s, observe (host.setModified s).2 = observe s
  refreshViews : ∀ s, observe (host.refreshViews s).2 = observe s
  note : ∀ note s, observe (host.note note s).2 = observe s

theorem bind_snd {α β : Type} {call : StateM σ α} {next : α → StateM σ β} {observe : σ → γ} {s : σ}
    {c : γ} (h : observe (next (call s).1 (call s).2).2 = c) :
    observe ((call >>= next) s).2 = c := h

variable {host : MergeHost (StateM σ)} {observe : σ → γ} {nodes : List ν}

theorem Leaves.notes (h : Leaves host observe) (notes : List MergeNote) :
    ∀ s, observe (notes.forM host.note s).2 = observe s := by
  induction notes with
  | nil => exact fun _ => rfl
  | cons note rest ih => exact fun s => (ih _).trans (h.note note s)

/-- Copying blocks changes what is observed only at the checkpoint. -/
theorem Leaves.apply (h : Leaves host observe) (summary : MergeSummary) (s : σ) :
    observe (apply host nodes summary s).2 =
      if (mergeable summary).any (·.resolved) then observe (host.checkpoint s).2
      else observe s := by
  unfold Merge.apply
  rw [← mergeable]
  cases hlands : (mergeable summary).any (·.resolved) with
  | false =>
    simp only [Bool.not_false, if_true, Bool.false_eq_true, if_false]
    split
    · exact h.note _ s
    · rfl
  | true =>
    simp only [Bool.not_true, Bool.false_eq_true, if_false, if_true]
    refine bind_snd ?_
    cases (host.checkpoint s).1 with
    | error error => rfl
    | ok _ =>
      refine bind_snd ?_
      cases (applyBlocks nodes (mergeable summary)).2.any MergeNote.isMerged with
      | false => exact h.notes _ _
      | true =>
        refine bind_snd (bind_snd ?_)
        exact (h.refreshViews _).trans ((h.setModified _).trans (h.notes _ _))

end

/-! ## 2. Merges with one answer -/

variable {σ γ : Type} {host : MergeHost (StateM σ)} {observe : σ → γ} {nodes : List Node}
  {settings : Settings} {mode : MergeMode} {source : Except FileFault Bytes} {answer : Bool} {s : σ}

/-- The result of a merge whose host gives a fixed answer and whose checkpoint succeeds. -/
def outcome (settings : Settings) (mode : MergeMode) (source : Except FileFault Bytes)
    (nodes : List Node) (answer : Bool) : Except Error MergeOutcome × List Node :=
  (run settings mode (MergeHost.recording answer (.ok ())) source nodes []).1

/-- How a merge ends that would end with `result` if its checkpoint succeeded. Unless that is a merge,
it ends so, and nothing that is observed changes. Else the checkpoint decides. -/
structure EndsAs (host : MergeHost (StateM σ)) (observe : σ → γ) (nodes : List Node) (s : σ)
    (ended : (Except Error MergeOutcome × List Node) × σ)
    (result : Except Error MergeOutcome × List Node) : Prop where
  unmerged : (∀ summary, result.1 ≠ .ok (.merged summary)) →
    ended.1 = result ∧ observe ended.2 = observe s
  merged : ∀ summary, result.1 = .ok (.merged summary) →
    result.2 = nodes.map (Node.settle summary.blocks) ∧
      ∃ t, observe t = observe s ∧ observe ended.2 = observe (host.checkpoint t).2 ∧
        ((host.checkpoint t).1 = .ok () → ended.1 = result) ∧
        ∀ error, (host.checkpoint t).1 = .error error → ended.1 = (.error error, nodes)

theorem EndsAs.of_unmerged {result : Except Error MergeOutcome × List Node} {t : σ}
    (hresult : ∀ summary, result.1 ≠ .ok (.merged summary)) (ht : observe t = observe s) :
    EndsAs host observe nodes s (result, t) result :=
  ⟨fun _ => ⟨rfl, ht⟩, fun summary hmerged => absurd hmerged (hresult summary)⟩

theorem EndsAs.after {ended : (Except Error MergeOutcome × List Node) × σ}
    {result : Except Error MergeOutcome × List Node} {t : σ}
    (h : EndsAs host observe nodes t ended result) (ht : observe t = observe s) :
    EndsAs host observe nodes s ended result := by
  refine ⟨fun hnot => ?_, fun summary hmerged => ?_⟩
  · obtain ⟨hended, hobserve⟩ := h.unmerged hnot
    exact ⟨hended, hobserve.trans ht⟩
  · obtain ⟨hnodes, u, hu, hrest⟩ := h.merged summary hmerged
    exact ⟨hnodes, u, hu.trans ht, hrest⟩

theorem endsAs_apply (hids : (nodes.map Node.id).Nodup) (hleaves : Leaves host observe)
    {bytes : Bytes} {summary : MergeSummary} (hscan : scan bytes nodes = .ok summary) (s : σ) :
    EndsAs host observe nodes s (apply host nodes summary s) (ending nodes summary (.ok ())) := by
  have hright := (scan_resolved nodes hscan).2
  have hending := apply_ending host nodes summary s
  have hobserve : observe (apply host nodes summary s).2 = _ := hleaves.apply summary s
  cases hlands : (mergeable summary).any (·.resolved) with
  | false =>
    have hnone : ∀ answer, ending nodes summary answer = (.ok .noChanges, nodes) := by
      intro answer
      unfold ending
      rw [hlands]
      rfl
    rw [hnone] at hending ⊢
    rw [hlands] at hobserve
    refine ⟨fun _ => ⟨hending, hobserve⟩, nofun⟩
  | true =>
    rw [hlands] at hobserve
    have hok : ending nodes summary (.ok ()) =
        (.ok (.merged summary), nodes.map (Node.settle summary.blocks)) := by
      rw [ending_ok hids hright, hlands]
      rfl
    rw [hok]
    refine ⟨fun hnot => absurd rfl (hnot summary), ?_⟩
    rintro other hother
    obtain rfl : summary = other := MergeOutcome.merged.inj (Except.ok.inj hother)
    refine ⟨rfl, s, rfl, hobserve, fun hanswer => ?_, fun error hanswer => ?_⟩
    · rw [hending, hanswer, hok]
    · rw [hending, hanswer]
      unfold ending
      rw [hlands]
      rfl

/-- A merge ends as it does for a host that gives the same answer. -/
theorem endsAs_run (hids : (nodes.map Node.id).Nodup) (hleaves : Leaves host observe)
    (hanswer : ∀ summary text, (host.confirm summary text s).1 = answer) :
    EndsAs host observe nodes s (run settings mode host source nodes s)
      (outcome settings mode source nodes answer) := by
  obtain ⟨decision, hsound, hperform⟩ := exists_decision settings mode source nodes
  rw [outcome, hperform, hperform]
  cases decision with
  | stop result => exact .of_unmerged hsound rfl
  | refuse summary => exact .of_unmerged nofun (hleaves.note _ s)
  | warn text summary => exact .of_unmerged nofun (hleaves.message text s)
  | ask summary =>
    obtain ⟨-, bytes, -, hscan⟩ := hsound
    have hleft := hleaves.confirm summary summary.describe s
    show EndsAs host observe nodes s
      ((if (host.confirm summary summary.describe s).1 = true then apply host nodes summary
        else pure (.ok .cancelled, nodes)) (host.confirm summary summary.describe s).2)
      ((if answer = true then apply (MergeHost.recording answer (.ok ())) nodes summary
        else pure (.ok .cancelled, nodes)) [.confirm summary summary.describe]).1
    rw [hanswer]
    cases answer with
    | false => exact .of_unmerged nofun hleft
    | true =>
      rw [if_pos rfl, if_pos rfl, apply_ending]
      exact (endsAs_apply hids hleaves hscan _).after hleft
  | copy summary =>
    obtain ⟨-, bytes, -, hscan⟩ := hsound
    have hrecording := apply_ending (MergeHost.recording answer (.ok ())) nodes summary []
    show EndsAs host observe nodes s (apply host nodes summary s)
      (apply (MergeHost.recording answer (.ok ())) nodes summary []).1
    rw [hrecording]
    exact endsAs_apply hids hleaves hscan s

end FormWeave.Merge
