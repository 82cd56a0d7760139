import FormWeave.Proofs.DesignIds
import FormWeave.Proofs.GoMerge
import FormWeave.Proofs.Runs
import FormWeave.Proofs.TreeWalk

/-!
# Sections of code and callbacks

Among the sections of a generated source, those that the user may edit belong to different nodes,
each to one that takes its text, and each stands directly behind a generic section of its node.
-/

namespace FormWeave

open Plan (writers writes? opened)

/-! ## 1. The sections of a node -/

def editableIds (names : List SectionName) : List NodeId :=
  (names.filter fun name => name.1.isMergeable).map Prod.snd

theorem editableIds_append (front back : List SectionName) :
    editableIds (front ++ back) = editableIds front ++ editableIds back := by
  rw [editableIds, List.filter_append, List.map_append]
  rfl

theorem editableIds_sublist {a b : List SectionName} (h : a.Sublist b) :
    (editableIds a).Sublist (editableIds b) := (h.filter _).map _

/-- Every name of code or of a callback stands directly behind a generic one of the same node. -/
def Led (names : List SectionName) : Prop :=
  ∀ front name back, names = front ++ name :: back → name.1.isMergeable = true →
    ∃ init, front = init ++ [(.generic, name.2)]

theorem led_nil : Led [] := by
  intro front name back h
  cases front <;> cases h

theorem Led.append {a b : List SectionName} (ha : Led a) (hb : Led b) : Led (a ++ b) := by
  intro front name back h hname
  -- The name stands in the second list or in the first, each with its own leader.
  rcases List.append_eq_append_iff.1 h with ⟨mid, rfl, hmid⟩ | ⟨mid, rfl, hmid⟩
  · obtain ⟨init, rfl⟩ := hb mid name back hmid hname
    exact ⟨a ++ init, (List.append_assoc ..).symm⟩
  · cases mid with
    | nil =>
      obtain ⟨init, hinit⟩ := hb [] name back hmid.symm hname
      exact absurd hinit (by simp)
    | cons other mid =>
      obtain ⟨rfl, rfl⟩ := List.cons.inj hmid
      exact ha front name mid rfl hname

theorem led_flatMap {α : Type} {f : α → List SectionName} (h : ∀ a, Led (f a)) (list : List α) :
    Led (list.flatMap f) := by
  induction list with
  | nil => exact led_nil
  | cons a rest ih => exact (h a).append ih

namespace Node

variable (node : Node)

/-- The kinds of the tags a node writes in a phase: none, a generic one, or that and one of code or a
callback that the node takes. -/
theorem tagKinds_cases (phase : Phase) :
    node.tagKinds phase = [] ∨ node.tagKinds phase = [.generic] ∨
      ∃ kind, kind.isMergeable = true ∧ node.tagKinds phase = [.generic, kind] ∧
        node.kind.takes kind = true ∧
        (phase = .setup ∧ node.kind.hasCallback = true ∨
          (phase = .opening ∨ phase = .framing) ∧ node.kind = .code) := by
  have hcallback : ∀ kind, node.callbackKinds kind = [] ∨
      node.callbackKinds kind = [.generic, kind] := by
    intro kind
    unfold callbackKinds
    split
    · split
      · exact .inl rfl
      · exact .inr rfl
    · exact .inl rfl
  unfold tagKinds
  cases hkind : node.body.kind <;> cases phase
  case widget.setup =>
    rcases hcallback .widgetCallback with h | h
    · exact .inl h
    · refine .inr (.inr ⟨.widgetCallback, rfl, h, ?_, .inl ⟨rfl, ?_⟩⟩) <;> rw [Node.kind, hkind] <;>
        rfl
  case menuItem.setup =>
    rcases hcallback .menuCallback with h | h
    · exact .inl h
    · refine .inr (.inr ⟨.menuCallback, rfl, h, ?_, .inl ⟨rfl, ?_⟩⟩) <;> rw [Node.kind, hkind] <;>
        rfl
  case code.opening =>
    refine .inr (.inr ⟨.code, rfl, rfl, ?_, .inr ⟨.inl rfl, hkind⟩⟩)
    rw [Node.kind, hkind]
    rfl
  case code.framing =>
    refine .inr (.inr ⟨.code, rfl, rfl, ?_, .inr ⟨.inr rfl, hkind⟩⟩)
    rw [Node.kind, hkind]
    rfl
  all_goals first | exact .inl rfl | exact .inr (.inl rfl)

theorem led_sectionNames (phase : Phase) : Led (node.sectionNames phase) := by
  intro front name back h hname
  unfold sectionNames at h
  rcases node.tagKinds_cases phase with hkinds | hkinds | ⟨kind, -, hkinds, -⟩
  · rw [hkinds] at h
    cases front <;> cases h
  · rw [hkinds] at h
    match front with
    | [] => cases h; cases hname
    | _ :: front => cases front <;> cases h
  · rw [hkinds] at h
    match front with
    | [] => cases h; cases hname
    | [_] => cases h; exact ⟨[], rfl⟩
    | _ :: _ :: front => cases front <;> cases h

/-- A node has at most one section that the user may edit in a phase, and only in the one that its
kind calls for. -/
theorem count_editableIds_le (phase : Phase) (id : NodeId) :
    (editableIds (node.sectionNames phase)).count id ≤
      match phase with
      | .setup => if node.kind.hasCallback && node.id == id then 1 else 0
      | .opening | .framing => if node.kind == .code && node.id == id then 1 else 0
      | .closing => 0 := by
  have hgeneric : ∀ i : NodeId, editableIds [(.generic, i)] = [] := fun _ => rfl
  unfold sectionNames
  rcases node.tagKinds_cases phase with h | h | ⟨kind, hkind, h, -, hphase⟩
  · rw [h]
    exact Nat.zero_le _
  · rw [h]
    exact Nat.zero_le _
  · have hnames : editableIds (([TagKind.generic, kind]).map fun kind => (kind, node.id)) =
        [node.id] := by
      have hgeneric : TagKind.generic.isMergeable = false := rfl
      simp only [editableIds, List.map_cons, List.map_nil, List.filter_cons, hgeneric, hkind,
        Bool.false_eq_true, if_false, if_true, List.filter_nil]
    rw [h, hnames, List.count_singleton]
    rcases hphase with ⟨rfl, hcallback⟩ | ⟨rfl | rfl, hcode⟩
    · rw [hcallback, Bool.true_and]
    · rw [hcode]
      exact Nat.le_refl _
    · rw [hcode]
      exact Nat.le_refl _

end Node

/-! ## 2. The sections of a source -/

namespace Generation

theorem led_sectionNames (nodes : List Node) : Led (sectionNames nodes) := by
  refine led_flatMap (fun step => ?_) _
  cases step with
  | write phase node => exact node.led_sectionNames phase
  | _ => exact led_nil

/-- Code and callbacks stand in sections of nodes that take them. -/
theorem exists_node_of_mem_sectionNames {nodes : List Node} {name : SectionName}
    (h : name ∈ sectionNames nodes) (hname : name.1.isMergeable = true) :
    ∃ node ∈ nodes, node.id = name.2 ∧ node.kind.takes name.1 = true := by
  obtain ⟨step, hstep, hmem⟩ := List.mem_flatMap.1 h
  have hnode : ∀ node ∈ nodes, ∀ phase, ∀ name ∈ stepSections (.write phase node),
      name.1.isMergeable = true → ∃ node ∈ nodes, node.id = name.2 ∧
        node.kind.takes name.1 = true := by
    intro node hnode phase name hmem hname
    obtain ⟨kind, hkind, rfl⟩ := List.mem_map.1 hmem
    rcases node.tagKinds_cases phase with hkinds | hkinds | ⟨taken, -, hkinds, htakes, -⟩
    · rw [hkinds] at hkind
      cases hkind
    · rw [hkinds, List.mem_singleton] at hkind
      subst hkind
      cases hname
    · rw [hkinds] at hkind
      rcases hkind with _ | ⟨_, _ | ⟨_, hkind⟩⟩
      · cases hname
      · exact ⟨node, hnode, rfl, htakes⟩
      · cases hkind
  refine Plan.forall_plan (P := fun step => ∀ name ∈ stepSections step,
    name.1.isMergeable = true → ∃ node ∈ nodes, node.id = name.2 ∧ node.kind.takes name.1 = true)
    (by simp [stepSections]) (by simp [stepSections]) (by simp [stepSections]) nodes
    (fun node h phase _ => hnode node h phase) (fun node h _ => hnode node h .framing)
    step hstep name hmem hname

/-- The editable sections of steps belong to nodes that write their setup code or their opening
code. -/
theorem count_editableIds_steps_le (id : NodeId) {steps : List (Step Node)}
    (hframing : ∀ step ∈ steps, ∀ node, step = .write .framing node → node.kind = .comment) :
    (editableIds (steps.flatMap stepSections)).count id ≤
      (writers .setup steps).countP (fun node => node.kind.hasCallback && node.id == id) +
        opened (fun node => node.kind == .code && node.id == id) steps := by
  induction steps with
  | nil => exact Nat.zero_le _
  | cons step rest ih =>
    have hrest := ih fun s hs => hframing s (List.mem_cons_of_mem _ hs)
    rw [List.flatMap_cons, editableIds_append, List.count_append]
    -- Setup and opening code are counted on the right; the other phases add nothing.
    cases step with
    | write phase node =>
      have hstep := node.count_editableIds_le phase id
      cases phase with
      | setup =>
        have hwriters := Plan.writers_cons_write .setup node rest
        have hopened : opened (fun node : Node => node.kind == .code && node.id == id)
            (.write .setup node :: rest) = opened _ rest := rfl
        rw [hwriters, List.countP_cons, hopened]
        dsimp only [stepSections] at hstep ⊢
        omega
      | opening =>
        have hwriters := Plan.writers_cons_write .opening node rest
        have hsetup : writers .setup (.write .opening node :: rest) = writers .setup rest := rfl
        rw [hsetup, opened, hwriters, List.countP_cons, ← opened]
        dsimp only [stepSections] at hstep ⊢
        omega
      | closing => exact (Nat.add_le_add hstep hrest).trans (Nat.le_of_eq (Nat.zero_add _))
      | framing =>
        have hcomment := hframing _ List.mem_cons_self node rfl
        rw [hcomment] at hstep
        exact (Nat.add_le_add hstep hrest).trans (Nat.le_of_eq (Nat.zero_add _))
    | _ => exact (Nat.add_le_add (Nat.zero_le 0) hrest).trans (Nat.le_of_eq (Nat.zero_add _))

/-- No two sections of code and callbacks belong to the same node. -/
theorem nodup_editableIds {nodes : List Node} (hids : (nodes.map Node.id).Nodup) :
    (editableIds (sectionNames nodes)).Nodup := by
  rw [List.nodup_iff_count_le_one] at hids ⊢
  intro id
  have hframing : ∀ step ∈ plan nodes, ∀ node, step = .write .framing node →
      node.kind = .comment := by
    refine Plan.forall_plan (P := fun step => ∀ node, step = .write .framing node →
      node.kind = .comment) (fun _ h => by cases h) (fun _ h => by cases h)
      (fun _ h => by cases h) nodes ?_ ?_
    · intro _ _ phase hphase node h
      cases h
      exact absurd rfl hphase
    · intro _ _ hcomment node h
      cases h
      exact hcomment
  have hcount := count_editableIds_steps_le id hframing
  have hsetup := (Plan.setups_plan_sublist nodes).countP_le
    (p := fun node => node.kind.hasCallback && node.id == id)
  have hopening := Plan.opened_plan_le (fun node => node.kind == .code && node.id == id) nodes
  -- A node with a callback is no code, so it counts once.
  have hsum : nodes.countP (fun node => node.kind.hasCallback && node.id == id) +
      nodes.countP (fun node => node.kind == .code && node.id == id) ≤
        (nodes.map Node.id).count id := by
    rw [List.count, List.countP_map]
    clear * -
    induction nodes with
    | nil => exact Nat.le_refl _
    | cons node rest ih =>
      rw [List.countP_cons, List.countP_cons, List.countP_cons]
      have hone : (if (node.kind.hasCallback && node.id == id) = true then 1 else 0) +
          (if (node.kind == .code && node.id == id) = true then 1 else 0) ≤
            if (node.id == id) = true then 1 else 0 := by
        cases node.id == id <;> cases node.kind <;> decide
      exact (Nat.le_of_eq (by omega)).trans (Nat.add_le_add ih hone)
  have hone := hids id
  exact hcount.trans ((Nat.add_le_add hsetup hopening).trans (hsum.trans hone))

end Generation

end FormWeave
