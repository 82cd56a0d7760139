import FormWeave.Generation.Plan
import Mathlib.Data.List.TakeWhile

/-!
# The steps of a plan

What holds of the code of all nodes holds of every step of a plan. A walk goes through ranges that
hold whole trees, and a plan writes the setup code of every node below a leading comment once.
-/

namespace FormWeave.Plan

variable {ν : Type}

/-! ## 1. The nodes that write in a phase -/

def writes? (phase : Phase) : Step ν → Option ν
  | .write p node => if p = phase then some node else none
  | _ => none

def writers (phase : Phase) (steps : List (Step ν)) : List ν := steps.filterMap (writes? phase)

theorem writers_append (phase : Phase) (front back : List (Step ν)) :
    writers phase (front ++ back) = writers phase front ++ writers phase back :=
  List.filterMap_append

theorem writers_cons_write (phase : Phase) (node : ν) (rest : List (Step ν)) :
    writers phase (.write phase node :: rest) = node :: writers phase rest :=
  List.filterMap_cons_some (if_pos rfl)

theorem writers_map (phase other : Phase) (nodes : List ν) :
    writers phase (nodes.map (.write other)) = if other = phase then nodes else [] := by
  induction nodes with
  | nil => exact (ite_self _).symm
  | cons node rest ih =>
    by_cases h : other = phase
    · rw [if_pos h] at ih ⊢
      subst h
      rw [List.map_cons, writers_cons_write, ih]
    · rw [if_neg h] at ih ⊢
      have hnone : writes? phase (.write other node) = none := if_neg h
      rw [List.map_cons, writers, List.filterMap_cons_none hnone]
      exact ih

def opened (p : ν → Bool) (steps : List (Step ν)) : Nat := (writers .opening steps).countP p

variable [DesignNode ν]

open DesignNode (below depth kind)

/-! ## 2. What holds of all steps -/

def tree (node : ν) (rest : List ν) : List (Step ν) :=
  let size := subtreeSize node rest
  let opening := if rest.isEmpty && kind node == .comment then [] else [Step.write .opening node]
  let isFunction (n : ν) := kind n == .function
  if kind node == .widgetClass then
    opening ++ walk (fun n => !isFunction n) size rest ++ [.write .closing node] ++
      walk isFunction size rest ++ [.endClass]
  else opening ++ walk (fun _ => true) size rest ++ [.write .closing node]

theorem walk_cons (chosen : ν → Bool) (count : Nat) (node : ν) (rest : List ν) :
    walk chosen (count + 1) (node :: rest) =
      (if chosen node then tree node rest else []) ++
        walk chosen (count - subtreeSize node rest) (rest.drop (subtreeSize node rest)) := by
  rw [walk]
  rfl

theorem walk_zero (chosen : ν → Bool) (nodes : List ν) : walk chosen 0 nodes = [] := by
  rw [walk]

theorem walk_nil (chosen : ν → Bool) (count : Nat) : walk chosen count ([] : List ν) = [] := by
  cases count <;> rw [walk]

/-- What holds of the opening and closing code of nodes holds of every step of a walk. -/
theorem forall_walk {P : Step ν → Prop} (hend : P .endClass) (chosen : ν → Bool) (count : Nat)
    (nodes : List ν)
    (hnode : ∀ node ∈ nodes, P (.write .opening node) ∧ P (.write .closing node)) :
    ∀ step ∈ walk chosen count nodes, P step := by
  induction chosen, count, nodes using walk.induct with
  | case1 chosen nodes =>
    rw [walk_zero]
    simp
  | case2 chosen count =>
    rw [walk_nil]
    simp
  | case3 chosen count node rest size hothers hfunctions hall htail =>
    -- The tree of the first node, and the walk behind its subtree.
    obtain ⟨hopening, hclosing⟩ := hnode node List.mem_cons_self
    have hrest : ∀ n ∈ rest, P (.write .opening n) ∧ P (.write .closing n) :=
      fun n hn => hnode n (List.mem_cons_of_mem _ hn)
    have htree : ∀ step ∈ tree node rest, P step := by
      have hfirst : ∀ step ∈ (if rest.isEmpty && kind node == .comment then []
          else [Step.write .opening node]), P step := by
        split <;> simp [hopening]
      intro step hstep
      unfold tree at hstep
      dsimp only at hstep
      split at hstep
      · simp only [List.mem_append, List.mem_singleton] at hstep
        rcases hstep with (((h | h) | rfl) | h) | rfl
        · exact hfirst step h
        · exact hothers hrest step h
        · exact hclosing
        · exact hfunctions hrest step h
        · exact hend
      · simp only [List.mem_append, List.mem_singleton] at hstep
        rcases hstep with (h | h) | rfl
        · exact hfirst step h
        · exact hall hrest step h
        · exact hclosing
    intro step hstep
    rw [walk_cons, List.mem_append] at hstep
    rcases hstep with h | h
    · split at h
      · exact htree step h
      · cases h
    · exact htail (fun n hn => hrest n (List.mem_of_mem_drop hn)) step h

theorem trees_cons (node : ν) (rest : List ν) :
    trees (node :: rest) =
      (node :: rest.take (subtreeSize node rest)).map (.write .setup) ++
        walk (fun _ => true) (subtreeSize node rest + 1) (node :: rest) ++
        trees (rest.drop (subtreeSize node rest)) := by
  rw [trees]

theorem forall_trees {P : Step ν → Prop} (hend : P .endClass) (nodes : List ν)
    (hnode : ∀ node ∈ nodes, ∀ phase, phase ≠ .framing → P (.write phase node)) :
    ∀ step ∈ trees nodes, P step := by
  induction nodes using trees.induct with
  | case1 =>
    rw [trees]
    simp
  | case2 node rest size ih =>
    have htail := ih fun n hn => hnode n (List.mem_cons_of_mem _ (List.mem_of_mem_drop hn))
    intro step hstep
    rw [trees_cons, List.mem_append, List.mem_append] at hstep
    rcases hstep with (h | h) | h
    · obtain ⟨n, hn, rfl⟩ := List.mem_map.1 h
      have hmem : n ∈ node :: rest := by
        rcases List.mem_cons.1 hn with rfl | hn
        · exact List.mem_cons_self
        · exact List.mem_cons_of_mem _ (List.mem_of_mem_take hn)
      exact hnode n hmem .setup nofun
    · refine forall_walk hend _ _ _ (fun n hn => ?_) step h
      exact ⟨hnode n hn .opening nofun, hnode n hn .closing nofun⟩
    · exact htail step h

/-- What holds of the code of nodes in the three phases, and of comments that frame the file, holds
of every step of a plan. -/
theorem forall_plan {P : Step ν → Prop} (hprologue : P .prologue) (hclass : P .endClass)
    (hguard : P .endGuard) (nodes : List ν)
    (hnode : ∀ node ∈ nodes, ∀ phase, phase ≠ .framing → P (.write phase node))
    (hframing : ∀ node ∈ nodes, kind node = .comment → P (.write .framing node)) :
    ∀ step ∈ plan nodes, P step := by
  have hsteps : ∀ rest : List ν, (∀ n ∈ rest, n ∈ nodes) → ∀ step ∈ steps rest, P step := by
    intro rest hrest step hstep
    rw [steps] at hstep
    simp only [List.cons_append, List.mem_cons, List.mem_append, List.mem_map, List.not_mem_nil,
      or_false] at hstep
    rcases hstep with rfl | (h | rfl) | ⟨n, hn, rfl⟩
    · exact hprologue
    · exact forall_trees hclass rest (fun n hn => hnode n (hrest n hn)) step h
    · exact hguard
    · rw [Option.mem_toList, Option.filter_eq_some_iff] at hn
      exact hframing n (hrest n (List.mem_of_getLast? hn.1)) (beq_iff_eq.1 hn.2)
  cases nodes with
  | nil => exact hsteps [] (by simp)
  | cons node rest =>
    rw [plan]
    -- A comment in front frames the file and has no other step.
    split
    · next hcomment =>
      intro step hstep
      rcases List.mem_cons.1 hstep with rfl | hstep
      · exact hframing node List.mem_cons_self (beq_iff_eq.1 hcomment)
      · exact hsteps rest (fun n hn => List.mem_cons_of_mem _ hn) step hstep
    · exact hsteps (node :: rest) fun n hn => hn

/-! ## 3. Ranges that hold whole trees -/

/-- The node behind the first `count` nodes does not lie below any of them. -/
def Whole (count : Nat) (nodes : List ν) : Prop :=
  ∀ next, nodes[count]? = some next → ∀ node ∈ nodes.take count, depth next ≤ depth node

theorem subtreeSize_le_length (root : ν) (rest : List ν) : subtreeSize root rest ≤ rest.length :=
  (List.takeWhile_prefix _).length_le

theorem take_subtreeSize (root : ν) (rest : List ν) :
    rest.take (subtreeSize root rest) = rest.takeWhile (below root) :=
  (List.prefix_iff_eq_take.1 (List.takeWhile_prefix _)).symm

theorem depth_lt_of_mem_take {root node : ν} {rest : List ν}
    (h : node ∈ rest.take (subtreeSize root rest)) : depth root < depth node := by
  rw [take_subtreeSize] at h
  have hbelow : below root node = true := List.mem_takeWhile_imp h
  exact of_decide_eq_true hbelow

theorem depth_le_of_getElem? {root next : ν} {rest : List ν}
    (h : rest[subtreeSize root rest]? = some next) : depth next ≤ depth root := by
  induction rest with
  | nil => cases h
  | cons node rest ih =>
    by_cases hbelow : below root node = true
    · rw [subtreeSize, List.takeWhile_cons_of_pos hbelow, List.length_cons,
        List.getElem?_cons_succ] at h
      exact ih h
    · rw [subtreeSize, List.takeWhile_cons_of_neg hbelow, List.length_nil,
        List.getElem?_cons_zero] at h
      cases h
      exact Nat.le_of_not_lt fun hlt => hbelow (decide_eq_true hlt)

theorem whole_subtree (root : ν) (rest : List ν) : Whole (subtreeSize root rest) rest := by
  intro next hnext node hnode
  have hle := depth_le_of_getElem? hnext
  have hlt := depth_lt_of_mem_take hnode
  omega

variable {count : Nat} {node : ν} {rest : List ν}

/-- A whole range holds the subtree of its first node. -/
theorem Whole.subtreeSize_le (h : Whole (count + 1) (node :: rest)) :
    subtreeSize node rest ≤ count := by
  by_contra hlt
  have hlength := subtreeSize_le_length node rest
  have hcount : count < rest.length := by omega
  -- Else the node behind the range would lie below the first one.
  have hmem : rest[count] ∈ rest.take (subtreeSize node rest) :=
    List.mem_take_iff_getElem.2 ⟨count, by omega, rfl⟩
  have hdeeper := depth_lt_of_mem_take hmem
  have hnext : (node :: rest)[count + 1]? = some rest[count] := by
    rw [List.getElem?_cons_succ, List.getElem?_eq_getElem hcount]
  have hle := h _ hnext node (by simp)
  omega

theorem Whole.tail (h : Whole (count + 1) (node :: rest)) :
    Whole (count - subtreeSize node rest) (rest.drop (subtreeSize node rest)) := by
  intro next hnext other hother
  have hle := h.subtreeSize_le
  rw [List.getElem?_drop, Nat.add_sub_cancel' hle] at hnext
  rw [← List.drop_take] at hother
  refine h next (by rwa [List.getElem?_cons_succ]) other ?_
  rw [List.take_succ_cons]
  exact List.mem_cons_of_mem _ (List.mem_of_mem_drop hother)

/-! ## 4. Setup code is written once -/

theorem setups_walk (chosen : ν → Bool) (count : Nat) (nodes : List ν) :
    writers .setup (walk chosen count nodes) = [] := by
  rw [writers, List.filterMap_eq_nil_iff]
  exact forall_walk (P := fun step => writes? .setup step = none) rfl chosen count nodes
    fun _ _ => ⟨rfl, rfl⟩

/-- Below a leading comment, every node writes its setup code once, in the order of the design. -/
theorem setups_trees (nodes : List ν) : writers .setup (trees nodes) = nodes := by
  induction nodes using trees.induct with
  | case1 =>
    rw [trees]
    rfl
  | case2 node rest size ih =>
    rw [trees_cons, writers_append, writers_append, writers_map, if_pos rfl, setups_walk, ih,
      List.append_nil, List.cons_append, List.take_append_drop]

theorem setups_steps (nodes : List ν) : writers .setup (steps nodes) = nodes := by
  have hprologue : writers .setup [(Step.prologue : Step ν)] = [] := rfl
  have hguard : writers .setup [(Step.endGuard : Step ν)] = [] := rfl
  rw [steps, ← List.singleton_append, List.append_assoc, writers_append, writers_append,
    writers_append, writers_map, hprologue, hguard, setups_trees]
  simp

theorem setups_plan_sublist (nodes : List ν) : (writers .setup (plan nodes)).Sublist nodes := by
  cases nodes with
  | nil =>
    have hnil : writers .setup (plan ([] : List ν)) = [] := setups_steps []
    simp only [hnil, List.Sublist.refl]
  | cons node rest =>
    rw [plan]
    split
    · have hrest : writers .setup (.write .framing node :: steps rest) = rest := setups_steps rest
      rw [hrest]
      exact List.sublist_cons_self node rest
    · simp only [setups_steps, List.Sublist.refl]

end FormWeave.Plan
