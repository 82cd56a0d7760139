import FormWeave.Proofs.Members
import FormWeave.Proofs.Nesting
import FormWeave.Proofs.TrackedRuns
import Mathlib.Data.List.Pairwise

/-!
# The ranges of a report divide the files

A report says where the setup, opening and closing code of each node stands in the source and in the
header. These ranges lie in the files, hold exactly what the node wrote, and do not overlap, but that a
comment that frames a file has one range for its opening and its closing code. Outside of them there
is nothing but the prologue and, in the header, the ends of the classes and of the include guard.
-/

namespace FormWeave

/-! ## 1. Ranges -/

namespace Range

def slice (range : Range) (bytes : Bytes) : Bytes :=
  (bytes.drop range.start).take (range.stop - range.start)

def Within (range : Range) (length : Nat) : Prop :=
  range.start ≤ range.stop ∧ range.stop ≤ length

def covers (range : Range) (position : Nat) : Bool :=
  range.start ≤ position && position < range.stop

/-- One range ends before the other one starts, or where it does. -/
def Apart (range other : Range) : Prop := range.stop ≤ other.start ∨ other.stop ≤ range.start

theorem covers_iff {range : Range} {position : Nat} :
    range.covers position = true ↔ range.start ≤ position ∧ position < range.stop := by
  rw [covers, Bool.and_eq_true, decide_eq_true_iff, decide_eq_true_iff]

theorem Apart.symm {range other : Range} (h : range.Apart other) : other.Apart range := Or.symm h

theorem Apart.not_covers {range other : Range} (h : range.Apart other) {position : Nat}
    (hrange : range.covers position = true) : other.covers position = false := by
  rw [covers_iff] at hrange
  rw [← Bool.not_eq_true, covers_iff]
  rcases h with h | h <;> omega

/-- A range at the front that is empty overlaps with none. -/
theorem apart_empty (range : Range) : Apart {} range := .inl (Nat.zero_le _)

theorem slice_of_append {range : Range} {front middle back : Bytes}
    (h : range = ⟨front.length, front.length + middle.length⟩) :
    range.slice (front ++ (middle ++ back)) = middle := by
  rw [slice, h, List.drop_left' rfl, Nat.add_sub_cancel_left, List.take_left' rfl]

end Range

def outside (ranges : List Range) (bytes : Bytes) : Bytes :=
  (bytes.zipIdx.filter fun byte => !ranges.any (·.covers byte.2)).map Prod.fst

theorem filter_zipIdx_part {bytes : Bytes} {position : Nat} {covered : Nat → Bool} {kept : Bool}
    (h : ∀ i, position ≤ i → i < position + bytes.length → covered i = !kept) :
    ((bytes.zipIdx position).filter fun byte => !covered byte.2).map Prod.fst =
      if kept then bytes else [] := by
  have hall : ∀ byte ∈ bytes.zipIdx position, (!covered byte.2) = kept := by
    intro byte hbyte
    obtain ⟨hlow, hhigh, -⟩ := List.mem_zipIdx hbyte
    rw [h _ hlow hhigh, Bool.not_not]
  rw [List.filter_congr hall]
  cases kept with
  | false => rw [List.filter_false]; rfl
  | true => rw [List.filter_true, List.zipIdx_map_fst]; rfl

/-- Where whole parts of a file are covered, the other parts are left. -/
theorem filter_zipIdx_parts {α : Type} {bytes : α → Bytes} {kept : α → Bool}
    {covered : Nat → Bool} {parts : List α} :
    ∀ {position : Nat},
      (∀ part ∈ placed bytes position parts, ∀ i, part.1 ≤ i →
        i < part.1 + (bytes part.2).length → covered i = !kept part.2) →
      (((parts.flatMap bytes).zipIdx position).filter fun byte => !covered byte.2).map Prod.fst =
        (parts.filter kept).flatMap bytes := by
  induction parts with
  | nil => exact fun _ => rfl
  | cons part rest ih =>
    intro position h
    rw [placed, List.forall_mem_cons] at h
    rw [List.flatMap_cons, List.zipIdx_append, List.filter_append, List.map_append,
      filter_zipIdx_part h.1, ih h.2]
    cases hkept : kept part with
    | false => rw [List.filter_cons_of_neg (by simp [hkept])]; rfl
    | true => rw [List.filter_cons_of_pos hkept]; rfl

theorem outside_eq {α : Type} {bytes : α → Bytes} {kept : α → Bool} {ranges : List Range}
    {parts : List α}
    (h : ∀ part ∈ placed bytes 0 parts, ∀ i, part.1 ≤ i → i < part.1 + (bytes part.2).length →
      ranges.any (·.covers i) = !kept part.2) :
    outside ranges (parts.flatMap bytes) = (parts.filter kept).flatMap bytes :=
  filter_zipIdx_parts h

/-! ## 2. The two files -/

inductive Side
  | source
  | header
  deriving DecidableEq

def RangePair.on (pair : RangePair) : Side → Range
  | .source => pair.source
  | .header => pair.header

def Generated.on (generated : Generated) : Side → Bytes
  | .source => generated.source
  | .header => generated.header

namespace Generation

def Piece.on (piece : Piece) : Side → Bytes
  | .source => piece.source
  | .header => piece.header

/-- The parts of one of the files are the pieces, and their ranges start where the parts do. -/
theorem map_places (side : Side) (source header : Nat) (pieces : List Piece) :
    (places source header pieces).map (fun place => ((place.2.on side).start, place.1)) =
      placed (·.on side) (side.rec source header) pieces := by
  induction pieces generalizing source header with
  | nil => rfl
  | cons piece rest ih =>
    rw [places, List.map_cons, ih, placed]
    cases side <;> rfl

theorem length_places (side : Side) {source header : Nat} {pieces : List Piece} :
    ∀ place ∈ places source header pieces,
      (place.2.on side).stop = (place.2.on side).start + (place.1.on side).length := by
  induction pieces generalizing source header with
  | nil => exact fun _ h => by cases h
  | cons piece rest ih =>
    rw [places, List.forall_mem_cons]
    exact ⟨by cases side <;> rfl, ih⟩

theorem start_le_places (side : Side) {source header : Nat} {pieces : List Piece} :
    ∀ place ∈ places source header pieces,
      (side.rec source header : Nat) ≤ (place.2.on side).start := by
  intro place hplace
  have hmem := List.mem_map_of_mem (f := fun place => ((place.2.on side).start, place.1)) hplace
  rw [map_places] at hmem
  obtain ⟨front, back, -, hstart⟩ := mem_placed_iff.1 hmem
  omega

/-- Pieces stand one behind the other. -/
theorem pairwise_places (side : Side) (source header : Nat) (pieces : List Piece) :
    (places source header pieces).Pairwise fun place behind =>
      (place.2.on side).stop ≤ (behind.2.on side).start := by
  induction pieces generalizing source header with
  | nil => exact .nil
  | cons piece rest ih =>
    rw [places]
    refine .cons (fun behind hbehind => ?_) (ih _ _)
    have h := start_le_places side behind hbehind
    cases side <;> exact h

theorem apart_places {side : Side} {source header : Nat} {pieces : List Piece}
    {place other : Piece × RangePair} (hplace : place ∈ places source header pieces)
    (hother : other ∈ places source header pieces) (hne : place ≠ other) :
    (place.2.on side).Apart (other.2.on side) := by
  have hpairwise : (places source header pieces).Pairwise fun place behind =>
      (place.2.on side).Apart (behind.2.on side) :=
    (pairwise_places side source header pieces).imp .inl
  have : Std.Symm fun place behind : Piece × RangePair =>
      (place.2.on side).Apart (behind.2.on side) := ⟨fun _ _ => Range.Apart.symm⟩
  exact hpairwise.forall hplace hother hne

/-- The range of a piece is that of its bytes. -/
theorem slice_places {side : Side} {pieces : List Piece} {place : Piece × RangePair}
    (hplace : place ∈ places 0 0 pieces) :
    (place.2.on side).Within (pieces.flatMap (·.on side)).length ∧
      (place.2.on side).slice (pieces.flatMap (·.on side)) = place.1.on side := by
  have hmem := List.mem_map_of_mem (f := fun place => ((place.2.on side).start, place.1)) hplace
  rw [map_places] at hmem
  obtain ⟨front, back, rfl, hstart⟩ := mem_placed_iff.1 hmem
  have hzero : (side.rec 0 0 : Nat) = 0 := by cases side <;> rfl
  have hstop := length_places side place hplace
  rw [hzero, Nat.zero_add] at hstart
  rw [hstart] at hstop
  have hrange : place.2.on side = ⟨(front.flatMap (·.on side)).length,
      (front.flatMap (·.on side)).length + (place.1.on side).length⟩ := by
    rw [← hstop, ← hstart]
  rw [List.flatMap_append, List.flatMap_cons]
  refine ⟨?_, Range.slice_of_append hrange⟩
  rw [hrange, Range.Within, List.length_append, List.length_append, ← Nat.add_assoc]
  exact ⟨Nat.le_add_right _ _, Nat.le_add_right _ _⟩

end Generation

/-! ## 3. What a report has of a node -/

inductive Slot
  | setup
  | opening
  | closing
  deriving DecidableEq

namespace Slot

def all : List Slot := [setup, opening, closing]

theorem mem_all (slot : Slot) : slot ∈ all := by cases slot <;> decide

end Slot

/-- Whether code of a phase counts as that of a slot. A framing comment stands for its whole node. -/
def Phase.fills : Phase → Slot → Bool
  | .setup, slot => slot == .setup
  | .opening, slot => slot == .opening
  | .closing, slot => slot == .closing
  | .framing, slot => slot != .setup

theorem Phase.exists_fills (phase : Phase) : ∃ slot, phase.fills slot = true := by
  cases phase with
  | setup => exact ⟨.setup, rfl⟩
  | opening | framing => exact ⟨.opening, rfl⟩
  | closing => exact ⟨.closing, rfl⟩

/-- Different phases of one slot are that of a frame and another one. -/
theorem Phase.framing_of_fills {phase later : Phase} {slot : Slot} (hphase : phase.fills slot = true)
    (hlater : later.fills slot = true) (hne : later ≠ phase) :
    (phase = .framing ∧ (later = .opening ∨ later = .closing)) ∨
      (later = .framing ∧ (phase = .opening ∨ phase = .closing)) := by
  cases phase <;> cases later <;> cases slot <;> simp_all [fills]

def NodeRanges.get (ranges : NodeRanges) : Slot → RangePair
  | .setup => ranges.setup
  | .opening => ranges.opening
  | .closing => ranges.closing

theorem NodeRanges.get_set (ranges : NodeRanges) (pair : RangePair) (phase : Phase) (slot : Slot) :
    (ranges.set pair phase).get slot = if phase.fills slot then pair else ranges.get slot := by
  cases phase <;> cases slot <;> rfl

def Step.fills (step : Step Node) (id : NodeId) (slot : Slot) : Bool :=
  match step with
  | .write phase node => node.id == id && phase.fills slot
  | .prologue | .endClass | .endGuard => false

theorem Step.fills_iff {step : Step Node} {id : NodeId} {slot : Slot} :
    step.fills id slot = true ↔
      ∃ phase node, step = .write phase node ∧ node.id = id ∧ phase.fills slot = true := by
  cases step with
  | write phase node => simp [Step.fills]
  | prologue | endClass | endGuard => simp [Step.fills]

namespace RangeTable

open Generation

def get (table : RangeTable) (id : NodeId) (slot : Slot) : RangePair :=
  ((table.find? id).getD {}).get slot

theorem get_enter (table : RangeTable) (place : Piece × RangePair) (id : NodeId) (slot : Slot) :
    (table.enter place).get id slot =
      if place.1.step.fills id slot then place.2 else table.get id slot := by
  obtain ⟨⟨step, chunks⟩, pair⟩ := place
  cases step with
  | prologue | endClass | endGuard => rfl
  | write phase node =>
    show ((table.update node.id (·.set pair phase)).find? id |>.getD {}).get slot =
      if (node.id == id && phase.fills slot) = true then pair else _
    rw [find?_update]
    by_cases hid : id = node.id
    · rw [if_pos hid, Option.getD_some, NodeRanges.get_set, hid, beq_self_eq_true, Bool.true_and]
      rfl
    · rw [if_neg hid, beq_eq_false_iff_ne.2 (Ne.symm hid), Bool.false_and, if_neg Bool.false_ne_true]
      rfl

/-- The last piece of a slot is the one whose place the table has. -/
theorem get_foldl (places : List (Piece × RangePair)) (id : NodeId) (slot : Slot) :
    (places.foldl enter {}).get id slot =
      (((places.filter fun place => place.1.step.fills id slot).getLast?).map Prod.snd).getD {} := by
  induction places using List.reverseRecOn with
  | nil => cases slot <;> rfl
  | append_singleton front place ih =>
    rw [List.foldl_append, List.foldl_cons, List.foldl_nil, get_enter, ih, List.filter_append]
    cases hfills : place.1.step.fills id slot with
    | true => simp [hfills]
    | false => simp [hfills]

end RangeTable

/-! ## 4. Which pieces a slot has -/

namespace Forest

open DesignNode (kind)
open Plan (writers)

variable {ν : Type} [DesignNode ν] {nodes : List ν} {node : ν}

theorem trailing_sublist (nodes : List ν) : (trailing nodes).Sublist nodes := by
  rw [trailing]
  cases hlast : nodes.getLast?.filter fun node => kind node == .comment with
  | none => exact List.nil_sublist _
  | some last =>
    obtain ⟨hmem, -⟩ := Option.filter_eq_some_iff.1 hlast
    exact List.singleton_sublist.2 (List.mem_of_getLast? hmem)

theorem not_mem_members_of_leading (hnodup : nodes.Nodup) (h : node ∈ leading nodes) :
    node ∉ members nodes := by
  rw [← leading_append_members nodes] at hnodup
  exact fun hmember => (List.nodup_append.1 hnodup).2.2 node h node hmember rfl

/-- In every phase a node writes once. -/
theorem nodup_writers (hnodup : nodes.Nodup) (phase : Phase) :
    (writers phase (plan nodes)).Nodup := by
  have honce := writtenOnce_plan nodes
  have hmembers : (members nodes).Nodup := (List.drop_sublist _ nodes).nodup hnodup
  cases phase with
  | setup => rwa [honce.setup]
  | opening => exact (List.nodup_append.1 (honce.opening.nodup_iff.2 hmembers)).1
  | closing => exact honce.closing.nodup_iff.2 hmembers
  | framing =>
    have hsublist := (List.Sublist.refl (leading nodes)).append (trailing_sublist (members nodes))
    rw [leading_append_members] at hsublist
    rw [honce.framing]
    exact hsublist.nodup hnodup

omit [DesignNode ν] in
theorem mem_writers {phase : Phase} {steps : List (Step ν)} (h : .write phase node ∈ steps) :
    node ∈ writers phase steps :=
  List.mem_filterMap.2 ⟨_, h, if_pos rfl⟩

theorem not_twice (hnodup : nodes.Nodup) {phase : Phase} {front back : List (Step ν)}
    (hplan : plan nodes = front ++ .write phase node :: back) : .write phase node ∉ back := by
  intro hlater
  have honce := nodup_writers hnodup phase
  rw [hplan, Plan.writers_append, Plan.writers_cons_write] at honce
  exact (List.nodup_cons.1 (List.nodup_append.1 honce).2.1).1 (mem_writers hlater)

/-- A comment that frames the file and has other code written in front of its frame ends the design. -/
theorem trailing_of_framing (hnodup : nodes.Nodup) (hmember : node ∈ members nodes)
    (hframing : .write .framing node ∈ plan nodes) : node ∈ trailing (members nodes) := by
  have hwriter := mem_writers hframing
  rw [(writtenOnce_plan nodes).framing, List.mem_append] at hwriter
  exact hwriter.resolve_left fun hlead => not_mem_members_of_leading hnodup hlead hmember

/-- Opening code that is no frame is that of a node without a frame. -/
theorem not_opening_of_framing (hnodup : nodes.Nodup) (hframing : .write .framing node ∈ plan nodes) :
    .write .opening node ∉ plan nodes := by
  intro hopening
  have hwriters := (writtenOnce_plan nodes).opening
  have hmember := hwriters.subset (List.mem_append_left _ (mem_writers hopening))
  have htrailing := trailing_of_framing hnodup hmember hframing
  have hmembers : (members nodes).Nodup := (List.drop_sublist _ nodes).nodup hnodup
  exact (List.nodup_append.1 (hwriters.nodup_iff.2 hmembers)).2.2 node (mem_writers hopening) node
    htrailing rfl

/-- The frame of a comment at the end is the last step of all. -/
theorem not_closing_behind_framing (hnodup : nodes.Nodup) {front back : List (Step ν)}
    (hplan : plan nodes = front ++ .write .framing node :: back) :
    .write .closing node ∉ back := by
  intro hclosing
  have hmember : node ∈ members nodes :=
    (writtenOnce_plan nodes).closing.subset (mem_writers (by simp [hplan, hclosing]))
  have htrailing := trailing_of_framing hnodup hmember (by simp [hplan])
  have hlast : node ∈ trailing nodes := by
    rwa [← leading_append_members nodes, trailing_append (List.ne_nil_of_mem hmember)]
  obtain ⟨steps, hend, -⟩ := plan_trailing hmember hlast
  obtain ⟨init, last, rfl⟩ := (List.eq_nil_or_concat' back).resolve_left (List.ne_nil_of_mem hclosing)
  rw [hplan, ← List.cons_append, ← List.append_assoc] at hend
  obtain ⟨-, hframe⟩ := List.append_inj' hend rfl
  cases hframe
  exact not_twice hnodup hplan (by simp)

/-- Of two steps of one slot the first one is the closing code of a comment. -/
theorem closing_of_earlier (hnodup : nodes.Nodup) {front back : List (Step ν)} {phase later : Phase}
    {slot : Slot} (hplan : plan nodes = front ++ .write phase node :: back)
    (hlater : .write later node ∈ back) (hphase : phase.fills slot = true)
    (hslot : later.fills slot = true) : phase = .closing ∧ kind node = .comment := by
  have hfirst : .write phase node ∈ plan nodes := by simp [hplan]
  have hsecond : .write later node ∈ plan nodes := by simp [hplan, hlater]
  have hne : later ≠ phase := fun hsame => not_twice hnodup hplan (hsame ▸ hlater)
  rcases Phase.framing_of_fills hphase hslot hne with ⟨rfl, rfl | rfl⟩ | ⟨rfl, rfl | rfl⟩
  · exact absurd hsecond (not_opening_of_framing hnodup hfirst)
  · exact absurd hlater (not_closing_behind_framing hnodup hplan)
  · exact absurd hfirst (not_opening_of_framing hnodup hsecond)
  · have hmember : node ∈ members nodes := (writtenOnce_plan nodes).closing.subset (mem_writers hfirst)
    exact ⟨rfl, kind_of_mem_trailing (trailing_of_framing hnodup hmember hsecond)⟩

/-- A node that frames the files: the comment that leads a design, or the one that ends it. -/
def Frames (nodes : List ν) (node : ν) : Prop :=
  node ∈ leading nodes ∨ node ∈ trailing (members nodes)

theorem frames_iff : .write .framing node ∈ plan nodes ↔ Frames nodes node := by
  have hframing := (writtenOnce_plan nodes).framing
  constructor
  · intro h
    have hwriter := mem_writers h
    rwa [hframing, List.mem_append] at hwriter
  · intro h
    have hwriter : node ∈ writers .framing (plan nodes) := by rwa [hframing, List.mem_append]
    obtain ⟨step, hstep, hwrites⟩ := List.mem_filterMap.1 hwriter
    unfold Plan.writes? at hwrites
    grind

def isFrame : Step ν → Bool
  | .write _ _ => false
  | .prologue | .endClass | .endGuard => true

variable (ν) in
def isClass (node : ν) : Bool := kind node == .widgetClass

/-- Steps that write code of nodes and end the classes whose closing code is among them. -/
def EndsClasses (steps : List (Step ν)) : Prop :=
  steps.filter isFrame = List.replicate (written (isClass ν) .closing steps) .endClass

theorem EndsClasses.append {front back : List (Step ν)} (hfront : EndsClasses front)
    (hback : EndsClasses back) : EndsClasses (front ++ back) := by
  rw [EndsClasses, List.filter_append, hfront, hback, written_append, List.replicate_add]

theorem endsClasses_map {phase : Phase} (h : phase ≠ .closing) (nodes : List ν) :
    EndsClasses (nodes.map (.write phase)) := by
  have hnone : (nodes.map (Step.write phase)).filter isFrame = [] := by
    rw [List.filter_eq_nil_iff]
    intro step hstep
    obtain ⟨node, -, rfl⟩ := List.mem_map.1 hstep
    exact Bool.false_ne_true
  rw [EndsClasses, hnone, written, Plan.writers_map, if_neg h]
  rfl

mutual
theorem endsClasses_walkTree (last : Bool) (tree : Tree ν) : EndsClasses (walkTree last tree) := by
  match tree with
  | .node root children =>
    have hopening : EndsClasses (if last && children.isEmpty && kind root == .comment then []
        else [Step.write .opening root]) := by
      split
      · rfl
      · exact endsClasses_map (by decide) [root]
    rw [walkTree]
    split
    · next hclass =>
      -- The end of the class goes with its closing code, behind the functions.
      have hothers := endsClasses_walk (fun n => !(kind n == .function)) last children
      have hfunctions := endsClasses_walk (fun n => kind n == .function) last children
      have hclosing : EndsClasses ([.write .closing root] ++
          walk (fun n => kind n == .function) last children ++ [.endClass]) := by
        have hroot : written (isClass ν) .closing [Step.write .closing root] = 1 := by
          rw [written, Plan.writers_cons_write]
          exact List.countP_singleton.trans (if_pos hclass)
        have hend : written (isClass ν) .closing [(Step.endClass : Step ν)] = 0 := rfl
        rw [EndsClasses, List.filter_append, List.filter_append, hfunctions, written_append,
          written_append, hroot, hend, Nat.add_zero, Nat.add_comm, List.replicate_succ']
        rfl
      have hall := (hopening.append hothers).append hclosing
      simpa only [List.append_assoc] using hall
    · next hclass =>
      have hclosing : EndsClasses [Step.write .closing root] := by
        have hroot : written (isClass ν) .closing [Step.write .closing root] = 0 := by
          rw [written, Plan.writers_cons_write]
          exact List.countP_singleton.trans (if_neg hclass)
        rw [EndsClasses, hroot]
        rfl
      exact (hopening.append (endsClasses_walk _ last children)).append hclosing

theorem endsClasses_walk (chosen : ν → Bool) (last : Bool) (forest : List (Tree ν)) :
    EndsClasses (walk chosen last forest) := by
  match forest with
  | [] => rfl
  | tree :: rest =>
    rw [walk]
    refine EndsClasses.append ?_ (endsClasses_walk chosen last rest)
    split
    · exact endsClasses_walkTree _ tree
    · rfl
end

theorem endsClasses_walkRoots (forest : List (Tree ν)) : EndsClasses (walkRoots forest) := by
  induction forest with
  | nil => rfl
  | cons tree rest ih =>
    rw [walkRoots]
    exact ((endsClasses_map (by decide) _).append (endsClasses_walkTree _ tree)).append ih

/-- Between the prologue and the end of the include guard there are the ends of the classes. -/
theorem filter_isFrame_plan (nodes : List ν) :
    (plan nodes).filter isFrame =
      .prologue :: List.replicate (nodes.countP (isClass ν)) .endClass ++ [.endGuard] := by
  have hframes : ∀ nodes : List ν, (nodes.map (Step.write .framing)).filter isFrame = [] := by
    intro nodes
    have hnone : EndsClasses (nodes.map (Step.write .framing)) := endsClasses_map (by decide) nodes
    rwa [EndsClasses, written, Plan.writers_map, if_neg (by decide)] at hnone
  have hcount : written (isClass ν) .closing (walkRoots (ofNodes (members nodes))) =
      nodes.countP (isClass ν) := by
    have hclosing := (writtenOnce_plan nodes).closing.countP_eq (isClass ν)
    rw [writers_plan, if_neg (by decide), if_neg (by decide), List.nil_append, List.append_nil]
      at hclosing
    -- No class is among the leading comments, so all classes are members.
    have hleading : (leading nodes).countP (isClass ν) = 0 := by
      rw [List.countP_eq_zero]
      intro node hnode
      rw [isClass, kind_of_mem_leading hnode]
      decide
    have hnodes := congrArg (List.countP (isClass ν)) (leading_append_members nodes)
    rw [List.countP_append, hleading, Nat.zero_add] at hnodes
    exact hclosing.trans hnodes
  rw [plan, List.filter_append, List.filter_append, hframes, List.filter_cons_of_pos rfl,
    List.filter_cons_of_pos rfl, hframes, endsClasses_walkRoots, hcount]
  rfl

end Forest

namespace Generation

/-! ## 5. The ranges of a run -/

variable (design : Design) (settings : Settings) (preview : Bool)

def codeOf (pieces : List Piece) (id : NodeId) (slot : Slot) : List Piece :=
  pieces.filter fun piece => piece.step.fills id slot

def rangesOf (design : Design) (settings : Settings) (preview : Bool) : RangeTable :=
  (placedPieces design settings preview).foldl RangeTable.enter {}

theorem map_fst_placedPieces :
    (placedPieces design settings preview).map Prod.fst = written design settings { preview } :=
  map_fst_places _ _ _

theorem map_step_placedPieces :
    (placedPieces design settings preview).map (·.1.step) = Forest.plan design.nodes := by
  have hsteps := map_step_written design settings { preview }
  rwa [← map_fst_placedPieces, List.map_map, Plan.plan_eq_forest] at hsteps

theorem mem_plan_of_place {place : Piece × RangePair}
    (h : place ∈ placedPieces design settings preview) :
    place.1.step ∈ Forest.plan design.nodes :=
  map_step_placedPieces design settings preview ▸
    List.mem_map_of_mem (f := fun place : Piece × RangePair => place.1.step) h

theorem mem_nodes_of_step {phase : Phase} {node : Node}
    (h : .write phase node ∈ Forest.plan design.nodes) : node ∈ design.nodes :=
  Forest.mem_of_plan (Plan.plan_eq_forest design.nodes ▸ h)

/-- Of two pieces of one slot the first one is the closing code of a comment. -/
theorem closing_of_earlier (hids : design.DistinctIds) {front back : List (Piece × RangePair)}
    {place later : Piece × RangePair} {id : NodeId} {slot : Slot}
    (hsplit : placedPieces design settings preview = front ++ place :: back) (hlater : later ∈ back)
    (hplace : place.1.step.fills id slot = true) (hslot : later.1.step.fills id slot = true) :
    ∃ node, place.1.step = .write .closing node ∧ node.kind = .comment := by
  obtain ⟨phase, node, hstep, rfl, hphase⟩ := Step.fills_iff.1 hplace
  obtain ⟨phase', node', hstep', hid, hphase'⟩ := Step.fills_iff.1 hslot
  have hnode : node ∈ design.nodes :=
    mem_nodes_of_step design (hstep ▸ mem_plan_of_place design settings preview (by rw [hsplit]; simp))
  have hnode' : node' ∈ design.nodes :=
    mem_nodes_of_step design
      (hstep' ▸ mem_plan_of_place design settings preview (by rw [hsplit]; simp [hlater]))
  have hmem : .write phase' node' ∈ back.map (·.1.step) :=
    hstep' ▸ List.mem_map_of_mem (f := fun place : Piece × RangePair => place.1.step) hlater
  -- Two steps of one node that fill the same slot are left to the plan.
  rw [hids.eq_of_id hnode' hnode hid] at hmem
  have hplan := map_step_placedPieces design settings preview
  rw [hsplit, List.map_append, List.map_cons, hstep] at hplan
  obtain ⟨rfl, hcomment⟩ := Forest.closing_of_earlier hids.nodup hplan.symm hmem hphase hphase'
  exact ⟨node, hstep, hcomment⟩

theorem chunks_of_earlier (hids : design.DistinctIds) {front back : List (Piece × RangePair)}
    {place later : Piece × RangePair} {id : NodeId} {slot : Slot}
    (hsplit : placedPieces design settings preview = front ++ place :: back) (hlater : later ∈ back)
    (hplace : place.1.step.fills id slot = true) (hslot : later.1.step.fills id slot = true) :
    place.1.chunks = [] := by
  obtain ⟨node, hstep, hcomment⟩ :=
    closing_of_earlier design settings preview hids hsplit hlater hplace hslot
  have hpiece : place.1 ∈ written design settings { preview } := by
    rw [← map_fst_placedPieces, hsplit]
    simp
  obtain ⟨w, hchunks⟩ := mem_pieces hpiece
  rw [hchunks, hstep, closing_comment _ hcomment, ← Array.length_toList, List.drop_length]

/-- A slot has the range of the last of its pieces, and the others are empty. -/
theorem get_cases (hids : design.DistinctIds) (id : NodeId) (slot : Slot) :
    ((placedPieces design settings preview).filter (fun place => place.1.step.fills id slot) = [] ∧
      (rangesOf design settings preview).get id slot = {}) ∨
    ∃ front last, (placedPieces design settings preview).filter
        (fun place => place.1.step.fills id slot) = front ++ [last] ∧
      (∀ place ∈ front, place.1.chunks = []) ∧
      (rangesOf design settings preview).get id slot = last.2 := by
  rw [rangesOf, RangeTable.get_foldl]
  rcases List.eq_nil_or_concat' ((placedPieces design settings preview).filter
    fun place => place.1.step.fills id slot) with hnil | ⟨front, last, hfilter⟩
  · exact .inl ⟨hnil, by rw [hnil]; rfl⟩
  · refine .inr ⟨front, last, hfilter, fun place hplace => ?_, ?_⟩
    · obtain ⟨left, right, hsplit, hleft, hright⟩ := List.filter_eq_append_iff.1 hfilter
      rw [← hleft, List.mem_filter] at hplace
      -- Behind any other piece of the slot there is still the last one.
      have hlast : last ∈ right.filter fun place => place.1.step.fills id slot := by simp [hright]
      rw [List.mem_filter] at hlast
      obtain ⟨before, between, rfl⟩ := List.append_of_mem hplace.1
      rw [List.append_assoc, List.cons_append] at hsplit
      exact chunks_of_earlier design settings preview hids hsplit
        (List.mem_append_right _ hlast.1) hplace.2 hlast.2
    · rw [hfilter, List.getLast?_concat]
      rfl

theorem on_of_chunks {piece : Piece} (h : piece.chunks = []) (side : Side) : piece.on side = [] := by
  cases side with
  | source => rw [Piece.on, Piece.source, h]; rfl
  | header => rw [Piece.on, Piece.header, h]; rfl

/-- The range of a slot lies in the file, and the file has there what was written for the slot. -/
theorem slice_get (hids : design.DistinctIds) (id : NodeId) (slot : Slot) (side : Side) :
    let range := ((rangesOf design settings preview).get id slot).on side
    let bytes := (written design settings { preview }).flatMap (·.on side)
    range.Within bytes.length ∧ range.slice bytes =
      (codeOf (written design settings { preview }) id slot).flatMap (·.on side) := by
  intro range bytes
  have hcode : codeOf (written design settings { preview }) id slot =
      ((placedPieces design settings preview).filter
        fun place => place.1.step.fills id slot).map Prod.fst := by
    rw [codeOf, ← map_fst_placedPieces, List.filter_map]
    rfl
  rw [hcode]
  rcases get_cases design settings preview hids id slot with
    ⟨hnone, hrange⟩ | ⟨front, last, hsome, hempty, hrange⟩
  · have hon : range = {} := by
      show RangePair.on _ side = _
      rw [hrange]
      cases side <;> rfl
    rw [hnone, hon]
    exact ⟨⟨Nat.le_refl _, Nat.zero_le _⟩, rfl⟩
  · have hlast : last ∈ placedPieces design settings preview :=
      List.mem_of_mem_filter (hsome ▸ List.mem_append_right _ (List.mem_singleton_self _))
    have hon : range = last.2.on side := congrArg (·.on side) hrange
    have hfront : (front.map Prod.fst).flatMap (·.on side) = [] := by
      rw [List.flatMap_eq_nil_iff]
      intro piece hpiece
      obtain ⟨place, hplace, rfl⟩ := List.mem_map.1 hpiece
      exact on_of_chunks (hempty place hplace) side
    rw [hsome, hon, List.map_append, List.flatMap_append, hfront, List.nil_append, List.map_singleton,
      List.flatMap_singleton]
    exact slice_places hlast

/-- The range of a slot is empty at the front, or it is that of a piece of the slot. -/
theorem get_place (hids : design.DistinctIds) (id : NodeId) (slot : Slot) :
    (rangesOf design settings preview).get id slot = {} ∨
      ∃ place ∈ placedPieces design settings preview, place.1.step.fills id slot = true ∧
        (rangesOf design settings preview).get id slot = place.2 := by
  refine (get_cases design settings preview hids id slot).imp And.right ?_
  rintro ⟨front, last, hsome, -, hrange⟩
  have hlast := List.mem_filter.1 (hsome ▸ List.mem_append_right front (List.mem_singleton_self last))
  exact ⟨last, hlast.1, hlast.2, hrange⟩

/-- The ranges of different slots do not overlap, but those of a frame. -/
theorem apart_get (hids : design.DistinctIds) {node other : Node} (hnode : node ∈ design.nodes)
    (hother : other ∈ design.nodes) {slot slot' : Slot} (hne : (node, slot) ≠ (other, slot'))
    (hframe : node = other → Forest.Frames design.nodes node → slot = .setup ∨ slot' = .setup)
    (side : Side) :
    (((rangesOf design settings preview).get node.id slot).on side).Apart
      (((rangesOf design settings preview).get other.id slot').on side) := by
  have hempty : ∀ pair : RangePair, pair = {} → pair.on side = {} := by
    rintro _ rfl
    cases side <;> rfl
  rcases get_place design settings preview hids node.id slot with
    hrange | ⟨place, hplace, hfills, hrange⟩
  · rw [hempty _ hrange]
    exact Range.apart_empty _
  rcases get_place design settings preview hids other.id slot' with
    hrange' | ⟨place', hplace', hfills', hrange'⟩
  · rw [hempty _ hrange']
    exact (Range.apart_empty _).symm
  rw [hrange, hrange']
  refine apart_places hplace hplace' fun hsame => ?_
  -- One piece of two slots is that of a frame.
  subst hsame
  obtain ⟨phase, writer, hstep, hid, hphase⟩ := Step.fills_iff.1 hfills
  obtain ⟨_, _, hstep', hid', hphase'⟩ := Step.fills_iff.1 hfills'
  rw [hstep] at hstep'
  cases hstep'
  have heq : node = other := hids.eq_of_id hnode hother (hid.symm.trans hid')
  have hwriter : writer = node :=
    hids.eq_of_id
      (mem_nodes_of_step design (hstep ▸ mem_plan_of_place design settings preview hplace)) hnode hid
  have hslots : slot ≠ slot' := fun hslot => hne (by rw [heq, hslot])
  have hmem := mem_plan_of_place design settings preview hplace
  rw [hstep, hwriter] at hmem
  cases phase with
  | framing =>
    rcases hframe heq (Forest.frames_iff.1 hmem) with rfl | rfl
    · cases hphase
    · cases hphase'
  | setup | opening | closing =>
    simp only [Phase.fills, beq_iff_eq] at hphase hphase'
    exact hslots (hphase.trans hphase'.symm)

/-- A frame stands for the opening and the closing code of its comment. -/
theorem get_framing (hids : design.DistinctIds) {node : Node}
    (h : Forest.Frames design.nodes node) :
    (rangesOf design settings preview).get node.id .opening =
      (rangesOf design settings preview).get node.id .closing := by
  have hstep := Forest.frames_iff.2 h
  rw [← map_step_placedPieces design settings preview] at hstep
  obtain ⟨place, hplace, hframing⟩ := List.mem_map.1 hstep
  obtain ⟨front, back, hsplit⟩ := List.append_of_mem hplace
  -- Behind the frame nothing is written for either slot.
  have hlast : ∀ slot, slot ≠ .setup →
      (rangesOf design settings preview).get node.id slot = place.2 := by
    intro slot hslot
    have hfills : place.1.step.fills node.id slot = true :=
      Step.fills_iff.2 ⟨.framing, node, hframing, rfl, by simpa [Phase.fills] using hslot⟩
    have hnone : back.filter (fun place => place.1.step.fills node.id slot) = [] := by
      rw [List.filter_eq_nil_iff]
      intro later hlater hfills'
      obtain ⟨closed, hclosing, -⟩ :=
        closing_of_earlier design settings preview hids hsplit hlater hfills hfills'
      rw [hframing] at hclosing
      cases hclosing
    have hbehind : (place :: back).filter (fun place => place.1.step.fills node.id slot) =
        [place] := by
      rw [List.filter_cons, if_pos hfills, hnone]
    rw [rangesOf, RangeTable.get_foldl, hsplit, List.filter_append, hbehind, List.getLast?_concat]
    rfl
  rw [hlast .opening (by decide), hlast .closing (by decide)]

/-- The table has one entry for each node. -/
theorem perm_ids_rangesOf (hids : design.DistinctIds) :
    (rangesOf design settings preview).ids.Perm (design.nodes.map Node.id) := by
  refine (List.perm_ext_iff_of_nodup ?_ hids).2 fun id => ?_
  · exact RangeTable.nodup_ids_foldl _ List.nodup_nil
  have hnone : id ∉ (({} : RangeTable)).ids := List.not_mem_nil
  rw [rangesOf, RangeTable.mem_ids_foldl, or_iff_right hnone, List.mem_map]
  constructor
  · rintro ⟨place, hplace, phase, node, hstep, rfl⟩
    exact ⟨node,
      mem_nodes_of_step design (hstep ▸ mem_plan_of_place design settings preview hplace), rfl⟩
  · rintro ⟨node, hnode, rfl⟩
    -- A node has its frame written or else its closing code.
    have hstep : ∃ phase, .write phase node ∈ Forest.plan design.nodes := by
      rw [← Forest.leading_append_members design.nodes, List.mem_append] at hnode
      rcases hnode with hlead | hmember
      · exact ⟨.framing, Forest.frames_iff.2 (.inl hlead)⟩
      · have hwriter := (Forest.writtenOnce_plan design.nodes).closing.mem_iff.2 hmember
        obtain ⟨step, hstep, hwrites⟩ := List.mem_filterMap.1 hwriter
        unfold Plan.writes? at hwrites
        grind
    obtain ⟨phase, hphase⟩ := hstep
    rw [← map_step_placedPieces design settings preview] at hphase
    obtain ⟨place, hplace, hstep⟩ := List.mem_map.1 hphase
    exact ⟨place, hplace, phase, node, hstep, rfl⟩

/-! ## 6. What is left outside -/

def allRanges (design : Design) (table : RangeTable) (side : Side) : List Range :=
  design.nodes.flatMap fun node => Slot.all.map fun slot => (table.get node.id slot).on side

theorem outside_rangesOf (hids : design.DistinctIds) (side : Side) :
    outside (allRanges design (rangesOf design settings preview) side)
        ((written design settings { preview }).flatMap (·.on side)) =
      ((written design settings { preview }).filter fun piece => Forest.isFrame piece.step).flatMap
        (·.on side) := by
  refine outside_eq fun part hpart i hlow hhigh => ?_
  have hzero : (side.rec 0 0 : Nat) = 0 := by cases side <;> rfl
  have hplaces := map_places side 0 0 (written design settings { preview })
  rw [hzero] at hplaces
  rw [← hplaces] at hpart
  obtain ⟨place, hplace, rfl⟩ := List.mem_map.1 hpart
  have hcovers : (place.2.on side).covers i = true := by
    rw [Range.covers_iff, length_places side place hplace]
    exact ⟨hlow, hhigh⟩
  cases hstep : place.1.step with
  | write phase node =>
    -- The piece is the last one of its slot, as it is not empty.
    have hnode : node ∈ design.nodes :=
      mem_nodes_of_step design (hstep ▸ mem_plan_of_place design settings preview hplace)
    obtain ⟨slot, hslot⟩ := phase.exists_fills
    have hfills : place.1.step.fills node.id slot = true :=
      Step.fills_iff.2 ⟨phase, node, hstep, rfl, hslot⟩
    have hmem : place ∈ (placedPieces design settings preview).filter
        fun place => place.1.step.fills node.id slot := List.mem_filter.2 ⟨hplace, hfills⟩
    have hrange : (rangesOf design settings preview).get node.id slot = place.2 := by
      rcases get_cases design settings preview hids node.id slot with
        ⟨hnone, -⟩ | ⟨front, last, hsome, hempty, hrange⟩
      · rw [hnone] at hmem
        cases hmem
      · rw [hsome, List.mem_append, List.mem_singleton] at hmem
        rcases hmem with hfront | rfl
        · rw [on_of_chunks (hempty place hfront) side] at hhigh
          exact absurd hhigh (Nat.not_lt.2 hlow)
        · exact hrange
    have hin : place.2.on side ∈ allRanges design (rangesOf design settings preview) side :=
      List.mem_flatMap.2 ⟨node, hnode, List.mem_map.2 ⟨slot, slot.mem_all, by rw [hrange]⟩⟩
    exact List.any_eq_true.2 ⟨_, hin, hcovers⟩
  | prologue | endClass | endGuard =>
    refine List.any_eq_false.2 fun range hin => ?_
    obtain ⟨node, -, hrange⟩ := List.mem_flatMap.1 hin
    obtain ⟨slot, -, rfl⟩ := List.mem_map.1 hrange
    rw [Bool.not_eq_true]
    refine Range.Apart.not_covers ?_ hcovers
    rcases get_place design settings preview hids node.id slot with
      hrange | ⟨other, hother, hfills, hrange⟩
    · have hempty : RangePair.on {} side = {} := by cases side <;> rfl
      rw [hrange, hempty]
      exact (Range.apart_empty _).symm
    · rw [hrange]
      refine apart_places hplace hother fun hsame => ?_
      rw [← hsame, hstep] at hfills
      cases hfills

theorem chunks_of_wrote {step : Step Node} {chunks : List Chunk}
    (h : ∀ w : Writer, w.dryRun = false →
      w.Wrote chunks (stepCode (configuredNames settings) step w).2)
    {piece : Piece} (hpiece : piece ∈ written design settings { preview })
    (hstep : piece.step = step) : piece.chunks = chunks := by
  obtain ⟨before, behind, hsplit⟩ := List.append_of_mem hpiece
  obtain ⟨-, hone⟩ := split_pieces (configuredNames settings) hsplit
  have hlive := (wrote_advance (configuredNames settings) (start settings { preview }).reset
    (before.map Piece.step)).dryRun
  rw [hstep, pieces_cons _ (h _ hlive)] at hone
  exact congrArg Piece.chunks (List.cons.inj hone).1.symm

/-- Outside of the ranges there are the prologue, the ends of the classes and that of the guard. -/
def frameOf (prologue : Piece) (classes : Nat) : Side → Bytes
  | .source => prologue.source
  | .header => prologue.header ++ (List.replicate classes (utf8 "\x7d;\n")).flatten ++ utf8 "#endif\n"

theorem frame_written : ∃ prologue ∈ written design settings { preview },
    prologue.step = .prologue ∧ ∀ side : Side,
      ((written design settings { preview }).filter fun piece => Forest.isFrame piece.step).flatMap
          (·.on side) =
        frameOf prologue (design.nodes.countP fun node => node.kind == .widgetClass) side := by
  have hsteps := Forest.filter_isFrame_plan design.nodes
  rw [← Plan.plan_eq_forest, ← map_step_written design settings { preview }, List.filter_map] at hsteps
  obtain ⟨prologue, rest, hfilter, hprologue, hrest⟩ := List.map_eq_cons_iff.1 hsteps
  obtain ⟨ends, guards, rfl, hends, hguards⟩ := List.map_eq_append_iff.1 hrest
  obtain ⟨guard, rfl, hguard⟩ := List.map_eq_singleton_iff.1 hguards
  -- The steps tell what the pieces behind the prologue are made of.
  have hmem : ∀ piece ∈ prologue :: (ends ++ [guard]), piece ∈ written design settings { preview } :=
    fun piece hpiece => List.mem_of_mem_filter (hfilter ▸ hpiece)
  have hguardChunks : guard.chunks = [.header (utf8 "#endif\n")] :=
    chunks_of_wrote design settings preview (fun _ hlive => Writer.live_writeHeader hlive _)
      (hmem guard (by simp)) hguard
  have hendChunks : ∀ piece ∈ ends, piece.chunks = [.header (utf8 "\x7d;\n")] := by
    intro piece hpiece
    have hstep := List.mem_map_of_mem (f := Piece.step) hpiece
    rw [hends] at hstep
    exact chunks_of_wrote design settings preview (fun _ hlive => wrote_endClass _ hlive)
      (hmem piece (by simp [hpiece])) (List.eq_of_mem_replicate hstep)
  have hlength := congrArg List.length hends
  rw [List.length_map, List.length_replicate] at hlength
  refine ⟨prologue, hmem prologue List.mem_cons_self, hprologue, fun side => ?_⟩
  have hpieces : (written design settings { preview }).filter
      (fun piece => Forest.isFrame piece.step) = prologue :: (ends ++ [guard]) := hfilter
  rw [hpieces, List.flatMap_cons, List.flatMap_append, List.flatMap_singleton]
  cases side with
  | source =>
    have hnone : ends.flatMap (·.on .source) = [] :=
      List.flatMap_eq_nil_iff.2 fun piece hpiece => by
        rw [Piece.on, Piece.source, hendChunks piece hpiece]
        rfl
    rw [hnone, Piece.on, Piece.on, Piece.source, Piece.source, hguardChunks]
    exact List.append_nil _
  | header =>
    have hends : ends.map (·.on .header) = List.replicate ends.length (utf8 "\x7d;\n") := by
      refine List.map_eq_replicate_iff.2 fun piece hpiece => ?_
      rw [Piece.on, Piece.header, hendChunks piece hpiece]
      rfl
    have hguardHeader : guard.on .header = utf8 "#endif\n" := by
      rw [Piece.on, Piece.header, hguardChunks]
      rfl
    rw [List.flatMap_def, hends, hlength, hguardHeader, ← List.append_assoc]
    rfl

end Generation

/-! ## 7. Reports -/

open Generation

def Generated.range (generated : Generated) (node : Node) (slot : Slot) (side : Side) : Range :=
  (generated.report.ranges.get node.id slot).on side

/-- The ranges of a report divide the files of a design among its nodes. `pieces` are what the files
are made up of, step by step. -/
structure Generated.Divided (generated : Generated) (design : Design) (pieces : List Piece) : Prop where
  entries : generated.report.ranges.ids.Perm (design.nodes.map Node.id)
  within : ∀ node ∈ design.nodes, ∀ slot side,
    (generated.range node slot side).Within (generated.on side).length
  code : ∀ node ∈ design.nodes, ∀ slot side,
    (generated.range node slot side).slice (generated.on side) =
      (codeOf pieces node.id slot).flatMap (·.on side)
  apart : ∀ node ∈ design.nodes, ∀ other ∈ design.nodes, ∀ slot slot' side,
    (node, slot) ≠ (other, slot') →
    (node = other → Forest.Frames design.nodes node → slot = .setup ∨ slot' = .setup) →
    (generated.range node slot side).Apart (generated.range other slot' side)
  framing : ∀ node, Forest.Frames design.nodes node → ∀ side,
    generated.range node .opening side = generated.range node .closing side
  rest : ∃ prologue ∈ pieces, prologue.step = .prologue ∧ ∀ side,
    outside (allRanges design generated.report.ranges side) (generated.on side) =
      frameOf prologue (design.nodes.countP fun node => node.kind == .widgetClass) side

namespace Generation

/-- Keeping track of ranges makes no difference to the files and to the number of nodes. The report
has an entry for each node, and the ranges in it lie in the files, have what was written for the nodes,
and do not overlap, but that a framing comment has one range for its opening and its closing code.
Outside of them there is the prologue and, in the header, the end of each class and of the include
guard. -/
theorem generate_divided (design : Design) (settings : Settings) (preview : Bool)
    (hids : design.DistinctIds) :
    ∃ plain tracked, generate design settings { preview } = .ok plain ∧
      generate design settings { preview, trackRanges := true } = .ok tracked ∧
      tracked.source = plain.source ∧ tracked.header = plain.header ∧
      tracked.report.nodesWritten = plain.report.nodesWritten ∧
      tracked.Divided design (written design settings { preview }) := by
  obtain ⟨plain, tracked, hplain, htracked, hsource, hheader, hcount, hranges⟩ :=
    generate_tracked design settings preview
  refine ⟨plain, tracked, hplain, htracked, hsource, hheader, hcount, ?_⟩
  obtain ⟨_, hwritten, hsource', hheader'⟩ := generate_written design settings { preview }
  rw [hplain] at hwritten
  cases hwritten
  have hrangesOf : tracked.report.ranges = rangesOf design settings preview := hranges
  -- The pieces are those of the run without ranges, which writes the same files.
  have hbytes : ∀ side, tracked.on side =
      (written design settings { preview }).flatMap (·.on side) := by
    intro side
    cases side with
    | source => exact hsource.trans hsource'
    | header => exact hheader.trans hheader'
  constructor
  case entries =>
    rw [hrangesOf]
    exact perm_ids_rangesOf design settings preview hids
  case within =>
    intro node _ slot side
    rw [Generated.range, hrangesOf, hbytes]
    exact (slice_get design settings preview hids node.id slot side).1
  case code =>
    intro node _ slot side
    rw [Generated.range, hrangesOf, hbytes]
    exact (slice_get design settings preview hids node.id slot side).2
  case apart =>
    intro node hnode other hother slot slot' side hne hframe
    rw [Generated.range, Generated.range, hrangesOf]
    exact apart_get design settings preview hids hnode hother hne hframe side
  case framing =>
    intro node hframes side
    rw [Generated.range, Generated.range, hrangesOf, get_framing design settings preview hids hframes]
  case rest =>
    obtain ⟨prologue, hmem, hstep, hframe⟩ := frame_written design settings preview
    refine ⟨prologue, hmem, hstep, fun side => ?_⟩
    rw [hrangesOf, hbytes, outside_rangesOf design settings preview hids, hframe]

def framedDesign : Design where
  nodes :=
    [{ id := ⟨1⟩, depth := 0, scope := .file, hasChildren := false, hasChildWidgets := false
       body := .comment "above all" true true, resource := none, labelNumber := 0
       tooltipNumber := 0 },
     { id := ⟨2⟩, depth := 0, scope := .file, hasChildren := true, hasChildWidgets := false
       body := .widgetClass "Panel" "", resource := none, labelNumber := 0, tooltipNumber := 0 },
     { id := ⟨3⟩, depth := 1, scope := .member, hasChildren := true, hasChildWidgets := false
       body := .function "draw()" "void" .pub, resource := none, labelNumber := 0
       tooltipNumber := 0 },
     { id := ⟨4⟩, depth := 0, scope := .file, hasChildren := false, hasChildWidgets := false
       body := .comment "last words" true false, resource := none, labelNumber := 0
       tooltipNumber := 0 }]

theorem generate_divided_framed :
    framedDesign.DistinctIds ∧
      Forest.Frames framedDesign.nodes framedDesign.nodes[0] ∧
      Forest.Frames framedDesign.nodes framedDesign.nodes[3] ∧
      ∃ plain tracked, generate framedDesign {} { preview := false } = .ok plain ∧
        generate framedDesign {} { preview := false, trackRanges := true } = .ok tracked ∧
        tracked.source = plain.source ∧ tracked.header = plain.header ∧
        tracked.report.nodesWritten = plain.report.nodesWritten ∧
        tracked.Divided framedDesign (written framedDesign {} { preview := false }) :=
  ⟨by decide, .inl (by decide), .inr (by decide), generate_divided framedDesign {} false (by decide)⟩

end Generation

end FormWeave
