import FormWeave.Design.Basic
import FormWeave.Merge.Basic
import Mathlib.Data.List.Nodup

/-!
# Texts of nodes and blocks that name them

The code or callback of a node is the only part of it that a merge changes. Where no two nodes have
the same id, copying blocks into nodes gives every node the last text that names it.
-/

namespace FormWeave

/-! ## 1. Code and callbacks -/

namespace ItemBody

def text? : ItemBody → Option String
  | code text => some text
  | body => body.callback?

def withText : ItemBody → String → ItemBody
  | code _, text => code text
  | widget className name label tooltip _ image x y w h, text =>
    widget className name label tooltip (some text) image x y w h
  | menuItem label shortcut _, text => menuItem label shortcut (some text)
  | body, _ => body

structure SameButText (old new : ItemBody) : Prop where
  kind : new.kind = old.kind
  label : new.label? = old.label?
  tooltip : new.tooltip? = old.tooltip?
  resource : new.resourceName? = old.resourceName?
  rest : ∀ text, new.withText text = old.withText text

theorem SameButText.refl (body : ItemBody) : SameButText body body :=
  ⟨rfl, rfl, rfl, rfl, fun _ => rfl⟩

theorem sameButText_withText (body : ItemBody) (text : String) :
    SameButText body (body.withText text) := by
  cases body <;> exact ⟨rfl, rfl, rfl, rfl, fun _ => rfl⟩

/-- The setters take the blocks that the kind of the item takes. -/
theorem setCode?_eq (body : ItemBody) (text : String) :
    body.setCode? text = if body.kind.takes .code then some (body.withText text) else none := by
  cases body <;> rfl

theorem setCallback?_eq (body : ItemBody) (text : String) {kind : TagKind}
    (h : kind.isCallback = true) :
    body.setCallback? text = if body.kind.takes kind then some (body.withText text) else none := by
  cases kind with
  | generic => cases h
  | code => cases h
  | menuCallback => cases body <;> rfl
  | widgetCallback => cases body <;> rfl

theorem text?_withText (body : ItemBody) (text : String) {kind : TagKind}
    (h : body.kind.takes kind = true) : (body.withText text).text? = some text := by
  cases body <;> cases kind <;> first | rfl | cases h

end ItemBody

namespace Node

def withText (node : Node) (text : String) : Node :=
  { node with body := node.body.withText text }

@[simp] theorem id_withText (node : Node) (text : String) : (node.withText text).id = node.id := rfl

@[simp] theorem kind_withText (node : Node) (text : String) :
    (node.withText text).kind = node.kind := (node.body.sameButText_withText text).kind

theorem withText_withText (node : Node) (a b : String) :
    (node.withText a).withText b = node.withText b := by
  have h := (node.body.sameButText_withText a).rest b
  unfold withText
  rw [h]

/-- Whether a block names a node and is of a kind that the node takes. -/
def isNamedBy (node : Node) (block : ChangedBlock) : Bool :=
  block.nodeId == node.id && node.kind.takes block.kind

/-- The text of the last block that names a node with a kind it takes. -/
def lastText? (node : Node) (blocks : List ChangedBlock) : Option String :=
  ((blocks.filter node.isNamedBy).getLast?).map (·.text)

/-- The node with the last text that names it, if there is one. -/
def settle (blocks : List ChangedBlock) (node : Node) : Node :=
  match node.lastText? blocks with
  | some text => node.withText text
  | none => node

/-- A settled node has the last text that names it, else its old text. Everything else is as it
was. -/
theorem settle_spec (blocks : List ChangedBlock) (node : Node) :
    (node.settle blocks).body.text? = (node.lastText? blocks).or node.body.text? ∧
      { node.settle blocks with body := node.body } = node ∧
      node.body.SameButText (node.settle blocks).body := by
  unfold settle
  cases hlast : node.lastText? blocks with
  | none => exact ⟨rfl, rfl, .refl _⟩
  | some text =>
    obtain ⟨block, hblock, -⟩ := Option.map_eq_some_iff.1 hlast
    have hnamed := (List.mem_filter.1 (List.mem_of_getLast? hblock)).2
    rw [isNamedBy, Bool.and_eq_true] at hnamed
    exact ⟨node.body.text?_withText text hnamed.2, rfl, node.body.sameButText_withText text⟩

@[simp] theorem id_settle (blocks : List ChangedBlock) (node : Node) :
    (node.settle blocks).id = node.id := by
  unfold settle
  split <;> rfl

@[simp] theorem kind_settle (blocks : List ChangedBlock) (node : Node) :
    (node.settle blocks).kind = node.kind := (settle_spec blocks node).2.2.kind

theorem isNamedBy_congr {node node' : Node} (hid : node'.id = node.id)
    (hkind : node'.kind = node.kind) (block : ChangedBlock) :
    node'.isNamedBy block = node.isNamedBy block := by
  rw [isNamedBy, isNamedBy, hid, hkind]

theorem lastText?_congr {node node' : Node} (hid : node'.id = node.id)
    (hkind : node'.kind = node.kind) (blocks : List ChangedBlock) :
    node'.lastText? blocks = node.lastText? blocks := by
  have hnamed : node'.isNamedBy = node.isNamedBy := funext (isNamedBy_congr hid hkind)
  rw [lastText?, lastText?, hnamed]

/-- Settling again with the same blocks changes nothing. -/
theorem settle_settle (blocks : List ChangedBlock) (node : Node) :
    (node.settle blocks).settle blocks = node.settle blocks := by
  have hlast := lastText?_congr (id_settle blocks node) (kind_settle blocks node) blocks
  cases h : node.lastText? blocks with
  | none => simp only [settle, h]
  | some text =>
    have hsettled : node.settle blocks = node.withText text := by simp only [settle, h]
    rw [settle, hlast, h, hsettled]
    exact withText_withText node text text

/-- The text of a block counts unless a later block names the node, too. -/
theorem settle_cons (block : ChangedBlock) (rest : List ChangedBlock) (node : Node) :
    node.settle (block :: rest) =
      (if node.isNamedBy block then node.withText block.text else node).settle rest := by
  by_cases hnamed : node.isNamedBy block = true
  · have hlast : (node.withText block.text).lastText? rest = node.lastText? rest :=
      lastText?_congr (id_withText node _) (kind_withText node _) rest
    -- The text of this block is the last one only if no later block names the node.
    have hcons : node.lastText? (block :: rest) = some ((node.lastText? rest).getD block.text) := by
      rw [lastText?, List.filter_cons_of_pos hnamed, List.getLast?_cons, lastText?]
      cases (rest.filter node.isNamedBy).getLast? <;> rfl
    rw [if_pos hnamed, settle, settle, hlast, hcons]
    cases node.lastText? rest with
    | none => rfl
    | some text => exact (withText_withText node block.text text).symm
  · rw [if_neg hnamed, settle, settle, lastText?, lastText?, List.filter_cons_of_neg hnamed]

end Node

/-! ## 2. Copying a block -/

namespace DesignNode

theorem replaceFirst_eq_map {ν : Type} [DesignNode ν] (f : ν → ν) (wanted : NodeId) :
    ∀ {nodes : List ν}, (nodes.map id).Nodup →
      replaceFirst f wanted nodes = nodes.map fun node => if id node = wanted then f node else node := by
  intro nodes
  induction nodes with
  | nil => exact fun _ => rfl
  | cons node rest ih =>
    intro h
    rw [List.map_cons, List.nodup_cons] at h
    rw [replaceFirst, List.map_cons]
    by_cases hid : id node = wanted
    · -- No other node has the id, so the rest stays.
      have hrest : rest.map (fun node => if id node = wanted then f node else node) = rest := by
        refine (List.map_congr_left fun other hother => ?_).trans (List.map_id rest)
        have hne : id other ≠ wanted := fun e => h.1 (hid ▸ e ▸ List.mem_map_of_mem hother)
        rw [if_neg hne]
        rfl
      rw [if_pos (beq_iff_eq.2 hid), if_pos hid, hrest]
    · have hfalse : ¬ (id node == wanted) = true := fun e => hid (beq_iff_eq.1 e)
      rw [if_neg hfalse, if_neg hid, ih h.2]

end DesignNode

namespace Merge

/-- Whether a node takes a block is known from its kind. -/
theorem patched?_eq (block : ChangedBlock) (node : Node) (h : block.kind.isMergeable = true) :
    patched? block node =
      if node.kind.takes block.kind then some (node.withText block.text) else none := by
  have hmap : ∀ (b : Bool) (body : ItemBody), ((if b then some body else none).map
      fun body => { node with body }) = if b then some { node with body } else none := by
    intro b body
    cases b <;> rfl
  unfold patched?
  by_cases hcallback : block.kind.isCallback = true
  · rw [if_pos hcallback]
    show (node.body.setCallback? block.text).map _ = _
    rw [ItemBody.setCallback?_eq _ _ hcallback, hmap]
    rfl
  · have hcode : block.kind = .code := by
      cases hkind : block.kind with
      | code => rfl
      | _ => simp [hkind, TagKind.isMergeable, TagKind.isCallback] at h hcallback
    rw [if_neg hcallback, hcode]
    show (node.body.setCode? block.text).map _ = _
    rw [ItemBody.setCode?_eq, hmap]
    rfl

end Merge

end FormWeave
