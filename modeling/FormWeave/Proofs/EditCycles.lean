import FormWeave.Proofs.IndentedBlocks
import Mathlib.Logic.Relation

/-!
# Editing, merging and generating again

A cycle takes a design to its source, and the edits that are made there back to the design. The text
of a node is the only thing of it that changes. Groups of lines that come back as they are when
nobody edits them stay together and in their order, so the sources of later cycles have them, too.
-/

namespace FormWeave

open Merge (Keeps Restored Stays lineBack settled unindent)
open Text (Interleaved split trimLines unlines)
open Writer (linesAt stepsAt)

/-! ## 1. Other texts in a node -/

namespace Node

variable {node : Node} {snippet : Snippet}

theorem withText_self {text : String} (h : node.body.text? = some text) :
    node.withText text = node := by
  have hbody : node.body.withText text = node.body := by
    cases hbody : node.body with
    | code | widget | menuItem =>
      rw [hbody] at h
      cases h
      rfl
    | _ => rfl
  rw [withText, hbody]

theorem not_code_of_inline {text : String} (h : node.inlineCallback? = some text) (code : String) :
    node.body ≠ .code code := by
  intro hbody
  have hcallback : node.kind.hasCallback = true := hasCallback_of_inline (by rw [h]; rfl)
  rw [kind, hbody] at hcallback
  cases hcallback

theorem callbackTag_withText (text : String) :
    (node.withText text).callbackTag = node.callbackTag := by
  unfold callbackTag withText
  cases node.body <;> rfl

/-- With another text a node has no other snippet than before, if it has one. -/
theorem snippet?_withText (h : node.snippet? = some snippet) {text : String} {other : Snippet}
    (hother : (node.withText text).snippet? = some other) : other = { snippet with text } := by
  have htext : other.text = text := by
    have hsome : ∀ body : ItemBody, body.text?.isSome → (body.withText text).text? = some text := by
      intro body hbody
      cases body <;> first | rfl | cases hbody
    have hbody := hsome node.body (by rw [text?_of_snippet? h]; rfl)
    exact Option.some.inj ((text?_of_snippet? hother).symm.trans hbody)
  rcases snippet?_cases h with ⟨old, hbody, rfl⟩ | ⟨old, hinline, rfl⟩
  · rcases snippet?_cases hother with ⟨new, -, rfl⟩ | ⟨new, hinline', -⟩
    · exact congrArg (Snippet.mk .opening .code 0) htext
    · exact absurd (show (node.withText text).body = _ by rw [withText, hbody]; rfl)
        (not_code_of_inline hinline' text)
  · rcases snippet?_cases hother with ⟨new, hbody', -⟩ | ⟨new, -, rfl⟩
    · have hkind := congrArg ItemBody.kind hbody'
      rw [← Node.kind, kind_withText] at hkind
      have hcallback : node.kind.hasCallback = true := hasCallback_of_inline (by rw [hinline]; rfl)
      rw [hkind] at hcallback
      cases hcallback
    · rw [callbackTag_withText]
      exact congrArg (Snippet.mk .setup node.callbackTag 1) htext

/-- A node with a section that may be edited has a snippet. -/
theorem snippet?_of_mem_tagKinds {phase : Phase} {kind : TagKind} (h : kind ∈ node.tagKinds phase)
    (hkind : kind.isMergeable = true) : ∃ snippet, node.snippet? = some snippet := by
  have hcallback : ∀ tag, kind ∈ node.callbackKinds tag → (∀ code, node.body ≠ .code code) →
      ∃ snippet, node.snippet? = some snippet := by
    intro tag hmem hcode
    obtain ⟨text, hinline⟩ : ∃ text, node.inlineCallback? = some text := by
      unfold callbackKinds at hmem
      split at hmem
      · next text hcallback =>
        split at hmem
        · cases hmem
        · next hinline =>
          exact ⟨text, Option.filter_eq_some_iff.2 ⟨hcallback, by simpa using hinline⟩⟩
      · cases hmem
    refine ⟨⟨.setup, node.callbackTag, 1, text⟩, ?_⟩
    unfold snippet?
    split
    · next code hbody => exact absurd hbody (hcode code)
    · rw [hinline]
      rfl
  -- All other kinds of nodes have none but generic sections.
  have hgeneric : kind ∉ [TagKind.generic] := by
    intro hmem
    rw [List.mem_singleton.1 hmem] at hkind
    cases hkind
  unfold tagKinds at h
  cases hbody : node.body with
  | code text => exact ⟨_, by unfold snippet?; rw [hbody]⟩
  | widget | menuItem =>
    rw [hbody] at h
    cases phase with
    | setup => exact hcallback _ h (by rw [hbody]; exact fun _ => nofun)
    | _ => cases h
  | _ =>
    rw [hbody] at h
    cases phase <;> first | exact absurd h hgeneric | cases h

end Node

/-! ## 2. One cycle -/

/-- Every edited block is read off a section. -/
theorem mem_changedBlocks {ν : Type} [DesignNode ν] {nodes : List ν} {sections : List Section}
    {b : ChangedBlock} : ∀ {lines : Nat}, b ∈ changedBlocks nodes lines sections →
      ∃ s ∈ sections, s.tag.kind = b.kind ∧ s.tag.nodeId = b.nodeId ∧
        b.text = unindent s.block := by
  induction sections with
  | nil => exact nofun
  | cons s rest ih =>
    intro lines h
    rw [changedBlocks, List.mem_append] at h
    rcases h with h | h
    · rw [Option.mem_toList, Section.changed?] at h
      split at h
      · cases h
      · cases h
        exact ⟨s, List.mem_cons_self, rfl, rfl, rfl⟩
    · obtain ⟨t, ht, hb⟩ := ih h
      exact ⟨t, List.mem_cons_of_mem _ ht, hb⟩

namespace Generation

/-- A design is generated, code and callbacks are edited in the source, and all that can be merged
is. In the block of the node `id`, `groups` stay. -/
inductive Cycle (id : NodeId) (groups : List Bytes) (design : Design) : Design → Prop
  | merge (settings : Settings) (options : RunOptions) (edited : List Section)
    (htags : settings.mergeTags = true)
    (hmarked : (finalWriter design settings options).OnlyTagsMarked)
    (hedited : List.Forall₂ Section.Edited
      (finalWriter design settings options).layout.sections edited)
    (hkept : ∀ s ∈ edited, s.tag.nodeId = id → s.tag.kind.isMergeable = true →
      Keeps groups s.block)
    {σ : Type} (host : MergeHost (StateM σ)) (state : σ)
    (hcheckpoint : (host.checkpoint state).1 = .ok ()) :
    Cycle id groups design { design with
      nodes := (Merge.run settings .go host (.ok (Layout.render
          { sections := edited, tail := (finalWriter design settings options).layout.tail }))
        design.nodes state).1.2 }

variable {id : NodeId} {design design' : Design}

/-- A cycle settles all nodes. What it puts into the node is the text of a block with the same
groups. -/
theorem Cycle.exists_settle {groups : List Bytes} (h : Cycle id groups design design')
    (hids : design.DistinctIds) :
    ∃ blocks, design' = { design with nodes := design.nodes.map (Node.settle blocks) } ∧
      ∀ node ∈ design.nodes, node.id = id → node.settle blocks = node ∨
        ∃ block, Keeps groups block ∧ node.settle blocks = node.withText (unindent block) := by
  obtain ⟨settings, options, edited, htags, hmarked, hedited, hkept, host, state, hcheckpoint⟩ := h
  obtain ⟨-, -, htracked⟩ := run_tracked design settings options htags
  -- A scan finds the edited blocks, at most one for each node, and each of them settles its node.
  have hscan := Merge.scan_render (l := { sections := edited, tail := _ }) design.nodes
    (plain_edited hedited (htracked.plain hmarked)) (hmarked.unmarked_tail htracked.complete)
  have hspread := spread_changedBlocks hids htracked.names htracked.sealed hedited
  refine ⟨changedBlocks design.nodes 0 edited, ?_, fun node hnode hid => ?_⟩
  · rw [Merge.run_go htags hscan, hcheckpoint,
      Merge.ending_ok hids (Merge.scan_resolved design.nodes hscan).2]
    rfl
  · rw [hspread.settle_eq hids hnode]
    split
    · next block hfind =>
      have hblock := List.mem_of_find?_eq_some hfind
      have hnamed := List.find?_some hfind
      obtain ⟨s, hs, hkind, hnode, htext⟩ := mem_changedBlocks hblock
      refine .inr ⟨s.block, hkept s hs ?_ ?_, by rw [htext]⟩
      · rw [hnode, beq_iff_eq.1 hnamed, hid]
      · rw [hkind]
        exact hspread.mergeable block hblock
    · exact .inl rfl

/-! ## 3. Many cycles -/

/-- A node in a design that came out of a number of cycles: its text has the groups of lines that it
had, and it is written where it was. -/
structure Held (design : Design) (node : Node) (phase : Phase) (level : Int32)
    (groups : List (List (List Char))) : Prop where
  distinct : design.DistinctIds
  text : ∃ text lines, node.withText text ∈ design.nodes ∧
    StandsAt design.nodes (node.withText text) phase level ∧
    Interleaved (fun _ => True) groups lines ∧
    trimLines (split '\n' text.toList) = trimLines lines

variable {node : Node} {phase : Phase} {level depth : Int32} {groups : List (List (List Char))}

theorem Held.cycle (h : Held design node phase level groups)
    (hfeed : ∀ group ∈ groups, ∀ line ∈ group, '\n' ∉ line)
    (hstays : ∀ group ∈ groups, ∀ line ∈ group, Stays depth line)
    (hcycle : Cycle node.id (groups.map (linesAt depth)) design design') :
    Held design' node phase level groups := by
  obtain ⟨text, lines, hnode, hlevel, hlines, htext⟩ := h.text
  obtain ⟨blocks, rfl, hsettle⟩ := hcycle.exists_settle h.distinct
  have hstands := hlevel.map (keepsPlaces_settle blocks)
  have hmem : (node.withText text).settle blocks ∈ design.nodes.map (Node.settle blocks) :=
    List.mem_map_of_mem hnode
  refine ⟨?_, ?_⟩
  · show ((design.nodes.map (Node.settle blocks)).map Node.id).Nodup
    rw [(Merge.keepsNames_settle blocks).map_id]
    exact h.distinct
  -- The node has its old text, or that of a block with the same groups.
  rcases hsettle _ hnode rfl with hsame | ⟨block, hblock, hchanged⟩
  · rw [hsame] at hstands hmem
    exact ⟨text, lines, hmem, hstands, hlines, htext⟩
  · rw [hchanged, Node.withText_withText] at hstands hmem
    obtain ⟨lines, hlines, htext⟩ := Merge.exists_lines_unindent hfeed hstays hblock
    exact ⟨_, lines, hmem, hstands, hlines, htext⟩

theorem Held.cycles (h : Held design node phase level groups)
    (hfeed : ∀ group ∈ groups, ∀ line ∈ group, '\n' ∉ line)
    (hstays : ∀ group ∈ groups, ∀ line ∈ group, Stays depth line)
    (hcycles : Relation.ReflTransGen (Cycle node.id (groups.map (linesAt depth))) design design') :
    Held design' node phase level groups := by
  induction hcycles with
  | refl => exact h
  | tail _ hcycle ih => exact ih.cycle hfeed hstays hcycle

/-- The groups stand in the source, too. -/
theorem Held.keeps {snippet : Snippet} (h : Held design node snippet.phase level groups)
    (hsnippet : node.snippet? = some snippet) {settings : Settings} {options : RunOptions}
    (htags : settings.mergeTags = true) {s : Section}
    (hs : s ∈ (finalWriter design settings options).layout.sections)
    (hname : s.name = (snippet.kind, node.id)) :
    Keeps (groups.map (linesAt (level + snippet.extra))) s.block := by
  obtain ⟨text, lines, hnode, hlevel, hlines, htext⟩ := h.text
  have hmergeable := Node.isMergeable_of_snippet? hsnippet
  obtain ⟨-, -, htracked⟩ := run_tracked design settings options htags
  -- The section is one of the node, which has a snippet again for that reason.
  obtain ⟨other, hother⟩ : ∃ other, (node.withText text).snippet? = some other := by
    have hmem : (snippet.kind, node.id) ∈ sectionNames design.nodes := by
      rw [← htracked.names, ← hname]
      exact List.mem_map_of_mem hs
    obtain ⟨step, hstep, hmem⟩ := List.mem_flatMap.1 hmem
    cases step with
    | write phase writer =>
      obtain ⟨kind, hkind, heq⟩ := List.mem_map.1 hmem
      obtain ⟨rfl, hid⟩ := Prod.mk.inj heq
      have hsame : writer = node.withText text :=
        h.distinct.eq_of_id (Forest.mem_of_plan hstep) hnode hid
      exact Node.snippet?_of_mem_tagKinds (hsame ▸ hkind) hmergeable
    | _ => cases hmem
  obtain rfl := Node.snippet?_withText hsnippet hother
  have hholds : (finalWriter design settings options).layout.Holds _ _ :=
    holds_snippet htags h.distinct hother hlevel
  rw [hholds.block_eq hs hname]
  exact Merge.keeps_linesAt _ hlines htext

/-! ## 4. What comes back of a snippet -/

/-- The levels at which a snippet stands. -/
structure Levels (nodes : List Node) (node : Node) (snippet : Snippet) : Prop where
  /-- Some level is in force where the node writes the snippet. -/
  some : ∃ level, StandsAt nodes node snippet.phase level
  /-- Callbacks stand in front of the structure of their tree. -/
  setup : Forest.Outermost (Forest.ofNodes (Forest.members nodes)) → snippet.phase = .setup →
    StandsAt nodes node .setup 0
  /-- Outside of functions and classes, blocks and widgets alone count. -/
  outside : Forest.Outermost (Forest.ofNodes (Forest.members nodes)) → snippet.phase = .opening →
    ∀ top ∈ Forest.ofNodes (Forest.members nodes),
      (∀ inner ∈ Forest.treeNodes top, inner.kind.absolute = false) →
      ∀ depth tree, Within [top] depth tree → tree.root = node →
        StandsAt nodes node .opening (Int32.ofNat depth)
  /-- A function or a class starts at level 1, wherever it stands. -/
  inside : snippet.phase = .opening → ∀ root children,
    Forest.Subtree (Forest.ofNodes (Forest.members nodes)) (.node root children) →
      root.kind.absolute = true →
      (∀ inner ∈ Forest.nodes children, inner.kind.absolute = false) →
      ∀ depth tree, Within children depth tree → tree.root = node →
        StandsAt nodes node .opening (1 + Int32.ofNat depth)

theorem levels_snippet {nodes : List Node} {snippet : Snippet} (hnode : node ∈ nodes)
    (h : node.snippet? = some snippet) : Levels nodes node snippet := by
  have hkind := Node.ne_comment_of_snippet? h
  constructor
  case some => exact exists_standsAt hnode hkind (Node.phase_of_snippet? h)
  case setup => exact fun houtermost _ => standsAt_setup houtermost hnode hkind
  case outside =>
    rintro houtermost - top htop hfree depth tree hwithin rfl
    have hlevel : StartsAt nodes tree (0 + Int32.ofNat depth) := by
      refine StartsAt.within (fun tree (htree : tree ∈ [top]) => ?_) (fun inner hinner => ?_)
        hwithin
      · rw [List.mem_singleton.1 htree]
        exact startsAt_top houtermost htop
      · rw [Forest.nodes, Forest.nodes, List.append_nil] at hinner
        exact hfree inner hinner
    rw [Int32.zero_add] at hlevel
    exact hlevel.standsAt hkind
  case inside =>
    rintro - root children hsub hroot hfree depth tree hwithin rfl
    exact (StartsAt.within (fun _ => startsAt_child hsub hroot hfree) hfree hwithin).standsAt hkind

/-- How a snippet that stands at a level goes to the source of a design and comes back. -/
structure ComesBack (design : Design) (settings : Settings) (options : RunOptions) (node : Node)
    (snippet : Snippet) (depth : Int32) : Prop where
  /-- It has one section, in which it stands line by line. -/
  written : (finalWriter design settings options).layout.Holds (snippet.kind, node.id)
    (linesAt depth (split '\n' snippet.text.toList))
  /-- A scan takes the whole block if no line of it has a marker, else what follows the last one. -/
  scanned : (∃ m ∈ Merge.markedLines (Text.splitInclusive 0x0a
      (finalWriter design settings options).source),
    ∃ tag, m.tag = .ok tag ∧ (tag.kind, tag.nodeId) = (snippet.kind, node.id) ∧
      m.block = Layout.extracted (linesAt depth (split '\n' snippet.text.toList))) ∧
    (¬ Marked (utf8 snippet.text) →
      Layout.extracted (linesAt depth (split '\n' snippet.text.toList)) =
        linesAt depth (split '\n' snippet.text.toList))
  /-- All lines come back, each on its own. -/
  lines : (unindent (linesAt depth (split '\n' snippet.text.toList))).toList =
    (unlines ((split '\n' snippet.text.toList).map (lineBack (stepsAt depth)))).rdropWhile
      (· == '\n')
  /-- It is the text again if and only if none of its lines gains or loses blanks. -/
  text : (unindent (linesAt depth (split '\n' snippet.text.toList))).toList = settled snippet.text ↔
    ∀ line ∈ split '\n' snippet.text.toList, Restored (stepsAt depth) line
  /-- At the first level it always is. -/
  first : depth = 1 →
    (unindent (linesAt depth (split '\n' snippet.text.toList))).toList = settled snippet.text
  /-- As long as nobody edits them, groups of lines that come back as they are stay together and in
  their order, in the text of the node and in its block. -/
  cycles : ∀ groups, Interleaved (fun _ => True) groups (split '\n' snippet.text.toList) →
    (∀ group ∈ groups, ∀ line ∈ group, Stays depth line) → ∀ design',
      Relation.ReflTransGen (Cycle node.id (groups.map (linesAt depth))) design design' →
      (∃ text lines, node.withText text ∈ design'.nodes ∧ Interleaved (fun _ => True) groups lines ∧
        trimLines (split '\n' text.toList) = trimLines lines) ∧
      ∀ (settings' : Settings) (options' : RunOptions), settings'.mergeTags = true →
        ∀ s ∈ (finalWriter design' settings' options').layout.sections,
          s.name = (snippet.kind, node.id) → Keeps (groups.map (linesAt depth)) s.block

/-- Code and callbacks that are code of a function stand in a block of their own, at the level in
force where the node writes them, and callbacks one level deeper. What comes back of the block
depends on that level alone, line by line. -/
theorem snippets_come_back (design : Design) (settings : Settings) (options : RunOptions)
    (htags : settings.mergeTags = true) (hids : design.DistinctIds) {node : Node}
    (hnode : node ∈ design.nodes) {snippet : Snippet} (h : node.snippet? = some snippet) :
    Levels design.nodes node snippet ∧
      ∀ level, StandsAt design.nodes node snippet.phase level →
        ComesBack design settings options node snippet (level + snippet.extra) := by
  refine ⟨levels_snippet hnode h, fun level hlevel => ?_⟩
  have hholds : (finalWriter design settings options).layout.Holds _ _ :=
    holds_snippet htags hids h hlevel
  have hiff := Merge.unindent_eq_settled_iff (level + snippet.extra) snippet.text
  obtain ⟨-, -, htracked⟩ := run_tracked design settings options htags
  constructor
  case written => exact hholds
  case scanned =>
    rw [Writer.source_eq_render]
    refine ⟨hholds.exists_markedLine htracked.complete, fun hmarked => ?_⟩
    exact Layout.extracted_of_unmarked
      (unmarked_of_not_marked (Writer.not_marked_linesAt hmarked _))
  case lines => exact Merge.toList_unindent_linesAt _ fun line => Text.feed_not_mem_split
  case text => exact hiff
  case first =>
    intro hfirst
    rw [hfirst] at hiff ⊢
    exact hiff.2 fun line _ => trivial
  case cycles =>
    intro groups hgroups hstays design' hcycles
    have hfeed : ∀ group ∈ groups, ∀ line ∈ group, '\n' ∉ line := fun group hgroup line hline =>
      Text.feed_not_mem_split (hgroups.subset group hgroup hline)
    have hself : node.withText snippet.text = node := Node.withText_self (Node.text?_of_snippet? h)
    have hstart : Held design node snippet.phase level groups :=
      ⟨hids, snippet.text, _, by rwa [hself], by rwa [hself], hgroups, rfl⟩
    have hend := hstart.cycles hfeed hstays hcycles
    refine ⟨?_, fun settings' options' htags' s hs hname => hend.keeps h htags' hs hname⟩
    obtain ⟨text, lines, hnode', -, hlines, htext⟩ := hend.text
    exact ⟨text, lines, hnode', hlines, htext⟩

def nestedDesign : Design where
  nodes :=
    [{ id := ⟨1⟩, depth := 0, scope := .file, hasChildren := true, hasChildWidgets := false
       body := .function "main()" "int" .pub, resource := none, labelNumber := 0
       tooltipNumber := 0 },
     { id := ⟨2⟩, depth := 1, scope := .inner, hasChildren := true, hasChildWidgets := false
       body := .codeBlock "if (x)" "", resource := none, labelNumber := 0, tooltipNumber := 0 },
     { id := ⟨3⟩, depth := 2, scope := .inner, hasChildren := false, hasChildWidgets := false
       body := .code "a();\nb();", resource := none, labelNumber := 0, tooltipNumber := 0 },
     { id := ⟨4⟩, depth := 1, scope := .inner, hasChildren := false, hasChildWidgets := false
       body := .code "c();\nd();", resource := none, labelNumber := 0, tooltipNumber := 0 },
     { id := ⟨5⟩, depth := 0, scope := .file, hasChildren := false, hasChildWidgets := false
       body := .code "  e();", resource := none, labelNumber := 0, tooltipNumber := 0 }]

theorem plan_nestedDesign :
    plan nestedDesign.nodes = [.prologue, .write .setup nestedDesign.nodes[0],
      .write .setup nestedDesign.nodes[1], .write .setup nestedDesign.nodes[2],
      .write .setup nestedDesign.nodes[3], .write .opening nestedDesign.nodes[0],
      .write .opening nestedDesign.nodes[1], .write .opening nestedDesign.nodes[2],
      .write .closing nestedDesign.nodes[2], .write .closing nestedDesign.nodes[1],
      .write .opening nestedDesign.nodes[3], .write .closing nestedDesign.nodes[3],
      .write .closing nestedDesign.nodes[0], .write .setup nestedDesign.nodes[4],
      .write .opening nestedDesign.nodes[4], .write .closing nestedDesign.nodes[4], .endGuard] :=
  Plan.plan_eq_forest _

theorem onlyTagsMarked_nestedDesign :
    (finalWriter nestedDesign { mergeTags := true } {}).OnlyTagsMarked := by
  obtain ⟨-, -, htracked⟩ := run_tracked nestedDesign { mergeTags := true } {} rfl
  refine (Writer.onlyTagsMarked_iff htracked.complete).2 ?_
  unfold finalWriter runDesign run
  rw [plan_nestedDesign]
  decide +kernel

def nestedEdit (s : Section) : Section :=
  if s.tag.nodeId = ⟨4⟩ ∧ s.tag.kind.isMergeable = true then
    { s with block := utf8 "  c();\n  f();\n" }
  else s

theorem edited_nestedEdit (s : Section) : s.Edited (nestedEdit s) := by
  have hcomplete : Text.Complete (utf8 "  c();\n  f();\n") := by decide +kernel
  have hmarked : ¬ Marked (utf8 "  c();\n  f();\n") := by decide +kernel
  unfold nestedEdit
  split
  · next hcode => exact ⟨rfl, .inr ⟨hcode.2, hcomplete, hmarked⟩⟩
  · exact ⟨rfl, .inl rfl⟩

/-- The code behind the block stands at level 1. Its first line stays when the second is edited. -/
theorem snippets_come_back_nested :
    let node := nestedDesign.nodes[3]
    let block := linesAt 1 (split '\n' "c();\nd();".toList)
    let groups := [["c();".toList], []]
    nestedDesign.DistinctIds ∧ node.snippet? = some ⟨.opening, .code, 0, "c();\nd();"⟩ ∧
      StandsAt nestedDesign.nodes node .opening 1 ∧
      (unindent block).toList = "c();\nd();".toList ∧
      ∃ design' text lines, Cycle ⟨4⟩ (groups.map (linesAt 1)) nestedDesign design' ∧
        node.withText text ∈ design'.nodes ∧ Interleaved (fun _ => True) groups lines ∧
        trimLines (split '\n' text.toList) = trimLines lines := by
  intro node block groups
  have hids : nestedDesign.DistinctIds := by decide
  have hsnippet : node.snippet? = some ⟨.opening, .code, 0, "c();\nd();"⟩ := rfl
  obtain ⟨hlevels, hback⟩ := snippets_come_back nestedDesign { mergeTags := true } {} rfl hids
    (show node ∈ nestedDesign.nodes by decide) hsnippet
  have hforest : Forest.ofNodes (Forest.members nestedDesign.nodes) =
      [.node nestedDesign.nodes[0] [.node nestedDesign.nodes[1] [.node nestedDesign.nodes[2] []],
        .node node []], .node nestedDesign.nodes[4] []] := rfl
  have hlevel : StandsAt nestedDesign.nodes node .opening 1 :=
    hlevels.inside rfl nestedDesign.nodes[0] _ (.top (by rw [hforest]; exact List.mem_cons_self))
      rfl (by decide) 0 (.node node []) (.child (by simp)) rfl
  have hblock := hback 1 hlevel
  -- The second line stands between two groups, the first line and nothing at all.
  have hgroups : Interleaved (fun _ => True) groups (split '\n' "c();\nd();".toList) :=
    show Interleaved _ _ (["c();".toList] ++ ["d();".toList] ++ []) from .more _ trivial (.last [])
  have hstays : ∀ group ∈ groups, ∀ line ∈ group, Stays 1 line := by
    have hfirst : Stays 1 "c();".toList := ⟨by decide, trivial⟩
    simpa [groups] using hfirst
  have hedited : List.Forall₂ Section.Edited
      (finalWriter nestedDesign { mergeTags := true } {}).layout.sections
      ((finalWriter nestedDesign { mergeTags := true } {}).layout.sections.map nestedEdit) :=
    List.forall₂_map_right_iff.2 (List.forall₂_same.2 fun s _ => edited_nestedEdit s)
  have hkept : ∀ s ∈
      (finalWriter nestedDesign { mergeTags := true } {}).layout.sections.map nestedEdit,
      s.tag.nodeId = ⟨4⟩ → s.tag.kind.isMergeable = true →
        Merge.Keeps (groups.map (linesAt 1)) s.block := by
    intro s hs hid hkind
    obtain ⟨old, -, rfl⟩ := List.mem_map.1 hs
    rw [(edited_nestedEdit old).tag] at hid hkind
    have hblock : (nestedEdit old).block = utf8 "  c();\n  f();\n" := by
      rw [nestedEdit, if_pos ⟨hid, hkind⟩]
    rw [hblock]
    exact ⟨utf8 "  c();\n" ++ utf8 "  f();\n" ++ [],
      .more _ (by decide +kernel) (.last []), by decide +kernel⟩
  have hcycle : Cycle ⟨4⟩ (groups.map (linesAt 1)) nestedDesign _ :=
    .merge { mergeTags := true } {} _ rfl onlyTagsMarked_nestedDesign hedited hkept
      (MergeHost.recording true (.ok ())) [] rfl
  obtain ⟨⟨text, lines, htext⟩, -⟩ := hblock.cycles groups hgroups hstays _ (.single hcycle)
  exact ⟨hids, hsnippet, hlevel, hblock.first rfl, _, text, lines, hcycle, htext⟩

/-- The code in the block stands at level 2, and comes back with two blanks in front of each line.
The code behind the function stands at level 0, and loses its blanks. -/
theorem nested_code_changes :
    let sections := (finalWriter nestedDesign { mergeTags := true } {}).layout.sections
    (∃ s ∈ sections, s.name = (.code, ⟨3⟩) ∧
        nestedDesign.nodes[2].snippet? = some ⟨.opening, .code, 0, "a();\nb();"⟩ ∧
        unindent s.block = "  a();\n  b();" ∧ (unindent s.block).toList ≠ settled "a();\nb();") ∧
      ∃ s ∈ sections, s.name = (.code, ⟨5⟩) ∧
        nestedDesign.nodes[4].snippet? = some ⟨.opening, .code, 0, "  e();"⟩ ∧
        unindent s.block = "e();" ∧ (unindent s.block).toList ≠ settled "  e();" := by
  intro sections
  obtain ⟨⟨s, hs, hname, htext⟩, t, ht, hname', htext'⟩ :
      (∃ s ∈ sections, s.name = (.code, ⟨3⟩) ∧ unindent s.block = "  a();\n  b();") ∧
        ∃ s ∈ sections, s.name = (.code, ⟨5⟩) ∧ unindent s.block = "e();" := by
    unfold sections finalWriter runDesign run
    rw [plan_nestedDesign]
    decide +kernel
  exact ⟨⟨s, hs, hname, rfl, htext, by rw [htext]; decide⟩,
    t, ht, hname', rfl, htext', by rw [htext']; decide⟩

end Generation

end FormWeave
