import FormWeave.Proofs.GoMerge
import FormWeave.Proofs.Translations

/-!
# The numbers of messages

A message catalog numbers the labels and tooltips of a design in the order of the nodes. The nodes
got their numbers when the design was made, counted in the same order, and code asks for a message
by the number of its node. So both are the same, and merges leave them alone.
-/

namespace FormWeave

def Context.catgets (context : Context) (text : String) (number : Nat) : List Span :=
  let translation := context.settings.translation
  spell ("catgets(" ++ (if translation.posixFile.isEmpty then "_catalog" else translation.posixFile) ++
    "," ++ translation.posixSet ++ "," ++ toString number ++ ",") ++
    (context.quoted text ++ spell ")")

theorem Node.translated_posix {context : Context}
    (hposix : context.settings.translation.mode = .posix) :
    Node.translated context = context.catgets := by
  funext text number
  rw [Node.translated]
  dsimp only
  rw [hposix]
  rfl

namespace Catalog

/-! ## 1. The messages of a catalog -/

def shown (nodes : List Node) : List ShownText := nodes.flatMap Node.shownTexts

def messages (nodes : List Node) : List (ShownText × Nat) := (shown nodes).zipIdx 1

def line (message : ShownText × Nat) : String :=
  toString message.2 ++ " \"" ++ Literal.message message.1.text ++ "\"\n"

theorem texts_eq (nodes : List Node) : texts nodes = (shown nodes).map ShownText.text := by
  induction nodes with
  | nil => rfl
  | cons node rest ih =>
    rw [shown, List.flatMap_cons, List.map_append, node.map_text_shownTexts, ← shown, ← ih]
    cases hkind : node.kind.isWidget with
    | false =>
      have hskip : (DesignNode.kind node).isWidget = false := hkind
      simp [texts, hskip]
    | true =>
      have htake : (DesignNode.kind node).isWidget = true := hkind
      simp [texts, htake, DesignNode.label, DesignNode.tooltip]

theorem entries_posix (found : List ShownText) : ∀ number,
    entries .posix number (found.map ShownText.text) = (found.zipIdx number).map line := by
  induction found with
  | nil => exact fun _ => rfl
  | cons first rest ih =>
    intro number
    rw [List.map_cons, entries, ih, List.zipIdx_cons, List.map_cons]
    rfl

theorem length_messages (nodes : List Node) : (messages nodes).length = (shown nodes).length :=
  List.length_zipIdx

/-- The file holds the messages and nothing else. -/
theorem ofNodes_posix (nodes : List Node) {translation : Translation}
    (hposix : translation.mode = .posix) :
    ofNodes nodes translation = {
      count := (messages nodes).length
      content := head translation ++ String.join ((messages nodes).map line) } := by
  rw [ofNodes, texts_eq, hposix, entries_posix, List.length_map, length_messages]
  rfl

theorem nodup_shown {nodes : List Node} (h : nodes.Nodup) : (shown nodes).Nodup := by
  refine List.nodup_flatMap.2 ⟨fun node _ => node.nodup_shownTexts, ?_⟩
  refine h.imp fun hne => ?_
  intro text hfirst hsecond
  exact hne ((Node.mem_shownTexts.1 hfirst).2.1.symm.trans (Node.mem_shownTexts.1 hsecond).2.1)

theorem mem_shown {nodes : List Node} {text : ShownText} : text ∈ shown nodes ↔
    text.node ∈ nodes ∧ text.node.kind.isWidget = true ∧
      text.node.textOf? text.part = some text.text := by
  rw [shown, List.mem_flatMap]
  constructor
  · rintro ⟨node, hnode, htext⟩
    obtain ⟨hkind, rfl, htext⟩ := Node.mem_shownTexts.1 htext
    exact ⟨hnode, hkind, htext⟩
  · rintro ⟨hnode, hkind, htext⟩
    exact ⟨_, hnode, Node.mem_shownTexts.2 ⟨hkind, rfl, htext⟩⟩

theorem existsUnique_zipIdx {α : Type} {list : List α} (h : list.Nodup) {a : α} (ha : a ∈ list)
    (start : Nat) : ∃! number, (a, number) ∈ list.zipIdx start := by
  obtain ⟨i, hi, rfl⟩ := List.mem_iff_getElem.1 ha
  refine ⟨start + i, List.mem_zipIdx_iff_le_and_getElem?_sub.2 ⟨by simp, by simp [hi]⟩, ?_⟩
  intro number hnumber
  obtain ⟨hle, hget⟩ := List.mem_zipIdx_iff_le_and_getElem?_sub.1 hnumber
  obtain ⟨hlt, heq⟩ := List.getElem?_eq_some_iff.1 hget
  have hsame := (List.Nodup.getElem_inj_iff h).1 heq
  dsimp only at hle hsame
  omega

/-! ## 2. The numbers of nodes -/

def Agrees (nodes : List Node) : Prop :=
  ∀ message ∈ messages nodes, message.1.node.numberOf message.1.part = message.2

theorem nodeOf_numbers (resources : ResourceTable) (id : NodeId) (next : Nat)
    (item : Design.FlatItem) :
    (∀ message ∈ (Design.nodeOf resources id next item).1.shownTexts.zipIdx next,
      message.1.node.numberOf message.1.part = message.2) ∧
    (Design.nodeOf resources id next item).2 =
      next + (Design.nodeOf resources id next item).1.shownTexts.length := by
  unfold Design.nodeOf Node.shownTexts Node.kind
  dsimp only
  cases item.body.kind.isWidget with
  | false => simp
  | true =>
    cases item.body.label? <;> cases item.body.tooltip? <;>
      simp [Node.numberOf]

/-- Nodes are numbered as their texts are counted. -/
theorem number_agrees {resources : ResourceTable} {items : List Design.FlatItem} :
    ∀ {free : List NodeId} {next : Nat} {done nodes : Array Node},
      Design.number resources free next done items = .ok nodes →
      ∃ made, nodes.toList = done.toList ++ made ∧ ∀ message ∈ (shown made).zipIdx next,
        message.1.node.numberOf message.1.part = message.2 := by
  induction items with
  | nil =>
    intro free next done nodes h
    cases h
    exact ⟨[], (List.append_nil _).symm, by simp [shown]⟩
  | cons item rest ih =>
    intro free next done nodes h
    have hnode : ∀ (id : NodeId) (free : List NodeId),
        Design.number resources free (Design.nodeOf resources id next item).2
          (done.push (Design.nodeOf resources id next item).1) rest = .ok nodes →
        ∃ made, nodes.toList = done.toList ++ made ∧ ∀ message ∈ (shown made).zipIdx next,
          message.1.node.numberOf message.1.part = message.2 := by
      intro id free hrest
      obtain ⟨made, hnodes, hmade⟩ := ih hrest
      obtain ⟨hfirst, hnext⟩ := nodeOf_numbers resources id next item
      rw [Array.toList_push, List.append_assoc, List.singleton_append] at hnodes
      refine ⟨_, hnodes, ?_⟩
      -- The texts behind the node are counted on from its own.
      rw [shown, List.flatMap_cons, ← shown, List.zipIdx_append, List.forall_mem_append, ← hnext]
      exact ⟨hfirst, hmade⟩
    unfold Design.number at h
    cases hitem : item.id? with
    | some id =>
      simp only [hitem] at h
      exact hnode id free h
    | none =>
      cases free with
      | nil =>
        simp only [hitem] at h
        cases h
      | cons id free =>
        simp only [hitem] at h
        exact hnode id free h

theorem agrees_ofDocument {document : Document} {design : Design}
    (h : Design.ofDocument document = .ok design) : Agrees design.nodes := by
  obtain ⟨nodes, -, hnumber, rfl⟩ := Design.ofDocument_cases h
  obtain ⟨made, hnodes, hmade⟩ := number_agrees hnumber
  rw [List.nil_append] at hnodes
  rw [Agrees, messages, hnodes]
  exact hmade

end Catalog

/-! ## 3. Merges -/

namespace Merge

/-- `nodes` are left of `start` by some merges, one after the other. -/
inductive Follows (start : List Node) : List Node → Prop
  | refl : Follows start start
  | merge {σ : Type} {nodes : List Node} (h : Follows start nodes) (settings : Settings)
    (mode : MergeMode) (host : MergeHost (StateM σ)) (source : Except FileFault Bytes) (s : σ) :
    Follows start (run settings mode host source nodes s).1.2

/-- Whatever its course, a merge settles the nodes with some blocks. -/
theorem exists_settle {σ : Type} {nodes : List Node} (hids : (nodes.map Node.id).Nodup)
    (settings : Settings) (mode : MergeMode) (host : MergeHost (StateM σ))
    (source : Except FileFault Bytes) (s : σ) :
    ∃ blocks, (run settings mode host source nodes s).1.2 = nodes.map (Node.settle blocks) := by
  obtain ⟨events, -, hcourse⟩ := traces_run nodes host settings mode source s []
  have hstay : nodes = nodes.map (Node.settle []) := (List.map_id nodes).symm
  generalize (run settings mode host source nodes s).1 = result at hcourse
  cases hcourse with
  | stopped => exact ⟨[], hstay⟩
  | applied _ summary _ _ _ _ _ _ happlied =>
    cases happlied with
    | nowhere | refused => exact ⟨[], hstay⟩
    | declined | merged =>
      exact ⟨mergeable summary, applyBlocks_nodes (mergeable_kinds summary) hids⟩

end Merge

namespace Catalog

variable {nodes : List Node}

theorem shownTexts_settle (blocks : List ChangedBlock) (node : Node) :
    (node.settle blocks).shownTexts =
      node.shownTexts.map fun text => { text with node := node.settle blocks } := by
  have hkind := Node.kind_settle blocks node
  obtain ⟨-, -, hbody⟩ := Node.settle_spec blocks node
  unfold Node.shownTexts
  rw [hkind, hbody.label, hbody.tooltip]
  split
  · cases node.body.label? <;> cases node.body.tooltip? <;> rfl
  · rfl

theorem numberOf_settle (blocks : List ChangedBlock) (node : Node) (part : TextPart) :
    (node.settle blocks).numberOf part = node.numberOf part := by
  obtain ⟨-, hsame, -⟩ := Node.settle_spec blocks node
  cases part with
  | label => exact (congrArg Node.labelNumber hsame :)
  | tooltip => exact (congrArg Node.tooltipNumber hsame :)

theorem shown_settle (blocks : List ChangedBlock) (nodes : List Node) :
    shown (nodes.map (Node.settle blocks)) =
      (shown nodes).map fun text => { text with node := text.node.settle blocks } := by
  rw [shown, shown, List.flatMap_map, List.map_flatMap]
  refine List.flatMap_congr fun node _ => ?_
  rw [shownTexts_settle]
  refine List.map_congr_left fun text htext => ?_
  rw [(Node.mem_shownTexts.1 htext).2.1]

/-- A merge leaves texts and numbers alone, so they still agree. -/
theorem Agrees.settle (h : Agrees nodes) (blocks : List ChangedBlock) :
    Agrees (nodes.map (Node.settle blocks)) := by
  intro message hmessage
  rw [messages, shown_settle, List.zipIdx_map] at hmessage
  obtain ⟨old, hold, rfl⟩ := List.mem_map.1 hmessage
  exact (numberOf_settle blocks _ _).trans (h old hold)

theorem agrees_of_follows {start : List Node} (hids : (start.map Node.id).Nodup)
    (hagrees : Agrees start) (h : Merge.Follows start nodes) :
    (nodes.map Node.id).Nodup ∧ Agrees nodes := by
  induction h with
  | refl => exact ⟨hids, hagrees⟩
  | merge _ settings mode host source s ih =>
    obtain ⟨hnodup, hnodes⟩ := ih
    obtain ⟨blocks, hsettled⟩ := Merge.exists_settle hnodup settings mode host source s
    rw [hsettled, (Merge.keepsNames_settle blocks).map_id]
    exact ⟨hnodup, hnodes.settle blocks⟩

theorem filter_messages (hnodup : nodes.Nodup) (h : Agrees nodes) {node : Node}
    (hnode : node ∈ nodes) : (messages nodes).filter (·.1.node = node) =
      node.shownTexts.map fun text => (text, node.numberOf text.part) := by
  have hmessages : messages nodes =
      (shown nodes).map fun text => (text, text.node.numberOf text.part) := by
    have htexts : (messages nodes).map Prod.fst = shown nodes := List.zipIdx_map_fst ..
    rw [← htexts, List.map_map]
    refine ((List.map_congr_left fun message hmessage => ?_).trans (List.map_id _)).symm
    exact Prod.ext rfl (h message hmessage)
  -- The texts of all other nodes are left out.
  have hshown : (shown nodes).filter (·.node = node) = node.shownTexts := by
    obtain ⟨front, back, rfl⟩ := List.append_of_mem hnode
    rw [List.nodup_middle, List.nodup_cons, List.mem_append, not_or] at hnodup
    have hother : ∀ others : List Node, node ∉ others →
        (shown others).filter (·.node = node) = [] := fun others hnot =>
      List.filter_eq_nil_iff.2 fun text htext heq =>
        hnot (of_decide_eq_true heq ▸ (mem_shown.1 htext).1)
    have hself : node.shownTexts.filter (·.node = node) = node.shownTexts :=
      List.filter_eq_self.2 fun text htext => decide_eq_true (Node.mem_shownTexts.1 htext).2.1
    have hfront := hother front hnodup.1.1
    have hback := hother back hnodup.1.2
    rw [shown] at hfront hback ⊢
    rw [List.flatMap_append, List.flatMap_cons, List.filter_append, List.filter_append, hfront,
      hback, hself, List.nil_append, List.append_nil]
  rw [hmessages, List.filter_map, ← hshown, List.map_congr_left fun text htext => ?_]
  · rfl
  · rw [of_decide_eq_true (List.mem_filter.1 htext).2]

end Catalog

/-! ## 4. Catalog and code -/

namespace Catalog

/-- The catalog of a design and its code go together. -/
structure InStep (design : Design) (settings : Settings) (options : RunOptions) : Prop where
  /-- The file lists the messages, one on a line. -/
  content : ofNodes design.nodes settings.translation = {
    count := (messages design.nodes).length
    content := head settings.translation ++ String.join ((messages design.nodes).map line) }
  /-- They follow the order of the nodes, -/
  order : (messages design.nodes).map Prod.fst = design.nodes.flatMap Node.shownTexts
  /-- and their numbers have no gap. -/
  numbers : (messages design.nodes).map Prod.snd = List.range' 1 (messages design.nodes).length
  /-- Every label and tooltip is one of them. -/
  one : ∀ node ∈ design.nodes, node.kind.isWidget = true → ∀ part text,
    node.textOf? part = some text → ∃! number, (⟨node, part, text⟩, number) ∈ messages design.nodes
  /-- The code of a node calls for its messages by their numbers. -/
  code : ∃ generated, generate design settings options = .ok generated ∧
    generated.source =
      (Generation.written design settings options).flatMap Generation.Piece.source ∧
    ∀ piece ∈ Generation.written design settings options, ∀ phase node,
      piece.step = .write phase node → node.kind.hasCallback = true →
      ∃ depth names present declared,
        let context : Context := ⟨settings, options.preview, depth⟩
        let segments := node.segments context names phase present declared
        spans piece.chunks = segments.flatMap (Segment.spans context.catgets) ∧
          segments.filterMap (Segment.request? node) =
            if phase = .setup ∨ phase = .closing then []
            else (messages design.nodes).filter (·.1.node = node)

theorem Agrees.inStep {design : Design} (hnodup : design.nodes.Nodup) (h : Agrees design.nodes)
    {settings : Settings} (hposix : settings.translation.mode = .posix) (options : RunOptions) :
    InStep design settings options := by
  obtain ⟨generated, hgenerated, hsource, -⟩ :=
    Generation.generate_written design settings options
  constructor
  case content => exact ofNodes_posix design.nodes hposix
  case order => exact List.zipIdx_map_fst ..
  case numbers =>
    rw [length_messages]
    exact List.zipIdx_map_snd ..
  case one =>
    intro node hnode hkind part text htext
    exact existsUnique_zipIdx (nodup_shown hnodup) (mem_shown.2 ⟨hnode, hkind, htext⟩) 1
  case code =>
    refine ⟨generated, hgenerated, hsource, fun piece hpiece phase node hstep hkind => ?_⟩
    obtain ⟨hnode, depth, names, present, declared, hspans⟩ :=
      Generation.segments_written design settings options hpiece hstep hkind
    refine ⟨depth, names, present, declared, ?_, ?_⟩
    · rw [hspans, Node.translated_posix hposix]
    · rw [Node.requests_segments, filter_messages hnodup h hnode]

/-- The numbers of the catalog are those in the code, however often edits were merged since the
design was made. -/
theorem numbers_agree {document : Document} {design : Design}
    (h : Design.ofDocument document = .ok design) {nodes : List Node}
    (hmerged : Merge.Follows design.nodes nodes) {settings : Settings}
    (hposix : settings.translation.mode = .posix) (options : RunOptions) :
    InStep { design with nodes } settings options := by
  have hids := Design.distinctIds_ofDocument h
  obtain ⟨hnodup, hagrees⟩ := agrees_of_follows hids (agrees_ofDocument h) hmerged
  exact hagrees.inStep (List.Nodup.of_map _ hnodup) hposix options

def buttonWithMenu : Document where
  items :=
    [.mk (some ⟨1⟩) (.widget "Fl_Button" none (some "Save") (some "Saves \"all\"") (some "save();") none
      0 0 10 10) [],
    .mk (some ⟨2⟩) (.menuItem "Quit" none none) []]

def buttonWithMenuNodes : Array Node :=
  #[{ id := ⟨1⟩, depth := 0, scope := .file, hasChildren := false, hasChildWidgets := false
      body := .widget "Fl_Button" none (some "Save") (some "Saves \"all\"") (some "save();") none
        0 0 10 10
      resource := none, labelNumber := 1, tooltipNumber := 2 },
    { id := ⟨2⟩, depth := 0, scope := .file, hasChildren := false, hasChildWidgets := false
      body := .menuItem "Quit" none none
      resource := none, labelNumber := 3, tooltipNumber := 0 }]

def buttonWithMenuDesign : Design where
  nodes := buttonWithMenuNodes.toList

def callbackEdit : Layout where
  sections := [⟨utf8 "  store();\n", ⟨.widgetCallback, ⟨1⟩, 0⟩⟩]

def storingNodes : List Node :=
  (Merge.run { mergeTags := true } .go (MergeHost.recording true (.ok ())) (.ok callbackEdit.render)
    buttonWithMenuDesign.nodes []).1.2

theorem numbers_agree_buttons :
    Design.ofDocument buttonWithMenu = .ok buttonWithMenuDesign ∧
      storingNodes.map Node.callback? = [some "store();", none] ∧
      (messages storingNodes).map (fun message => (message.1.text, message.2)) =
        [("Save", 1), ("Saves \"all\"", 2), ("Quit", 3)] ∧
      InStep { buttonWithMenuDesign with nodes := storingNodes }
        { translation := { mode := .posix } } {} := by
  have hdesign : Design.ofDocument buttonWithMenu = .ok buttonWithMenuDesign :=
    Design.ofDocument_of_given [⟨1⟩, ⟨2⟩] buttonWithMenuNodes rfl (by simp [Design.firstRepeated?])
      (by decide) rfl
  refine ⟨hdesign, by decide +kernel, by decide +kernel, ?_⟩
  exact numbers_agree hdesign (.merge .refl _ _ _ _ _) rfl {}

end Catalog

end FormWeave
