import FormWeave.Proofs.Flattening
import FormWeave.Proofs.NodeSpans
import FormWeave.Proofs.Pieces
import FormWeave.Proofs.Subtrees

/-!
# The wiring of callbacks and images

The name of a callback function or of the array of an image is asked for wherever it is used. An
owner has one name in a run and no two owners share one, so each use names the one definition. The
setup code with the definition is written before all other code of the node.
-/

namespace FormWeave

/-! ## 1. What code makes sure of -/

structure Writer.Grows (w w' : Writer) : Prop where
  identifiers : w.identifiers.Within w'.identifiers
  objects : w.objects.members ⊆ w'.objects.members

theorem Writer.Grows.refl (w : Writer) : w.Grows w := ⟨.refl _, fun _ => id⟩

theorem Writer.Grows.trans {w w' w'' : Writer} (h : w.Grows w') (h' : w'.Grows w'') : w.Grows w'' :=
  ⟨h.identifiers.trans h'.identifiers, fun _ hobject => h'.objects (h.objects hobject)⟩

namespace Emit

variable {α β : Type} {sees : ObjectId → Prop} {P : Writer → Prop} {emit : Emit α}
  {next : α → Emit β}

theorem Composed.grows (h : emit.Composed sees) (w : Writer) : w.Grows (emit w).2 := by
  obtain ⟨chunks, hwrote⟩ := h.wrote w
  exact ⟨hwrote.identifiers, fun object => (h.objects w object).1⟩

/-- Behind `emit`, and behind whatever follows, `P` holds. -/
def Ensures (emit : Emit α) (P : Writer → Prop) : Prop :=
  ∀ w w' : Writer, (emit w).2.Grows w' → P w'

theorem Ensures.first (h : emit.Ensures P) (hemit : emit.Composed fun _ => True)
    (hnext : ∀ a, (next a).Composed fun _ => True) : (emit >>= next).Ensures P := by
  intro w w' hgrows
  obtain ⟨a, hrun⟩ := hemit.bind_state next w
  rw [hrun] at hgrows
  exact h w w' (((hnext a).grows (emit w).2).trans hgrows)

theorem Ensures.later (hemit : emit.Composed fun _ => True) (h : ∀ a, (next a).Ensures P) :
    (emit >>= next).Ensures P := by
  intro w w' hgrows
  obtain ⟨a, hrun⟩ := hemit.bind_state next w
  rw [hrun] at hgrows
  exact h a _ w' hgrows

theorem Ensures.and {Q : Writer → Prop} (h : emit.Ensures P) (h' : emit.Ensures Q) :
    emit.Ensures fun w => P w ∧ Q w :=
  fun w w' hgrows => ⟨h w w' hgrows, h' w w' hgrows⟩

theorem ensures_uniqueId (owner : ObjectId) (word : String) (name label : Option String) :
    (uniqueId owner word name label).Ensures fun w =>
      w.identifiers.Gave owner (Identifier.base word name label)
        (w.identifiers.allocate owner word name label).1 := by
  intro w w' hgrows
  have hgave := (w.identifiers.gave_allocate owner word name label).within hgrows.identifiers
  rw [hgave.allocate_eq]
  exact hgave

theorem ensures_seen (object : ObjectId) :
    (seen object).Ensures fun w => object ∈ w.objects.members :=
  fun w _ hgrows => hgrows.objects ((w.mem_objects_seen object object).2 (.inr rfl))

end Emit

namespace Node

open Emit

variable {node : Node}

/-! ## 2. What setup code makes sure of -/

/-- Widgets and menu items are the nodes with callbacks. -/
theorem hasCallback_of_inline (h : node.inlineCallback?.isSome) : node.kind.hasCallback = true := by
  obtain ⟨callback, hinline⟩ := Option.isSome_iff_exists.1 h
  obtain ⟨hcallback, -⟩ := Option.filter_eq_some_iff.1 hinline
  unfold callback? at hcallback
  unfold Node.kind
  cases hbody : node.body with
  | widget | menuItem => rfl
  | _ => simp [hbody, ItemBody.callback?] at hcallback

theorem kind_of_shown {image : String} {resource : Resource}
    (h : node.shown? = some (image, resource)) : node.kind = .widget := by
  unfold shown? at h
  unfold Node.kind
  cases hbody : node.body with
  | widget => rfl
  | _ => simp [hbody] at h

theorem hasCallback_of_shown {image : String} {resource : Resource}
    (h : node.shown? = some (image, resource)) : node.kind.hasCallback = true := by
  rw [kind_of_shown h]
  rfl

theorem ne_comment_of_hasCallback (h : node.kind.hasCallback = true) : node.kind ≠ .comment := by
  intro hcomment
  rw [hcomment] at h
  cases h

theorem ensures_callbackFunction {callback : String} (h : isFunctionName callback = false)
    (target : String) (kind : TagKind) :
    (writeCallbackFunction node callback target kind).Ensures fun w =>
      w.identifiers.Gave (.node node.id)
        (Identifier.base "cb" node.callbackHints.1 node.callbackHints.2)
        (node.callbackIn w.identifiers) := by
  unfold writeCallbackFunction
  rw [if_neg (by rw [h]; exact Bool.false_ne_true), callbackName_eq]
  refine .first (ensures_uniqueId (.node node.id) "cb" _ _) ?_ fun name => ?_
  · grind
  · grind

theorem ensures_writeImage (image : String) (resource : Resource) :
    (writeImage image resource).Ensures fun w =>
      w.identifiers.Gave (.resource image) (Identifier.base "idata" (some image) none)
        (imageIn w.identifiers image) ∧ ObjectId.resource image ∈ w.objects.members := by
  unfold writeImage
  refine .later (by grind) fun _ => .and ?_ ?_
  · refine .first (ensures_uniqueId (.resource image) "idata" _ _) ?_ ?_
    · grind
    · grind
  · refine .later (by grind) fun array => ?_
    refine .first (ensures_seen (.resource image)) ?_ fun known => ?_
    · grind
    · grind

/-- The setup code of a node with an inline callback has a name for it. -/
theorem ensures_callback (h : node.inlineCallback?.isSome) :
    (writeSetup node).Ensures fun w => w.identifiers.Gave (.node node.id)
      (Identifier.base "cb" node.callbackHints.1 node.callbackHints.2)
      (node.callbackIn w.identifiers) := by
  obtain ⟨callback, hinline⟩ := Option.isSome_iff_exists.1 h
  obtain ⟨hcallback, hcode⟩ := Option.filter_eq_some_iff.1 hinline
  rw [Bool.not_eq_true'] at hcode
  unfold writeSetup
  cases hbody : node.body with
  | menuItem =>
    dsimp only
    rw [hcallback]
    exact ensures_callbackFunction hcode _ _
  | widget =>
    unfold writeWidgetSetup
    rw [hbody]
    dsimp only
    rw [hcallback]
    refine .later ?_ fun _ => .later ?_ fun _ => ensures_callbackFunction hcode _ _
    · grind
    · grind
  | _ => simp [callback?, hbody, ItemBody.callback?] at hcallback

/-- The setup code of a node that shows an image has a name for it, and the image was seen. -/
theorem ensures_image {image : String} {resource : Resource}
    (h : node.shown? = some (image, resource)) :
    (writeSetup node).Ensures fun w =>
      w.identifiers.Gave (.resource image) (Identifier.base "idata" (some image) none)
        (imageIn w.identifiers image) ∧ ObjectId.resource image ∈ w.objects.members := by
  unfold writeSetup
  cases hbody : node.body with
  | widget =>
    unfold writeWidgetSetup
    rw [hbody]
    dsimp only
    rw [forSome_shown hbody, h]
    refine .later ?_ fun _ => .first (ensures_writeImage image resource) ?_ fun _ => ?_
    · grind
    · grind
    · grind
  | _ => simp [shown?, hbody] at h

end Node

namespace Generation

variable (names : HeaderNames)

/-! ## 3. Images that were seen -/

def presents (image : String) : Step Node → Bool
  | .write .setup node => node.shown?.any (·.1 == image)
  | _ => false

theorem presents_setup {image : String} {node : Node} :
    presents image (.write .setup node) = true ↔
      ∃ resource, node.shown? = some (image, resource) := by
  show node.shown?.any (·.1 == image) = true ↔ _
  cases node.shown? with
  | none => simp
  | some shown =>
    obtain ⟨name, resource⟩ := shown
    simp

theorem exists_setup_of_presents {image : String} {step : Step Node}
    (h : presents image step = true) :
    ∃ node resource, step = .write .setup node ∧ node.shown? = some (image, resource) := by
  cases step with
  | write phase node =>
    cases phase with
    | setup =>
      obtain ⟨resource, hshown⟩ := presents_setup.1 h
      exact ⟨node, resource, rfl, hshown⟩
    | opening | closing | framing => cases h
  | prologue | endClass | endGuard => cases h

theorem objects_step (step : Step Node) (w : Writer) (image : String) :
    ObjectId.resource image ∈ (stepCode names step w).2.objects.members ↔
      ObjectId.resource image ∈ w.objects.members ∨ presents image step = true := by
  obtain ⟨hkeep, hnew⟩ := (composed_stepCode names step).objects w (.resource image)
  constructor
  · intro h
    refine (hnew h).imp id ?_
    rintro ⟨node, _, resource, rfl, hshown, himage⟩
    cases himage
    exact presents_setup.2 ⟨resource, hshown⟩
  · rintro (h | h)
    · exact hkeep h
    · obtain ⟨node, resource, rfl, hshown⟩ := exists_setup_of_presents h
      exact (Node.ensures_image hshown w _ (.refl _)).2

theorem objects_advance (w : Writer) (steps : List (Step Node)) (image : String) :
    ObjectId.resource image ∈ (advance names w steps).objects.members ↔
      ObjectId.resource image ∈ w.objects.members ∨ steps.any (presents image) = true := by
  induction steps generalizing w with
  | nil => exact ⟨.inl, fun h => h.elim id nofun⟩
  | cons step rest ih =>
    rw [advance_cons, ih, objects_step, List.any_cons, Bool.or_eq_true, or_assoc]

theorem grows_advance (w : Writer) (steps : List (Step Node)) :
    w.Grows (advance names w steps) := by
  induction steps generalizing w with
  | nil => exact .refl w
  | cons step rest ih => exact ((composed_stepCode names step).grows w).trans (ih _)

/-! ## 4. The names of a design -/

/-- A callback that is inline code has a function and a shown image has an array. No two of them
have the same name. -/
structure DistinctNames (design : Design) (names : Names) : Prop where
  callbacks : ∀ node ∈ design.nodes, node.inlineCallback?.isSome →
    ∀ other ∈ design.nodes, other.inlineCallback?.isSome →
      node.callbackIn names = other.callbackIn names → node = other
  images : ∀ node ∈ design.nodes, ∀ image resource, node.shown? = some (image, resource) →
    ∀ other ∈ design.nodes, ∀ image' resource', other.shown? = some (image', resource') →
      Node.imageIn names image = Node.imageIn names image' → image = image'
  apart : ∀ node ∈ design.nodes, node.inlineCallback?.isSome →
    ∀ other ∈ design.nodes, ∀ image resource, other.shown? = some (image, resource) →
      node.callbackIn names ≠ Node.imageIn names image

section

variable (design : Design) (settings : Settings) (options : RunOptions)

def finalNames : Names := (finalWriter design settings options).identifiers

/-- What the setup code of a node makes sure of holds in the end. -/
theorem ensures_finalWriter (hids : design.DistinctIds) {node : Node} (hnode : node ∈ design.nodes)
    (hkind : node.kind.hasCallback = true) {P : Writer → Prop} (h : node.writeSetup.Ensures P) :
    P (finalWriter design settings options) := by
  obtain ⟨front, back, hsplit, -⟩ := Forest.plan_setup hids.nodup
    (Forest.mem_members hnode (Node.ne_comment_of_hasCallback hkind))
  rw [finalWriter_eq, hsplit, advance_append, advance_cons]
  exact h _ _ (grows_advance _ _ _)

theorem distinctNames_final (hids : design.DistinctIds) :
    DistinctNames design (finalNames design settings options) := by
  have hcallback : ∀ node ∈ design.nodes, node.inlineCallback?.isSome → ∃ base,
      (finalNames design settings options).Gave (.node node.id) base
        (node.callbackIn (finalNames design settings options)) := fun node hnode hinline =>
    ⟨_, ensures_finalWriter design settings options hids hnode
      (Node.hasCallback_of_inline hinline) (Node.ensures_callback hinline)⟩
  have himage : ∀ node ∈ design.nodes, ∀ image resource, node.shown? = some (image, resource) →
      ∃ base, (finalNames design settings options).Gave (.resource image) base
        (Node.imageIn (finalNames design settings options) image) :=
    fun node hnode image resource hshown =>
      ⟨_, (ensures_finalWriter design settings options hids hnode
        (Node.hasCallback_of_shown hshown) (Node.ensures_image hshown)).1⟩
  -- An identifier has one owner, so names that are equal have one owner each time.
  constructor
  case callbacks =>
    intro node hnode hinline other hother hinline' heq
    obtain ⟨_, hgave⟩ := hcallback node hnode hinline
    obtain ⟨_, hgave'⟩ := hcallback other hother hinline'
    rw [heq] at hgave
    exact hids.eq_of_id hnode hother (ObjectId.node.inj (hgave.owner_eq hgave'))
  case images =>
    intro node hnode image resource hshown other hother image' resource' hshown' heq
    obtain ⟨_, hgave⟩ := himage node hnode image resource hshown
    obtain ⟨_, hgave'⟩ := himage other hother image' resource' hshown'
    rw [heq] at hgave
    exact ObjectId.resource.inj (hgave.owner_eq hgave')
  case apart =>
    intro node hnode hinline other hother image resource hshown heq
    obtain ⟨_, hgave⟩ := hcallback node hnode hinline
    obtain ⟨_, hgave'⟩ := himage other hother image resource hshown
    rw [heq] at hgave
    cases hgave.owner_eq hgave'

end

/-! ## 5. The wiring of a design -/

/-- How the code of a design defines and uses the names of callbacks and images. -/
structure Wired (design : Design) (context : Int32 → Context) (names : Names)
    (all : List Piece) : Prop where
  /-- An image is shown if the design has a resource of its name. -/
  shown : ∀ node ∈ design.nodes, ∀ image resource, node.shown? = some (image, resource) ↔
    node.kind = .widget ∧ node.body.resourceName? = some image ∧
      design.resources.find? image = some resource
  distinct : DistinctNames design names
  /-- Definitions and references are all made from the same names. An array is present behind the
  setup code of the first node that shows the image. -/
  code : ∀ before piece behind phase node, all = before ++ piece :: behind →
    piece.step = .write phase node → node.kind.hasCallback = true →
    ∃ depth declared, spans piece.chunks = node.spansIn (context depth) names phase
      (fun image => before.any fun earlier => presents image earlier.step) declared
  /-- The function of a callback is defined once, in front of all other code of its node. -/
  callback : ∀ node ∈ design.nodes, ∀ callback, node.inlineCallback? = some callback →
    ∃ before setup behind, all = before ++ setup :: behind ∧ setup.step = .write .setup node ∧
      (∃ depth, node.callbackFunction (context depth) names callback <:+ spans setup.chunks) ∧
      (∀ piece ∈ before, ∀ phase, piece.step ≠ .write phase node) ∧
      ∀ piece ∈ behind, piece.step ≠ .write .setup node
  /-- The array of an image is defined once, in front of all other code of the nodes that show it. -/
  image : ∀ node ∈ design.nodes, ∀ image resource, node.shown? = some (image, resource) →
    ∃ before setup behind first, all = before ++ setup :: behind ∧
      setup.step = .write .setup first ∧ first.shown? = some (image, resource) ∧
      (∃ depth, Node.imageArray (context depth) names image resource <:+: spans setup.chunks) ∧
      (∀ piece ∈ before, ∀ phase other, piece.step = .write phase other →
        ∀ found, other.shown? ≠ some (image, found)) ∧
      ∀ piece ∈ behind, ∀ phase other, piece.step = .write phase other →
        other.kind.hasCallback = true →
        ∃ depth present declared, present image = true ∧
          spans piece.chunks = other.spansIn (context depth) names phase present declared

variable {document : Document} {design : Design}

theorem shown?_eq_some_iff (h : Design.ofDocument document = .ok design) {node : Node}
    (hnode : node ∈ design.nodes) {image : String} {resource : Resource} :
    node.shown? = some (image, resource) ↔ node.kind = .widget ∧
      node.body.resourceName? = some image ∧ design.resources.find? image = some resource := by
  obtain ⟨hresources, hall⟩ := Design.made_ofDocument h
  obtain ⟨item, -, hmade⟩ := Design.made_of_mem hall hnode
  have hresource : node.resource = node.body.resourceName?.bind design.resources.find? := by
    rw [hmade.resource, hmade.body, hresources]
  unfold Node.shown? Node.kind
  rw [hresource]
  cases hbody : node.body with
  | widget className name label tooltip callback shown =>
    cases shown with
    | none => simp [ItemBody.resourceName?]
    | some shown =>
      have hswap : (∃ found, design.resources.find? shown = some found ∧ shown = image ∧
          found = resource) ↔ shown = image ∧ design.resources.find? image = some resource := by
        grind
      simpa [ItemBody.resourceName?, ItemBody.kind] using hswap
  | _ => simp [ItemBody.kind]

variable (design) (settings : Settings) (options : RunOptions)

/-- The writer in front of a step writes, with the settings of the run. -/
theorem in_advance (steps : List (Step Node)) :
    let w := advance (configuredNames settings) (start settings options).reset steps
    w.In ⟨settings, options.preview, w.indentation⟩ :=
  have hfront := wrote_advance (configuredNames settings) (start settings options).reset steps
  ⟨hfront.settings, hfront.preview, rfl, hfront.dryRun⟩

/-- What a step spells where it is taken, its piece spells with the names of the whole run. -/
theorem spans_of_spellsAt {before behind : List Piece} {piece : Piece} {text : Names → List Span}
    (hsplit : written design settings options = before ++ piece :: behind)
    (h : Emit.SpellsAt (advance (configuredNames settings) (start settings options).reset
      (before.map Piece.step)) (stepCode (configuredNames settings) piece.step) text) :
    spans piece.chunks = text (finalNames design settings options) := by
  obtain ⟨hplan, hpiece⟩ := split_pieces (configuredNames settings) hsplit
  obtain ⟨w', chunks, hrun, hwrote, htext⟩ := h
  have hstate := congrArg Prod.snd hrun
  dsimp only at hstate
  have hchunks : piece.chunks = chunks := by
    rw [pieces_cons _ (by rw [hstate]; exact hwrote)] at hpiece
    rw [← (List.cons.inj hpiece).1]
  rw [hchunks]
  refine htext _ ?_
  -- The identifiers only grow until the end of the run.
  rw [finalNames, finalWriter_eq, hplan, advance_append, advance_cons, hstate]
  exact (grows_advance _ _ _).identifiers

/-- What a widget or menu item writes, at the level in force where its code stands. -/
theorem spans_at_level {before behind : List Piece} {piece : Piece} {phase : Phase} {node : Node}
    (hsplit : written design settings options = before ++ piece :: behind)
    (hstep : piece.step = .write phase node) (hkind : node.kind.hasCallback = true) :
    let level := (advance (configuredNames settings) (start settings options).reset
      (before.map Piece.step)).indentation
    ∃ declared, spans piece.chunks = node.spansIn ⟨settings, options.preview, level⟩
      (finalNames design settings options) phase
      (fun image => before.any fun earlier => presents image earlier.step) declared := by
  let w := advance (configuredNames settings) (start settings options).reset
    (before.map Piece.step)
  have hpresent : ∀ image, ObjectId.resource image ∈ w.objects.members ↔
      (before.any fun earlier => presents image earlier.step) = true := by
    intro image
    rw [objects_advance, List.any_map]
    exact ⟨fun h => h.elim nofun id, .inr⟩
  obtain ⟨declared, hspells⟩ :=
    Node.spells_writeNode (in_advance settings options _) hpresent hkind phase
  exact ⟨declared, spans_of_spellsAt design settings options hsplit (by rw [hstep]; exact hspells)⟩

/-- What a widget or menu item writes, wherever its code stands. -/
theorem spans_written {before behind : List Piece} {piece : Piece} {phase : Phase} {node : Node}
    (hsplit : written design settings options = before ++ piece :: behind)
    (hstep : piece.step = .write phase node) (hkind : node.kind.hasCallback = true) :
    ∃ depth declared, spans piece.chunks = node.spansIn ⟨settings, options.preview, depth⟩
      (finalNames design settings options) phase
      (fun image => before.any fun earlier => presents image earlier.step) declared :=
  ⟨_, spans_at_level design settings options hsplit hstep hkind⟩

/-- The function of a callback is defined once, in front of all other code of its node. -/
theorem callback_written (hids : design.DistinctIds) {node : Node} (hnode : node ∈ design.nodes)
    {callback : String} (hinline : node.inlineCallback? = some callback) :
    ∃ before setup behind, written design settings options = before ++ setup :: behind ∧
      setup.step = .write .setup node ∧
      (∃ depth, node.callbackFunction ⟨settings, options.preview, depth⟩
        (finalNames design settings options) callback <:+ spans setup.chunks) ∧
      (∀ piece ∈ before, ∀ phase, piece.step ≠ .write phase node) ∧
      ∀ piece ∈ behind, piece.step ≠ .write .setup node := by
  have hkind : node.kind.hasCallback = true := Node.hasCallback_of_inline (by rw [hinline]; rfl)
  obtain ⟨front, back, hplan, hfront, hback⟩ := Forest.plan_setup hids.nodup
    (Forest.mem_members hnode (Node.ne_comment_of_hasCallback hkind))
  obtain ⟨before, setup, behind, hsplit, rfl, hsetup, rfl⟩ :=
    split_written design settings options hplan
  obtain ⟨depth, declared, hspans⟩ := spans_written design settings options hsplit hsetup hkind
  refine ⟨before, setup, behind, hsplit, hsetup, ⟨depth, ?_⟩, fun piece hpiece phase heq => ?_,
    fun piece hpiece heq => ?_⟩
  · rw [hspans, Node.spansIn]
    exact Node.callbackFunction_suffix hinline _
  · exact hfront phase (heq ▸ List.mem_map_of_mem (f := Piece.step) hpiece)
  · exact hback (heq ▸ List.mem_map_of_mem (f := Piece.step) hpiece)

/-- A node that wrote anything in front of a step wrote its setup code there. -/
theorem setup_mem_front (hids : design.DistinctIds) {node : Node} {phase : Phase}
    {front back : List (Step Node)} {step : Step Node}
    (hplan : plan design.nodes = front ++ step :: back) (hkind : node.kind.hasCallback = true)
    (hmem : .write phase node ∈ front) : .write .setup node ∈ front := by
  have hstep : .write phase node ∈ plan design.nodes := by
    rw [hplan]
    exact List.mem_append_left _ hmem
  have hnode := Forest.mem_of_plan hstep
  obtain ⟨front', back', hplan', hfirst, -⟩ := Forest.plan_setup hids.nodup
    (Forest.mem_members hnode (Node.ne_comment_of_hasCallback hkind))
  rw [hplan, List.append_eq_append_iff] at hplan'
  -- The setup code is the first of the node's steps, and one of these is in front.
  rcases hplan' with ⟨middle, rfl, -⟩ | ⟨middle, rfl, hmiddle⟩
  · exact absurd (List.mem_append_left _ hmem) (hfirst phase)
  · cases middle with
    | nil =>
      rw [List.append_nil] at hmem
      exact absurd hmem (hfirst phase)
    | cons first rest =>
      cases hmiddle
      exact List.mem_append_right _ List.mem_cons_self

/-- The array of an image is defined once, in front of all other code of the nodes that show it. -/
theorem image_written (hids : design.DistinctIds) {node : Node} (hnode : node ∈ design.nodes)
    {image : String} {resource : Resource} (hshown : node.shown? = some (image, resource)) :
    ∃ before setup behind first found, written design settings options = before ++ setup :: behind ∧
      setup.step = .write .setup first ∧ first.shown? = some (image, found) ∧
      (∃ depth, Node.imageArray ⟨settings, options.preview, depth⟩
        (finalNames design settings options) image found <:+: spans setup.chunks) ∧
      (∀ piece ∈ before, ∀ phase other, piece.step = .write phase other →
        ∀ found, other.shown? ≠ some (image, found)) ∧
      ∀ piece ∈ behind, ∀ phase other, piece.step = .write phase other →
        other.kind.hasCallback = true →
        ∃ depth present declared, present image = true ∧
          spans piece.chunks = other.spansIn ⟨settings, options.preview, depth⟩
            (finalNames design settings options) phase present declared := by
  obtain ⟨_, _, hplan, -⟩ := Forest.plan_setup hids.nodup
    (Forest.mem_members hnode (Node.ne_comment_of_hasCallback (Node.hasCallback_of_shown hshown)))
  have hsome : ((plan design.nodes).find? (presents image)).isSome := by
    rw [List.find?_isSome]
    exact ⟨.write .setup node, by rw [hplan]; simp, presents_setup.2 ⟨resource, hshown⟩⟩
  obtain ⟨step, hfind⟩ := Option.isSome_iff_exists.1 hsome
  -- The first step that shows the image is where the array stands.
  obtain ⟨hpresents, front, back, hsplit, hnew⟩ := List.find?_eq_some_iff_append.1 hfind
  obtain ⟨first, found, rfl, hfirst⟩ := exists_setup_of_presents hpresents
  obtain ⟨before, setup, behind, hwritten, rfl, hsetup, -⟩ :=
    split_written design settings options hsplit
  have hnone : (before.any fun earlier => presents image earlier.step) = false := by
    rw [List.any_eq_false]
    intro piece hpiece
    simpa using hnew _ (List.mem_map_of_mem (f := Piece.step) hpiece)
  obtain ⟨depth, declared, hspans⟩ := spans_written design settings options hwritten hsetup
    (Node.hasCallback_of_shown hfirst)
  refine ⟨before, setup, behind, first, found, hwritten, hsetup, hfirst, ⟨depth, ?_⟩,
    fun piece hpiece phase other hstep resource' hother => ?_,
    fun piece hpiece phase other hstep hother => ?_⟩
  · rw [hspans, Node.spansIn]
    exact Node.imageArray_infix hfirst hnone
  · -- The setup code of that node would have been the first one.
    have hmem : .write phase other ∈ before.map Piece.step :=
      hstep ▸ List.mem_map_of_mem (f := Piece.step) hpiece
    have hearlier := setup_mem_front design hids hsplit (Node.hasCallback_of_shown hother) hmem
    have hshows : presents image (.write .setup other) = true := presents_setup.2 ⟨_, hother⟩
    simpa [hshows] using hnew _ hearlier
  · -- From that step on the array is present.
    obtain ⟨middle, rest, rfl⟩ := List.append_of_mem hpiece
    rw [← List.cons_append, ← List.append_assoc] at hwritten
    obtain ⟨depth, declared, hspans⟩ := spans_written design settings options hwritten hstep hother
    refine ⟨depth, _, declared, ?_, hspans⟩
    have hpresent : presents image setup.step = true := by rw [hsetup]; exact hpresents
    simp [hpresent]

variable {design}

/-- The names of callbacks and images are wired in the code of every document. -/
theorem names_wired (h : Design.ofDocument document = .ok design) (settings : Settings)
    (options : RunOptions) :
    ∃ generated names, generate design settings options = .ok generated ∧
      generated.source = (written design settings options).flatMap Piece.source ∧
      Wired design (Context.mk settings options.preview) names
        (written design settings options) := by
  obtain ⟨generated, hgenerated, hsource, -⟩ := generate_written design settings options
  have hids := Design.distinctIds_ofDocument h
  refine ⟨generated, finalNames design settings options, hgenerated, hsource, ?_⟩
  constructor
  case shown => exact fun node hnode image resource => shown?_eq_some_iff h hnode
  case distinct => exact distinctNames_final design settings options hids
  case code => exact fun before piece behind phase node => spans_written design settings options
  case callback =>
    exact fun node hnode callback => callback_written design settings options hids hnode
  case image =>
    intro node hnode image resource hshown
    obtain ⟨before, setup, behind, first, found, hsplit, hsetup, hfirst, harray, honce⟩ :=
      image_written design settings options hids hnode hshown
    have hmem : first ∈ design.nodes := by
      have hstep := map_step_written design settings options
      rw [hsplit, List.map_append, List.map_cons, hsetup] at hstep
      exact Forest.mem_of_plan (by rw [← hstep]; exact List.mem_append_right _ List.mem_cons_self)
    -- Both show the one resource of that name.
    have hfound := ((shown?_eq_some_iff h hmem).1 hfirst).2.2
    have hresource := ((shown?_eq_some_iff h hnode).1 hshown).2.2
    cases hfound.symm.trans hresource
    exact ⟨before, setup, behind, first, hsplit, hsetup, hfirst, harray, honce⟩

def buttonDocument : Document where
  resources := { entries := [("logo.png", .bytes [1, 2])] }
  items :=
    [.mk (some ⟨1⟩) (.widget "Fl_Button" none (some "Save") none (some "save();")
      (some "logo.png") 0 0 10 10) [],
    .mk (some ⟨2⟩) (.widget "Fl_Button" none (some "Save") none (some "store();")
      (some "logo.png") 0 0 10 10) []]

def button (id : NodeId) (number : Nat) (callback : String) : Node where
  id := id
  depth := 0
  scope := .file
  hasChildren := false
  hasChildWidgets := false
  body := .widget "Fl_Button" none (some "Save") none (some callback) (some "logo.png") 0 0 10 10
  resource := some (.bytes [1, 2])
  labelNumber := number
  tooltipNumber := 0

def buttonDesign : Design where
  nodes := [button ⟨1⟩ 1 "save();", button ⟨2⟩ 2 "store();"]
  resources := { entries := [("logo.png", .bytes [1, 2])] }

theorem ofDocument_buttons : Design.ofDocument buttonDocument = .ok buttonDesign :=
  Design.ofDocument_of_given [⟨1⟩, ⟨2⟩] #[button ⟨1⟩ 1 "save();", button ⟨2⟩ 2 "store();"] rfl
    (by simp [Design.firstRepeated?]) (by decide) rfl

theorem names_wired_buttons :
    Design.ofDocument buttonDocument = .ok buttonDesign ∧
      ∃ generated names before setup behind, generate buttonDesign {} {} = .ok generated ∧
        (button ⟨1⟩ 1 "save();").callbackIn names ≠ (button ⟨2⟩ 2 "store();").callbackIn names ∧
        written buttonDesign {} {} = before ++ setup :: behind ∧
        setup.step = .write .setup (button ⟨2⟩ 2 "store();") ∧
        ∃ depth, (button ⟨2⟩ 2 "store();").callbackFunction ⟨{}, false, depth⟩ names "store();" <:+
          spans setup.chunks := by
  have hsave : (button ⟨1⟩ 1 "save();").inlineCallback? = some "save();" := by decide
  have hstore : (button ⟨2⟩ 2 "store();").inlineCallback? = some "store();" := by decide
  obtain ⟨generated, names, hgenerated, -, hwired⟩ := names_wired ofDocument_buttons {} {}
  obtain ⟨before, setup, behind, hwritten, hsetup, hfunction, -⟩ :=
    hwired.callback (button ⟨2⟩ 2 "store();") (by decide) "store();" hstore
  refine ⟨ofDocument_buttons, generated, names, before, setup, behind, hgenerated, fun heq => ?_,
    hwritten, hsetup, hfunction⟩
  have hsame := hwired.distinct.callbacks (button ⟨1⟩ 1 "save();") (by decide) (by rw [hsave]; rfl)
    (button ⟨2⟩ 2 "store();") (by decide) (by rw [hstore]; rfl) heq
  cases congrArg Node.id hsame

end Generation

end FormWeave
