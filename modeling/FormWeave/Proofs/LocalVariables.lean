import FormWeave.Proofs.NodeSpans
import FormWeave.Proofs.TrackedRuns

/-!
# The local variable of a widget

The statements that set up a widget are tried before its construction is written: only if they use
the local `o` is it declared. They are written later, at another indentation and with identifiers
that were given out before. `Emit.Uses` says of code that it writes to the source in any case or in
none, and that this is what a dry run finds out.
-/

namespace FormWeave

/-! ## 1. What a dry run finds out -/

namespace Writer

variable {w w' w'' : Writer} {used used' : Bool}

/-- `w'` goes on from `w` in the same mode. If the code between them is `used`, a dry run has noted
it, and otherwise a byte was written to the source. -/
structure Used (used : Bool) (w w' : Writer) : Prop where
  dryRun : w'.dryRun = w.dryRun
  noted : w.dryRun = true → w'.sourceUsed = (w.sourceUsed || used)
  written : w.dryRun = false → ∃ bytes, w'.source = w.source ++ bytes ∧ (used = true ↔ bytes ≠ [])

theorem Used.trans (h : Used used w w') (h' : Used used' w' w'') : Used (used || used') w w'' where
  dryRun := h'.dryRun.trans h.dryRun
  noted hdry := by rw [h'.noted (h.dryRun.trans hdry), h.noted hdry, Bool.or_assoc]
  written hlive := by
    obtain ⟨front, hfront, hused⟩ := h.written hlive
    obtain ⟨back, hback, hused'⟩ := h'.written (h.dryRun.trans hlive)
    refine ⟨front ++ back, by rw [hback, hfront, List.append_assoc], ?_⟩
    rw [Bool.or_eq_true, hused, hused', ne_eq, ne_eq, ne_eq, List.append_eq_nil_iff, not_and_or]

/-- What has nothing to do with the source. -/
theorem used_same (hdry : w'.dryRun = w.dryRun) (hused : w'.sourceUsed = w.sourceUsed)
    (houtput : w'.output = w.output) : Used false w w' where
  dryRun := hdry
  noted _ := by rw [hused, Bool.or_false]
  written _ := ⟨[], by rw [source, houtput, List.append_nil]; rfl, by simp⟩

/-- What puts some bytes to the source, unless it is a dry run. -/
theorem used_unlessDry {write : Writer → Writer} {bytes : Bytes} (h : write w = w.putSource bytes)
    (hbytes : bytes ≠ []) : Used true w (w.unlessDry write) := by
  cases hdry : w.dryRun with
  | true =>
    rw [unlessDry, hdry, if_pos rfl]
    exact ⟨rfl, fun _ => (Bool.or_true _).symm, fun hlive =>
      absurd (hlive.symm.trans hdry) Bool.false_ne_true⟩
  | false =>
    rw [unlessDry, hdry, if_neg Bool.false_ne_true, h]
    refine ⟨rfl, fun hdry' => absurd (hdry.symm.trans hdry') Bool.false_ne_true, fun _ =>
      ⟨bytes, ?_, by simpa⟩⟩
    rw [(w.kept_putSource bytes).toWrote.source, List.flatMap_singleton]
    rfl

end Writer

namespace Emit

variable {α β : Type} {used used' : Bool} {emit : Emit α} {next : α → Emit β}

/-- Code that does not fail and writes to the source if it is `used`, as a dry run finds out. -/
def Uses (used : Bool) (emit : Emit α) : Prop :=
  ∀ w, ∃ a w', emit w = (.ok a, w') ∧ Writer.Used used w w'

theorem Uses.pure (a : α) : (pure a : Emit α).Uses false :=
  fun w => ⟨a, w, rfl, Writer.used_same rfl rfl rfl⟩

theorem Uses.bind (h : emit.Uses used) (hnext : ∀ a, (next a).Uses used') :
    (emit >>= next).Uses (used || used') := by
  intro w
  obtain ⟨a, w', hrun, hw⟩ := h w
  obtain ⟨b, w'', hrun', hw'⟩ := hnext a w'
  exact ⟨b, w'', (bind_run hrun).trans hrun', hw.trans hw'⟩

/-- The rule for a first part that does not write. -/
theorem Uses.skip (h : emit.Uses false) (hnext : ∀ a, (next a).Uses used) :
    (emit >>= next).Uses used := h.bind hnext

/-- The rule for parts that both write. -/
theorem Uses.then (h : emit.Uses true) (hnext : ∀ a, (next a).Uses true) :
    (emit >>= next).Uses true := h.bind hnext

theorem Uses.forSome {emit : α → Emit Unit} (h : ∀ a, (emit a).Uses true) (value? : Option α) :
    (forSome value? emit).Uses value?.isSome := by
  cases value? with
  | none => exact .pure ()
  | some a => exact h a

/-- A dry run of code finds out whether it is used. -/
theorem Uses.writesSource {emit : Emit Unit} (h : emit.Uses used) (w : Writer) :
    (writesSource emit w).1 = .ok used := by
  obtain ⟨a, w', hrun, hw⟩ := h (inDryRun w)
  have hdry : dryRun emit w = (.ok (a, w'.sourceUsed), behindDryRun w w') := by
    rw [dryRun_apply, hrun]
    rfl
  rw [Emit.writesSource, map_eq_pure_bind, bind_run hdry, hw.noted rfl]
  rfl

theorem uses_indent : indent.Uses false := fun w => ⟨_, w, rfl, Writer.used_same rfl rfl rfl⟩

theorem uses_configured (f : Writer → α) : (ask f).Uses false :=
  fun w => ⟨_, w, rfl, Writer.used_same rfl rfl rfl⟩

theorem uses_uniqueId (owner : ObjectId) (word : String) (name label : Option String) :
    (uniqueId owner word name label).Uses false :=
  fun _ => ⟨_, _, rfl, Writer.used_same rfl rfl rfl⟩

theorem utf8_append_ne_nil (front : String) {back : String} (h : utf8 back ≠ []) :
    utf8 (front ++ back) ≠ [] := by
  rw [utf8_append]
  exact List.append_ne_nil_of_right_ne_nil _ h

theorem uses_source {text : String} (h : utf8 text ≠ []) : (source text).Uses true :=
  fun _ => ⟨(), _, rfl, Writer.used_unlessDry rfl h⟩

/-- The rule for a text with a known end. -/
theorem uses_append (front : String) {back : String} (h : utf8 back ≠ []) :
    (source (front ++ back)).Uses true := uses_source (utf8_append_ne_nil front h)

/-- A literal has its quotation marks at least, and so has a placeholder. -/
theorem uses_string (text : String) : (string text).Uses true := by
  intro w
  refine ⟨(), w.writeQuoted (some (utf8 text)), rfl, ?_⟩
  have hliteral : Literal.quoted (utf8 text) w.settings.utf8Source ≠ [] := by
    rw [Literal.quoted, List.reverse_cons]
    exact List.concat_ne_nil _ _
  rw [Writer.writeQuoted, Writer.writeLiteral]
  by_cases hlong : (w.preview && (utf8 text).length > Writer.previewLimit) = true
  · exact Writer.used_unlessDry (if_pos hlong) (utf8_append_ne_nil _ (by decide))
  · exact Writer.used_unlessDry (if_neg hlong) hliteral

end Emit

/-- Texts without a tag between them. -/
theorem sourceBytes_of_spans {chunks : List Chunk} :
    ∀ {texts : List Bytes}, spans chunks = texts.map .text →
      chunks.flatMap Chunk.sourceBytes = texts.flatten := by
  induction chunks with
  | nil =>
    intro texts h
    rw [List.map_eq_nil_iff.1 h.symm]
    rfl
  | cons chunk rest ih =>
    intro texts h
    cases chunk with
    | header bytes => exact ih h
    | source bytes =>
      cases texts with
      | nil => cases h
      | cons text texts =>
        obtain ⟨hfirst, hrest⟩ := List.cons.inj h
        cases hfirst
        rw [List.flatMap_cons, List.flatten_cons, ih hrest]
        rfl
    | tag tag =>
      cases texts with
      | nil => cases h
      | cons text texts => cases (List.cons.inj h).1

namespace Node

open Emit

variable {node : Node} {className : String} {name label tooltip callback image : Option String}
  {x y width height : Int}

/-! ## 2. The setup statements -/

theorem uses_writeLabel (text : String) (number : Nat) : (writeLabel text number).Uses true := by
  refine (uses_configured _).skip fun translation => ?_
  cases translation.mode with
  | none => exact uses_string text
  | gnu | posix =>
    refine (uses_append _ (by decide)).then fun _ => ?_
    exact (uses_string text).then fun _ => uses_source (by decide)

theorem uses_callbackExpression (callback : String) :
    (callbackExpression node callback).Uses false := by
  unfold callbackExpression
  split
  · exact .pure callback
  · rw [callbackName_eq]
    exact uses_uniqueId _ _ _ _

theorem uses_writeSetters
    (hbody : node.body = .widget className name label tooltip callback image x y width height) :
    (writeSetters node).Uses (tooltip.isSome || (node.shown?.isSome || node.callback?.isSome)) := by
  unfold writeSetters
  rw [hbody]
  dsimp only
  rw [forSome_shown hbody]
  refine (Uses.forSome (fun text => ?_) _).bind fun _ => ?_
  · refine uses_indent.skip fun indent => (uses_append _ (by decide)).then fun _ => ?_
    exact (uses_writeLabel _ _).then fun _ => uses_source (by decide)
  refine (Uses.forSome (fun shown => ?_) _).bind fun _ => .forSome (fun callback => ?_) _
  · exact (uses_uniqueId _ _ _ _).skip fun array => uses_indent.skip fun indent =>
      uses_append _ (by decide)
  · exact (uses_callbackExpression _).skip fun expression => uses_indent.skip fun indent =>
      uses_append _ (by decide)

/-! ## 3. The construction -/

/-- The local is used by children or by setup statements. -/
theorem usesLocal_answer
    (hbody : node.body = .widget className name label tooltip callback image x y width height)
    (w : Writer) :
    (usesLocal node w).1 = .ok (node.hasChildren ||
      (tooltip.isSome || (node.shown?.isSome || node.callback?.isSome))) := by
  unfold usesLocal
  cases node.hasChildren with
  | true => rfl
  | false => exact (uses_writeSetters hbody).writesSource w

/-- The bytes of a label, or of the null pointer in its place, stand in one or more texts. -/
theorem exists_label_texts (context : Context) (label : Option String) (number : Nat) :
    ∃ texts : List Bytes,
      label.elim (spell "0") (translated context · number) = texts.map .text := by
  cases label with
  | none => exact ⟨[utf8 "0"], rfl⟩
  | some text =>
    have hquoted : ∃ bytes, context.quoted text = [.text bytes] := by
      unfold Context.quoted Context.literal
      split
      · exact ⟨_, rfl⟩
      · exact ⟨_, rfl⟩
    obtain ⟨bytes, hbytes⟩ := hquoted
    rw [Option.elim_some, translated, hbytes]
    dsimp only
    cases context.settings.translation.mode with
    | none => exact ⟨[bytes], rfl⟩
    | gnu | posix => exact ⟨[_, bytes, utf8 ")"], rfl⟩

/-- The construction declares the local if children or setup statements use it. -/
theorem source_writeConstruction
    (hbody : node.body = .widget className name label tooltip callback image x y width height)
    {w : Writer} (hlive : w.dryRun = false) :
    ∃ before labelBytes, writeConstruction node w = (.ok (), before) ∧ before.dryRun = false ∧
      before.source = w.source ++ utf8 (w.indent ++ "\x7b " ++
          (if node.hasChildren || (tooltip.isSome || (node.shown?.isSome || node.callback?.isSome))
            then className ++ "* o = " else "") ++
          name.elim "" (· ++ " = ") ++ "new " ++ className ++ "(" ++
          toString x ++ ", " ++ toString y ++ ", " ++ toString width ++ ", " ++
          toString height ++ ", ") ++ labelBytes ++ utf8 ");\n" := by
  let context : Context := ⟨w.settings, w.preview, w.indentation⟩
  have hw : w.In context := ⟨rfl, rfl, rfl, hlive⟩
  have hindent : context.indent = w.indent := rfl
  obtain ⟨declared, tried, hanswer, before, chunks, hrun, hwrote, htext⟩ :=
    spells_writeConstruction hbody hw
  cases (usesLocal_answer hbody tried).symm.trans hanswer
  obtain ⟨texts, htexts⟩ := exists_label_texts context label node.labelNumber
  refine ⟨before, texts.flatten, hrun, hwrote.dryRun.trans hlive, ?_⟩
  -- Three texts stand in front of the label, and one behind it.
  have hspans := htext _ (.refl _)
  rw [constructionSpans, hbody] at hspans
  dsimp only at hspans
  rw [htexts] at hspans
  have hbytes := sourceBytes_of_spans
    (hspans.trans (@List.map_append _ _ Span.text (_ :: _ :: _ :: texts) [_]).symm)
  rw [hwrote.source, hbytes, hindent]
  simp only [utf8_append, List.cons_append, List.flatten_cons, List.flatten_append,
    List.flatten_nil, List.append_nil, List.append_assoc]

/-! ## 4. The local variable -/

/-- The local `o` of a widget is declared exactly if the widget has children or its setup statements
write something, which is what a dry run of the statements says in whatever writer it is made. -/
theorem local_declared
    (hbody : node.body = .widget className name label tooltip callback image x y width height)
    {w : Writer} (hlive : w.dryRun = false) :
    ∃ used before after setters labelBytes,
      (∀ tried, (writesSource (writeSetters node) tried).1 = .ok used) ∧
      writeConstruction node w = (.ok (), before) ∧
      writeSetters node before = (.ok (), after) ∧
      writeWidgetOpening node w = (.ok (), after) ∧
      after.source = before.source ++ setters ∧
      (used = true ↔ setters ≠ []) ∧
      before.source = w.source ++ utf8 (w.indent ++ "\x7b " ++
          (if node.hasChildren || used then className ++ "* o = " else "") ++
          name.elim "" (· ++ " = ") ++ "new " ++ className ++ "(" ++
          toString x ++ ", " ++ toString y ++ ", " ++ toString width ++ ", " ++
          toString height ++ ", ") ++ labelBytes ++ utf8 ");\n" := by
  have hsetters := uses_writeSetters hbody
  obtain ⟨before, labelBytes, hconstruction, hbefore, hsource⟩ :=
    source_writeConstruction hbody hlive
  obtain ⟨_, after, hrun, hused⟩ := hsetters before
  obtain ⟨setters, hafter, hiff⟩ := hused.written hbefore
  have hopening : writeWidgetOpening node w = (.ok (), after) := by
    rw [writeWidgetOpening_eq, bind_run hconstruction, hrun]
  exact ⟨_, before, after, setters, labelBytes, hsetters.writesSource, hconstruction, hrun,
    hopening, hafter, hiff, hsource⟩

def box (tooltip callback image : Option String) : Node where
  id := ⟨1⟩
  depth := 0
  scope := .file
  hasChildren := false
  hasChildWidgets := false
  body := .widget "Fl_Box" (some "box") none tooltip callback image 1 2 30 40
  resource := none
  labelNumber := 0
  tooltipNumber := 0

/-- Of the first box nothing is left to set up: there is no image of that name, and the callback is
blank. The second one has a tooltip. -/
theorem local_declared_boxes :
    let w : Writer := { settings := {} }
    let blank := box none (some " ") (some "a.png")
    let named := box (some "Press") none none
    w.dryRun = false ∧
      blank.body = .widget "Fl_Box" (some "box") none none (some " ") (some "a.png") 1 2 30 40 ∧
      named.body = .widget "Fl_Box" (some "box") none (some "Press") none none 1 2 30 40 ∧
      (∃ before after labelBytes,
        writeConstruction blank w = (.ok (), before) ∧
        writeWidgetOpening blank w = (.ok (), after) ∧
        after.source = before.source ∧
        after.source =
          utf8 "\x7b box = new Fl_Box(1, 2, 30, 40, " ++ labelBytes ++ utf8 ");\n") ∧
      ∃ before after setters labelBytes,
        writeConstruction named w = (.ok (), before) ∧
        writeSetters named before = (.ok (), after) ∧
        writeWidgetOpening named w = (.ok (), after) ∧
        after.source = before.source ++ setters ∧ setters ≠ [] ∧
        before.source =
          utf8 "\x7b Fl_Box* o = box = new Fl_Box(1, 2, 30, 40, " ++ labelBytes ++
            utf8 ");\n" := by
  intro w blank named
  have hlive : w.dryRun = false := rfl
  have hblank : blank.body =
      .widget "Fl_Box" (some "box") none none (some " ") (some "a.png") 1 2 30 40 := rfl
  have hnamed : named.body =
      .widget "Fl_Box" (some "box") none (some "Press") none none 1 2 30 40 := rfl
  have hempty : w.source = [] := rfl
  refine ⟨hlive, hblank, hnamed, ?_, ?_⟩
  · obtain ⟨used, before, after, setters, labelBytes, htried, hconstruction, -, hopening, hafter,
      hiff, hbefore⟩ := local_declared hblank hlive
    have hnone : (writesSource (writeSetters blank) w).1 = .ok false := by decide +kernel
    cases hnone.symm.trans (htried w)
    have hsetters : setters = [] := by simpa using hiff
    rw [hsetters, List.append_nil] at hafter
    refine ⟨before, after, labelBytes, hconstruction, hopening, hafter, ?_⟩
    rw [hafter, hbefore, hempty, List.nil_append]
    refine congrArg (· ++ labelBytes ++ utf8 ");\n") ?_
    decide +kernel
  · obtain ⟨used, before, after, setters, labelBytes, htried, hconstruction, hrun, hopening,
      hafter, hiff, hbefore⟩ := local_declared hnamed hlive
    have hsome : (writesSource (writeSetters named) w).1 = .ok true := by decide +kernel
    cases hsome.symm.trans (htried w)
    refine ⟨before, after, setters, labelBytes, hconstruction, hrun, hopening, hafter, hiff.1 rfl,
      ?_⟩
    rw [hbefore, hempty, List.nil_append]
    refine congrArg (· ++ labelBytes ++ utf8 ");\n") ?_
    decide +kernel

end Node

end FormWeave
