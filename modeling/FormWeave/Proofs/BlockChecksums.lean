import FormWeave.Proofs.CallRuns
import FormWeave.Proofs.TrackedRuns
import Mathlib.Data.List.DropRight

/-!
# What a writer accounts for

A writer that tags blocks keeps the books of what happens to it: the positions are the lengths of
the files, the checksum is that of the text since the last tag or reset, and so is the one in every
tag line, for the text in front of it. `Writer.Accounts` says so for the events of a run; one more
call keeps it, also if it fails, and also if it is a dry run in which the writer is reset.
-/

namespace FormWeave

/-! ## 1. Events -/

/-- What happens to a writer: a piece is written, or the writer is reset. -/
inductive Event
  | written (chunk : Chunk)
  | reset
  deriving DecidableEq, Repr

namespace Event

def chunk? : Event → Option Chunk
  | written chunk => some chunk
  | reset => none

def closes : Event → Bool
  | written (.tag _) | reset => true
  | written (.source _) | written (.header _) => false

def text : Event → Bytes
  | written chunk => chunk.untagged
  | reset => []

/-- The text of the open block: what was written to the source since the last tag or reset. -/
def openBlock (events : List Event) : Bytes :=
  (events.rtakeWhile fun event => !event.closes).flatMap text

variable {events : List Event} {event : Event}

theorem openBlock_append (h : event.closes = false) :
    openBlock (events ++ [event]) = openBlock events ++ event.text := by
  rw [openBlock, List.rtakeWhile_concat_pos _ _ _ (by rw [h]; rfl), List.flatMap_append,
    List.flatMap_singleton]
  rfl

theorem openBlock_closed (h : event.closes = true) : openBlock (events ++ [event]) = [] := by
  rw [openBlock, List.rtakeWhile_concat_neg _ _ _ (by rw [h]; decide)]
  rfl

theorem chunk?_append : (events ++ [event]).filterMap chunk? =
    events.filterMap chunk? ++ event.chunk?.toList := by
  rw [List.filterMap_append]
  cases event <;> rfl

end Event

def Call.events (call : Call) (w : Writer) : List Event :=
  ((call.run w).2.output.toList.drop w.output.size).map .written ++
    if call.clears then [.reset] else []

namespace Writer

def events (w : Writer) : List Call → List Event
  | [] => []
  | call :: rest => call.events w ++ (call.run w).2.events rest

/-! ## 2. The books -/

/-- The books of a writer that tags blocks are right, for what has happened to it. -/
structure Accounts (w : Writer) (events : List Event) : Prop where
  tagging : w.settings.mergeTags = true
  located : w.Located
  output : w.output.toList = events.filterMap Event.chunk?
  checksum : w.checksum = ({} : Checksum.Running).add (Event.openBlock events)
  /-- Every tag has the checksum of the block in front of it. -/
  tags : ∀ front tag back, events = front ++ .written (.tag tag) :: back →
    tag.checksum = Checksum.ofBlock (Event.openBlock front)

variable {w w' : Writer} {events : List Event}

theorem Accounts.blockChecksum (h : w.Accounts events) :
    w.blockChecksum = Checksum.ofBlock (Event.openBlock events) :=
  congrArg Checksum.Running.value h.checksum

/-- Of one more event there is something to check only if it is a tag. -/
theorem Accounts.tags_append (h : w.Accounts events) {event : Event}
    (htag : ∀ tag, event = .written (.tag tag) →
      tag.checksum = Checksum.ofBlock (Event.openBlock events)) :
    ∀ front tag back, events ++ [event] = front ++ .written (.tag tag) :: back →
      tag.checksum = Checksum.ofBlock (Event.openBlock front) := by
  intro front tag back hsplit
  rcases List.eq_nil_or_concat' back with rfl | ⟨init, last, rfl⟩
  · obtain ⟨rfl, hevent⟩ := List.append_inj' hsplit rfl
    exact htag tag (List.cons.inj hevent).1
  · rw [← List.cons_append, ← List.append_assoc] at hsplit
    exact h.tags front tag init (List.append_inj' hsplit rfl).1

theorem Accounts.putSource (h : w.Accounts events) (bytes : Bytes) :
    (w.putSource bytes).Accounts (events ++ [.written (.source bytes)]) where
  tagging := h.tagging
  located := h.located.putSource bytes
  output := by
    rw [Event.chunk?_append, ← h.output]
    exact Array.toList_push
  checksum := by
    have hput : (w.putSource bytes).checksum = w.checksum.add bytes := if_pos h.tagging
    rw [hput, h.checksum, Event.openBlock_append rfl, Checksum.Running.add_append]
    rfl
  tags := h.tags_append nofun

theorem Accounts.putHeader (h : w.Accounts events) (bytes : Bytes) :
    (w.putHeader bytes).Accounts (events ++ [.written (.header bytes)]) where
  tagging := h.tagging
  located := h.located.putHeader bytes
  output := by
    rw [Event.chunk?_append, ← h.output]
    exact Array.toList_push
  checksum := by
    rw [Event.openBlock_append rfl, Event.text, Chunk.untagged, List.append_nil]
    exact h.checksum
  tags := h.tags_append nofun

theorem Accounts.writeTag_eq (h : w.Accounts events) (hlive : w.dryRun = false) (kind : TagKind)
    (id : NodeId) :
    w.writeTag kind id =
      { w.putTag ⟨kind, id, Checksum.ofBlock (Event.openBlock events)⟩ with checksum := {} } := by
  rw [← h.blockChecksum, writeTag, hlive, h.tagging]
  rfl

/-- A tag closes the block with its checksum. -/
theorem Accounts.writeTag (h : w.Accounts events) (hlive : w.dryRun = false) (kind : TagKind)
    (id : NodeId) :
    (w.writeTag kind id).Accounts
      (events ++ [.written (.tag ⟨kind, id, Checksum.ofBlock (Event.openBlock events)⟩)]) where
  tagging := by
    rw [h.writeTag_eq hlive]
    exact h.tagging
  located := h.located.writeTag hlive kind id
  output := by
    rw [h.writeTag_eq hlive, Event.chunk?_append, ← h.output]
    exact Array.toList_push
  checksum := by
    rw [h.writeTag_eq hlive, Event.openBlock_closed rfl]
    rfl
  tags := h.tags_append fun tag heq => by cases heq; rfl

/-- Nothing counts but the output, the positions, the checksum and whether blocks are tagged. -/
theorem Accounts.same (h : w.Accounts events) (hsettings : w'.settings = w.settings)
    (houtput : w'.output = w.output) (hsource : w'.sourcePosition = w.sourcePosition)
    (hheader : w'.headerPosition = w.headerPosition) (hchecksum : w'.checksum = w.checksum) :
    w'.Accounts events where
  tagging := by rw [hsettings]; exact h.tagging
  located := h.located.same houtput hsource hheader
  output := by rw [houtput]; exact h.output
  checksum := by rw [hchecksum]; exact h.checksum
  tags := h.tags

theorem Accounts.reset (h : w.Accounts events) : w.reset.Accounts (events ++ [.reset]) where
  tagging := h.tagging
  located := h.located.same rfl rfl rfl
  output := by
    rw [Event.chunk?_append]
    exact h.output.trans (List.append_nil _).symm
  checksum := by
    rw [Event.openBlock_closed rfl]
    rfl
  tags := h.tags_append nofun

/-! ## 3. One call, and all of them -/

theorem written_append (events : List Event) (chunks : List Chunk) (chunk : Chunk) :
    events ++ chunks.map .written ++ [.written chunk] =
      events ++ (chunks ++ [chunk]).map .written := by
  rw [List.map_append, List.append_assoc]
  rfl

/-- The books stay right whatever operations write. -/
theorem invariant_accounts (events : List Event) :
    Emit.Invariant fun w => ∃ chunks : List Chunk, w.Accounts (events ++ chunks.map .written) where
  onCourse := by
    rintro w ⟨chunks, h⟩ course
    exact ⟨chunks, h.same rfl rfl rfl rfl rfl⟩
  putSource := by
    rintro w ⟨chunks, h⟩ bytes
    exact ⟨_, written_append events chunks _ ▸ h.putSource bytes⟩
  putHeader := by
    rintro w ⟨chunks, h⟩ bytes
    exact ⟨_, written_append events chunks _ ▸ h.putHeader bytes⟩
  tag := by
    rintro w ⟨chunks, h⟩ hlive kind id
    exact ⟨_, written_append events chunks _ ▸ h.writeTag hlive kind id⟩

/-- The pieces that were written since then are the end of the output. -/
theorem Accounts.drop_output (h : w.Accounts events) {chunks : List Chunk}
    (h' : w'.Accounts (events ++ chunks.map .written)) :
    w'.output.toList.drop w.output.size = chunks := by
  have hchunks : (chunks.map Event.written).filterMap Event.chunk? = chunks := by
    rw [List.filterMap_map]
    exact List.filterMap_some
  rw [h'.output, List.filterMap_append, hchunks, ← h.output, ← Array.length_toList]
  exact List.drop_left

/-- A call in which nothing is written leaves the books right. -/
theorem Accounts.resetIf (h : w.Accounts events) (cleared : Bool) :
    (w.resetIf cleared).Accounts (events ++ if cleared then [.reset] else []) := by
  cases cleared with
  | false => exact (List.append_nil events).symm ▸ h
  | true => exact h.reset

/-- The books stay right in one more call. -/
theorem Accounts.run (h : w.Accounts events) (call : Call) :
    (call.run w).2.Accounts (events ++ call.events w) := by
  rw [Call.events]
  cases hoperation : call.isOperation with
  | true =>
    have hwritten : ∃ chunks : List Chunk, w.Accounts (events ++ chunks.map .written) :=
      ⟨[], (List.append_nil events).symm ▸ h⟩
    obtain ⟨chunks, hcall⟩ :=
      (Call.composed_run hoperation).keeps (invariant_accounts events) hwritten
    rw [h.drop_output hcall, Call.clears_operation hoperation, if_neg Bool.false_ne_true,
      List.append_nil]
    exact hcall
  | false =>
    -- Other calls write nothing, but they may reset the writer.
    have hquiet : (w.resetIf call.clears).Untouched (call.run w).2 := by
      cases call with
      | fail | flags | reset => exact .refl _
      | dryRun calls => exact Call.untouched_dryRun calls w
      | _ => cases hoperation
    have houtput : (call.run w).2.output = w.output := by
      rw [hquiet.output]
      cases call.clears <;> rfl
    rw [houtput, ← Array.length_toList, List.drop_length]
    exact (h.resetIf call.clears).same hquiet.settings hquiet.output hquiet.sourcePosition
      hquiet.headerPosition hquiet.checksum

/-- The books stay right in any calls. -/
theorem Accounts.after (calls : List Call) :
    ∀ {w : Writer} {events : List Event}, w.Accounts events →
      (w.after calls).Accounts (events ++ w.events calls) := by
  induction calls with
  | nil => exact fun h => (List.append_nil _).symm ▸ h
  | cons call rest ih =>
    intro w events h
    have hrest := ih (h.run call)
    rwa [List.append_assoc] at hrest

theorem dryRun_after (calls : List Call) : ∀ w : Writer, (w.after calls).dryRun = w.dryRun := by
  induction calls with
  | nil => exact fun _ => rfl
  | cons call rest ih => exact fun w => (ih (call.run w).2).trans (call.dryRun_run w)

/-- In any run of calls of a new writer that tags blocks, the positions are the lengths of the source
and the header, and the checksum is that of the open block: the text that was written to the source
since the last tag or reset. Every tag that was written has the checksum of the block that was open
in front of it, and the next tag will have that of the block that is open now. -/
theorem accounts_after (settings : Settings) (preview : Bool) (calls : List Call)
    (h : settings.mergeTags = true) :
    let start : Writer := { settings, preview }
    let w := start.after calls
    let events := start.events calls
    w.output.toList = events.filterMap Event.chunk? ∧
      w.sourcePosition = w.source.length ∧ w.headerPosition = w.header.length ∧
      w.blockChecksum = Checksum.ofBlock (Event.openBlock events) ∧
      (∀ front tag back, events = front ++ .written (.tag tag) :: back →
        tag.checksum = Checksum.ofBlock (Event.openBlock front)) ∧
      ∀ kind id, ((Call.tag kind id).run w).2.source =
        w.source ++ Tag.line ⟨kind, id, Checksum.ofBlock (Event.openBlock events)⟩ := by
  intro start w events
  have hstart : start.Accounts [] :=
    { tagging := h, located := ⟨rfl, rfl⟩, output := rfl, checksum := rfl, tags := by simp }
  have hw : w.Accounts events := hstart.after calls
  have hlive : w.dryRun = false := start.dryRun_after calls
  refine ⟨hw.output, hw.located.source, hw.located.header, hw.blockChecksum, hw.tags,
    fun kind id => ?_⟩
  show (w.writeTag kind id).source = _
  rw [hw.writeTag_eq hlive, source, source]
  simp [putTag, Chunk.sourceBytes]

/-- A reset in a dry run ends the open block in the middle of a line, though the dry run fails; the
tag in front of it in the dry run does not. -/
theorem accounts_after_reset :
    let calls : List Call :=
      [.source "f();\n", .tag .code ⟨1⟩, .source "  g(",
        .dryRun [.tag .code ⟨2⟩, .reset, .fail], .header "void g(int);\n", .source "  x);\n", .fail]
    let start : Writer := { settings := { mergeTags := true } }
    let w := start.after calls
    let events := start.events calls
    start.settings.mergeTags = true ∧ Event.openBlock events = utf8 "  x);\n" ∧
      w.output.toList = events.filterMap Event.chunk? ∧
      w.sourcePosition = w.source.length ∧ w.headerPosition = w.header.length ∧
      w.blockChecksum = Checksum.ofBlock (utf8 "  x);\n") ∧
      (∀ front tag back, events = front ++ .written (.tag tag) :: back →
        tag.checksum = Checksum.ofBlock (Event.openBlock front)) ∧
      ∀ kind id, ((Call.tag kind id).run w).2.source =
        w.source ++ Tag.line ⟨kind, id, Checksum.ofBlock (utf8 "  x);\n")⟩ := by
  intro calls start w events
  have hopen : Event.openBlock events = utf8 "  x);\n" := by decide +kernel
  obtain ⟨houtput, hsource, hheader, hchecksum, htags, hnext⟩ :=
    accounts_after start.settings start.preview calls rfl
  rw [← hopen]
  exact ⟨rfl, rfl, houtput, hsource, hheader, hchecksum, htags, hnext⟩

end Writer

end FormWeave
