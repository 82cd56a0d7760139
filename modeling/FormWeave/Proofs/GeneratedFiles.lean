import FormWeave.Proofs.Composition
import FormWeave.Proofs.OpenedOutputs

/-!
# Generated files

The bytes of an output reach its file in blocks, each behind the one before, so two files hold at the
end exactly what a run wrote to its two outputs. That is what the same run gives in memory, provided
that it goes by the same names: a file is included by its name alone, without the directories in
front of it.
-/

namespace FormWeave

/-! ## 1. Blocks -/

/-- The blocks of an output, each put behind the one before from a position on, hold given bytes. -/
inductive Block.Carries (scope : Scope) : Nat → List Block → Bytes → Prop
  | done (start : Nat) : Carries scope start [] []
  | skip {start : Nat} {block : Block} {rest : List Block} {bytes : Bytes}
      (other : block.scope ≠ scope) (behind : Carries scope start rest bytes) :
      Carries scope start (block :: rest) bytes
  | take {start : Nat} {rest : List Block} {others : Bytes} (bytes : Bytes)
      (behind : Carries scope (start + bytes.length) rest others) :
      Carries scope start ({ scope, position := start, bytes } :: rest) (bytes ++ others)

namespace Block

variable {scope : Scope} {start : Nat} {blocks more : List Block} {bytes others : Bytes}

theorem Carries.single (start : Nat) (bytes : Bytes) :
    Carries scope start [{ scope, position := start, bytes }] bytes := by
  have h : Carries scope start [{ scope, position := start, bytes }] (bytes ++ []) :=
    .take bytes (.done _)
  rwa [List.append_nil] at h

theorem Carries.append (h : Carries scope start blocks bytes)
    (h' : Carries scope (start + bytes.length) more others) :
    Carries scope start (blocks ++ more) (bytes ++ others) := by
  induction h with
  | done start => exact h'
  | skip other _ ih => exact .skip other (ih h')
  | take first _ ih =>
    rw [List.length_append, ← Nat.add_assoc] at h'
    rw [List.append_assoc]
    exact .take first (ih h')

/-- Blocks of the other output carry nothing. -/
theorem Carries.append_other (h : ∀ block ∈ blocks, block.scope ≠ scope)
    (h' : Carries scope start more others) : Carries scope start (blocks ++ more) others := by
  induction blocks with
  | nil => exact h'
  | cons block rest ih =>
    exact .skip (h block List.mem_cons_self) (ih fun b hb => h b (List.mem_cons_of_mem _ hb))

theorem Carries.of_take {block : Block} (h : Carries scope start (block :: blocks) bytes)
    (hscope : block.scope = scope) : block.position = start ∧
      ∃ others, bytes = block.bytes ++ others ∧
        Carries scope (start + block.bytes.length) blocks others := by
  cases h with
  | skip other _ => exact absurd hscope other
  | take _ behind => exact ⟨rfl, _, rfl, behind⟩

theorem Carries.of_skip {block : Block} (h : Carries scope start (block :: blocks) bytes)
    (hscope : block.scope ≠ scope) : Carries scope start blocks bytes := by
  cases h with
  | skip _ behind => exact behind
  | take _ _ => exact absurd rfl hscope

/-- Blocks that are made one carry what they carried apart. -/
theorem Carries.joined (h : Carries scope start blocks bytes) :
    Carries scope start (joined blocks) bytes := by
  induction blocks generalizing start bytes with
  | nil => exact h
  | cons block rest ih =>
    rw [Block.joined]
    -- The block may be joined to the first one behind it, which is then of the same output.
    by_cases hscope : block.scope = scope
    · obtain ⟨rfl, others, rfl, hrest⟩ := h.of_take hscope
      have hjoined := ih hrest
      obtain rfl := hscope
      split
      · next hnone =>
        rw [hnone] at hjoined
        exact .take _ hjoined
      · next next more hmore =>
        rw [hmore] at hjoined
        split
        · next hbehind =>
          obtain ⟨-, rest', rfl, hmore'⟩ := hjoined.of_take hbehind.1
          rw [← List.append_assoc]
          refine .take _ ?_
          rw [List.length_append, ← Nat.add_assoc]
          exact hmore'
        · exact .take _ hjoined
    · have hjoined := ih (h.of_skip hscope)
      split
      · next hnone =>
        rw [hnone] at hjoined
        exact .skip hscope hjoined
      · next next more hmore =>
        rw [hmore] at hjoined
        split
        · next hbehind =>
          exact .skip hscope (hjoined.of_skip (hbehind.1 ▸ hscope))
        · exact .skip hscope hjoined

end Block

namespace Buffer

open Block (Carries)

variable {scope : Scope}

theorem rest_scope (b : Buffer) : ∀ block ∈ b.rest scope, block.scope = scope := by
  rw [rest]
  split <;> simp

theorem carries_rest (b : Buffer) :
    Carries scope b.position (b.rest scope) b.pending.toList := by
  rw [rest]
  split
  · next hempty =>
    rw [Array.isEmpty_iff.1 hempty]
    exact .done _
  · exact Carries.single _ _

/-- What becomes of a buffer: the bytes are collected, or they come into an empty buffer, or they are
passed on at once. -/
theorem put_cases (b : Buffer) (scope : Scope) (bytes : Bytes) :
    ((b.put scope bytes).2 = [] ∧
      (b.put scope bytes).1.pending.toList = b.pending.toList ++ bytes ∧
      (b.put scope bytes).1.position = b.position) ∨
    ((b.put scope bytes).2 = b.rest scope ∧ (b.put scope bytes).1.pending.toList = bytes ∧
      (b.put scope bytes).1.position = b.position + b.pending.toList.length) ∨
    ((b.put scope bytes).2 = b.rest scope ++
        [{ scope, position := b.position + b.pending.toList.length, bytes }] ∧
      (b.put scope bytes).1.pending.toList = [] ∧
      (b.put scope bytes).1.position = b.position + b.pending.toList.length + bytes.length) := by
  unfold put
  split
  · next hempty => exact .inl ⟨rfl, by simp [List.isEmpty_iff.1 hempty], rfl⟩
  split
  · split
    · exact .inl ⟨rfl, by simp, rfl⟩
    · exact .inr (.inl ⟨rfl, rfl, rfl⟩)
  · exact .inr (.inr ⟨rfl, rfl, rfl⟩)

theorem put_scope (b : Buffer) (bytes : Bytes) :
    ∀ block ∈ (b.put scope bytes).2, block.scope = scope := by
  rcases b.put_cases scope bytes with ⟨hpassed, -⟩ | ⟨hpassed, -⟩ | ⟨hpassed, -⟩
  · simp [hpassed]
  · rw [hpassed]
    exact b.rest_scope
  · rw [hpassed]
    rintro block hblock
    rcases List.mem_append.1 hblock with hblock | hblock
    · exact b.rest_scope block hblock
    · rw [List.mem_singleton.1 hblock]

/-- What is passed on and what stays collected is what was collected, and the bytes behind it. -/
theorem put_carries (b : Buffer) (scope : Scope) (bytes : Bytes) :
    ∃ passed, Carries scope b.position (b.put scope bytes).2 passed ∧
      (b.put scope bytes).1.position = b.position + passed.length ∧
      passed ++ (b.put scope bytes).1.pending.toList = b.pending.toList ++ bytes := by
  rcases b.put_cases scope bytes with
    ⟨hpassed, hpending, hposition⟩ | ⟨hpassed, hpending, hposition⟩ | ⟨hpassed, hpending, hposition⟩
  · refine ⟨[], ?_, hposition, hpending⟩
    rw [hpassed]
    exact .done _
  · refine ⟨b.pending.toList, ?_, hposition, by rw [hpending]⟩
    rw [hpassed]
    exact b.carries_rest
  · refine ⟨b.pending.toList ++ bytes, ?_, ?_, by rw [hpending, List.append_nil]⟩
    · rw [hpassed]
      exact b.carries_rest.append (.single _ _)
    · rw [hposition, List.length_append, Nat.add_assoc]

end Buffer

namespace Block

/-- All that goes to the source is passed on in order. -/
theorem carries_source (chunks : List Chunk) : ∀ source header : Buffer,
    Carries .source source.position (ofChunks source header chunks)
      (source.pending.toList ++ chunks.flatMap Chunk.sourceBytes) := by
  induction chunks with
  | nil =>
    intro source header
    rw [List.flatMap_nil]
    refine source.carries_rest.append ?_
    rw [← List.append_nil (header.rest .header)]
    refine Carries.append_other (fun block hblock => ?_) (.done _)
    rw [header.rest_scope block hblock]
    exact nofun
  | cons chunk rest ih =>
    intro source header
    obtain ⟨passed, hpassed, hposition, hbytes⟩ := source.put_carries .source chunk.sourceBytes
    have hrest := ih (source.put .source chunk.sourceBytes).1
      (header.put .header chunk.headerBytes).1
    rw [hposition] at hrest
    rw [List.flatMap_cons, ← List.append_assoc, ← hbytes, List.append_assoc]
    rw [ofChunks]
    dsimp only
    rw [List.append_assoc]
    refine hpassed.append (Carries.append_other (fun block hblock => ?_) hrest)
    rw [header.put_scope _ block hblock]
    exact nofun

/-- All that goes to the header is passed on in order. -/
theorem carries_header (chunks : List Chunk) : ∀ source header : Buffer,
    Carries .header header.position (ofChunks source header chunks)
      (header.pending.toList ++ chunks.flatMap Chunk.headerBytes) := by
  induction chunks with
  | nil =>
    intro source header
    rw [List.flatMap_nil, List.append_nil]
    refine Carries.append_other (fun block hblock => ?_) header.carries_rest
    rw [source.rest_scope block hblock]
    exact nofun
  | cons chunk rest ih =>
    intro source header
    obtain ⟨passed, hpassed, hposition, hbytes⟩ := header.put_carries .header chunk.headerBytes
    have hrest := ih (source.put .source chunk.sourceBytes).1
      (header.put .header chunk.headerBytes).1
    rw [hposition] at hrest
    rw [List.flatMap_cons, ← List.append_assoc, ← hbytes, List.append_assoc]
    rw [ofChunks]
    dsimp only
    rw [List.append_assoc]
    refine Carries.append_other (fun block hblock => ?_) (hpassed.append hrest)
    rw [source.put_scope _ block hblock]
    exact nofun

end Block

/-! ## 2. Delivering -/

namespace Project

variable {target : Scope → Option String} {path : Scope → String} {place : Scope → Place}
  {content final : Scope → Bytes} {files : FileSystem} {w : World}

/-- Two outputs that go to files, and what these hold. -/
structure Holding (path : Scope → String) (place : Scope → Place) (content : Scope → Bytes)
    (files : FileSystem) : Prop where
  slot : ∀ scope, files.Slot (path scope) (place scope)
  holds : ∀ scope, files.at? (place scope) = some (.file (content scope))

def bothPlaces (place : Scope → Place) : List Place := [place .source, place .header]

theorem mem_bothPlaces (place : Scope → Place) (scope : Scope) :
    place scope ∈ bothPlaces place := by
  cases scope <;> simp [bothPlaces]

/-- Blocks that put the missing bytes behind what outputs hold. -/
def Complete (blocks : List Block) (content final : Scope → Bytes) : Prop :=
  ∀ scope, ∃ bytes, Block.Carries scope (content scope).length blocks bytes ∧
    final scope = content scope ++ bytes

def extend (content : Scope → Bytes) (scope : Scope) (bytes : Bytes) (other : Scope) : Bytes :=
  if other = scope then content other ++ bytes else content other

theorem Holding.extend (h : Holding path place content files)
    (hapart : Function.Injective place) (scope : Scope) (bytes : Bytes) :
    Holding path place (extend content scope bytes)
        (files.put (place scope) (.file (content scope ++ bytes))) ∧
      FileSystem.SameBut (bothPlaces place) files
        (files.put (place scope) (.file (content scope ++ bytes))) := by
  have hfree := (h.slot scope).free
  have hsame := FileSystem.sameBut_put hfree (content scope ++ bytes)
  refine ⟨⟨fun other => hsame.slot.2 (h.slot other), fun other => ?_⟩,
    hsame.mono (by simp [mem_bothPlaces])⟩
  rw [FileSystem.at?_put hfree, Project.extend]
  by_cases hother : other = scope
  · rw [hother, if_pos rfl, if_pos rfl]
  · rw [if_neg fun heq => hother (hapart heq), if_neg hother, h.holds other]

/-- The first block goes behind what its output holds, and the others do the rest. -/
theorem Complete.cons {block : Block} {rest : List Block}
    (h : Complete (block :: rest) content final) :
    block.position = (content block.scope).length ∧
      Complete rest (extend content block.scope block.bytes) final := by
  constructor
  · obtain ⟨bytes, hbytes, -⟩ := h block.scope
    exact (hbytes.of_take rfl).1
  · intro scope
    obtain ⟨bytes, hbytes, hfinal⟩ := h scope
    rw [Project.extend]
    by_cases hscope : block.scope = scope
    · obtain ⟨-, others, rfl, hrest⟩ := hbytes.of_take hscope
      rw [if_pos hscope.symm, List.length_append]
      exact ⟨others, hrest, by rw [hfinal, List.append_assoc]⟩
    · rw [if_neg (Ne.symm hscope)]
      exact ⟨bytes, hbytes.of_skip hscope, hfinal⟩

theorem Complete.nil (h : Complete [] content final) : final = content := by
  funext scope
  obtain ⟨bytes, hbytes, hfinal⟩ := h scope
  cases hbytes
  rw [hfinal, List.append_nil]

/-- Passing on blocks that follow each other writes them behind what the files hold. -/
theorem passOn_run (htarget : ∀ scope, target scope = some (path scope))
    (hapart : Function.Injective place) {blocks : List Block} :
    ∀ {content : Scope → Bytes} {w : World}, Holding path place content w.files →
      Complete blocks content final → ∃ files,
        passOn (m := StateM World) target blocks w =
            (([] : List (Scope × FileFault)), ({ w with files } : World)) ∧
          Holding path place final files ∧
          FileSystem.SameBut (bothPlaces place) w.files files := by
  induction blocks with
  | nil =>
    intro content w hholding hcomplete
    rw [hcomplete.nil]
    exact ⟨w.files, rfl, hholding, .refl _ _⟩
  | cons block rest ih =>
    intro content w hholding hcomplete
    obtain ⟨hposition, hrest⟩ := hcomplete.cons
    have hwrite := World.overwrite_run (hholding.slot block.scope) (hholding.holds block.scope)
      block.position block.bytes
    rw [hposition, Bytes.splice_end] at hwrite
    obtain ⟨hnext, hsame⟩ := hholding.extend hapart block.scope block.bytes
    obtain ⟨files, hpassed, hfinal, hsame'⟩ := ih (w := w.putFile _ _) hnext hrest
    refine ⟨files, ?_, hfinal, hsame.trans hsame'⟩
    rw [passOn, htarget, hposition]
    exact (World.bind_run hwrite).trans (World.bind_run hpassed)

theorem close_run (htarget : ∀ scope, target scope = some (path scope))
    (hholding : Holding path place content w.files) (scope : Scope) :
    close (m := StateM World) target [] scope w = (Except.ok (), w) := by
  rw [close, htarget]
  show (w.files.sync (path scope), w) = _
  rw [(hholding.slot scope).sync (hholding.holds scope)]

def written (writer : Writer) : Scope → Bytes
  | .source => writer.source
  | .header => writer.header

/-- Two empty files hold at the end what a run wrote to the two outputs. -/
theorem deliver_run (hapart : Function.Injective place) (writer : Writer)
    (hholding : Holding path place (fun _ => []) w.files) :
    ∃ files, deliver (m := StateM World) (some (path .source)) (some (path .header)) writer w =
        (Except.ok (), ({ w with files } : World)) ∧
      Holding path place (written writer) files ∧
      FileSystem.SameBut (bothPlaces place) w.files files := by
  let empty : Buffer := { capacity := Buffer.fileCapacity }
  let blocks := Block.joined (Block.ofChunks empty empty writer.output.toList)
  have hcomplete : Complete blocks (fun _ => []) (written writer) := by
    intro scope
    cases scope with
    | source => exact ⟨_, (Block.carries_source _ empty empty).joined, rfl⟩
    | header => exact ⟨_, (Block.carries_header _ empty empty).joined, rfl⟩
  have htarget : ∀ scope, (fun
      | .source => some (path .source)
      | .header => some (path .header) : Scope → Option String) scope = some (path scope) := by
    intro scope
    cases scope <;> rfl
  obtain ⟨files, hpassed, hfinal, hsame⟩ := passOn_run htarget hapart hholding hcomplete
  refine ⟨files, ?_, hfinal, hsame⟩
  refine (World.bind_run hpassed).trans ?_
  refine (World.bind_run (close_run htarget hfinal .source)).trans ?_
  exact World.bind_run (close_run htarget hfinal .header)

/-! ## 3. Writing the code of a design -/

def generateUnder (names : HeaderNames) (design : Design) (settings : Settings)
    (options : RunOptions) : Except FileFault Generated :=
  let (result, writer) :=
    Generation.runDesign names options design.nodes (Generation.start settings options)
  result.map (Generated.ofWriter writer)

theorem generateUnder_ok (names : HeaderNames) (design : Design) (settings : Settings)
    (options : RunOptions) : ∃ report writer,
      Generation.runDesign names options design.nodes (Generation.start settings options) =
        (.ok report, writer) ∧
      generateUnder names design settings options = .ok (.ofWriter writer report) := by
  obtain ⟨ranges, hrun⟩ := Generation.runDesign_run names options design.nodes
    (Generation.start settings options)
  refine ⟨_, _, hrun, ?_⟩
  rw [generateUnder, hrun]
  rfl

/-- A header file goes by its own name. -/
theorem headerNames_of_endsIn (settings : Settings) {path name : String}
    (h : Path.EndsIn path name) :
    headerNames settings (some path) =
      { file := name, included := some (settings.includeName name) } := by
  rw [headerNames, Option.bind_some, h.fileName?]
  rfl

theorem openOutput_file {path : String} {place : Place} (hslot : w.files.Slot path place)
    (hplain : ∀ device, w.files.at? place ≠ some (.device device)) :
    openOutput (m := StateM World) (some path) w = (Except.ok (), w.putFile place []) :=
  World.bind_run (World.create_run hslot hplain)

/-- Opening two outputs at different places leaves both of them empty. -/
theorem open_both (hapart : Function.Injective place)
    (hslot : ∀ scope, w.files.Slot (path scope) (place scope))
    (hplain : ∀ scope device, w.files.at? (place scope) ≠ some (.device device)) :
    ∃ opened files, openOutput (m := StateM World) (some (path .source)) w =
        (Except.ok (), opened) ∧
      openOutput (m := StateM World) (some (path .header)) opened =
        (Except.ok (), ({ w with files } : World)) ∧
      Holding path place (fun _ => []) files ∧
      FileSystem.SameBut (bothPlaces place) w.files files := by
  have hne : place .header ≠ place .source := fun heq => nomatch hapart heq
  have hsource := hslot .source
  let first := w.putFile (place .source) []
  have hsame : FileSystem.SameBut [place .source] w.files first.files :=
    FileSystem.sameBut_put hsource.free []
  have hfirst : ∀ other, first.files.at? other =
      if other = place .source then some (.file []) else w.files.at? other :=
    FileSystem.at?_put hsource.free _
  -- The header is opened when the source is there already.
  have hheader : first.files.Slot (path .header) (place .header) := hsame.slot.2 (hslot .header)
  have hsame' := FileSystem.sameBut_put hheader.free []
  have hplain' : ∀ device, first.files.at? (place .header) ≠ some (.device device) := by
    intro device
    rw [hfirst, if_neg hne]
    exact hplain .header device
  refine ⟨first, _, openOutput_file hsource (hplain .source), openOutput_file hheader hplain', ?_,
    (hsame.mono (by simp [mem_bothPlaces])).trans (hsame'.mono (by simp [mem_bothPlaces]))⟩
  refine ⟨fun scope => hsame'.slot.2 (hsame.slot.2 (hslot scope)), fun scope => ?_⟩
  rw [FileSystem.at?_put hheader.free]
  cases scope with
  | header => rw [if_pos rfl]
  | source => rw [if_neg hne.symm, hfirst, if_pos rfl]

/-- Writing code to the files that the settings name below a directory. The files hold what the same
run gives in memory under the name of the header file, and the report is the same; nothing else
changes. Under the configured name, with its directories, the run in memory is another one, unless
there are none. -/
theorem writeCode_generates (design : Design) (settings : Settings) (options : RunOptions)
    (root : String) (w : World) {source header : Place}
    (hsource : w.files.Slot (Path.join root settings.sourceFile) source)
    (hheader : w.files.Slot (Path.join root settings.headerFile) header)
    (hplain : ∀ device, w.files.at? source ≠ some (.device device) ∧
      w.files.at? header ≠ some (.device device)) (hapart : source ≠ header) :
    ∃ name generated after, header.getLast? = some name ∧
      generateUnder { file := name, included := some (settings.includeName name) } design settings
        options = .ok generated ∧
      writeCode (m := StateM World) design settings
          (some (Path.join root settings.sourceFile)) (some (Path.join root settings.headerFile))
          options w = (Except.ok generated.report, after) ∧
      after.files.read (Path.join root settings.sourceFile) = .ok generated.source ∧
      after.files.read (Path.join root settings.headerFile) = .ok generated.header ∧
      (∀ path entry, w.files.resolve path ≠ .ok source → w.files.resolve path ≠ .ok header →
        (after.files.find? path = .ok entry ↔ w.files.find? path = .ok entry)) ∧
      (name = settings.headerFile ↔ '/' ∉ settings.headerFile.toList) ∧
      (name = settings.headerFile → generate design settings options = .ok generated) := by
  obtain ⟨name, hname, hlast⟩ := hheader.endsIn
  -- Both outputs are treated alike from here on, by their scope.
  let path : Scope → String
    | .source => Path.join root settings.sourceFile
    | .header => Path.join root settings.headerFile
  let place : Scope → Place
    | .source => source
    | .header => header
  have hinjective : Function.Injective place := by
    intro scope other heq
    cases scope <;> cases other <;> first | rfl | exact absurd heq hapart | exact absurd heq.symm hapart
  have hslot : ∀ scope, w.files.Slot (path scope) (place scope) := by
    intro scope
    cases scope
    · exact hheader
    · exact hsource
  have hfiles : ∀ scope device, w.files.at? (place scope) ≠ some (.device device) := by
    intro scope device
    cases scope
    · exact (hplain device).2
    · exact (hplain device).1
  obtain ⟨opened, files, hopened, hready, hempty, hsame⟩ := open_both hinjective hslot hfiles
  obtain ⟨report, writer, hrun, hgenerated⟩ := generateUnder_ok
    { file := name, included := some (settings.includeName name) } design settings options
  -- The names are those of the file that the header goes to, whatever directories are in front of it.
  rw [← headerNames_of_endsIn settings hname] at hrun
  obtain ⟨files', hdelivered, hfinal, hsame'⟩ := deliver_run (w := { w with files }) hinjective
    writer hempty
  obtain ⟨hresult, hleft⟩ := writeCode_of_opened design settings options hopened hready hrun
  rw [hdelivered] at hresult hleft
  refine ⟨name, _, _, hlast, hgenerated, Prod.ext hresult rfl, ?_, ?_, ?_, hname.eq_iff_of_join, ?_⟩
  · rw [hleft]
    exact (hfinal.slot .source).read (hfinal.holds .source)
  · rw [hleft]
    exact (hfinal.slot .header).read (hfinal.holds .header)
  · intro path entry hnot hnot'
    rw [hleft]
    refine (hsame.trans hsame').find? fun place hplace => ?_
    simp only [bothPlaces, List.mem_cons, List.not_mem_nil, or_false] at hplace
    rcases hplace with rfl | rfl
    · exact hnot
    · exact hnot'
  · rintro rfl
    exact hgenerated

theorem writeCode_generates_sample :
    ∃ generated after, generate Design.sample {} {} = .ok generated ∧
      writeCode (m := StateM World) Design.sample {} (some (Path.join "/work" "design.cxx"))
          (some (Path.join "/work" "design.h")) {} editedProject =
        (Except.ok generated.report, after) ∧
      after.files.read (Path.join "/work" "design.cxx") = .ok generated.source := by
  have hsource : editedProject.files.Slot (Path.join "/work" "design.cxx")
      ["work", "design.cxx"] := FileSystem.writable_eq_ok.1 rfl
  have hheader : editedProject.files.Slot (Path.join "/work" "design.h") ["work", "design.h"] :=
    FileSystem.writable_eq_ok.1 rfl
  have hplain : ∀ device : Device,
      editedProject.files.at? ["work", "design.cxx"] ≠ some (.device device) ∧
        editedProject.files.at? ["work", "design.h"] ≠ some (.device device) := by
    intro device
    have hnone : editedProject.files.at? ["work", "design.cxx"] = none ∧
        editedProject.files.at? ["work", "design.h"] = none := by decide
    rw [hnone.1, hnone.2]
    exact ⟨nofun, nofun⟩
  obtain ⟨name, generated, after, -, -, hrun, hread, -, -, hname, hgenerate⟩ :=
    writeCode_generates Design.sample {} {} "/work" editedProject hsource hheader hplain (by decide)
  exact ⟨generated, after, hgenerate (hname.2 (by decide)), hrun, hread⟩

def includeProject : World :=
  { files :=
      { workingDirectory := "/work"
        entries := (["work", "include"], .directory) :: Place.usual } }

def includeSettings : Settings := { headerName := "include/hello.h" }

/-- The guard of the header file is made from its name. In memory it is made from the directory, too. -/
theorem guard_of_directory :
    (writeCode (m := StateM World) { nodes := [] } includeSettings
        (some (Path.join "/work" includeSettings.sourceFile))
        (some (Path.join "/work" includeSettings.headerFile)) {} includeProject).2.files.read
          (Path.join "/work" includeSettings.headerFile) =
        .ok (utf8 ("// generated by formgen version 0.3.0\n\n#ifndef hello_h\n#define hello_h\n" ++
          "#include <FL/Fl.H>\n#endif\n")) ∧
      (generate { nodes := [] } includeSettings {}).map Generated.header =
        .ok (utf8 ("// generated by formgen version 0.3.0\n\n#ifndef include_hello_h\n" ++
          "#define include_hello_h\n#include <FL/Fl.H>\n#endif\n")) :=
  ⟨by decide +kernel, by decide +kernel⟩

end Project

end FormWeave
