import FormWeave.Proofs.UnawareCode
import FormWeave.Proofs.Wiring
import Mathlib.Logic.Equiv.Basic
import Mathlib.Data.List.Basic
import Std.Data.TreeMap.Lemmas

/-!
# Owners may be renamed

Identifiers and one-time code are kept apart by their owners, and all that counts of owners is
whether two of them are the same. If the owners are renamed so that different ones stay different,
the tables give the same answers, and the code that asks them writes the same files.
`Emit.Renamed` relates code to the same code with other owners.
-/

namespace FormWeave

/-! ## 1. The tables -/

namespace Identifiers

variable {ω ω' : Type} {rename : ω → ω'} {ids : Identifiers ω} {ids' : Identifiers ω'}

/-- The same identifiers, with renamed owners. -/
structure Renamed (rename : ω → ω') (ids : Identifiers ω) (ids' : Identifiers ω') : Prop where
  owner? : ∀ text, ids'.owner? text = (ids.owner? text).map rename
  size : ids'.size = ids.size

theorem renamed_empty : Renamed rename ({} : Identifiers ω) ({} : Identifiers ω') :=
  ⟨fun _ => rfl, rfl⟩

theorem Renamed.insert (h : Renamed rename ids ids') (text : String) (owner : ω) :
    Renamed rename { taken := ids.taken.insert text owner }
      { taken := ids'.taken.insert text (rename owner) } where
  owner? other := by
    have hother := h.owner? other
    unfold Identifiers.owner? at hother ⊢
    rw [Std.TreeMap.getElem?_insert, Std.TreeMap.getElem?_insert, hother]
    split <;> rfl
  size := by
    have hsize := h.size
    have hmem : text ∈ ids'.taken ↔ text ∈ ids.taken := by
      have htext := h.owner? text
      unfold Identifiers.owner? at htext
      rw [Std.TreeMap.mem_iff_isSome_getElem?, Std.TreeMap.mem_iff_isSome_getElem?, htext,
        Option.isSome_map]
    unfold Identifiers.size at hsize ⊢
    rw [Std.TreeMap.size_insert, Std.TreeMap.size_insert, hsize]
    exact if_congr hmem rfl rfl

variable [DecidableEq ω] [DecidableEq ω']

/-- The search for a free form looks at owners only to find out whether they are the one that
asks. -/
theorem Renamed.firstFree (hrename : Function.Injective rename) (h : Renamed rename ids ids')
    (owner : ω) (base : String) (fuel : Nat) :
    ∀ n, ids'.firstFree (rename owner) base fuel n = ids.firstFree owner base fuel n := by
  induction fuel with
  | zero => exact fun _ => rfl
  | succ fuel ih =>
    intro n
    rw [Identifiers.firstFree, Identifiers.firstFree, h.owner?]
    cases ids.owner? (Identifier.numbered base n) with
    | none => rfl
    | some other =>
      have howner : rename other = rename owner ↔ other = owner := hrename.eq_iff
      simp only [Option.map_some, howner, ih]

theorem Renamed.allocate (hrename : Function.Injective rename) (h : Renamed rename ids ids')
    (owner : ω) (word : String) (name label : Option String) :
    (ids'.allocate (rename owner) word name label).1 = (ids.allocate owner word name label).1 ∧
      Renamed rename (ids.allocate owner word name label).2
        (ids'.allocate (rename owner) word name label).2 := by
  rw [Identifiers.allocate, Identifiers.allocate, h.size, h.firstFree hrename, h.owner?]
  -- Both find the same text, and it is free in both tables or in neither.
  cases ids.owner? (ids.firstFree owner (Identifier.base word name label) ids.size 0) with
  | none => exact ⟨rfl, h.insert _ _⟩
  | some other => exact ⟨rfl, h⟩

end Identifiers

namespace Objects

variable {rename : ObjectId → ObjectId}

def renamed (rename : ObjectId → ObjectId) (known : Objects) : Objects :=
  { members := known.members.map rename }

theorem size_renamed (known : Objects) : (known.renamed rename).size = known.size :=
  List.length_map _

theorem see_renamed (hrename : Function.Injective rename) (known : Objects) (object : ObjectId) :
    (known.renamed rename).see (rename object) =
      ((known.see object).1, (known.see object).2.renamed rename) := by
  have hmember : (known.members.map rename).contains (rename object) =
      known.members.contains object := by
    rw [Bool.eq_iff_iff]
    simp [hrename.eq_iff]
  unfold see renamed
  rw [hmember]
  split <;> rfl

end Objects

/-! ## 2. Runs on the tables -/

structure Tables where
  identifiers : Identifiers ObjectId := {}
  objects : Objects := {}

inductive TableCall
  | allocate (owner : ObjectId) (word : String) (name label : Option String)
  | forgetIdentifiers
  | see (object : ObjectId)
  | forgetObjects

inductive TableAnswer
  | identifier (text : String)
  | known (value : Bool)
  | nothing
  deriving DecidableEq

structure TableReply where
  answer : TableAnswer
  identifiers : Nat
  objects : Nat
  deriving DecidableEq

def TableCall.renamed (rename : ObjectId → ObjectId) : TableCall → TableCall
  | .allocate owner word name label => .allocate (rename owner) word name label
  | .see object => .see (rename object)
  | call => call

namespace Tables

def run (tables : Tables) : TableCall → TableAnswer × Tables
  | .allocate owner word name label =>
    let (text, identifiers) := tables.identifiers.allocate owner word name label
    (.identifier text, { tables with identifiers })
  | .forgetIdentifiers => (.nothing, { tables with identifiers := {} })
  | .see object =>
    let (known, objects) := tables.objects.see object
    (.known known, { tables with objects })
  | .forgetObjects => (.nothing, { tables with objects := {} })

def replies (tables : Tables) : List TableCall → List TableReply
  | [] => []
  | call :: rest =>
    let (answer, next) := tables.run call
    ⟨answer, next.identifiers.size, next.objects.size⟩ :: next.replies rest

variable {rename : ObjectId → ObjectId} {tables tables' : Tables}

structure Renamed (rename : ObjectId → ObjectId) (tables tables' : Tables) : Prop where
  identifiers : tables.identifiers.Renamed rename tables'.identifiers
  objects : tables'.objects = tables.objects.renamed rename

theorem Renamed.run (hrename : Function.Injective rename) (h : Renamed rename tables tables')
    (call : TableCall) :
    (tables'.run (call.renamed rename)).1 = (tables.run call).1 ∧
      Renamed rename (tables.run call).2 (tables'.run (call.renamed rename)).2 := by
  cases call with
  | allocate owner word name label =>
    obtain ⟨htext, hids⟩ := h.identifiers.allocate hrename owner word name label
    exact ⟨congrArg TableAnswer.identifier htext, hids, h.objects⟩
  | forgetIdentifiers => exact ⟨rfl, Identifiers.renamed_empty, h.objects⟩
  | see object =>
    have hsee := tables.objects.see_renamed hrename object
    rw [← h.objects] at hsee
    have hknown := congrArg Prod.fst hsee
    exact ⟨congrArg TableAnswer.known hknown, h.identifiers, congrArg Prod.snd hsee⟩
  | forgetObjects => exact ⟨rfl, h.identifiers, rfl⟩

/-- The tables cannot tell renamed owners from the old ones, however long a run is. -/
theorem Renamed.replies (hrename : Function.Injective rename) (calls : List TableCall) :
    ∀ {tables tables' : Tables}, Renamed rename tables tables' →
      tables'.replies (calls.map (.renamed rename)) = tables.replies calls := by
  induction calls with
  | nil => exact fun _ => rfl
  | cons call rest ih =>
    intro tables tables' h
    obtain ⟨hanswer, hnext⟩ := h.run hrename call
    have hobjects : ((tables.run call).2.objects.renamed rename).size = _ :=
      Objects.size_renamed _
    rw [List.map_cons, Tables.replies, Tables.replies]
    dsimp only
    rw [hanswer, hnext.identifiers.size, hnext.objects, hobjects, ih hnext]

theorem renamed_new : Renamed rename {} {} := ⟨Identifiers.renamed_empty, rfl⟩

end Tables

/-! ## 3. Writers -/

def Tables.override (tables : Tables) : Override where
  identifiers _ := tables.identifiers
  objects _ := tables.objects

namespace Writer

def tables (w : Writer) : Tables := { identifiers := w.identifiers, objects := w.objects }

variable {rename : ObjectId → ObjectId} {w w' : Writer}

/-- The writers of two runs in which only the owners have different names. -/
def Renamed (rename : ObjectId → ObjectId) (w w' : Writer) : Prop :=
  ∃ tables, w.tables.Renamed rename tables ∧ w' = w.override tables.override

end Writer

namespace Emit

variable {α β : Type} {rename : ObjectId → ObjectId}

/-! ## 4. Code with renamed owners -/

def Ownerless (emit : Emit α) : Prop := ∀ tables : Tables, Unaware tables.override emit

/-- Such code leaves the tables as they are. -/
theorem Ownerless.tables {emit : Emit α} (h : Ownerless emit) (w : Writer) :
    (emit w).2.tables = w.tables := by
  -- Putting the tables of the writer in place of themselves changes nothing.
  have hsame : (emit w).2 = (emit w).2.override w.tables.override :=
    congrArg Prod.snd (h w.tables w)
  rw [hsame]
  rfl

/-- The second computation is the first one with renamed owners. -/
inductive Renamed (rename : ObjectId → ObjectId) : {α : Type} → Emit α → Emit α → Prop
  | pure {α : Type} (a : α) : Renamed rename (Pure.pure a : Emit α) (Pure.pure a)
  | bind {α β : Type} {emit emit' : Emit α} {next next' : α → Emit β}
    (h : Renamed rename emit emit') (hnext : ∀ a, Renamed rename (next a) (next' a)) :
    Renamed rename (emit >>= next) (emit' >>= next')
  | ownerless {α : Type} {emit : Emit α} (h : Ownerless emit) : Renamed rename emit emit
  | uniqueId (owner : ObjectId) (word : String) (name label : Option String) :
    Renamed rename (uniqueId owner word name label) (uniqueId (rename owner) word name label)
  | seen (object : ObjectId) : Renamed rename (seen object) (seen (rename object))
  | reset : Renamed rename reset reset
  | dryRun {α : Type} {emit emit' : Emit α} (h : Renamed rename emit emit') :
    Renamed rename (dryRun emit) (dryRun emit')

/-- Renamed code comes to the same result, and leaves the same writer but for the tables. -/
theorem Renamed.run (hrename : Function.Injective rename) {emit emit' : Emit α}
    (h : Renamed rename emit emit') :
    ∀ {w w' : Writer}, w.Renamed rename w' →
      (emit' w').1 = (emit w).1 ∧ (emit w).2.Renamed rename (emit' w').2 := by
  induction h with
  | pure a => exact fun hw => ⟨rfl, hw⟩
  | @bind _ _ emit emit' next next' _ _ ih ihnext =>
    intro w w' hw
    obtain ⟨hresult, hstate⟩ := ih hw
    rw [bind_apply, bind_apply]
    -- Both go on with the same result, or both fail.
    cases hrun : emit w with
    | mk result inner =>
      cases hrun' : emit' w' with
      | mk result' inner' =>
        rw [hrun, hrun'] at hresult hstate
        subst hresult
        cases result' with
        | ok a => exact ihnext a hstate
        | error fault => exact ⟨rfl, hstate⟩
  | ownerless hf =>
    rintro w w' ⟨tables, htables, rfl⟩
    rw [hf tables]
    refine ⟨rfl, tables, ?_, rfl⟩
    rw [hf.tables]
    exact htables
  | uniqueId owner word name label =>
    rintro w w' ⟨tables, htables, rfl⟩
    obtain ⟨htext, hids⟩ := htables.identifiers.allocate hrename owner word name label
    exact ⟨congrArg Except.ok htext, { tables with identifiers := _ }, ⟨hids, htables.objects⟩, rfl⟩
  | seen object =>
    rintro w w' ⟨tables, htables, rfl⟩
    have hsee := w.objects.see_renamed hrename object
    have hobjects : tables.objects = w.objects.renamed rename := htables.objects
    rw [← hobjects] at hsee
    have hknown := congrArg Prod.fst hsee
    exact ⟨congrArg Except.ok hknown, { tables with objects := (tables.objects.see _).2 },
      ⟨htables.identifiers, congrArg Prod.snd hsee⟩, rfl⟩
  | reset =>
    rintro w w' ⟨tables, htables, rfl⟩
    exact ⟨rfl, {}, Tables.renamed_new, rfl⟩
  | @dryRun _ emit emit' _ ih =>
    rintro w w' ⟨tables, htables, rfl⟩
    have hinner : (inDryRun w).Renamed rename (inDryRun (w.override tables.override)) :=
      ⟨tables, htables, rfl⟩
    obtain ⟨hresult, tables', htables', hstate⟩ := ih hinner
    rw [dryRun_apply, dryRun_apply, hresult, hstate]
    exact ⟨rfl, tables', htables', rfl⟩

/-! ## 5. All code can be renamed -/

variable {sees : ObjectId → Prop}

def Renamable (rename : ObjectId → ObjectId) (emit : Emit α) : Prop :=
  ∃ emit', Renamed rename emit emit'

theorem Renamable.bind {emit : Emit α} {next : α → Emit β} (h : Renamable rename emit)
    (hnext : ∀ a, Renamable rename (next a)) : Renamable rename (emit >>= next) := by
  obtain ⟨emit', hemit⟩ := h
  choose next' hnext using hnext
  exact ⟨emit' >>= next', hemit.bind hnext⟩

theorem Operation.renamable (rename : ObjectId → ObjectId) {f : Writer → α × Writer}
    (h : Operation sees f) : Renamable rename (step f) := by
  cases h with
  | uniqueId owner word name label => exact ⟨_, .uniqueId owner word name label⟩
  | seen object _ => exact ⟨_, .seen object⟩
  | source text => exact ⟨_, .ownerless fun _ => unaware_source text⟩
  | header text => exact ⟨_, .ownerless fun _ => unaware_header text⟩
  | indented text extra trail => exact ⟨_, .ownerless fun _ => unaware_indented text extra trail⟩
  | quoted data => exact ⟨_, .ownerless fun _ => unaware_quoted (Or.inl rfl)⟩
  | initializer data => exact ⟨_, .ownerless fun _ => unaware_initializer (Or.inl rfl)⟩
  | tag kind id => exact ⟨_, .ownerless fun _ => unaware_tag kind id⟩
  | headerOnce line => exact ⟨_, .ownerless fun _ => unaware_headerOnce line⟩
  | sourceOnce line => exact ⟨_, .ownerless fun _ => unaware_sourceOnce line⟩
  | indent => exact ⟨_, .ownerless fun _ => unaware_indent⟩
  | indentPlus offset => exact ⟨_, .ownerless fun _ => unaware_indentPlus offset⟩
  | indentMore => exact ⟨_, .ownerless fun _ => unaware_indentMore⟩
  | indentLess => exact ⟨_, .ownerless fun _ => unaware_indentLess⟩
  | setIndentation depth => exact ⟨_, .ownerless fun _ => unaware_setIndentation depth⟩
  | enterClass name level => exact ⟨_, .ownerless fun _ => unaware_enterClass name level⟩
  | leaveClass => exact ⟨_, .ownerless fun _ => unaware_leaveClass⟩
  | currentClass => exact ⟨_, .ownerless fun _ => unaware_currentClass⟩
  | access level => exact ⟨_, .ownerless fun _ => unaware_access level⟩
  | configured f _ => exact ⟨_, .ownerless fun _ => unaware_configured f⟩

theorem Composed.renamable (rename : ObjectId → ObjectId) {emit : Emit α}
    (h : emit.Composed sees) : Renamable rename emit := by
  induction h with
  | pure a => exact ⟨_, .pure a⟩
  | bind _ _ ih ihnext => exact ih.bind ihnext
  | step hf => exact hf.renamable rename
  | dryRun _ ih =>
    obtain ⟨emit', hemit⟩ := ih
    exact ⟨_, hemit.dryRun⟩

end Emit

namespace Generation

open Emit

/-! ## 6. Runs -/

theorem renamable_take (rename : ObjectId → ObjectId) (names : HeaderNames) (track : Bool)
    (table : RangeTable) (step : Step Node) :
    Renamable rename (take names track writeNode table step : Emit RangeTable) := by
  have hcode := (composed_stepCode names step).renamable rename
  have htable (table : RangeTable) : Renamable rename (pure table : Emit RangeTable) :=
    ⟨_, .pure table⟩
  cases step with
  | write phase node =>
    have hpositions : Renamable rename positions :=
      ⟨_, .ownerless fun _ => unaware_ask fun _ => rfl⟩
    refine hpositions.bind fun before => hcode.bind fun _ => hpositions.bind fun after => ?_
    split
    · exact htable _
    · exact htable _
  | prologue => exact hcode.bind fun _ => htable table
  | endClass =>
    have hheader : Renamable rename (header "\x7d;\n") :=
      ⟨_, .ownerless fun _ => unaware_header _⟩
    have hleave : Renamable rename leaveClass := ⟨_, .ownerless fun _ => unaware_leaveClass⟩
    exact hheader.bind fun _ => hleave.bind fun _ => htable table
  | endGuard => exact hcode.bind fun _ => htable table

theorem renamable_steps (rename : ObjectId → ObjectId) (names : HeaderNames) (track : Bool)
    (steps : List (Step Node)) : ∀ table : RangeTable,
      Renamable rename (steps.foldlM (take names track writeNode) table : Emit RangeTable) := by
  induction steps with
  | nil => exact fun table => ⟨_, .pure table⟩
  | cons step rest ih =>
    intro table
    rw [List.foldlM_cons]
    exact (renamable_take rename names track table step).bind ih

theorem renamable_runDesign (rename : ObjectId → ObjectId) (names : HeaderNames)
    (options : RunOptions) (nodes : List Node) :
    Renamable rename (runDesign names options nodes) := by
  have hreset : Renamable rename reset := ⟨_, .reset⟩
  exact hreset.bind fun _ =>
    (renamable_steps rename names options.trackRanges (plan nodes) {}).bind fun _ => ⟨_, .pure _⟩

/-- All that is told of owners is which of them are the same. If they are renamed so that different
ones stay different, the tables give the same replies to the same calls in any order, and code that
writes a design writes the same files. -/
theorem generate_renamed {rename : ObjectId → ObjectId} (hrename : Function.Injective rename) :
    (∀ calls : List TableCall,
      Tables.replies {} (calls.map (.renamed rename)) = Tables.replies {} calls) ∧
    ∀ (design : Design) (settings : Settings) (options : RunOptions),
      let written := runDesign (configuredNames settings) options design.nodes
      (∃ code, Renamed rename written code) ∧
      ∀ code, Renamed rename written code →
        (code (start settings options)).1.map
            (Generated.ofWriter (code (start settings options)).2) =
          generate design settings options := by
  have hnew : Tables.Renamed rename {} {} := Tables.renamed_new
  refine ⟨fun calls => hnew.replies hrename calls, fun design settings options => ?_⟩
  refine ⟨renamable_runDesign .., fun code hcode => ?_⟩
  -- A run starts out with empty tables, and owners leave no trace in what it has written.
  have hstart : (start settings options).Renamed rename (start settings options) :=
    ⟨{}, hnew, rfl⟩
  obtain ⟨hresult, tables, -, hstate⟩ := hcode.run hrename hstart
  rw [hresult, hstate]
  rfl

/-- The two buttons as owners, the one in place of the other. -/
theorem generate_renamed_swap :
    let rename : ObjectId → ObjectId := Equiv.swap (.node ⟨1⟩) (.node ⟨2⟩)
    let calls : List TableCall :=
      [.allocate (.node ⟨1⟩) "cb" none (some "Save"), .allocate (.node ⟨2⟩) "cb" none (some "Save"),
        .see (.node ⟨1⟩), .see (.node ⟨2⟩), .see (.node ⟨1⟩), .forgetIdentifiers,
        .allocate (.node ⟨2⟩) "cb" none (some "Save")]
    let written := runDesign (configuredNames {}) {} buttonDesign.nodes
    Function.Injective rename ∧
      Tables.replies {} (calls.map (.renamed rename)) =
        [⟨.identifier "cb_Save", 1, 0⟩, ⟨.identifier "cb_Save1", 2, 0⟩, ⟨.known false, 2, 1⟩,
          ⟨.known false, 2, 2⟩, ⟨.known true, 2, 2⟩, ⟨.nothing, 0, 2⟩,
          ⟨.identifier "cb_Save", 1, 2⟩] ∧
      ∃ code, Renamed rename written code ∧
        (code (start {} {})).1.map (Generated.ofWriter (code (start {} {})).2) =
          generate buttonDesign {} {} := by
  intro rename calls written
  have hrename : Function.Injective rename := Equiv.injective _
  obtain ⟨hreplies, hgenerate⟩ := generate_renamed hrename
  obtain ⟨⟨code, hcode⟩, hsame⟩ := hgenerate buttonDesign {} {}
  refine ⟨hrename, ?_, code, hcode, hsame code hcode⟩
  rw [hreplies]
  decide +kernel

end Generation

end FormWeave
