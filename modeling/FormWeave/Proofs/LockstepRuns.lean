import FormWeave.Proofs.DryRuns

/-!
# Runs in lockstep

Two runs of the same code stay in step as long as their writers agree in what the code gets to see:
the settings but for whether blocks are tagged, the tables, the indentation, the class being
declared, and whether this is a dry run. What they have written may differ. `Emit.Lockstep` lists
what a relation of writers needs for that; only texts, literals and tags are left to look at.
`Emit.Invariant` does so for a property of one writer that every run keeps.
-/

namespace FormWeave

namespace Writer

/-! ## 1. The course of a run -/

structure Course where
  identifiers : Identifiers ObjectId
  declarations : Declarations
  objects : Objects
  indentation : Int32
  dryRun : Bool
  sourceUsed : Bool
  classScope : Option ClassScope

def course (w : Writer) : Course :=
  { identifiers := w.identifiers, declarations := w.declarations, objects := w.objects
    indentation := w.indentation, dryRun := w.dryRun, sourceUsed := w.sourceUsed
    classScope := w.classScope }

def onCourse (w : Writer) (course : Course) : Writer :=
  { w with
    identifiers := course.identifiers, declarations := course.declarations
    objects := course.objects, indentation := course.indentation, dryRun := course.dryRun
    sourceUsed := course.sourceUsed, classScope := course.classScope }

end Writer

namespace Emit

open Writer

/-- Writers related by `R` are on the same course, and may go on another one and write together. -/
structure Lockstep (R : Writer → Writer → Prop) : Prop where
  course : ∀ {w w'}, R w w' → w'.course = w.course
  settings : ∀ {w w'}, R w w' →
    { w'.settings with mergeTags := false } = { w.settings with mergeTags := false }
  onCourse : ∀ {w w'}, R w w' → ∀ course, R (w.onCourse course) (w'.onCourse course)
  putSource : ∀ {w w'}, R w w' → ∀ bytes, R (w.putSource bytes) (w'.putSource bytes)
  putHeader : ∀ {w w'}, R w w' → ∀ bytes, R (w.putHeader bytes) (w'.putHeader bytes)
  /-- Outside of dry runs they may write a literal together. -/
  quoted : ∀ {w w'}, R w w' → w.dryRun = false →
    ∀ data, R (w.writeQuoted data) (w'.writeQuoted data)
  initializer : ∀ {w w'}, R w w' → w.dryRun = false →
    ∀ data, R (w.writeInitializer data) (w'.writeInitializer data)
  /-- Outside of dry runs they may close a block together. -/
  tag : ∀ {w w'}, R w w' → w.dryRun = false →
    ∀ kind id, R (w.writeTag kind id) (w'.writeTag kind id)

namespace Lockstep

variable {R : Writer → Writer → Prop} {w w' : Writer}

/-! ## 2. Operations -/

/-- Both answer alike what depends on the course alone. -/
theorem answer {α : Type} (hR : Lockstep R) (h : R w w') (f : Course → α) :
    f w.course = f w'.course := by rw [hR.course h]

/-- Both may take another course that depends on the one they are on. -/
theorem change (hR : Lockstep R) (h : R w w') (f : Course → Course) :
    R (w.onCourse (f w.course)) (w'.onCourse (f w'.course)) := by
  rw [hR.course h]
  exact hR.onCourse h _

theorem dryRun (hR : Lockstep R) (h : R w w') : w'.dryRun = w.dryRun :=
  (hR.answer h Course.dryRun).symm

theorem live (hR : Lockstep R) (h : R w w') (hdry : ¬ w.dryRun = true) : ¬ w'.dryRun = true := by
  rwa [hR.dryRun h]

theorem markUsed (hR : Lockstep R) (h : R w w') : R w.markUsed w'.markUsed :=
  hR.change h fun course => { course with sourceUsed := true }

theorem claim (hR : Lockstep R) (h : R w w') (declarations : Declarations) :
    R { w with declarations } { w' with declarations } :=
  hR.change h fun course => { course with declarations }

theorem writeSource (hR : Lockstep R) (h : R w w') (text : String) :
    R (w.writeSource text) (w'.writeSource text) := by
  by_cases hdry : w.dryRun = true
  · rw [writeSource_dry hdry, writeSource_dry ((hR.dryRun h).trans hdry)]
    exact hR.markUsed h
  · rw [Writer.writeSource, Writer.writeSource, unlessDry, unlessDry, if_neg hdry,
      if_neg (hR.live h hdry)]
    exact hR.putSource h _

theorem writeHeader (hR : Lockstep R) (h : R w w') (text : String) :
    R (w.writeHeader text) (w'.writeHeader text) := by
  by_cases hdry : w.dryRun = true
  · rw [writeHeader_dry hdry, writeHeader_dry ((hR.dryRun h).trans hdry)]
    exact h
  · rw [Writer.writeHeader, Writer.writeHeader, if_neg hdry, if_neg (hR.live h hdry)]
    exact hR.putHeader h _

theorem writeIndented (hR : Lockstep R) (h : R w w') (text : String) (extra : Int32)
    (trail : Option Char) :
    R (w.writeIndented text extra trail) (w'.writeIndented text extra trail) := by
  have hindent : w'.indentPlus extra = w.indentPlus extra :=
    (hR.answer h fun course => indentAt (course.indentation + extra)).symm
  rw [Writer.writeIndented, Writer.writeIndented, hindent]
  -- The pieces are those of both, and each is a text on its own.
  generalize indentedPieces (w.indentPlus extra) trail (Text.split '\n' text.toList) = pieces
  clear hindent
  induction pieces generalizing w w' with
  | nil => exact h
  | cons piece rest ih => exact ih (hR.writeSource h piece)

theorem writeQuoted (hR : Lockstep R) (h : R w w') (data : Option Bytes) :
    R (w.writeQuoted data) (w'.writeQuoted data) := by
  by_cases hdry : w.dryRun = true
  · rw [Writer.writeQuoted, Writer.writeQuoted, writeLiteral_dry hdry,
      writeLiteral_dry ((hR.dryRun h).trans hdry)]
    exact hR.markUsed h
  · exact hR.quoted h (Bool.eq_false_iff.2 hdry) data

theorem writeInitializer (hR : Lockstep R) (h : R w w') (data : Option Bytes) :
    R (w.writeInitializer data) (w'.writeInitializer data) := by
  by_cases hdry : w.dryRun = true
  · rw [Writer.writeInitializer, Writer.writeInitializer, writeLiteral_dry hdry,
      writeLiteral_dry ((hR.dryRun h).trans hdry)]
    exact hR.markUsed h
  · exact hR.initializer h (Bool.eq_false_iff.2 hdry) data

theorem writeTag (hR : Lockstep R) (h : R w w') (kind : TagKind) (id : NodeId) :
    R (w.writeTag kind id) (w'.writeTag kind id) := by
  by_cases hdry : w.dryRun = true
  · rw [writeTag_dry hdry, writeTag_dry ((hR.dryRun h).trans hdry)]
    exact h
  · exact hR.tag h (Bool.eq_false_iff.2 hdry) kind id

theorem writeHeaderOnce (hR : Lockstep R) (h : R w w') (line : String) :
    (w.writeHeaderOnce line).1 = (w'.writeHeaderOnce line).1 ∧
      R (w.writeHeaderOnce line).2 (w'.writeHeaderOnce line).2 := by
  have hknown : w'.declarations = w.declarations := (hR.answer h Course.declarations).symm
  by_cases hdry : w.dryRun = true
  · rw [writeHeaderOnce_dry hdry, writeHeaderOnce_dry ((hR.dryRun h).trans hdry)]
    exact ⟨rfl, h⟩
  · rw [Writer.writeHeaderOnce, Writer.writeHeaderOnce, if_neg hdry, if_neg (hR.live h hdry),
      hknown]
    -- The line is new to both or to none.
    dsimp only
    split
    · exact ⟨rfl, hR.putHeader (hR.putHeader (hR.claim h _) _) _⟩
    · exact ⟨rfl, hR.claim h _⟩

theorem writeSourceOnce (hR : Lockstep R) (h : R w w') (line : String) :
    (w.writeSourceOnce line).1 = (w'.writeSourceOnce line).1 ∧
      R (w.writeSourceOnce line).2 (w'.writeSourceOnce line).2 := by
  have hknown : w'.declarations = w.declarations := (hR.answer h Course.declarations).symm
  by_cases hdry : w.dryRun = true
  · rw [writeSourceOnce_dry hdry, writeSourceOnce_dry ((hR.dryRun h).trans hdry)]
    exact ⟨rfl, hR.markUsed h⟩
  · rw [Writer.writeSourceOnce, Writer.writeSourceOnce, if_neg hdry, if_neg (hR.live h hdry),
      hknown]
    dsimp only
    split
    · exact ⟨rfl, hR.putSource (hR.putSource (hR.claim h _) _) _⟩
    · exact ⟨rfl, hR.claim h _⟩

theorem writeAccess (hR : Lockstep R) (h : R w w') (level : Visibility) :
    R (w.writeAccess level) (w'.writeAccess level) := by
  have hscope : w'.classScope = w.classScope := (hR.answer h Course.classScope).symm
  by_cases hdry : w.dryRun = true
  · rw [writeAccess_dry hdry, writeAccess_dry ((hR.dryRun h).trans hdry)]
    exact h
  rw [Writer.writeAccess, Writer.writeAccess, if_neg hdry, if_neg (hR.live h hdry), hscope]
  cases w.classScope with
  | none => exact h
  | some scope =>
    dsimp only
    split
    · exact h
    · let scope' : Option ClassScope := some { scope with access := some level }
      exact hR.writeHeader (hR.change h fun course => { course with classScope := scope' }) _

/-- Where both write previews or neither does, a literal is a text like others. -/
theorem writeLiteral_of_putSource
    (hput : ∀ {w w'}, R w w' → ∀ bytes, R (w.putSource bytes) (w'.putSource bytes))
    (h : R w w') (hlive : w.dryRun = false) (hlive' : w'.dryRun = false)
    (hpreview : w'.preview = w.preview) (data : Option Bytes) (unknownPreview : String)
    (longPreview : Nat → String) (unknown unknownLiteral : String) (literal : Bytes → Bytes) :
    R (w.writeLiteral data unknownPreview longPreview unknown unknownLiteral literal)
      (w'.writeLiteral data unknownPreview longPreview unknown unknownLiteral literal) := by
  have hdry : ¬ w.dryRun = true := Bool.eq_false_iff.1 hlive
  have hdry' : ¬ w'.dryRun = true := Bool.eq_false_iff.1 hlive'
  rw [writeLiteral, writeLiteral, unlessDry, unlessDry, if_neg hdry, if_neg hdry', hpreview]
  cases data with
  | none =>
    dsimp only
    split
    · exact hput h _
    · exact hput (hput h _) _
  | some bytes =>
    dsimp only
    split
    · exact hput h _
    · exact hput h _

/-- Runs in lockstep cannot be told apart by any operation. -/
theorem simulation (hR : Lockstep R) : Simulation R where
  operation := by
    intro sees α f hf w w' h
    cases hf with
    | source text => exact ⟨rfl, hR.writeSource h text⟩
    | header text => exact ⟨rfl, hR.writeHeader h text⟩
    | indented text extra trail => exact ⟨rfl, hR.writeIndented h text extra trail⟩
    | quoted data => exact ⟨rfl, hR.writeQuoted h data⟩
    | initializer data => exact ⟨rfl, hR.writeInitializer h data⟩
    | tag kind id => exact ⟨rfl, hR.writeTag h kind id⟩
    | headerOnce line => exact hR.writeHeaderOnce h line
    | sourceOnce line => exact hR.writeSourceOnce h line
    | uniqueId owner word name label =>
      let allocate (course : Course) := course.identifiers.allocate owner word name label
      exact ⟨hR.answer h fun course => (allocate course).1,
        hR.change h fun course => { course with identifiers := (allocate course).2 }⟩
    | seen object =>
      exact ⟨hR.answer h fun course => (course.objects.see object).1,
        hR.change h fun course => { course with objects := (course.objects.see object).2 }⟩
    | indent => exact ⟨hR.answer h fun course => indentAt course.indentation, h⟩
    | indentPlus offset =>
      exact ⟨hR.answer h fun course => indentAt (course.indentation + offset), h⟩
    | indentMore =>
      exact ⟨rfl, hR.change h fun course => { course with indentation := course.indentation + 1 }⟩
    | indentLess =>
      exact ⟨rfl, hR.change h fun course => { course with indentation := course.indentation - 1 }⟩
    | setIndentation depth =>
      exact ⟨rfl, hR.change h fun course => { course with indentation := depth }⟩
    | enterClass name level =>
      exact ⟨rfl, hR.change h fun course => { course with classScope := some ⟨name, level⟩ }⟩
    | leaveClass => exact ⟨rfl, hR.change h fun course => { course with classScope := none }⟩
    | currentClass => exact ⟨hR.answer h fun course => course.classScope.map ClassScope.name, h⟩
    | access level => exact ⟨rfl, hR.writeAccess h level⟩
    | configured f hblind =>
      have hsame : f w.settings = f w'.settings := by
        rw [← hblind w.settings, ← hblind w'.settings, hR.settings h]
      exact ⟨hsame, h⟩
  enter := fun h => hR.change h fun course => { course with dryRun := true, sourceUsed := false }
  leave := by
    intro outer outer' inner inner' houter hinner
    refine ⟨hR.answer hinner Course.sourceUsed, ?_⟩
    -- Of the outer writers only two flags are left, and both have these.
    have hflags (w : Writer) : behindDryRun w inner' = inner'.onCourse
        { inner'.course with dryRun := w.course.dryRun, sourceUsed := w.course.sourceUsed } := rfl
    rw [hflags, hR.course houter]
    exact hR.change hinner fun course =>
      { course with dryRun := outer.course.dryRun, sourceUsed := outer.course.sourceUsed }

end Lockstep

/-! ## 3. Properties of one writer -/

structure Invariant (P : Writer → Prop) : Prop where
  onCourse : ∀ {w}, P w → ∀ course, P (w.onCourse course)
  putSource : ∀ {w}, P w → ∀ bytes, P (w.putSource bytes)
  putHeader : ∀ {w}, P w → ∀ bytes, P (w.putHeader bytes)
  tag : ∀ {w}, P w → w.dryRun = false → ∀ kind id, P (w.writeTag kind id)

/-- A run goes in lockstep with itself, and the property comes with it. -/
theorem Invariant.lockstep {P : Writer → Prop} (hP : Invariant P) :
    Lockstep fun w w' => w' = w ∧ P w := by
  let Same (w w' : Writer) : Prop := w' = w ∧ P w
  have hput : ∀ {w w' : Writer}, Same w w' →
      ∀ bytes, Same (w.putSource bytes) (w'.putSource bytes) := by
    rintro _ w ⟨rfl, h⟩ bytes
    exact ⟨rfl, hP.putSource h bytes⟩
  refine ⟨?course, ?settings, ?onCourse, hput, ?putHeader, ?quoted, ?initializer, ?tag⟩
  case course | settings =>
    rintro _ w ⟨rfl, -⟩
    rfl
  case onCourse =>
    rintro _ w ⟨rfl, h⟩ course
    exact ⟨rfl, hP.onCourse h course⟩
  case putHeader =>
    rintro _ w ⟨rfl, h⟩ bytes
    exact ⟨rfl, hP.putHeader h bytes⟩
  case quoted | initializer =>
    rintro _ w ⟨rfl, h⟩ hlive data
    have hsame : Same w w := ⟨rfl, h⟩
    exact Lockstep.writeLiteral_of_putSource hput hsame hlive hlive rfl data ..
  case tag =>
    rintro _ w ⟨rfl, h⟩ hlive kind id
    exact ⟨rfl, hP.tag h hlive kind id⟩

/-- What is composed of operations keeps such a property. -/
theorem Composed.keeps {α : Type} {sees : ObjectId → Prop} {P : Writer → Prop} (hP : Invariant P)
    {emit : Emit α} (h : emit.Composed sees) {w : Writer} (hw : P w) : P (emit w).2 :=
  (h.simulates hP.lockstep.simulation ⟨rfl, hw⟩).2.2

end Emit

end FormWeave
