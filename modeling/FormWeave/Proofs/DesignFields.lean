import FormWeave.Design.Printer
import FormWeave.Design.Reader
import FormWeave.Proofs.JsonText

/-!
# Fields of an item

The fields that are written for an item are read back one by one: what is left out is what a field
is taken for when it is missing, and no field is looked up under the name of another.
-/

namespace FormWeave

namespace Design.Reader

open Json Json.Value

/-! ## 1. Single values -/

theorem rawText_encode (text : String) : rawText (Escape.encode text.toList) = .ok text := by
  rw [rawText, Escape.decode?_encode]

theorem text_ofText (text : String) : Reader.text (.ofText text) = .ok text := rawText_encode text

theorem optionalText_ofText (text : String) : optionalText (.ofText text) = .ok (some text) := by
  rw [ofText, optionalText]
  · rw [Reader.text, rawText_encode]
    rfl
  · exact Value.noConfusion

theorem name_ofText (text : String) : name (.ofText text) = .ok text := rawText_encode text

theorem visibility_toJson (level : Visibility) : visibility level.toJson = .ok level := by
  rw [visibility, Visibility.toJson, name_ofText]
  cases level <;> rfl

theorem dataFormat_toJson (format : DataFormat) : dataFormat format.toJson = .ok format := by
  cases format <;> rw [dataFormat, DataFormat.toJson, name_ofText] <;> rfl

theorem kind_name (kind : NodeKind) : Reader.kind (.ofText kind.name) = .ok kind := by
  rw [ofText, Reader.kind, rawText_encode]
  cases kind <;> rfl

theorem integer_ofInt {low high n : Int} (hlow : low ≤ n) (hhigh : n ≤ high)
    (hbits : n.natAbs < 2 ^ 63) : integer low high (.ofInt n) = .ok n := by
  rw [Value.ofInt, integer, Number.toInt?_ofInt hbits]
  simp [hlow, hhigh]

def IsCoordinate (n : Int) : Prop := -0x80000000 ≤ n ∧ n ≤ 0x7fffffff

theorem coordinate_ofInt {n : Int} (h : IsCoordinate n) : coordinate (.ofInt n) = .ok n :=
  integer_ofInt h.1 h.2 (by unfold IsCoordinate at h; omega)

theorem nodeId_ofInt (id : NodeId) : nodeId (.ofInt id.value.toNat) = .ok (some id) := by
  have hid : id.value.toNat < 65536 := id.value.toNat_lt
  rw [Value.ofInt, nodeId, ← Value.ofInt, integer_ofInt (by omega) (by omega) (by omega)]
  · simp
  · exact Value.noConfusion

theorem byte_ofInt (b : UInt8) : byte (.ofInt b.toNat) = .ok b := by
  have hb : b.toNat < 256 := b.toNat_lt
  rw [byte, integer_ofInt (by omega) (by omega) (by omega)]
  simp

/-- A list is read back if its members are. -/
theorem mapM_map {α β : Type} {write : α → β} {read : β → Reading α}
    (h : ∀ a, read (write a) = .ok a) (list : List α) : (list.map write).mapM read = .ok list := by
  induction list with
  | nil => rfl
  | cons a list ih =>
    rw [List.map_cons, List.mapM_cons, h, ih]
    rfl

theorem resource_toJson (entry : Resource) : resource entry.toJson = .ok entry := by
  cases entry with
  | text content =>
    rw [Resource.toJson, field, resource, rawText_encode]
    · show (do return Resource.text (← Reader.text (ofText content))) = _
      rw [text_ofText]
      rfl
    · exact fun _ => Value.noConfusion
  | bytes content =>
    rw [Resource.toJson, field, resource, rawText_encode]
    show (do return Resource.bytes (← (content.map fun b : UInt8 => Value.ofInt b.toNat).mapM byte)) = _
    rw [mapM_map byte_ofInt]
    rfl

/-! ## 2. Looking fields up -/

def named (members : List (List Char × Value)) : Fields :=
  members.map fun (raw, value) => ((Escape.decode? raw).getD "", value)

@[simp]
theorem named_nil : named [] = [] := rfl

@[simp]
theorem named_cons (name : String) (value : Value) (members : List (List Char × Value)) :
    named (field name value :: members) = (name, value) :: named members := by
  simp [named, field, Escape.decode?_encode]

@[simp]
theorem named_append (front back : List (List Char × Value)) :
    named (front ++ back) = named front ++ named back := List.map_append

/-- Members whose names are encoded texts can be read. -/
theorem fields_eq_named {members : List (List Char × Value)}
    (h : ∀ member ∈ members, ∃ name value, member = field name value) :
    fields members = .ok (named members) := by
  induction members with
  | nil => rfl
  | cons member members ih =>
    obtain ⟨name, value, rfl⟩ := h member List.mem_cons_self
    have hrest : fields members = .ok (named members) :=
      ih fun other hother => h other (List.mem_cons_of_mem _ hother)
    have hfirst : rawText (field name value).1 = .ok name := rawText_encode name
    rw [named_cons, fields, List.mapM_cons, ← fields, hrest]
    dsimp only
    rw [hfirst]
    rfl

variable {α : Type}

def readOne (wanted : String) (missing : Reading α) (read : Value → Reading α) : Fields → Reading α
  | [] => missing
  | [(_, value)] => read value
  | _ => .error (.duplicateField wanted)

@[simp]
theorem readOne_nil (wanted : String) (missing : Reading α) (read : Value → Reading α) :
    readOne wanted missing read [] = missing := rfl

@[simp]
theorem readOne_singleton (wanted : String) (missing : Reading α) (read : Value → Reading α)
    (entry : String × Value) : readOne wanted missing read [entry] = read entry.2 := rfl

theorem required_eq (fields : Fields) (wanted : String) (read : Value → Reading α) :
    required fields wanted read =
      readOne wanted (.error (.missingField wanted)) read (fields.filter (·.1 == wanted)) := by
  rw [required, field?]
  cases fields.filter (·.1 == wanted) with
  | nil => rfl
  | cons first rest => cases rest <;> rfl

theorem defaulted_eq (fields : Fields) (wanted : String) (read : Value → Reading α) (default : α) :
    defaulted fields wanted read default =
      readOne wanted (.ok default) read (fields.filter (·.1 == wanted)) := by
  rw [defaulted, field?]
  cases fields.filter (·.1 == wanted) with
  | nil => rfl
  | cons first rest => cases rest <;> rfl

theorem filter_optionalField (wanted name : String) (text : Option String) :
    (named (optionalField name text)).filter (·.1 == wanted) =
      if name == wanted then named (optionalField name text) else [] := by
  cases text <;> simp [optionalField, List.filter_cons]

theorem filter_nonemptyField (wanted name text : String) :
    (named (nonemptyField name text)).filter (·.1 == wanted) =
      if name == wanted then named (nonemptyField name text) else [] := by
  unfold nonemptyField
  split <;> simp [List.filter_cons]

theorem readOne_optionalField (name : String) (text : Option String) :
    readOne name (.ok none) optionalText (named (optionalField name text)) = .ok text := by
  cases text with
  | none => rfl
  | some text => exact (congrArg _ (named_cons ..)).trans (optionalText_ofText text)

theorem readOne_nonemptyField (name text : String) :
    readOne name (.ok "") Reader.text (named (nonemptyField name text)) = .ok text := by
  unfold nonemptyField
  split
  · next hempty => rw [String.isEmpty_iff.1 hempty]; rfl
  · exact (congrArg _ (named_cons ..)).trans (text_ofText text)

end Design.Reader

/-! ## 3. The body of an item -/

def ItemBody.InRange : ItemBody → Prop
  | widget _ _ _ _ _ _ x y w h => ∀ n ∈ [x, y, w, h], Design.Reader.IsCoordinate n
  | _ => True

namespace Design.Reader

open Json Json.Value

theorem ok_bind {α β : Type} (a : α) (next : α → Reading β) : (.ok a >>= next) = next a := rfl

theorem itemBody_fields {body : ItemBody} (h : body.InRange) :
    itemBody (named body.fields) = .ok body := by
  have hbool : ∀ b, Reader.bool (.bool b) = .ok b := fun _ => rfl
  -- Looking up a name filters the members, and of each that may be left out one or none remains.
  cases body with
  | widget className name label tooltip callback image x y w h =>
    simp only [ItemBody.InRange, List.forall_mem_cons] at h
    obtain ⟨hx, hy, hw, hh, -⟩ := h
    simp [itemBody, ItemBody.fields, ItemBody.kind, required_eq, defaulted_eq, ok_bind,
      filter_optionalField, readOne_optionalField, kind_name, text_ofText,
      coordinate_ofInt, hx, hy, hw, hh]
  | _ =>
    simp [itemBody, ItemBody.fields, ItemBody.kind, required_eq, defaulted_eq, ok_bind,
      filter_optionalField, filter_nonemptyField, readOne_optionalField,
      readOne_nonemptyField, kind_name, text_ofText, visibility_toJson, dataFormat_toJson, hbool]

end Design.Reader

/-! ## 4. The members of a body -/

namespace Json.Value

inductive Flat : Value → Prop
  | text (text : String) : Flat (.ofText text)
  | bool (b : Bool) : Flat (.bool b)
  | int {n : Int} (h : n.natAbs < 1 <<< 53) : Flat (.ofInt n)

variable {value : Value}

theorem Flat.plain (h : value.Flat) : value.Plain := by
  cases h with
  | text text => exact ⟨_, rfl⟩
  | bool => exact trivial
  | int => exact ⟨_, rfl⟩

theorem Flat.isSound (h : value.Flat) : value.isSound = true := by
  cases h with
  | text text =>
    rw [ofText, Value.isSound, Escape.decode?_encode]
    rfl
  | bool => rfl
  | int h => exact Number.isFinite_ofInt h

theorem Flat.fits (h : value.Flat) (depth : Nat) : value.fits depth = true := by
  cases h <;> rfl

end Json.Value

open Json Json.Value

def IsBodyField (member : List Char × Value) : Prop :=
  ∃ name value, member = field name value ∧ name ≠ "id" ∧ name ≠ "children" ∧ value.Flat

theorem isBodyField_optionalField {name : String} (hid : name ≠ "id") (hchildren : name ≠ "children")
    (text : Option String) : ∀ member ∈ optionalField name text, IsBodyField member := by
  cases text with
  | none => exact fun _ hnone => absurd hnone List.not_mem_nil
  | some text => exact List.forall_mem_singleton.2 ⟨name, _, rfl, hid, hchildren, .text text⟩

theorem isBodyField_nonemptyField {name : String} (hid : name ≠ "id") (hchildren : name ≠ "children")
    (text : String) : ∀ member ∈ nonemptyField name text, IsBodyField member := by
  unfold nonemptyField
  split
  · exact fun _ hnone => absurd hnone List.not_mem_nil
  · exact List.forall_mem_singleton.2 ⟨name, _, rfl, hid, hchildren, .text text⟩

theorem isBodyField_coordinate {name : String} {n : Int} (hid : name ≠ "id")
    (hchildren : name ≠ "children") (h : Design.Reader.IsCoordinate n) :
    IsBodyField (field name (.ofInt n)) := by
  unfold Design.Reader.IsCoordinate at h
  exact ⟨name, _, rfl, hid, hchildren, .int (by omega)⟩

theorem ItemBody.isBodyField {body : ItemBody} (h : body.InRange) :
    ∀ member ∈ body.fields, IsBodyField member := by
  have htext : ∀ name text, name ≠ "id" → name ≠ "children" →
      IsBodyField (field name (.ofText text)) :=
    fun name text hid hchildren => ⟨name, _, rfl, hid, hchildren, .text text⟩
  have hbool : ∀ name b, name ≠ "id" → name ≠ "children" → IsBodyField (field name (.bool b)) :=
    fun name b hid hchildren => ⟨name, _, rfl, hid, hchildren, .bool b⟩
  have hformat : ∀ format : DataFormat, IsBodyField (field "format" format.toJson) := by
    intro format
    cases format <;> exact htext _ _ (by decide) (by decide)
  -- One part for every member that is always there, and one for every member that may be left out.
  cases body with
  | widget className name label tooltip callback image x y w height =>
    simp only [ItemBody.InRange, List.forall_mem_cons] at h
    obtain ⟨hx, hy, hw, hheight, -⟩ := h
    simp only [ItemBody.fields, List.cons_append, List.forall_mem_cons, List.forall_mem_append,
      List.not_mem_nil, false_implies, implies_true, and_true]
    and_intros
    all_goals
      first
      | exact htext _ _ (by decide) (by decide)
      | exact isBodyField_optionalField (by decide) (by decide) _
      | exact isBodyField_coordinate (by decide) (by decide) ‹_›
  | _ =>
    simp only [ItemBody.fields, List.cons_append, List.forall_mem_cons, List.forall_mem_append,
      List.not_mem_nil, false_implies, implies_true, and_true]
    and_intros
    all_goals
      first
      | exact htext _ _ (by decide) (by decide)
      | exact hbool _ _ (by decide) (by decide)
      | exact hformat _
      | exact isBodyField_optionalField (by decide) (by decide) _
      | exact isBodyField_nonemptyField (by decide) (by decide) _

end FormWeave
