import FormWeave.Identifier
import FormWeave.Proofs.TagText
import Mathlib.Data.List.Nodup
import Mathlib.Data.List.Perm.Subperm
import Std.Data.TreeMap.Lemmas

/-!
# The table of identifiers

An owner gets the first form of its identifier that no other owner has. The table only grows, so the
forms in front of that one stay with their owners, and the owner gets the same identifier whenever
it asks again. In a run of requests, no identifier is given to two owners.
-/

namespace FormWeave

/-! ## 1. The forms of an identifier -/

theorem Text.hex_injective (width : Nat) : Function.Injective (Text.hex width) := by
  intro m n h
  have hdigits := String.ofList_injective h
  have hm := Text.digitsValue?_padZeros width m
  rw [hdigits, Text.digitsValue?_padZeros] at hm
  exact (Option.some.inj hm).symm

theorem Identifier.numbered_injective (base : String) :
    Function.Injective (Identifier.numbered base) := by
  have hne : ∀ n, Text.hex 1 n ≠ "" := by
    intro n h
    have hvalue := Text.digitsValue?_padZeros 1 n
    have hempty : Text.padZeros 1 (Nat.toDigits 16 n) = [] := String.ofList_injective h
    -- A number has one digit at least.
    have hlength := congrArg List.length hempty
    simp only [Text.padZeros, List.length_append, List.length_replicate, List.length_nil] at hlength
    omega
  intro m n h
  cases m with
  | zero =>
    cases n with
    | zero => rfl
    | succ n =>
      have hempty : base ++ "" = base ++ Text.hex 1 (n + 1) := String.append_empty.trans h
      exact absurd ((String.append_right_inj base).1 hempty).symm (hne _)
  | succ m =>
    cases n with
    | zero =>
      have hempty : base ++ Text.hex 1 (m + 1) = base ++ "" := h.trans String.append_empty.symm
      exact absurd ((String.append_right_inj base).1 hempty) (hne _)
    | succ n => exact Text.hex_injective 1 ((String.append_right_inj base).1 h)

namespace Identifiers

variable {ω : Type} {ids ids' : Identifiers ω} {owner : ω} {base text : String}

/-! ## 2. Tables that grow -/

/-- Every identifier of the one table has the same owner in the other. -/
def Within (ids ids' : Identifiers ω) : Prop :=
  ∀ text owner, ids.owner? text = some owner → ids'.owner? text = some owner

theorem Within.refl (ids : Identifiers ω) : ids.Within ids := fun _ _ h => h

theorem Within.trans {ids'' : Identifiers ω} (h : ids.Within ids') (h' : ids'.Within ids'') :
    ids.Within ids'' := fun text owner howner => h' text owner (h text owner howner)

/-- As many different identifiers as the table has room for are all of its identifiers. -/
theorem length_le_size {texts : List String} (hnodup : texts.Nodup)
    (h : ∀ text ∈ texts, (ids.owner? text).isSome) : texts.length ≤ ids.size := by
  rw [size, ← Std.TreeMap.length_keys]
  refine (hnodup.subperm fun text htext => ?_).length_le
  rw [Std.TreeMap.mem_keys, Std.TreeMap.mem_iff_isSome_getElem?]
  exact h text htext

/-- The table has room for its identifiers only, so as many forms of one identifier are in it. -/
theorem forms_le_size (base : String) {k : Nat}
    (h : ∀ j < k, (ids.owner? (Identifier.numbered base j)).isSome) : k ≤ ids.size := by
  have hforms : ((List.range k).map (Identifier.numbered base)).length ≤ ids.size := by
    refine length_le_size (List.Nodup.map (Identifier.numbered_injective base) List.nodup_range) ?_
    intro text htext
    obtain ⟨j, hj, rfl⟩ := List.mem_map.1 htext
    exact h j (List.mem_range.1 hj)
  rwa [List.length_map, List.length_range] at hforms

/-! ## 3. The first form -/

/-- The owner has the first form of an identifier that no other owner has. -/
def Gave (ids : Identifiers ω) (owner : ω) (base text : String) : Prop :=
  ids.owner? text = some owner ∧ ∃ k, text = Identifier.numbered base k ∧
    ∀ j < k, ∃ other, other ≠ owner ∧ ids.owner? (Identifier.numbered base j) = some other

theorem Gave.within (h : ids.Gave owner base text) (hids : ids.Within ids') :
    ids'.Gave owner base text := by
  obtain ⟨howner, k, htext, hothers⟩ := h
  refine ⟨hids _ _ howner, k, htext, fun j hj => ?_⟩
  obtain ⟨other, hne, hother⟩ := hothers j hj
  exact ⟨other, hne, hids _ _ hother⟩

/-- An owner has one identifier. -/
theorem Gave.unique {text' : String} (h : ids.Gave owner base text)
    (h' : ids.Gave owner base text') : text = text' := by
  obtain ⟨howner, k, rfl, hothers⟩ := h
  obtain ⟨howner', k', rfl, hothers'⟩ := h'
  -- Of two forms the earlier one would belong to another owner.
  rcases Nat.lt_trichotomy k k' with hlt | rfl | hlt
  · obtain ⟨other, hne, hother⟩ := hothers' k hlt
    exact absurd (Option.some.inj (hother.symm.trans howner)) hne
  · rfl
  · obtain ⟨other, hne, hother⟩ := hothers k' hlt
    exact absurd (Option.some.inj (hother.symm.trans howner')) hne

/-- Owners with one identifier are one owner. -/
theorem Gave.owner_eq {owner' : ω} {base' : String} (h : ids.Gave owner base text)
    (h' : ids.Gave owner' base' text) : owner = owner' :=
  Option.some.inj (h.1.symm.trans h'.1)

variable [DecidableEq ω]

/-- The search ends at a form that is free or belongs to the owner; those in front of it have other
owners. -/
theorem firstFree_spec (ids : Identifiers ω) (owner : ω) (base : String) (fuel : Nat) :
    ∀ n, ids.size ≤ n + fuel →
      (∀ j < n, ∃ other, other ≠ owner ∧
        ids.owner? (Identifier.numbered base j) = some other) →
      ∃ k, ids.firstFree owner base fuel n = Identifier.numbered base k ∧
        (∀ j < k, ∃ other, other ≠ owner ∧
          ids.owner? (Identifier.numbered base j) = some other) ∧
        ∀ other, ids.owner? (Identifier.numbered base k) = some other → other = owner := by
  induction fuel with
  | zero =>
    intro n hsize htaken
    refine ⟨n, rfl, htaken, fun other hother => ?_⟩
    -- All forms up to this one would be more than the table has.
    have hforms : n + 1 ≤ ids.size := by
      refine forms_le_size base fun j hj => ?_
      rcases Nat.lt_succ_iff_lt_or_eq.1 hj with hlt | rfl
      · obtain ⟨taker, -, htaker⟩ := htaken j hlt
        rw [htaker]
        rfl
      · rw [hother]
        rfl
    omega
  | succ fuel ih =>
    intro n hsize htaken
    rw [firstFree]
    cases hfound : ids.owner? (Identifier.numbered base n) with
    | none =>
      refine ⟨n, rfl, htaken, fun other hother => ?_⟩
      rw [hfound] at hother
      cases hother
    | some found =>
      dsimp only
      by_cases heq : found = owner
      · rw [if_pos heq]
        refine ⟨n, rfl, htaken, fun other hother => ?_⟩
        rw [hfound] at hother
        exact (Option.some.inj hother).symm.trans heq
      · rw [if_neg heq]
        refine ih (n + 1) (by omega) fun j hj => ?_
        rcases Nat.lt_succ_iff_lt_or_eq.1 hj with hlt | rfl
        · exact htaken j hlt
        · exact ⟨found, heq, hfound⟩

/-! ## 4. Asking for an identifier -/

variable (ids owner) (word : String) (name label : Option String)

theorem allocate_fst : (ids.allocate owner word name label).1 =
    ids.firstFree owner (Identifier.base word name label) ids.size 0 := by
  unfold allocate
  dsimp only
  split <;> rfl

/-- The identifier given out is a form that no other owner has, behind forms that others have. -/
theorem allocate_form : ∃ k,
    (ids.allocate owner word name label).1 =
        Identifier.numbered (Identifier.base word name label) k ∧
      (∀ j < k, ∃ other, other ≠ owner ∧
        ids.owner? (Identifier.numbered (Identifier.base word name label) j) = some other) ∧
      ∀ other, ids.owner? (ids.allocate owner word name label).1 = some other → other = owner := by
  obtain ⟨k, hform, hothers, howner⟩ :=
    ids.firstFree_spec owner (Identifier.base word name label) ids.size 0 (by omega) (by simp)
  rw [allocate_fst, hform]
  exact ⟨k, rfl, hothers, howner⟩

theorem owner?_allocate (text : String) :
    (ids.allocate owner word name label).2.owner? text =
      if text = (ids.allocate owner word name label).1 then some owner else ids.owner? text := by
  obtain ⟨-, -, -, howner⟩ := ids.allocate_form owner word name label
  rw [allocate_fst] at howner ⊢
  unfold allocate
  dsimp only
  split
  · next found hfound =>
    by_cases heq : text = ids.firstFree owner (Identifier.base word name label) ids.size 0
    · rw [if_pos heq, heq, hfound, howner found hfound]
    · rw [if_neg heq]
  · simp only [owner?, Std.TreeMap.getElem?_insert, Std.LawfulEqCmp.compare_eq_iff_eq]
    simp only [eq_comm]

theorem within_allocate : ids.Within (ids.allocate owner word name label).2 := by
  intro text other hother
  obtain ⟨-, -, -, howner⟩ := ids.allocate_form owner word name label
  rw [owner?_allocate]
  split
  · next heq => rw [howner other (heq ▸ hother)]
  · exact hother

theorem gave_allocate :
    (ids.allocate owner word name label).2.Gave owner (Identifier.base word name label)
      (ids.allocate owner word name label).1 := by
  obtain ⟨k, hform, hothers, -⟩ := ids.allocate_form owner word name label
  refine ⟨by rw [owner?_allocate, if_pos rfl], k, hform, fun j hj => ?_⟩
  obtain ⟨other, hne, hother⟩ := hothers j hj
  exact ⟨other, hne, ids.within_allocate owner word name label _ _ hother⟩

variable {ids owner word name label}

/-- An owner that asks again gets what a later table says. -/
theorem allocate_eq_of_within (h : (ids.allocate owner word name label).2.Within ids') :
    (ids.allocate owner word name label).1 = (ids'.allocate owner word name label).1 := by
  have hfirst := (ids.gave_allocate owner word name label).within h
  have hagain := hfirst.within (ids'.within_allocate owner word name label)
  exact hagain.unique (ids'.gave_allocate owner word name label)

/-- The identifier of an owner is the one it gets. -/
theorem Gave.allocate_eq (h : ids.Gave owner (Identifier.base word name label) text) :
    (ids.allocate owner word name label).1 = text :=
  (ids.gave_allocate owner word name label).unique
    (h.within (ids.within_allocate owner word name label))

/-! ## 5. A run of requests -/

structure Request (ω : Type) where
  owner : ω
  word : String
  name : Option String := none
  label : Option String := none

def answers (ids : Identifiers ω) : List (Request ω) → List String
  | [] => []
  | request :: rest =>
    let (text, next) := ids.allocate request.owner request.word request.name request.label
    text :: next.answers rest

theorem length_answers (requests : List (Request ω)) :
    ∀ ids : Identifiers ω, (ids.answers requests).length = requests.length := by
  induction requests with
  | nil => exact fun _ => rfl
  | cons request rest ih => exact fun ids => congrArg Nat.succ (ih _)

/-- A request is answered from a table that has grown from the one in front of the run. -/
theorem exists_table_of_answer {requests : List (Request ω)} {request : Request ω} :
    ∀ {ids : Identifiers ω}, (request, text) ∈ requests.zip (ids.answers requests) →
      ∃ grown : Identifiers ω, ids.Within grown ∧
        (grown.allocate request.owner request.word request.name request.label).1 = text := by
  induction requests with
  | nil => exact fun h => by cases h
  | cons first rest ih =>
    intro ids h
    rw [answers, List.zip_cons_cons] at h
    rcases List.mem_cons.1 h with heq | h
    · obtain ⟨rfl, rfl⟩ := Prod.mk.inj heq
      exact ⟨ids, .refl ids, rfl⟩
    · obtain ⟨grown, hgrown, htext⟩ := ih h
      exact ⟨grown, (ids.within_allocate _ _ _ _).trans hgrown, htext⟩

/-- Whatever requests are made in between, two that get the same identifier have one owner, and an
owner that asks for the same thing twice gets the same identifier. -/
theorem answers_pairwise (ids : Identifiers ω) (requests : List (Request ω)) :
    (ids.answers requests).length = requests.length ∧
      (requests.zip (ids.answers requests)).Pairwise fun call later =>
        (call.2 = later.2 → call.1.owner = later.1.owner) ∧
          (call.1 = later.1 → call.2 = later.2) := by
  refine ⟨length_answers requests ids, ?_⟩
  induction requests generalizing ids with
  | nil => exact .nil
  | cons request rest ih =>
    rw [answers, List.zip_cons_cons, List.pairwise_cons]
    refine ⟨fun ⟨later, text⟩ hlater => ?_, ih _⟩
    obtain ⟨grown, hgrown, rfl⟩ := exists_table_of_answer hlater
    constructor
    · -- What the first owner was given is still its own when the later request is answered.
      intro htext
      have hfirst := ((ids.gave_allocate request.owner request.word request.name
        request.label).within hgrown).within (grown.within_allocate later.owner later.word
          later.name later.label)
      have hlast := grown.gave_allocate later.owner later.word later.name later.label
      dsimp only at htext
      rw [htext] at hfirst
      exact hfirst.owner_eq hlast
    · rintro rfl
      exact allocate_eq_of_within hgrown

/-- The first number is taken by a label that ends in it. -/
example :
    ({} : Identifiers Nat).answers
        [⟨1, "cb", none, some "Save1"⟩, ⟨2, "cb", none, some "Save"⟩, ⟨3, "cb", none, some "Save"⟩,
          ⟨2, "cb", none, some "Save"⟩] =
      ["cb_Save1", "cb_Save", "cb_Save2", "cb_Save"] := by
  decide +kernel

end Identifiers

end FormWeave
