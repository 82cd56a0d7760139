import FormWeave.Proofs.IdentifierTable

/-!
# The search for an identifier

The forms of an identifier are looked at one after the other, with a counter of 32 bits, up to the
first that is free or belongs to the owner. `Identifiers.Searches` says how such a search goes and
which forms it looks at. Forms that it goes past are different identifiers of the table, so there are
at most as many as the table has: the search ends, the counter holds, and the number behind the
identifier that it ends at has eight digits at most.
-/

namespace FormWeave

/-! ## 1. The bytes of an identifier -/

namespace Identifier

theorem isIdentByte_hexDigit {c : Char} (h : (Text.hexValue? c).isSome) :
    isIdentByte (UInt8.ofNat c.toNat) = true := by
  have hbounds := Text.hexDigit_bounds h
  have hvalue : (UInt8.ofNat c.toNat).toNat = c.toNat := Utf8.toNat_ofNat (by omega)
  simp only [isIdentByte, Bool.or_eq_true, Utf8.between_iff, hvalue, UInt8.reduceToNat]
  rcases hbounds with hdigit | hlower | hupper
  · exact .inl (.inl (.inl hdigit))
  · exact .inl (.inr ⟨by omega, by omega⟩)
  · exact .inl (.inl (.inr ⟨by omega, by omega⟩))

theorem lt_of_isIdentByte {b : UInt8} (h : isIdentByte b = true) : b.toNat < 0x80 := by
  simp only [isIdentByte, Bool.or_eq_true, Utf8.between_iff, UInt8.reduceToNat, beq_iff_eq] at h
  rcases h with ((h | h) | h) | rfl
  · omega
  · omega
  · omega
  · decide

/-- Identifier bytes are characters of their own. -/
theorem utf8_identBytes {bytes : Bytes} (h : ∀ b ∈ bytes, isIdentByte b = true) :
    utf8 (String.ofList (bytes.map fun b => Char.ofNat b.toNat)) = bytes := by
  have hchar : ∀ b ∈ bytes, String.utf8EncodeChar (Char.ofNat b.toNat) = [b] := by
    intro b hb
    have hascii := lt_of_isIdentByte (h b hb)
    have hvalue : (Char.ofNat b.toNat).toNat = b.toNat := by
      rw [Char.ofNat, dif_pos (.inl (Nat.lt_trans hascii (by decide)))]
      rfl
    rw [utf8EncodeChar_ascii (hvalue.symm ▸ hascii), hvalue, UInt8.ofNat_toNat]
  rw [utf8_ofList, List.flatMap_map, List.flatMap_congr hchar, List.flatMap_singleton']

theorem isIdentByte_of_mem_stem {hint : String} {b : UInt8} (h : b ∈ stem hint) :
    isIdentByte b = true := List.mem_takeWhile_imp h

/-- An identifier without a number is the word, cut to its room, an underscore, and identifier
characters. -/
theorem utf8_base {word : String} (hword : ∀ c ∈ word.toList, c.toNat < 0x80)
    (name label : Option String) :
    ∃ rest, utf8 (base word name label) = (utf8 word).take 118 ++ 0x5f :: rest ∧
      (∀ b ∈ rest, isIdentByte b = true) ∧ (utf8 (base word name label)).length ≤ 119 := by
  let hint := ((name.filter (!·.isEmpty)).or label).getD ""
  let start := String.ofList (word.toList.take 118) ++ "_"
  let rest := (stem hint).take (119 - (utf8 start).length)
  have hrest : ∀ b ∈ rest, isIdentByte b = true :=
    fun b hb => isIdentByte_of_mem_stem (List.mem_of_mem_take hb)
  -- Each character of the word is one byte, so the cut falls at the same place.
  have hcut : utf8 (String.ofList (word.toList.take 118)) = (utf8 word).take 118 := by
    have hascii : ∀ c ∈ (String.ofList (word.toList.take 118)).toList, c.toNat < 0x80 := by
      rw [String.toList_ofList]
      exact fun c hc => hword c (List.mem_of_mem_take hc)
    rw [utf8_ascii hascii, utf8_ascii hword, String.toList_ofList, List.map_take]
  have hstart : utf8 start = (utf8 word).take 118 ++ [0x5f] := by
    rw [utf8_append, hcut]
    rfl
  have hbase : utf8 (base word name label) = utf8 start ++ rest := by
    have happend := utf8_append start (String.ofList (rest.map fun b => Char.ofNat b.toNat))
    rwa [utf8_identBytes hrest] at happend
  refine ⟨rest, ?_, hrest, ?_⟩
  · rw [hbase, hstart, List.append_assoc, List.singleton_append]
  · have hroom : (utf8 start).length ≤ 119 := by
      rw [hstart, List.length_append, List.length_take, List.length_singleton]
      omega
    have htaken : rest.length ≤ 119 - (utf8 start).length := List.length_take_le _ _
    rw [hbase, List.length_append]
    omega

/-- The number behind an identifier has at most eight digits as long as it has 32 bits. -/
theorem utf8_numbered (base : String) {n : Nat} (hn : n < 2 ^ 32) :
    ∃ digits, utf8 (numbered base n) = utf8 base ++ digits ∧
      (∀ b ∈ digits, isIdentByte b = true) ∧ digits.length ≤ 8 := by
  cases n with
  | zero => exact ⟨[], (List.append_nil _).symm, by simp, by decide⟩
  | succ n =>
    have hdigit : ∀ c ∈ (Text.hex 1 (n + 1)).toList, (Text.hexValue? c).isSome :=
      fun c hc => Text.isSome_of_mem_hex hc
    have hascii : ∀ c ∈ (Text.hex 1 (n + 1)).toList, c.toNat < 0x80 := fun c hc => by
      have hbounds := Text.hexDigit_bounds (hdigit c hc)
      omega
    have hlength : (Nat.toDigits 16 (n + 1)).length ≤ 8 :=
      Nat.toDigits_length 16 (n + 1) 8 (by decide) hn
    refine ⟨utf8 (Text.hex 1 (n + 1)), utf8_append _ _, fun b hb => ?_, ?_⟩
    · rw [utf8_ascii hascii] at hb
      obtain ⟨c, hc, rfl⟩ := List.mem_map.1 hb
      exact isIdentByte_hexDigit (hdigit c hc)
    · rw [utf8_ascii hascii, List.length_map, Text.hex, String.toList_ofList, Text.padZeros,
        List.length_append, List.length_replicate]
      omega

end Identifier

namespace Identifiers

variable {ω : Type} [DecidableEq ω]

/-! ## 2. How a search goes -/

/-- Where a search stands: the form it looks at next, and its number. -/
structure Search where
  number : UInt32
  form : String

inductive Look
  | found (text : String)
  | next (search : Search)
  | overflow

/-- A look at a form: it is taken if it is free or belongs to the owner. Otherwise the counter goes
up by one, if it can. -/
def look (ids : Identifiers ω) (owner : ω) (base : String) (here : Search) : Look :=
  match ids.owner? here.form with
  | none => .found here.form
  | some other =>
    if other = owner then .found here.form
    else if here.number = 0xffffffff then .overflow
    else .next { number := here.number + 1, form := base ++ Text.hex 1 (here.number + 1).toNat }

/-- A search that looks at `forms`, one after the other, and ends at the identifier `result`. If
there is none, the counter has come to its end. -/
inductive Searches (ids : Identifiers ω) (owner : ω) (base : String) :
    Search → (forms : List String) → (result : Option String) → Prop
  | found {here : Search} {text : String} (h : ids.look owner base here = .found text) :
    Searches ids owner base here [here.form] (some text)
  | overflow {here : Search} (h : ids.look owner base here = .overflow) :
    Searches ids owner base here [here.form] none
  | next {here there : Search} {forms : List String} {result : Option String}
    (h : ids.look owner base here = .next there)
    (hrest : Searches ids owner base there forms result) :
    Searches ids owner base here (here.form :: forms) result

variable {ids : Identifiers ω} {owner : ω} {base : String}

/-- There is one way for a search to go. -/
theorem Searches.unique {here : Search} {forms forms' : List String}
    {result result' : Option String} (h : ids.Searches owner base here forms result)
    (h' : ids.Searches owner base here forms' result') : forms = forms' ∧ result = result' := by
  induction h generalizing forms' with
  | found hlook =>
    cases h' with
    | found hlook' =>
      rw [hlook] at hlook'
      cases hlook'
      exact ⟨rfl, rfl⟩
    | overflow hlook' | next hlook' =>
      rw [hlook] at hlook'
      cases hlook'
  | overflow hlook =>
    cases h' with
    | overflow => exact ⟨rfl, rfl⟩
    | found hlook' | next hlook' =>
      rw [hlook] at hlook'
      cases hlook'
  | next hlook _ ih =>
    cases h' with
    | next hlook' hrest' =>
      rw [hlook] at hlook'
      cases hlook'
      obtain ⟨rfl, rfl⟩ := ih hrest'
      exact ⟨rfl, rfl⟩
    | found hlook' | overflow hlook' =>
      rw [hlook] at hlook'
      cases hlook'

/-! ## 3. One look, and all of them -/

def Search.at (base : String) (n : Nat) : Search :=
  { number := UInt32.ofNat n, form := Identifier.numbered base n }

/-- The search goes past a form of another owner, as long as its number has 32 bits. -/
theorem look_taken {n : Nat} {other : ω}
    (hother : ids.owner? (Identifier.numbered base n) = some other) (hne : other ≠ owner)
    (hn : n + 1 < 2 ^ 32) :
    ids.look owner base (.at base n) = .next (.at base (n + 1)) := by
  have hvalue : (UInt32.ofNat n).toNat = n :=
    UInt32.toNat_ofNat_of_lt' (Nat.lt_of_succ_lt hn)
  have hlast : UInt32.ofNat n ≠ 0xffffffff := by
    intro heq
    have htop : n = 0xffffffff := by rw [← hvalue, heq]; rfl
    omega
  have hnext : UInt32.ofNat n + 1 = UInt32.ofNat (n + 1) := (UInt32.ofNat_add n 1).symm
  have hnumber : (UInt32.ofNat (n + 1)).toNat = n + 1 := UInt32.toNat_ofNat_of_lt' hn
  simp only [look, Search.at, hother, if_neg hne, if_neg hlast, hnext, hnumber]
  rfl

theorem look_own {n : Nat}
    (h : ∀ other, ids.owner? (Identifier.numbered base n) = some other → other = owner) :
    ids.look owner base (.at base n) = .found (Identifier.numbered base n) := by
  simp only [look, Search.at]
  cases hfound : ids.owner? (Identifier.numbered base n) with
  | none => rfl
  | some other => exact if_pos (h other hfound)

/-- A search goes past the forms of others to the first form that is free or its own. -/
theorem searches_from {k : Nat} (hk : k < 2 ^ 32)
    (hothers : ∀ j < k, ∃ other, other ≠ owner ∧
      ids.owner? (Identifier.numbered base j) = some other)
    (hown : ∀ other, ids.owner? (Identifier.numbered base k) = some other → other = owner)
    (left : Nat) :
    ∀ n, n + left = k →
      ids.Searches owner base (.at base n)
        ((List.range' n (left + 1)).map (Identifier.numbered base))
        (some (Identifier.numbered base k)) := by
  induction left with
  | zero =>
    rintro n rfl
    exact .found (look_own hown)
  | succ left ih =>
    intro n hn
    obtain ⟨other, hne, hother⟩ := hothers n (by omega)
    rw [List.range'_succ, List.map_cons]
    exact .next (look_taken hother hne (by omega)) (ih (n + 1) (by omega))

/-! ## 4. The search within its budget -/

/-- The search for an identifier ends at the identifier that is given out. It looks at one form more
than the table has identifiers at most, and the counter does not come to its end. The identifier is
the word, cut to 118 bytes, an underscore, and identifier characters, at most 127 bytes. -/
theorem allocate_searched (ids : Identifiers ω) (owner : ω) {word : String}
    (name label : Option String) (hword : ∀ c ∈ word.toList, c.toNat < 0x80)
    (hsize : ids.size < 2 ^ 32) :
    let base := Identifier.base word name label
    let text := (ids.allocate owner word name label).1
    (∃ forms, ids.Searches owner base { number := 0, form := base } forms (some text)) ∧
      (∀ forms result, ids.Searches owner base { number := 0, form := base } forms result →
        forms.length ≤ ids.size + 1 ∧ result = some text) ∧
      (utf8 text).length ≤ 127 ∧
      ∃ rest, utf8 text = (utf8 word).take 118 ++ 0x5f :: rest ∧
        ∀ b ∈ rest, Identifier.isIdentByte b = true := by
  intro base text
  obtain ⟨k, hform, hothers, hown⟩ := ids.allocate_form owner word name label
  -- The forms that others have are distinct entries of the table.
  have hk : k ≤ ids.size := by
    refine forms_le_size base fun j hj => ?_
    obtain ⟨other, -, hother⟩ := hothers j hj
    rw [hother]
    rfl
  have hcounter : k < 2 ^ 32 := by omega
  have hsearch := searches_from hcounter hothers (hform ▸ hown) k 0 (Nat.zero_add k)
  rw [← hform] at hsearch
  obtain ⟨stem, hbase, hstem, hlength⟩ := Identifier.utf8_base hword name label
  obtain ⟨digits, htext, hdigits, hcount⟩ :=
    Identifier.utf8_numbered (Identifier.base word name label) hcounter
  rw [← hform] at htext
  refine ⟨⟨_, hsearch⟩, fun forms result h => ?_, ?_, stem ++ digits, ?_, ?_⟩
  · obtain ⟨rfl, rfl⟩ := h.unique hsearch
    refine ⟨?_, rfl⟩
    rw [List.length_map, List.length_range']
    omega
  · rw [htext, List.length_append]
    omega
  · rw [htext, hbase, List.append_assoc, List.cons_append]
  · intro b hb
    exact (List.mem_append.1 hb).elim (hstem b) (hdigits b)

/-- Both forms that others have are looked at in front of the third one, which is as many as a table
of two allows. -/
theorem allocate_searched_saves :
    let first := (({} : Identifiers Nat).allocate 1 "cb" none (some "Save1")).2
    let ids := (first.allocate 2 "cb" (some "Save") none).2
    (∀ c ∈ "cb".toList, c.toNat < 0x80) ∧ ids.size < 2 ^ 32 ∧ ids.size + 1 = 3 ∧
      (∃ forms, ids.Searches 3 "cb_Save" { number := 0, form := "cb_Save" } forms
        (some "cb_Save2")) ∧
      (∀ forms result,
        ids.Searches 3 "cb_Save" { number := 0, form := "cb_Save" } forms result →
          forms.length ≤ ids.size + 1 ∧ result = some "cb_Save2") ∧
      ∃ rest, utf8 "cb_Save2" = utf8 "cb" ++ 0x5f :: rest ∧
        ∀ b ∈ rest, Identifier.isIdentByte b = true := by
  intro first ids
  have hword : ∀ c ∈ "cb".toList, c.toNat < 0x80 := by simp
  have hsize : ids.size = 2 := by decide +kernel
  have hsmall : ids.size < 2 ^ 32 := by rw [hsize]; decide
  have hbase : Identifier.base "cb" none (some "&Save...") = "cb_Save" := by decide +kernel
  have htext : (ids.allocate 3 "cb" none (some "&Save...")).1 = "cb_Save2" := by decide +kernel
  have hcut : (utf8 "cb").take 118 = utf8 "cb" := by decide +kernel
  obtain ⟨hends, hbudget, -, hshape⟩ :=
    allocate_searched ids 3 none (some "&Save...") hword hsmall
  rw [hbase, htext] at hends
  rw [hbase, htext] at hbudget
  rw [htext, hcut] at hshape
  exact ⟨hword, hsmall, by rw [hsize], hends, hbudget, hshape⟩

end Identifiers

end FormWeave
