import FormWeave.Proofs.JsonScalars

/-!
# JSON read back

What is written for a value is cut into the tokens of the value, wherever the lines are broken, and
the tokens are put together to the same value. This holds of all values that are made of texts and
integers.
-/

namespace FormWeave.Json

/-! ## 1. Tokens of a value -/

namespace Token

def separated : List (List Token) → List Token
  | [] => []
  | first :: rest => first ++ rest.flatMap (comma :: ·)

def enclosed (opening closing : Token) (parts : List (List Token)) : List Token :=
  opening :: (separated parts ++ [closing])

end Token

namespace Value

mutual
def tokens : Value → List Token
  | null => [.null]
  | bool b => [.bool b]
  | number n => [.number n]
  | string raw => [.string raw]
  | array items => Token.enclosed .openArray .closeArray (itemTokens items)
  | object members => Token.enclosed .openObject .closeObject (memberTokens members)

def itemTokens : List Value → List (List Token)
  | [] => []
  | item :: rest => item.tokens :: itemTokens rest

def memberTokens : List (List Char × Value) → List (List Token)
  | [] => []
  | (name, value) :: rest => (.string name :: .colon :: value.tokens) :: memberTokens rest
end

mutual
def Plain : Value → Prop
  | null | bool _ => True
  | number n => ∃ i : Int, n = .ofInt i
  | string raw => ∃ text, raw = Escape.encode text
  | array items => ItemsPlain items
  | object members => MembersPlain members

def ItemsPlain : List Value → Prop
  | [] => True
  | item :: rest => item.Plain ∧ ItemsPlain rest

def MembersPlain : List (List Char × Value) → Prop
  | [] => True
  | (name, value) :: rest =>
    (∃ text, name = Escape.encode text) ∧ value.Plain ∧ MembersPlain rest
end

end Value

/-! ## 2. Text that is cut into tokens -/

namespace Token

/-- The tokens are taken off the front of the text, whatever of the kind `follow` stands behind. -/
def Lexes (follow : List Char → Prop) (text : List Char) (tokens : List Token) : Prop :=
  ∀ rest, follow rest → ∀ done fuel, (text ++ rest).length ≤ fuel →
    ∃ left, rest.length ≤ left ∧
      lexFrom done fuel (text ++ rest) = lexFrom (tokens.reverse ++ done) left rest

def Anything (_ : List Char) : Prop := True

variable {follow next : List Char → Prop} {front back rest : List Char} {tokens more : List Token}

theorem Lexes.append (h : Lexes follow front tokens) (hback : Lexes next back more)
    (hfollow : ∀ rest, next rest → follow (back ++ rest)) :
    Lexes next (front ++ back) (tokens ++ more) := by
  intro rest hrest done fuel hfuel
  rw [List.append_assoc] at hfuel ⊢
  obtain ⟨between, hbetween, hfront⟩ := h _ (hfollow rest hrest) done fuel hfuel
  obtain ⟨left, hleft, hmore⟩ := hback rest hrest (tokens.reverse ++ done) between hbetween
  refine ⟨left, hleft, ?_⟩
  rw [hfront, hmore, List.reverse_append, List.append_assoc]

theorem Lexes.then (h : Lexes Anything front tokens) (hback : Lexes next back more) :
    Lexes next (front ++ back) (tokens ++ more) := h.append hback fun _ _ => trivial

theorem Lexes.mono (h : Lexes follow front tokens) (hnext : ∀ rest, next rest → follow rest) :
    Lexes next front tokens := fun rest hrest => h rest (hnext rest hrest)

theorem Lexes.lex (h : Lexes Stops front tokens) : lex front = some tokens := by
  have hend : Stops [] := fun _ hnone => by cases hnone
  obtain ⟨left, -, hlexed⟩ := h [] hend [] front.length (by rw [List.append_nil])
  rw [List.append_nil, List.append_nil] at hlexed
  rw [Token.lex, hlexed, lexFrom, List.reverse_reverse]

theorem lexes_space (h : ∀ c ∈ front, isSpace c = true) : Lexes Anything front [] := by
  induction front with
  | nil => exact fun rest _ done fuel hfuel => ⟨fuel, hfuel, rfl⟩
  | cons c front ih =>
    intro rest hrest done fuel hfuel
    cases fuel with
    | zero => cases hfuel
    | succ fuel =>
      obtain ⟨left, hleft, hmore⟩ := ih (fun d hd => h d (List.mem_cons_of_mem _ hd)) rest hrest
        done fuel (Nat.le_of_succ_le_succ hfuel)
      refine ⟨left, hleft, ?_⟩
      rw [List.cons_append, lexFrom, if_pos (h c List.mem_cons_self), hmore]

/-- A text that is one token. -/
theorem lexes_token {c : Char} {token : Token} (hspace : isSpace c = false)
    (h : ∀ rest, follow rest → first? (c :: front ++ rest) = some (token, rest)) :
    Lexes follow (c :: front) [token] := by
  intro rest hrest done fuel hfuel
  cases fuel with
  | zero => cases hfuel
  | succ fuel =>
    have hlength : rest.length ≤ fuel := by
      simp only [List.cons_append, List.length_cons, List.length_append] at hfuel
      omega
    have hfirst := h rest hrest
    refine ⟨fuel, hlength, ?_⟩
    rw [List.cons_append] at hfirst ⊢
    rw [lexFrom, hspace, if_neg Bool.false_ne_true, hfirst]
    rfl

theorem lexes_string (text : List Char) :
    Lexes Anything (renderString (Escape.encode text)).toList [string (Escape.encode text)] := by
  have hwritten : (renderString (Escape.encode text)).toList =
      '"' :: (Escape.encode text ++ ['"']) := by
    simp [renderString]
  rw [hwritten]
  refine lexes_token rfl fun rest _ => ?_
  rw [List.cons_append, List.append_assoc, List.singleton_append, first?, string?_encode]
  rfl

theorem lexes_number (n : Int) : Lexes Stops (Number.ofInt n).render.toList [number (.ofInt n)] := by
  obtain ⟨first, more, hmore, -, hdigits⟩ := toDigits_cons n.natAbs
  -- The first character is a sign or a digit.
  obtain ⟨c, cs, hwritten, hc⟩ : ∃ c cs, (Number.ofInt n).render.toList = c :: cs ∧
      (c = '-' ∨ isDigit c = true) := by
    rw [toList_render_ofInt, hmore]
    by_cases hn : n < 0
    · rw [if_pos hn]
      exact ⟨_, _, rfl, .inl rfl⟩
    · rw [if_neg hn]
      exact ⟨_, _, rfl, .inr (hdigits first List.mem_cons_self)⟩
  have hne : ∀ d, ¬ (d = '-' ∨ isDigit d = true) → c ≠ d := fun d hd heq => hd (heq ▸ hc)
  rw [hwritten]
  refine lexes_token ?_ fun rest hrest => ?_
  · simp only [isSpace, Bool.or_eq_false_iff, beq_eq_false_iff_ne]
    exact ⟨⟨⟨hne _ (by decide), hne _ (by decide)⟩, hne _ (by decide)⟩, hne _ (by decide)⟩
  · have hnumber := number?_ofInt hrest n
    rw [hwritten, List.cons_append] at hnumber
    rw [List.cons_append, first?, hnumber]
    · rfl
    all_goals
      intros
      rename_i heq
      exact hne _ (by decide) (List.cons.inj heq).1

end Token

/-! ## 3. The layout of a value -/

namespace Value

open Token

theorem toList_newLine (level : Nat) :
    (newLine level).toList = '\n' :: List.replicate (2 * level) ' ' := by
  simp [newLine]

theorem lexes_newLine (level : Nat) : Lexes Anything (newLine level).toList [] := by
  refine lexes_space fun c hc => ?_
  rw [toList_newLine] at hc
  rcases List.mem_cons.1 hc with rfl | hc
  · rfl
  · rw [List.eq_of_mem_replicate hc]
    rfl

theorem stops_newLine (level : Nat) (rest : List Char) :
    Stops ((newLine level).toList ++ rest) := by
  intro c hc
  rw [toList_newLine] at hc
  cases hc
  decide

theorem lexes_comma (level : Nat) : Lexes Anything ("," ++ newLine level).toList [.comma] := by
  have hcomma : Lexes Anything ",".toList [.comma] := lexes_token rfl fun _ _ => rfl
  rw [String.toList_append]
  exact hcomma.then (lexes_newLine level)

theorem stops_comma (level : Nat) (rest : List Char) :
    Stops (("," ++ newLine level).toList ++ rest) := by
  intro c hc
  rw [String.toList_append] at hc
  cases hc
  decide

abbrev Entries := List.Forall₂ fun (entry : String) (tokens : List Token) =>
  Lexes Stops entry.toList tokens

theorem lexes_intercalate (level : Nat) {entries : List String} {parts : List (List Token)}
    (h : Entries entries parts) :
    ∀ {entry : String} {part : List Token}, Lexes Stops entry.toList part →
      Lexes Stops (String.intercalate ("," ++ newLine level) (entry :: entries)).toList
        (separated (part :: parts)) := by
  induction h with
  | nil =>
    intro entry part hentry
    rw [String.intercalate_singleton, separated, List.flatMap_nil, List.append_nil]
    exact hentry
  | cons hnext _ ih =>
    intro entry part hentry
    rw [String.intercalate_cons_cons, String.toList_append, String.toList_append, List.append_assoc]
    refine hentry.append ((lexes_comma level).then (ih hnext)) fun rest _ => ?_
    rw [List.append_assoc]
    exact stops_comma level _

theorem lexes_block {opening closing : String} {openToken closeToken : Token}
    (hopen : Lexes Anything opening.toList [openToken])
    (hclose : Lexes Anything closing.toList [closeToken]) (level : Nat) {entries : List String}
    {parts : List (List Token)} (h : Entries entries parts) :
    Lexes Anything (block opening closing level entries).toList
      (enclosed openToken closeToken parts) := by
  unfold block enclosed
  cases h with
  | nil =>
    rw [List.isEmpty_nil, if_pos rfl, String.toList_append]
    exact hopen.then hclose
  | cons hentry hentries =>
    have hlines := (lexes_intercalate (level + 1) hentries hentry).append
      ((lexes_newLine level).then hclose) fun rest _ => by
        rw [List.append_assoc]
        exact stops_newLine level _
    have hall := hopen.then ((lexes_newLine (level + 1)).then hlines)
    rw [List.isEmpty_cons, if_neg Bool.false_ne_true]
    simpa only [String.toList_append, List.append_assoc, List.singleton_append, List.nil_append]
      using hall

mutual
/-- The text of a value is cut into its tokens. -/
theorem lexes_prettyAt (level : Nat) (value : Value) (h : value.Plain) :
    Lexes Stops (prettyAt level value).toList value.tokens := by
  match value with
  | null =>
    have hnull : Lexes Stops "null".toList [.null] := lexes_token rfl fun _ _ => rfl
    exact hnull
  | bool true =>
    have htrue : Lexes Stops "true".toList [.bool true] := lexes_token rfl fun _ _ => rfl
    exact htrue
  | bool false =>
    have hfalse : Lexes Stops "false".toList [.bool false] := lexes_token rfl fun _ _ => rfl
    exact hfalse
  | number n =>
    obtain ⟨i, rfl⟩ := h
    exact lexes_number i
  | string raw =>
    obtain ⟨text, rfl⟩ := h
    exact (lexes_string text).mono fun _ _ => trivial
  | array items =>
    have hopen : Lexes Anything "[".toList [.openArray] := lexes_token rfl fun _ _ => rfl
    have hclose : Lexes Anything "]".toList [.closeArray] := lexes_token rfl fun _ _ => rfl
    rw [prettyAt, tokens]
    exact (lexes_block hopen hclose level (lexes_prettyItems (level + 1) items h)).mono
      fun _ _ => trivial
  | object members =>
    have hopen : Lexes Anything "\x7b".toList [.openObject] := lexes_token rfl fun _ _ => rfl
    have hclose : Lexes Anything "\x7d".toList [.closeObject] := lexes_token rfl fun _ _ => rfl
    rw [prettyAt, tokens]
    exact (lexes_block hopen hclose level (lexes_prettyMembers (level + 1) members h)).mono
      fun _ _ => trivial

theorem lexes_prettyItems (level : Nat) (items : List Value) (h : ItemsPlain items) :
    Entries (prettyItems level items) (itemTokens items) := by
  match items with
  | [] => exact .nil
  | item :: rest =>
    exact .cons (lexes_prettyAt level item h.1) (lexes_prettyItems level rest h.2)

theorem lexes_prettyMembers (level : Nat) (members : List (List Char × Value))
    (h : MembersPlain members) :
    Entries (prettyMembers level members) (memberTokens members) := by
  match members with
  | [] => exact .nil
  | (name, value) :: rest =>
    obtain ⟨⟨text, rfl⟩, hvalue, hrest⟩ := h
    have hcolon : Lexes Anything ": ".toList [.colon] :=
      (lexes_token rfl fun _ _ => rfl : Lexes Anything [':'] [.colon]).then
        (lexes_space fun c hc => by rw [List.mem_singleton.1 hc]; rfl)
    have hmember := (lexes_string text).then (hcolon.then (lexes_prettyAt level value hvalue))
    refine .cons ?_ (lexes_prettyMembers level rest hrest)
    simpa only [String.toList_append, List.append_assoc, List.singleton_append] using hmember
end

/-! ## 4. Tokens that are put together -/

open ReaderState

/-- The tokens of a value are read wherever a value may begin. -/
def Reads (value : Value) : Prop :=
  ∃ first rest, value.tokens = first :: rest ∧ first ≠ .closeArray ∧
    ∀ stack, (begin? stack first).bind (rest.foldlM next?) = some (after stack value)

variable {value : Value}

theorem Reads.behind_value (h : value.Reads) (stack : List Frame) (more : List Token) :
    (value.tokens ++ more).foldlM next? (.value stack) = more.foldlM next? (after stack value) := by
  obtain ⟨first, rest, htokens, -, hreads⟩ := h
  have hvalue : value.tokens.foldlM next? (.value stack) = some (after stack value) := by
    rw [htokens, List.foldlM_cons]
    exact hreads stack
  rw [List.foldlM_append, hvalue]
  rfl

theorem Reads.behind_openArray (h : value.Reads) (stack : List Frame) (more : List Token) :
    (value.tokens ++ more).foldlM next? (firstItem stack) =
      more.foldlM next? (after (.array [] :: stack) value) := by
  obtain ⟨first, rest, htokens, hclose, hreads⟩ := h
  have hvalue : value.tokens.foldlM next? (firstItem stack) =
      some (after (.array [] :: stack) value) := by
    rw [htokens, List.foldlM_cons, next?]
    · exact hreads _
    · exact hclose
  rw [List.foldlM_append, hvalue]
  rfl

/-- Behind an item stand the other items of an array and its end. -/
theorem read_items {items : List Value} (h : ∀ item ∈ items, item.Reads) (stack : List Frame) :
    ∀ done value, ((itemTokens items).flatMap (Token.comma :: ·) ++ [Token.closeArray]).foldlM next?
      (after (.array done :: stack) value) =
        some (after stack (.array (done.reverse ++ value :: items))) := by
  induction items with
  | nil =>
    intro done value
    rw [← List.reverse_cons]
    rfl
  | cons item items ih =>
    intro done value
    have hitems := ih fun other hother => h other (List.mem_cons_of_mem _ hother)
    rw [itemTokens, List.flatMap_cons, List.append_assoc, List.cons_append, List.foldlM_cons]
    show (item.tokens ++ _).foldlM next? (.value (.array (value :: done) :: stack)) = _
    rw [(h item List.mem_cons_self).behind_value, hitems, List.reverse_cons, List.append_assoc]
    rfl

theorem read_members {members : List (List Char × Value)} (h : ∀ member ∈ members, member.2.Reads)
    (stack : List Frame) : ∀ done name value,
      ((memberTokens members).flatMap (Token.comma :: ·) ++ [Token.closeObject]).foldlM next?
        (after (.object done name :: stack) value) =
          some (after stack (.object (done.reverse ++ (name, value) :: members))) := by
  induction members with
  | nil =>
    intro done name value
    rw [← List.reverse_cons]
    rfl
  | cons member members ih =>
    intro done name value
    obtain ⟨next, other⟩ := member
    have hmembers := ih fun other hother => h other (List.mem_cons_of_mem _ hother)
    rw [memberTokens, List.flatMap_cons, List.append_assoc, List.cons_append, List.foldlM_cons]
    show (other.tokens ++ _).foldlM next?
      (.value (.object ((name, value) :: done) next :: stack)) = _
    rw [(h (next, other) List.mem_cons_self).behind_value, hmembers, List.reverse_cons,
      List.append_assoc]
    rfl

mutual
theorem reads (value : Value) : value.Reads := by
  match value with
  | null | bool _ | number _ | string _ => exact ⟨_, [], rfl, Token.noConfusion, fun _ => rfl⟩
  | array items =>
    refine ⟨.openArray, _, rfl, Token.noConfusion, fun stack => ?_⟩
    show List.foldlM next? (firstItem stack) _ = _
    have hitems := reads_items items
    match items with
    | [] => rfl
    | item :: rest =>
      rw [itemTokens, Token.separated, List.append_assoc,
        (hitems item List.mem_cons_self).behind_openArray,
        read_items fun other hother => hitems other (List.mem_cons_of_mem _ hother)]
      rfl
  | object members =>
    refine ⟨.openObject, _, rfl, Token.noConfusion, fun stack => ?_⟩
    show List.foldlM next? (name stack [] true) _ = _
    have hmembers := reads_members members
    match members with
    | [] => rfl
    | (first, held) :: rest =>
      rw [memberTokens, Token.separated, List.append_assoc]
      show (held.tokens ++ _).foldlM next? (.value (.object [] first :: stack)) = _
      rw [(hmembers (first, held) List.mem_cons_self).behind_value,
        read_members fun other hother => hmembers other (List.mem_cons_of_mem _ hother)]
      rfl

theorem reads_items (items : List Value) : ∀ item ∈ items, item.Reads := by
  match items with
  | [] => exact fun _ hnone => absurd hnone List.not_mem_nil
  | item :: rest => exact List.forall_mem_cons.2 ⟨reads item, reads_items rest⟩

theorem reads_members (members : List (List Char × Value)) :
    ∀ member ∈ members, member.2.Reads := by
  match members with
  | [] => exact fun _ hnone => absurd hnone List.not_mem_nil
  | (_, held) :: rest => exact List.forall_mem_cons.2 ⟨reads held, reads_members rest⟩
end

theorem ofTokens?_tokens (value : Value) : ofTokens? value.tokens = some value := by
  have hvalue := (reads value).behind_value [] []
  rw [List.append_nil] at hvalue
  rw [ofTokens?, hvalue]
  rfl

/-- A value of texts and integers is read back from its text. -/
theorem parse?_pretty {value : Value} (h : value.Plain) : parse? value.pretty = some value := by
  have htokens : Token.lex value.pretty.toList = some value.tokens :=
    (lexes_prettyAt 0 value h).lex
  rw [parse?, htokens]
  exact ofTokens?_tokens value

end Value

end FormWeave.Json
