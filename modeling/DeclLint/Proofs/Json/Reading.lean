import DeclLint.Proofs.Json.Lexeme

/-!
# The reader and the grammar

A value has one row of tokens.  The characters of a text are cut into the tokens of the
value that they spell, and the tokens are assembled into the value that they belong to.
Both steps are exact: nothing that the grammar allows is refused, and nothing else is read.

* `JsonValue.tokens` — the tokens of a value;
* `JsonPhrase.Spells.tokensFrom?_eq`, `JsonValue.lexed_of_tokensFrom?` — cutting;
* `JsonValue.assembled`, `JsonValue.tokens_of_assemble` — assembling;
* `JsonValue.respelled` — the characters of a value's tokens spell the value;
* `JsonValue.parse?_eq_some_iff` — **the reader reads the grammar.**
-/

namespace DeclLint

namespace JsonValue

mutual

/-- The tokens of a value. -/
def tokens : JsonValue → List JsonToken
  | .array items => .openBracket :: (itemTokens items ++ [.closeBracket])
  | .object members => .openBrace :: (memberTokens members ++ [.closeBrace])
  | .null => [.scalar .null]
  | .bool b => [.scalar (.bool b)]
  | .number literal => [.scalar (.number literal)]
  | .string text => [.scalar (.string text)]

/-- The tokens of items, with commas between them. -/
def itemTokens : List JsonValue → List JsonToken
  | [] => []
  | [v] => tokens v
  | v :: next :: vs => tokens v ++ .comma :: itemTokens (next :: vs)

/-- The tokens of members, with commas between them. -/
def memberTokens : List (JsonText × JsonValue) → List JsonToken
  | [] => []
  | [(key, v)] => .scalar (.string key) :: .colon :: tokens v
  | (key, v) :: next :: ms =>
      .scalar (.string key) :: .colon :: (tokens v ++ .comma :: memberTokens (next :: ms))

end

/-- **Induction on a value.** -/
@[elab_as_elim]
theorem valueInduction {motive : JsonValue → Prop} (null : motive .null)
    (bool : ∀ b, motive (.bool b)) (number : ∀ literal, motive (.number literal))
    (string : ∀ text, motive (.string text))
    (array : ∀ vs, (∀ v ∈ vs, motive v) → motive (.array vs))
    (object : ∀ ms : List (JsonText × JsonValue), (∀ m ∈ ms, motive m.2) → motive (.object ms)) :
    ∀ v, motive v
  | .null => null
  | .bool b => bool b
  | .number literal => number literal
  | .string text => string text
  | .array vs => array vs fun v _ => valueInduction null bool number string array object v
  | .object ms => object ms fun (_, v) _ => valueInduction null bool number string array object v
termination_by v => sizeOf v
decreasing_by
  next hmem =>
    have hlt := List.sizeOf_lt_of_mem hmem
    simp
    omega
  next hmem =>
    have hlt := List.sizeOf_lt_of_mem hmem
    simp at hlt ⊢
    omega

end JsonValue

/-- The tokens of a phrase. -/
def JsonPhrase.tokens : JsonPhrase → List JsonToken
  | value v => v.tokens
  | element v => v.tokens
  | items vs => JsonValue.itemTokens vs
  | members ms => JsonValue.memberTokens ms

open JsonValue

section Cutting

variable {cs rest : List Char} {v : JsonValue} {t : JsonToken}

namespace JsonValue

theorem tokens_of_scalar (h : ScalarText v cs) : v.tokens = [.scalar v] := by
  cases h <;> simp [tokens]

theorem itemTokens_cons {vs : List JsonValue} (h : vs ≠ []) (v : JsonValue) :
    itemTokens (v :: vs) = tokens v ++ .comma :: itemTokens vs := by
  obtain ⟨next, vs, rfl⟩ := List.exists_cons_of_ne_nil h
  simp [itemTokens]

theorem memberTokens_cons {ms : List (JsonText × JsonValue)} (h : ms ≠ []) (key : JsonText)
    (v : JsonValue) :
    memberTokens ((key, v) :: ms) =
      .scalar (.string key) :: .colon :: (tokens v ++ .comma :: memberTokens ms) := by
  obtain ⟨next, ms, rfl⟩ := List.exists_cons_of_ne_nil h
  simp [memberTokens]

/-- Blanks between tokens are passed over. -/
theorem tokensFrom?_blank (h : IsBlank cs) (done : List JsonToken) (rest : List Char) :
    tokensFrom? done (cs ++ rest) = tokensFrom? done rest := by
  induction cs with
  | nil => rfl
  | cons c cs ih =>
      obtain ⟨hc, hcs⟩ := List.forall_mem_cons.mp h
      rw [List.cons_append, tokensFrom?, if_pos hc]
      exact ih hcs

/-- A token is read and the rest is read behind it. -/
theorem tokensFrom?_token {c : Char} (hc : isSpace c = false)
    (h : token? c cs = some (t, rest)) (done : List JsonToken) :
    tokensFrom? done (c :: cs) = tokensFrom? (t :: done) rest := by
  rw [tokensFrom?, if_neg (by simp [hc])]
  split
  next t' rest' h' =>
    obtain ⟨rfl, rfl⟩ := Prod.mk.inj (Option.some.inj (h.symm.trans h'))
    rfl
  next hnone =>
    rw [h] at hnone
    cases hnone

/-- Blanks before the end of a token do no harm. -/
theorem ends_append_of_blank {after : List Char} (hafter : IsBlank after)
    (hrest : Ends rest) : Ends (after ++ rest) := by
  cases after with
  | nil => exact hrest
  | cons c after =>
      intro d hd
      obtain rfl := Option.some.inj hd
      have hblank : c = ' ' ∨ c = '\t' ∨ c = '\n' ∨ c = '\r' := by
        simpa [isSpace, or_assoc] using hafter c List.mem_cons_self
      rcases hblank with rfl | rfl | rfl | rfl <;> decide

theorem ends_cons {c : Char} (h : c ∈ [',', ':', ']', '\x7d']) (cs : List Char) :
    Ends (c :: cs) := by
  intro d hd
  obtain rfl := Option.some.inj hd
  exact List.mem_append_right [' ', '\t', '\n', '\r'] h

end JsonValue

namespace JsonPhrase

/-- Items and members that are spelled are not none. -/
theorem Spells.items_ne_nil {vs : List JsonValue} (h : (items vs).Spells cs) : vs ≠ [] := by
  cases h with
  | lastItem h => exact List.cons_ne_nil _ _
  | item h hmore => exact List.cons_ne_nil _ _

theorem Spells.members_ne_nil {ms : List (JsonText × JsonValue)} (h : (members ms).Spells cs) :
    ms ≠ [] := by
  cases h with
  | lastMember hkey h => exact List.cons_ne_nil _ _
  | member hkey h hmore => exact List.cons_ne_nil _ _

/-- **What is spelled is cut into its tokens**, whatever was read before and follows. -/
theorem Spells.tokensFrom?_eq {p : JsonPhrase} (h : p.Spells cs) (hrest : Ends rest)
    (done : List JsonToken) :
    tokensFrom? done (cs ++ rest) = tokensFrom? (p.tokens.reverse ++ done) rest := by
  have hmark : ∀ {d : Char} {mark : JsonToken}, isSpace d = false →
      (∀ cs, token? d cs = some (mark, cs)) → ∀ done cs,
        tokensFrom? done (d :: cs) = tokensFrom? (mark :: done) cs :=
    fun hd hmark done cs => tokensFrom?_token hd (hmark cs) done
  have hopenBracket := @hmark '[' .openBracket (by decide) fun _ => rfl
  have hcloseBracket := @hmark ']' .closeBracket (by decide) fun _ => rfl
  have hopenBrace := @hmark '\x7b' .openBrace (by decide) fun _ => rfl
  have hcloseBrace := @hmark '\x7d' .closeBrace (by decide) fun _ => rfl
  have hcolon := @hmark ':' .colon (by decide) fun _ => rfl
  have hcomma := @hmark ',' .comma (by decide) fun _ => rfl
  induction h generalizing rest done with
  | scalar h =>
      obtain ⟨c, more, rfl, hc, htoken⟩ := token?_scalar h hrest
      rw [List.cons_append, tokensFrom?_token hc htoken, tokens, tokens_of_scalar h]
      rfl
  | emptyArray hgap =>
      simp only [List.cons_append, List.append_assoc, List.nil_append]
      rw [hopenBracket, tokensFrom?_blank hgap, hcloseBracket]
      simp [tokens, JsonValue.tokens, itemTokens]
  | array h ih =>
      simp only [List.cons_append, List.append_assoc, List.nil_append]
      rw [hopenBracket, ih (ends_cons (by decide) rest), hcloseBracket]
      simp [tokens, JsonValue.tokens]
  | emptyObject hgap =>
      simp only [List.cons_append, List.append_assoc, List.nil_append]
      rw [hopenBrace, tokensFrom?_blank hgap, hcloseBrace]
      simp [tokens, JsonValue.tokens, memberTokens]
  | object h ih =>
      simp only [List.cons_append, List.append_assoc, List.nil_append]
      rw [hopenBrace, ih (ends_cons (by decide) rest), hcloseBrace]
      simp [tokens, JsonValue.tokens]
  | element hbefore h hafter ih =>
      rw [List.append_assoc, List.append_assoc, tokensFrom?_blank hbefore,
        ih (ends_append_of_blank hafter hrest), tokensFrom?_blank hafter]
      rfl
  | lastItem h ih =>
      rw [ih hrest]
      simp [tokens, itemTokens]
  | item h hmore ih ihmore =>
      rw [List.append_assoc, List.cons_append, ih (ends_cons (by decide) _), hcomma,
        ihmore hrest]
      simp [tokens, itemTokens_cons hmore.items_ne_nil]
  | lastMember hkey h ihkey ih =>
      rw [List.append_assoc, List.cons_append, ihkey (ends_cons (by decide) _), hcolon, ih hrest]
      simp [tokens, JsonValue.tokens, memberTokens]
  | member hkey h hmore ihkey ih ihmore =>
      simp only [List.append_assoc, List.cons_append]
      rw [ihkey (ends_cons (by decide) _), hcolon, ih (ends_cons (by decide) _), hcomma,
        ihmore hrest]
      simp [tokens, JsonValue.tokens, memberTokens_cons hmore.members_ne_nil]

end JsonPhrase

end Cutting

section Assembling

namespace JsonValue

/-- A first item may be the end of its array; a value is not. -/
theorem assemble_firstItem (v : JsonValue) (vs : List JsonValue) (outer : List Open)
    (ts : List JsonToken) :
    assemble .firstItem outer (itemTokens (v :: vs) ++ ts) =
      assemble .value outer (itemTokens (v :: vs) ++ ts) := by
  have hvalue : ∀ ts, assemble .firstItem outer (v.tokens ++ ts) =
      assemble .value outer (v.tokens ++ ts) := by
    intro ts
    cases v <;> simp [tokens, assemble]
  cases vs with
  | nil => exact hvalue ts
  | cons next vs =>
      rw [itemTokens, List.append_assoc]
      exact hvalue _

/-- A first key may be the end of its object; a member is not. -/
theorem assemble_firstKey (m : JsonText × JsonValue) (ms done : List (JsonText × JsonValue))
    (outer : List Open) (ts : List JsonToken) :
    assemble .firstKey (.members done :: outer) (memberTokens (m :: ms) ++ ts) =
      assemble .key (.members done :: outer) (memberTokens (m :: ms) ++ ts) := by
  obtain ⟨key, v⟩ := m
  cases ms with
  | nil => simp [memberTokens, assemble]
  | cons next ms => simp [memberTokens, assemble]

/-- What a value does to the reader: its tokens make it up, whatever container it stands in
and follows. -/
def Assembled (v : JsonValue) : Prop :=
  ∀ (outer : List Open) (ts : List JsonToken),
    assemble .value outer (v.tokens ++ ts) = assemble (.afterValue v) outer ts

/-- The tokens of some items are assembled into an array. -/
theorem assemble_itemTokens {vs : List JsonValue} (h : ∀ v ∈ vs, Assembled v) (hne : vs ≠ [])
    (done : List JsonValue) (outer : List Open) (ts : List JsonToken) :
    assemble .value (.items done :: outer) (itemTokens vs ++ .closeBracket :: ts) =
      assemble (.afterValue (.array (done.reverse ++ vs))) outer ts := by
  induction vs generalizing done with
  | nil => exact absurd rfl hne
  | cons v vs ih =>
      obtain ⟨hv, hvs⟩ := List.forall_mem_cons.mp h
      cases vs with
      | nil =>
          rw [itemTokens, hv, assemble]
          simp
      | cons next vs =>
          rw [itemTokens, List.append_assoc, List.cons_append, hv, assemble,
            ih hvs (List.cons_ne_nil next vs)]
          simp

/-- The tokens of some members are assembled into an object. -/
theorem assemble_memberTokens {ms : List (JsonText × JsonValue)} (h : ∀ m ∈ ms, Assembled m.2)
    (hne : ms ≠ []) (done : List (JsonText × JsonValue)) (outer : List Open)
    (ts : List JsonToken) :
    assemble .key (.members done :: outer) (memberTokens ms ++ .closeBrace :: ts) =
      assemble (.afterValue (.object (done.reverse ++ ms))) outer ts := by
  induction ms generalizing done with
  | nil => exact absurd rfl hne
  | cons m ms ih =>
      obtain ⟨key, v⟩ := m
      obtain ⟨hv, hms⟩ := List.forall_mem_cons.mp h
      cases ms with
      | nil =>
          rw [memberTokens, List.cons_append, List.cons_append, assemble, hv, assemble]
          simp
      | cons next ms =>
          rw [memberTokens, List.cons_append, List.cons_append, assemble, List.append_assoc,
            List.cons_append, hv, assemble, ih hms (List.cons_ne_nil next ms)]
          simp

/-- **Tokens are assembled.**  The tokens of a value make it up. -/
theorem assembled (v : JsonValue) : v.Assembled := by
  induction v using valueInduction with
  | null =>
      intro outer ts
      simp [tokens, assemble]
  | bool b =>
      intro outer ts
      simp [tokens, assemble]
  | number literal =>
      intro outer ts
      simp [tokens, assemble]
  | string text =>
      intro outer ts
      simp [tokens, assemble]
  | array vs ih =>
      intro outer ts
      cases vs with
      | nil => simp [tokens, itemTokens, assemble]
      | cons v vs =>
          rw [tokens, List.cons_append, List.append_assoc, List.singleton_append, assemble,
            assemble_firstItem, assemble_itemTokens ih (List.cons_ne_nil v vs)]
          rfl
  | object ms ih =>
      intro outer ts
      cases ms with
      | nil => simp [tokens, memberTokens, assemble]
      | cons m ms =>
          rw [tokens, List.cons_append, List.append_assoc, List.singleton_append, assemble,
            assemble_firstKey, assemble_memberTokens ih (List.cons_ne_nil m ms)]
          rfl

/-- The tokens of items, with a comma behind each. -/
def endedItems (vs : List JsonValue) : List JsonToken := vs.flatMap fun v => v.tokens ++ [.comma]

/-- The tokens of members, with a comma behind each. -/
def endedMembers (ms : List (JsonText × JsonValue)) : List JsonToken :=
  ms.flatMap fun m => .scalar (.string m.1) :: .colon :: (m.2.tokens ++ [.comma])

theorem itemTokens_concat (vs : List JsonValue) (v : JsonValue) :
    itemTokens (vs ++ [v]) = endedItems vs ++ v.tokens := by
  induction vs with
  | nil => simp [itemTokens, endedItems]
  | cons w vs ih =>
      rw [List.cons_append, itemTokens_cons (by simp), ih]
      simp [endedItems]

/-- The last member follows the others, each with its comma. -/
theorem memberTokens_concat (ms : List (JsonText × JsonValue)) (key : JsonText)
    (v : JsonValue) :
    memberTokens (ms ++ [(key, v)]) =
      endedMembers ms ++ .scalar (.string key) :: .colon :: v.tokens := by
  induction ms with
  | nil => simp [memberTokens, endedMembers]
  | cons m ms ih =>
      rw [List.cons_append, memberTokens_cons (by simp), ih]
      simp [endedMembers]

/-- The tokens of a container that is still open. -/
def Open.tokens : Open → List JsonToken
  | .items done => .openBracket :: endedItems done.reverse
  | .members done => .openBrace :: endedMembers done.reverse
  | .member done key =>
      .openBrace :: (endedMembers done.reverse ++ [.scalar (.string key), .colon])

/-- The tokens that were passed when something is expected. -/
def passed (e : Expected) (outer : List Open) : List JsonToken :=
  (outer.reverse.flatMap Open.tokens) ++
    match e with
    | .afterValue v => v.tokens
    | _ => []

/-- A container is empty before its first item or key. -/
def Fresh : Expected → List Open → Prop
  | .firstItem, .items done :: _ => done = []
  | .firstKey, .members done :: _ => done = []
  | .firstItem, _ => False
  | .firstKey, _ => False
  | _, _ => True

/-- **What is assembled has the tokens that were passed**, if every token of a value is the
whole value. -/
theorem tokens_of_assemble {e : Expected} {outer : List Open} {ts : List JsonToken}
    {v : JsonValue} (hscalars : ∀ w, .scalar w ∈ ts → w.tokens = [.scalar w])
    (hfresh : Fresh e outer) (h : assemble e outer ts = some v) :
    passed e outer ++ ts = v.tokens := by
  have hmore : ∀ {t : JsonToken} {ts : List JsonToken},
      (∀ w, .scalar w ∈ t :: ts → w.tokens = [.scalar w]) →
        ∀ w, .scalar w ∈ ts → w.tokens = [.scalar w] :=
    fun hscalars w hw => hscalars w (List.mem_cons_of_mem _ hw)
  fun_induction assemble e outer ts with
  | case1 w =>
      obtain rfl := Option.some.inj h
      simp [passed]
  | case2 w done outer ts ih =>
      rw [← ih (hmore hscalars) trivial h]
      simp [passed, Open.tokens, endedItems]
  | case3 w done outer ts ih =>
      rw [← ih (hmore hscalars) trivial h]
      simp [passed, Open.tokens, tokens, itemTokens_concat]
  | case4 w done key outer ts ih =>
      rw [← ih (hmore hscalars) trivial h]
      simp [passed, Open.tokens, endedMembers]
  | case5 w done key outer ts ih =>
      rw [← ih (hmore hscalars) trivial h]
      simp [passed, Open.tokens, tokens, memberTokens_concat]
  | case6 done outer ts ih =>
      obtain rfl : done = [] := hfresh
      rw [← ih (hmore hscalars) trivial h]
      simp [passed, Open.tokens, tokens, itemTokens, endedItems]
  | case7 done outer ts ih =>
      obtain rfl : done = [] := hfresh
      rw [← ih (hmore hscalars) trivial h]
      simp [passed, Open.tokens, tokens, memberTokens, endedMembers]
  | case8 done outer key ts ih =>
      rw [← ih (hmore (hmore hscalars)) trivial h]
      simp [passed, Open.tokens]
  | case9 done outer key ts ih =>
      rw [← ih (hmore (hmore hscalars)) trivial h]
      simp [passed, Open.tokens]
  | case10 outer w ts ih =>
      rw [← ih (hmore hscalars) trivial h]
      simp [passed, hscalars w List.mem_cons_self]
  | case11 outer ts ih =>
      rw [← ih (hmore hscalars) rfl h]
      simp [passed, Open.tokens, endedItems]
  | case12 outer ts ih =>
      rw [← ih (hmore hscalars) rfl h]
      simp [passed, Open.tokens, endedMembers]
  | case13 outer w ts ih =>
      rw [← ih (hmore hscalars) trivial h]
      simp [passed, hscalars w List.mem_cons_self]
  | case14 outer ts ih =>
      rw [← ih (hmore hscalars) rfl h]
      simp [passed, Open.tokens, endedItems]
  | case15 outer ts ih =>
      rw [← ih (hmore hscalars) rfl h]
      simp [passed, Open.tokens, endedMembers]
  | case16 => cases h

end JsonValue

end Assembling

section Spelling

variable {cs : List Char} {ts : List JsonToken}

namespace JsonValue

/-- Characters that are cut into tokens, with blanks between them. -/
inductive Lexed : List JsonToken → List Char → Prop
  | nil : Lexed [] []
  | space {c : Char} {cs : List Char} {ts : List JsonToken} (hc : isSpace c = true)
      (more : Lexed ts cs) : Lexed ts (c :: cs)
  | token {t : JsonToken} {lexeme cs : List Char} {ts : List JsonToken} (h : Lexeme t lexeme)
      (more : Lexed ts cs) : Lexed (t :: ts) (lexeme ++ cs)

/-- What the reader cuts is the characters of its tokens. -/
theorem lexed_of_tokensFrom? {done : List JsonToken} (h : tokensFrom? done cs = some ts) :
    ∃ found, ts = done.reverse ++ found ∧ Lexed found cs := by
  fun_induction tokensFrom? done cs with
  | case1 done =>
      obtain rfl := Option.some.inj h
      exact ⟨[], (List.append_nil _).symm, .nil⟩
  | case2 done c cs hc ih =>
      obtain ⟨found, hts, hfound⟩ := ih h
      exact ⟨found, hts, .space hc hfound⟩
  | case3 done c cs hc t rest htoken ih =>
      obtain ⟨found, rfl, hfound⟩ := ih h
      obtain ⟨lexeme, hlexeme, hsplit⟩ := exists_lexeme_of_token? htoken
      refine ⟨t :: found, ?_, hsplit ▸ .token hlexeme hfound⟩
      rw [List.reverse_cons, List.append_assoc, List.singleton_append]
  | case4 => cases h

/-- A scalar that was read is a value of one token. -/
theorem Lexed.scalar (h : Lexed ts cs) :
    ∀ w, .scalar w ∈ ts → w.tokens = [.scalar w] := by
  intro w hw
  induction h with
  | nil => cases hw
  | space hc more ih => exact ih hw
  | token h more ih =>
      rcases List.mem_cons.mp hw with rfl | hw
      · cases h with
        | scalar h => exact tokens_of_scalar h
      · exact ih hw

/-- The first token stands behind blanks. -/
theorem Lexed.exists_cons {t : JsonToken} (h : Lexed (t :: ts) cs) :
    ∃ gap lexeme back, IsBlank gap ∧ Lexeme t lexeme ∧ cs = gap ++ (lexeme ++ back) ∧
      Lexed ts back := by
  generalize hts : t :: ts = all at h
  induction h with
  | nil => cases hts
  | space hc more ih =>
      obtain ⟨gap, lexeme, back, hgap, hlexeme, rfl, hback⟩ := ih hts
      exact ⟨_ :: gap, lexeme, back, List.forall_mem_cons.mpr ⟨hc, hgap⟩, hlexeme, rfl, hback⟩
  | token h more ih =>
      obtain ⟨rfl, rfl⟩ := List.cons.inj hts
      exact ⟨[], _, _, fun _ hd => absurd hd List.not_mem_nil, h, rfl, more⟩

theorem Lexed.blank (h : Lexed [] cs) : IsBlank cs := by
  generalize hts : ([] : List JsonToken) = all at h
  induction h with
  | nil => exact fun _ hd => absurd hd List.not_mem_nil
  | space hc more ih => exact List.forall_mem_cons.mpr ⟨hc, ih hts⟩
  | token h more ih => cases hts

/-- What a value's tokens say about the characters: they are spelled behind blanks. -/
def Respelled (v : JsonValue) : Prop :=
  ∀ (ts : List JsonToken) (cs : List Char), Lexed (v.tokens ++ ts) cs →
    ∃ gap front back, IsBlank gap ∧ cs = gap ++ (front ++ back) ∧
      (JsonPhrase.value v).Spells front ∧ Lexed ts back

/-- The characters of a value and the token behind it, told apart. -/
theorem Respelled.element {v : JsonValue} {t : JsonToken} (hv : v.Respelled)
    (h : Lexed (v.tokens ++ t :: ts) cs) :
    ∃ front lexeme back, (JsonPhrase.element v).Spells front ∧ Lexeme t lexeme ∧
      cs = front ++ (lexeme ++ back) ∧ Lexed ts back := by
  obtain ⟨before, front, rest, hbefore, rfl, hfront, hrest⟩ := hv _ _ h
  obtain ⟨after, lexeme, back, hafter, hlexeme, rfl, hback⟩ := hrest.exists_cons
  refine ⟨before ++ (front ++ after), lexeme, back, .element hbefore hfront hafter, hlexeme,
    ?_, hback⟩
  simp only [List.append_assoc]

theorem respelled_of_scalar {v : JsonValue} (htokens : v.tokens = [.scalar v]) :
    v.Respelled := by
  intro ts cs h
  rw [htokens, List.singleton_append] at h
  obtain ⟨gap, lexeme, back, hgap, hlexeme, rfl, hback⟩ := h.exists_cons
  cases hlexeme with
  | scalar h => exact ⟨gap, lexeme, back, hgap, rfl, .scalar h, hback⟩

/-- Items end with the bracket behind them. -/
theorem spells_items_of_lexed {vs : List JsonValue} (hvs : ∀ v ∈ vs, v.Respelled) (hne : vs ≠ [])
    (h : Lexed (itemTokens vs ++ .closeBracket :: ts) cs) :
    ∃ front back, (JsonPhrase.items vs).Spells front ∧ cs = front ++ ']' :: back ∧
      Lexed ts back := by
  induction vs generalizing cs with
  | nil => exact absurd rfl hne
  | cons v vs ih =>
      obtain ⟨hv, hvs⟩ := List.forall_mem_cons.mp hvs
      cases vs with
      | nil =>
          obtain ⟨front, lexeme, back, hfront, hlexeme, rfl, hback⟩ := hv.element h
          cases hlexeme with
          | closeBracket => exact ⟨front, back, .lastItem hfront, rfl, hback⟩
      | cons next vs =>
          rw [itemTokens, List.append_assoc, List.cons_append] at h
          obtain ⟨front, lexeme, rest, hfront, hlexeme, rfl, hrest⟩ := hv.element h
          obtain ⟨more, back, hmore, rfl, hback⟩ := ih hvs (List.cons_ne_nil next vs) hrest
          cases hlexeme with
          | comma =>
              refine ⟨front ++ ',' :: more, back, .item hfront hmore, ?_, hback⟩
              simp only [List.append_assoc, List.cons_append, List.nil_append]

/-- A key ends with the colon behind it. -/
theorem spells_key_of_lexed {key : JsonText}
    (h : Lexed (.scalar (.string key) :: .colon :: ts) cs) :
    ∃ name back, (JsonPhrase.element (.string key)).Spells name ∧ cs = name ++ ':' :: back ∧
      Lexed ts back := by
  have hkey : (JsonValue.string key).Respelled := respelled_of_scalar (by simp [tokens])
  have htokens : (JsonValue.string key).tokens = [.scalar (.string key)] := by simp [tokens]
  rw [← List.singleton_append, ← htokens] at h
  obtain ⟨name, lexeme, back, hname, hlexeme, rfl, hback⟩ := hkey.element h
  cases hlexeme with
  | colon => exact ⟨name, back, hname, rfl, hback⟩

/-- Members end with the brace behind them. -/
theorem spells_members_of_lexed {ms : List (JsonText × JsonValue)}
    (hms : ∀ m ∈ ms, m.2.Respelled) (hne : ms ≠ [])
    (h : Lexed (memberTokens ms ++ .closeBrace :: ts) cs) :
    ∃ front back, (JsonPhrase.members ms).Spells front ∧ cs = front ++ '\x7d' :: back ∧
      Lexed ts back := by
  induction ms generalizing cs with
  | nil => exact absurd rfl hne
  | cons m ms ih =>
      obtain ⟨key, v⟩ := m
      obtain ⟨hv, hms⟩ := List.forall_mem_cons.mp hms
      cases ms with
      | nil =>
          rw [memberTokens, List.cons_append, List.cons_append] at h
          obtain ⟨name, rest, hname, rfl, hrest⟩ := spells_key_of_lexed h
          obtain ⟨front, lexeme, back, hfront, hlexeme, rfl, hback⟩ := hv.element hrest
          cases hlexeme with
          | closeBrace =>
              refine ⟨name ++ ':' :: front, back, .lastMember hname hfront, ?_, hback⟩
              simp only [List.append_assoc, List.cons_append, List.nil_append]
      | cons next ms =>
          rw [memberTokens, List.cons_append, List.cons_append, List.append_assoc,
            List.cons_append] at h
          obtain ⟨name, rest, hname, rfl, hrest⟩ := spells_key_of_lexed h
          obtain ⟨front, lexeme, rest, hfront, hlexeme, rfl, hafter⟩ := hv.element hrest
          obtain ⟨more, back, hmore, rfl, hback⟩ := ih hms (List.cons_ne_nil next ms) hafter
          cases hlexeme with
          | comma =>
              refine ⟨name ++ ':' :: (front ++ ',' :: more), back, .member hname hfront hmore,
                ?_, hback⟩
              simp only [List.append_assoc, List.cons_append, List.nil_append]

/-- A mark stands behind blanks. -/
theorem Lexed.exists_mark {t : JsonToken} (h : Lexed (t :: ts) cs) (mark : Char)
    (hmark : ∀ lexeme, Lexeme t lexeme → lexeme = [mark]) :
    ∃ gap back, IsBlank gap ∧ cs = gap ++ mark :: back ∧ Lexed ts back := by
  obtain ⟨gap, lexeme, back, hgap, hlexeme, rfl, hback⟩ := h.exists_cons
  obtain rfl := hmark lexeme hlexeme
  exact ⟨gap, back, hgap, rfl, hback⟩

/-- **Tokens are spelled.**  Characters that are cut into the tokens of a value begin with a
spelling of it. -/
theorem respelled (v : JsonValue) : v.Respelled := by
  induction v using valueInduction with
  | null => exact respelled_of_scalar (by simp [tokens])
  | bool b => exact respelled_of_scalar (by simp [tokens])
  | number literal => exact respelled_of_scalar (by simp [tokens])
  | string text => exact respelled_of_scalar (by simp [tokens])
  | array vs ih =>
      intro ts cs h
      rw [tokens, List.cons_append, List.append_assoc, List.singleton_append] at h
      obtain ⟨gap, rest, hgap, rfl, hrest⟩ := h.exists_mark '[' fun _ hl => by
        cases hl
        rfl
      cases vs with
      | nil =>
          obtain ⟨inner, back, hinner, rfl, hback⟩ := hrest.exists_mark ']' fun _ hl => by
            cases hl
            rfl
          refine ⟨gap, _, back, hgap, ?_, .emptyArray hinner, hback⟩
          simp only [List.append_assoc, List.cons_append, List.nil_append]
      | cons v vs =>
          obtain ⟨front, back, hfront, rfl, hback⟩ :=
            spells_items_of_lexed ih (List.cons_ne_nil v vs) hrest
          refine ⟨gap, _, back, hgap, ?_, .array hfront, hback⟩
          simp only [List.append_assoc, List.cons_append, List.nil_append]
  | object ms ih =>
      intro ts cs h
      rw [tokens, List.cons_append, List.append_assoc, List.singleton_append] at h
      obtain ⟨gap, rest, hgap, rfl, hrest⟩ := h.exists_mark '\x7b' fun _ hl => by
        cases hl
        rfl
      cases ms with
      | nil =>
          obtain ⟨inner, back, hinner, rfl, hback⟩ :=
            hrest.exists_mark '\x7d' fun _ hl => by
              cases hl
              rfl
          refine ⟨gap, _, back, hgap, ?_, .emptyObject hinner, hback⟩
          simp only [List.append_assoc, List.cons_append, List.nil_append]
      | cons m ms =>
          obtain ⟨front, back, hfront, rfl, hback⟩ :=
            spells_members_of_lexed ih (List.cons_ne_nil m ms) hrest
          refine ⟨gap, _, back, hgap, ?_, .object hfront, hback⟩
          simp only [List.append_assoc, List.cons_append, List.nil_append]

/-- **The reader reads the grammar.**  It finds a value in a text exactly when the text
spells it. -/
theorem parse?_eq_some_iff {text : String} {v : JsonValue} :
    parse? text = some v ↔ v.SpelledBy text := by
  constructor
  · intro h
    obtain ⟨ts, hcut, hassemble⟩ := Option.bind_eq_some_iff.mp h
    obtain ⟨found, hfound, hlexed⟩ := lexed_of_tokensFrom? hcut
    obtain rfl : ts = found := hfound
    have htokens : passed .value [] ++ ts = v.tokens :=
      tokens_of_assemble hlexed.scalar trivial hassemble
    rw [show passed .value [] = [] from rfl, List.nil_append] at htokens
    rw [htokens, ← List.append_nil v.tokens] at hlexed
    obtain ⟨before, front, after, hbefore, hsplit, hfront, hafter⟩ := respelled v _ _ hlexed
    rw [SpelledBy, hsplit]
    exact .element hbefore hfront hafter.blank
  · intro h
    have hends : Ends [] := fun c hc => nomatch hc
    have hcut := h.tokensFrom?_eq hends []
    rw [List.append_nil, List.append_nil, tokensFrom?, List.reverse_reverse] at hcut
    have hassemble := assembled v [] []
    rw [List.append_nil, assemble] at hassemble
    rw [parse?, hcut]
    exact hassemble

/-- No text spells two values. -/
theorem SpelledBy.unique {text : String} {v w : JsonValue} (hv : v.SpelledBy text)
    (hw : w.SpelledBy text) : v = w :=
  Option.some.inj ((parse?_eq_some_iff.mpr hv).symm.trans (parse?_eq_some_iff.mpr hw))

end JsonValue

end Spelling

end DeclLint
