import DeclLint.Proofs.Declaration.Walk
import DeclLint.Proofs.Outline.Derivation
import DeclLint.Proofs.Source.Cutting

/-!
# What a declaration is read from

A declaration of an outline is read from a stretch of the tokens: from its
introducing word to the last token that belongs to it, or to the brace that
closes its body.  In the second case the tokens between the braces hold the
declarations inside it.

* `Outline.Node` — a declaration and the stretch that it is read from;
* `Outline.Holds.node` — every declaration of an outline is one;
* `Outline.Node.introduced` — it begins at a word that introduces its kind.
-/

namespace DeclLint

namespace DeclarationKind

/-- The words that introduce declarations of a kind in a source text. -/
def introducers : DeclarationKind → List String
  | structType => ["struct"]
  | classType => ["class"]
  | enumType => ["enum"]
  | protocolType => ["protocol"]
  | actorType => ["actor"]
  | extension => ["extension"]
  | functionConstructor => ["init"]
  | functionDestructor => ["deinit"]
  | functionSubscript => ["subscript"]
  | functionMethodInstance | functionMethodStatic | functionMethodClass | functionFree =>
      ["func"]
  | varInstance | varStatic | varClass | varLocal | varGlobal => ["let", "var"]
  | _ => []

/-- Whether declarations of a kind are variables. -/
def isVariable : DeclarationKind → Bool
  | varInstance | varStatic | varClass | varLocal | varGlobal | varParameter => true
  | _ => false

end DeclarationKind

namespace Outline

theorem introducers_typeKind {text : String} (h : text ∈ typeIntroducers) :
    text ∈ (typeKind text).introducers := by
  simp only [typeIntroducers, List.mem_cons, List.not_mem_nil, or_false] at h
  rcases h with rfl | rfl | rfl | rfl | rfl | rfl <;> decide

/-- The word that introduces a function introduces its kind. -/
theorem introducers_functionKind {text : String} (h : text ∈ functionIntroducers)
    (scope : Scope) (modifiers : Modifiers) :
    text ∈ (functionKind text scope modifiers).introducers := by
  simp only [functionIntroducers, List.mem_cons, List.not_mem_nil, or_false] at h
  rcases h with rfl | rfl | rfl | rfl
  · have hkind : (functionKind "func" scope modifiers).introducers = ["func"] := by
      have hunfold : functionKind "func" scope modifiers =
          if scope = .type then
            if modifiers.isStatic then .functionMethodStatic
            else if modifiers.isClass then .functionMethodClass
            else .functionMethodInstance
          else .functionFree := rfl
      rw [hunfold]
      split
      · split
        · rfl
        · split <;> rfl
      · rfl
    rw [hkind]
    exact List.mem_singleton.mpr rfl
  · exact List.mem_singleton.mpr rfl
  · exact List.mem_singleton.mpr rfl
  · exact List.mem_singleton.mpr rfl

/-- The kinds of variables, scope by scope. -/
theorem variableKind_cases (scope : Scope) (modifiers : Modifiers) :
    (scope = .file ∧ variableKind scope modifiers = .varGlobal) ∨
      (scope = .code ∧ variableKind scope modifiers = .varLocal) ∨
      scope = .type ∧ variableKind scope modifiers ∈ [.varStatic, .varClass, .varInstance] := by
  cases scope with
  | file => exact .inl ⟨rfl, rfl⟩
  | code => exact .inr (.inl ⟨rfl, rfl⟩)
  | type =>
      refine .inr (.inr ⟨rfl, ?_⟩)
      unfold variableKind
      cases modifiers.isStatic <;> cases modifiers.isClass <;> simp

/-- The kinds of functions: those that their word tells, and in a type methods. -/
theorem functionKind_cases (text : String) (scope : Scope) (modifiers : Modifiers) :
    functionKind text scope modifiers ∈
        [.functionConstructor, .functionDestructor, .functionSubscript] ∨
      (scope = .type ∧ functionKind text scope modifiers ∈
        [.functionMethodStatic, .functionMethodClass, .functionMethodInstance]) ∨
      scope ≠ .type ∧ functionKind text scope modifiers = .functionFree := by
  unfold functionKind
  split
  · exact .inl (by decide)
  · exact .inl (by decide)
  · exact .inl (by decide)
  · by_cases hscope : scope = .type
    · refine .inr (.inl ⟨hscope, ?_⟩)
      rw [if_pos hscope]
      cases modifiers.isStatic <;> cases modifiers.isClass <;> simp
    · exact .inr (.inr ⟨hscope, if_neg hscope⟩)

/-- The word that introduces a variable introduces its kind. -/
theorem introducers_variableKind {text : String} (h : text = "let" ∨ text = "var")
    (scope : Scope) (modifiers : Modifiers) :
    text ∈ (variableKind scope modifiers).introducers := by
  have hkind : ∀ kind ∈ [DeclarationKind.varStatic, .varClass, .varInstance],
      kind.introducers = ["let", "var"] := by decide
  have hword : text ∈ ["let", "var"] := by simpa using h
  rcases variableKind_cases scope modifiers with ⟨-, hglobal⟩ | ⟨-, hlocal⟩ | ⟨-, hmember⟩
  · rw [hglobal]
    exact hword
  · rw [hlocal]
    exact hword
  · rw [hkind _ hmember]
    exact hword

theorem isVariable_typeKind {text : String} : (typeKind text).isVariable = false := by
  unfold typeKind
  split <;> rfl

/-- No function is a variable. -/
theorem isVariable_functionKind (text : String) (scope : Scope) (modifiers : Modifiers) :
    (functionKind text scope modifiers).isVariable = false := by
  have htold : ∀ kind ∈ [DeclarationKind.functionConstructor, .functionDestructor,
      .functionSubscript], kind.isVariable = false := by decide
  have hmethod : ∀ kind ∈ [DeclarationKind.functionMethodStatic, .functionMethodClass,
      .functionMethodInstance], kind.isVariable = false := by decide
  rcases functionKind_cases text scope modifiers with h | ⟨-, h⟩ | ⟨-, h⟩
  · exact htold _ h
  · exact hmethod _ h
  · rw [h]
    rfl

/-- A declaration and the stretch of tokens that it is read from. -/
inductive Node : List Token → Declaration → Prop
  | bare {scope : Scope} {introduction : List Token} {d : Declaration}
      (hd : Declares scope introduction d) : Node introduction d
  | body {scope inside : Scope} {introduction inner : List Token} {owner : Owner}
      {brace closing : Token} {members : List Declaration} {d : Declaration}
      (hopens : Opens scope introduction owner inside) (howner : owner ≠ .block)
      (hbrace : brace.lexeme = .mark '{') (hclosing : closing.lexeme = .mark '}')
      (hinner : Holds inside inner members)
      (hd : d ∈ owner.declare brace closing members) :
      Node (introduction ++ brace :: (inner ++ [closing])) d

/-- The tokens of a body and what follows it, cut behind the closing brace. -/
theorem append_body_eq (introduction inner ts : List Token) (brace closing : Token) :
    introduction ++ brace :: (inner ++ closing :: ts) =
      introduction ++ brace :: (inner ++ [closing]) ++ ts := by
  simp

/-- What is in braces is a stretch of the tokens with the braces. -/
theorem inner_within_body (introduction inner ts : List Token) (brace closing : Token) :
    inner <:+: introduction ++ brace :: (inner ++ closing :: ts) :=
  ⟨introduction ++ [brace], closing :: ts, by simp⟩

/-- What a body declares, if it belongs to a declaration, is that one. -/
theorem Owner.declare_eq_singleton {owner : Owner} (howner : owner ≠ .block)
    (brace closing : Token) (members : List Declaration) :
    ∃ d, owner.declare brace closing members = [d] ∧
      (d.children = members ∨ d.children = []) := by
  cases owner with
  | block => exact absurd rfl howner
  | body kind start => exact ⟨_, rfl, Or.inl rfl⟩
  | accessors kind start setter => exact ⟨_, rfl, Or.inr rfl⟩

/-- **Every declaration is read from a stretch.**  It holds for all levels of
an outline: the induction is on the derivation, the members of a body are walked
to below the declaration that the body belongs to. -/
theorem Holds.node {scope : Scope} {ts : List Token} {ds : List Declaration}
    (h : Holds scope ts ds) {container : Option Declaration} :
    ∀ p ∈ Declaration.walkAll container ds, ∃ stretch, stretch <:+: ts ∧ Node stretch p.2 := by
  induction h generalizing container with
  | nil => simp
  | pass t _ ih =>
      intro p hp
      obtain ⟨stretch, hwithin, hnode⟩ := ih p hp
      exact ⟨stretch, hwithin.trans (List.suffix_cons t _).isInfix, hnode⟩
  | @declare scope introduction ts d ds hd _ ih =>
      intro p hp
      rw [Declaration.walkAll_cons, Declaration.walk_eq] at hp
      have hleaf : d.children = [] := by
        cases hd <;> rfl
      rw [hleaf] at hp
      rcases List.mem_append.mp hp with hp | hp
      · obtain rfl : p = (container, d) := by simpa using hp
        exact ⟨introduction, (List.prefix_append introduction ts).isInfix, .bare hd⟩
      · obtain ⟨stretch, hwithin, hnode⟩ := ih p hp
        exact ⟨stretch, hwithin.trans (List.suffix_append introduction ts).isInfix, hnode⟩
  | @body scope inside introduction inner ts owner brace closing ds members
      hopens hbrace hclosing hholds _ ihinner ih =>
      intro p hp
      have hinner := inner_within_body introduction inner ts brace closing
      rw [append_body_eq] at hinner ⊢
      have hbody := (List.prefix_append (introduction ++ brace :: (inner ++ [closing])) ts).isInfix
      have hrest := (List.suffix_append (introduction ++ brace :: (inner ++ [closing])) ts).isInfix
      rw [Declaration.walkAll_append] at hp
      rcases List.mem_append.mp hp with hp | hp
      · by_cases howner : owner = .block
        · subst howner
          obtain ⟨stretch, hwithin, hnode⟩ := ihinner p hp
          exact ⟨stretch, hwithin.trans hinner, hnode⟩
        · obtain ⟨d, hd, hchildren⟩ :=
            Owner.declare_eq_singleton howner brace closing members
          rw [hd, Declaration.walkAll_cons, Declaration.walkAll_nil, List.append_nil,
            Declaration.walk_eq] at hp
          rcases List.mem_cons.mp hp with rfl | hp
          · exact ⟨_, hbody, .body hopens howner hbrace hclosing hholds (by simp [hd])⟩
          · rcases hchildren with hmembers | hnone
            · rw [hmembers] at hp
              obtain ⟨stretch, hwithin, hnode⟩ := ihinner p hp
              exact ⟨stretch, hwithin.trans hinner, hnode⟩
            · simp [hnone] at hp
      · obtain ⟨stretch, hwithin, hnode⟩ := ih p hp
        exact ⟨stretch, hwithin.trans hrest, hnode⟩

/-- The last token of an introduction that separates no lines is one of its
tokens. -/
theorem exists_lastStop {word : Token} {text : String} (hword : word.lexeme = .word text)
    (following : List Token) :
    ∃ last ∈ word :: following, lastStop (word :: following).reverse = last.stop := by
  have hbreak : word.isLineBreak = false := Token.isLineBreak_of_word hword
  cases hfirst : significant? (word :: following).reverse with
  | none =>
      have hall : (significant (word :: following).reverse) = [] :=
        List.head?_eq_none_iff.mp hfirst
      unfold significant at hall
      have htake := List.takeWhile_append_dropWhile (p := Token.isLineBreak)
        (l := (word :: following).reverse)
      rw [hall, List.append_nil] at htake
      have hmem : word ∈ (word :: following).reverse.takeWhile Token.isLineBreak := by
        rw [htake]
        simp
      have hword := of_mem_takeWhile hmem
      rw [hbreak] at hword
      exact absurd hword (by decide)
  | some last =>
      have hmem : last ∈ (word :: following).reverse :=
        (List.dropWhile_sublist _).subset (List.mem_of_head? hfirst)
      refine ⟨last, List.mem_reverse.mp hmem, ?_⟩
      unfold lastStop
      rw [hfirst]
      rfl

/-- **A declaration begins at its introducing word.**  It ends at one of the
tokens of its stretch. -/
theorem Node.introduced {stretch : List Token} {d : Declaration} (h : Node stretch d) :
    ∃ kind word following text, ∃ last ∈ word :: following,
      stretch = word :: following ∧ word.lexeme = .word text ∧ text ∈ kind.introducers ∧
        d.kind = some kind ∧ d.range = some (ByteRange.between word.start last.stop) := by
  cases h with
  | bare hd =>
      cases hd with
      | @function word _ following modifiers hword htext =>
          obtain ⟨last, hlast, hstop⟩ := exists_lastStop hword following
          have hkind := introducers_functionKind htext
          exact ⟨_, word, following, _, last, hlast, rfl, hword, hkind _ _, rfl, hstop ▸ rfl⟩
      | @«variable» word _ following modifiers hword htext =>
          obtain ⟨last, hlast, hstop⟩ := exists_lastStop hword following
          have hkind := introducers_variableKind htext
          exact ⟨_, word, following, _, last, hlast, rfl, hword, hkind _ _, rfl, hstop ▸ rfl⟩
  | @body _ _ _ inner _ brace closing _ _ hopens howner hbrace hclosing hinner hd =>
      have hlast : ∀ word : Token, ∀ following : List Token,
          closing ∈ word :: (following ++ brace :: (inner ++ [closing])) := by simp
      cases hopens with
      | block => exact absurd rfl howner
      | type following hword htext =>
          obtain rfl := List.mem_singleton.mp hd
          have hkind := introducers_typeKind htext
          exact ⟨_, _, _, _, closing, hlast _ _, rfl, hword, hkind, rfl, rfl⟩
      | function following modifiers hword htext =>
          obtain rfl := List.mem_singleton.mp hd
          have hkind := introducers_functionKind htext
          exact ⟨_, _, _, _, closing, hlast _ _, rfl, hword, hkind _ _, rfl, rfl⟩
      | accessors following modifiers hword htext =>
          obtain rfl := List.mem_singleton.mp hd
          have hkind := introducers_variableKind htext
          exact ⟨_, _, _, _, closing, hlast _ _, rfl, hword, hkind _ _, rfl, rfl⟩

/-- Variables have nothing inside them. -/
theorem Node.children_of_isVariable {stretch : List Token} {d : Declaration}
    {kind : DeclarationKind} (h : Node stretch d) (hkind : d.kind = some kind)
    (hvariable : kind.isVariable = true) : d.children = [] := by
  cases h with
  | bare hd => cases hd <;> rfl
  | body hopens howner hbrace hclosing hinner hd =>
      cases hopens with
      | block => exact absurd rfl howner
      | type following hword htext =>
          obtain rfl := List.mem_singleton.mp hd
          obtain rfl := Option.some.inj hkind
          rw [isVariable_typeKind] at hvariable
          exact absurd hvariable (by decide)
      | function following modifiers hword htext =>
          obtain rfl := List.mem_singleton.mp hd
          obtain rfl := Option.some.inj hkind
          rw [isVariable_functionKind] at hvariable
          exact absurd hvariable (by decide)
      | accessors following modifiers hword htext =>
          obtain rfl := List.mem_singleton.mp hd
          rfl

end Outline

end DeclLint
