import DeclLint.Proofs.Outline.Node

/-!
# Scopes and kinds

The scope in which the reader is decides what it calls a variable or a function: one
of the file, of a type, or of the code of a function.  A brace that belongs to no
declaration has the scope around it, except that it turns the file into code, and what
is inside stands where the brace does.  So the scope that a declaration was read in is
that of the declaration around it, and a declaration is named for what it stands in.

* `Outline.Scope.admits` — the kinds that stand in a scope;
* `Outline.Holds.admitted` — only these are held by the tokens of a scope;
* `Outline.Node.admitted` — the scope inside a declaration is the one of its kind;
* `declarationTree_scoped` — in a tree, kinds agree with what they stand in.
-/

namespace DeclLint

namespace DeclarationKind

/-- Whether declarations of a kind are types, an extension of one among them. -/
def isType : DeclarationKind → Bool
  | structType | classType | enumType | protocolType | actorType | extension => true
  | _ => false

/-- Whether declarations of a kind are functions, accessors among them. -/
def isFunction : DeclarationKind → Bool
  | functionMethodInstance | functionMethodStatic | functionMethodClass
  | functionConstructor | functionDestructor | functionSubscript | functionFree
  | functionAccessorGetter | functionAccessorSetter | functionAccessorDidSet
  | functionAccessorWillSet => true
  | _ => false

/-- Whether a kind is the one of a variable or function as a member of a type. -/
def isMember : DeclarationKind → Bool
  | varInstance | varStatic | varClass
  | functionMethodInstance | functionMethodStatic | functionMethodClass => true
  | _ => false

end DeclarationKind

/-- What a declaration of a tree is agrees with what it stands in. -/
structure Declaration.Scoped (root container d : Declaration) : Prop where
  /-- Members of types stand directly in types. -/
  member : ∀ kind ∈ d.kind, kind.isMember = true →
    ∃ outer ∈ container.kind, outer.isType = true
  /-- Global variables stand directly in the file. -/
  global : d.kind = some .varGlobal → container = root
  /-- Local variables and free functions stand directly in functions or in the file. -/
  free : d.kind = some .varLocal ∨ d.kind = some .functionFree →
    container = root ∨ ∃ outer ∈ container.kind, outer.isFunction = true
  /-- The variables directly in a function are its local ones. -/
  code : ∀ outer ∈ container.kind, outer.isFunction = true →
    ∀ kind ∈ d.kind, kind.isVariable = true → kind = .varLocal

namespace Outline

/-- Whether declarations of a kind stand directly in a scope.  The file has the free
functions and local variables of its blocks besides its own declarations. -/
def Scope.admits (scope : Scope) (kind : DeclarationKind) : Bool :=
  match scope with
  | .file => !kind.isMember
  | .type => kind != .varGlobal && kind != .varLocal && kind != .functionFree
  | .code => !kind.isMember && (!kind.isVariable || kind == .varLocal)

theorem admits_typeKind (scope : Scope) (word : String) :
    scope.admits (typeKind word) = true := by
  unfold typeKind
  split <;> cases scope <;> rfl

/-- Every scope admits the kind that it gives a function. -/
theorem admits_functionKind (scope : Scope) (word : String) (modifiers : Modifiers) :
    scope.admits (functionKind word scope modifiers) = true := by
  have htold : ∀ kind ∈ [DeclarationKind.functionConstructor, .functionDestructor,
      .functionSubscript], scope.admits kind = true := by
    cases scope <;> decide
  have hmethod : ∀ kind ∈ [DeclarationKind.functionMethodStatic, .functionMethodClass,
      .functionMethodInstance], Scope.type.admits kind = true := by decide
  rcases functionKind_cases word scope modifiers with h | ⟨rfl, h⟩ | ⟨hscope, h⟩
  · exact htold _ h
  · exact hmethod _ h
  · rw [h]
    cases scope with
    | type => exact absurd rfl hscope
    | file => rfl
    | code => rfl

/-- A variable has a kind that its scope admits. -/
theorem admits_variableKind (scope : Scope) (modifiers : Modifiers) :
    scope.admits (variableKind scope modifiers) = true := by
  have hmember : ∀ kind ∈ [DeclarationKind.varStatic, .varClass, .varInstance],
      Scope.type.admits kind = true := by decide
  rcases variableKind_cases scope modifiers with ⟨rfl, h⟩ | ⟨rfl, h⟩ | ⟨rfl, h⟩
  · rw [h]
    rfl
  · rw [h]
    rfl
  · exact hmember _ h

/-- What stands in a block may stand where the block does. -/
theorem admits_of_blockScope {scope : Scope} {kind : DeclarationKind}
    (h : (blockScope scope).admits kind = true) : scope.admits kind = true := by
  cases scope with
  | file => exact (Bool.and_eq_true_iff.mp h).1
  | type => exact h
  | code => exact h

theorem isType_typeKind (word : String) : (typeKind word).isType = true := by
  unfold typeKind
  split <;> rfl

/-- What a word introduces as a function is a function. -/
theorem isFunction_functionKind (word : String) (scope : Scope) (modifiers : Modifiers) :
    (functionKind word scope modifiers).isFunction = true := by
  have htold : ∀ kind ∈ [DeclarationKind.functionConstructor, .functionDestructor,
      .functionSubscript], kind.isFunction = true := by decide
  have hmethod : ∀ kind ∈ [DeclarationKind.functionMethodStatic, .functionMethodClass,
      .functionMethodInstance], kind.isFunction = true := by decide
  rcases functionKind_cases word scope modifiers with h | ⟨-, h⟩ | ⟨-, h⟩
  · exact htold _ h
  · exact hmethod _ h
  · rw [h]
    rfl

/-- The kind of a variable is one of those of variables, in every scope. -/
theorem isVariable_variableKind (scope : Scope) (modifiers : Modifiers) :
    (variableKind scope modifiers).isVariable = true := by
  have hmember : ∀ kind ∈ [DeclarationKind.varStatic, .varClass, .varInstance],
      kind.isVariable = true := by decide
  rcases variableKind_cases scope modifiers with ⟨-, h⟩ | ⟨-, h⟩ | ⟨-, h⟩
  · rw [h]
    rfl
  · rw [h]
    rfl
  · exact hmember _ h

/-- The kind of a declaration is one that a scope admits. -/
def Admitted (scope : Scope) (d : Declaration) : Prop :=
  ∃ kind, d.kind = some kind ∧ scope.admits kind = true

theorem Declares.admitted {scope : Scope} {introduction : List Token} {d : Declaration}
    (h : Declares scope introduction d) : Admitted scope d := by
  cases h with
  | function following modifiers hword htext =>
      exact ⟨_, rfl, admits_functionKind scope _ modifiers⟩
  | «variable» following modifiers hword htext =>
      exact ⟨_, rfl, admits_variableKind scope modifiers⟩

/-- A body declares what its scope admits, and so does a block if what is inside does. -/
theorem Opens.admitted {scope inside : Scope} {introduction : List Token} {owner : Owner}
    {brace closing : Token} {members : List Declaration}
    (h : Opens scope introduction owner inside) (hmembers : ∀ d ∈ members, Admitted inside d) :
    ∀ d ∈ owner.declare brace closing members, Admitted scope d := by
  intro d hd
  cases h with
  | block =>
      obtain ⟨kind, hkind, hadmits⟩ := hmembers d hd
      exact ⟨kind, hkind, admits_of_blockScope hadmits⟩
  | type following hword htext =>
      obtain rfl := List.mem_singleton.mp hd
      exact ⟨_, rfl, admits_typeKind scope _⟩
  | function following modifiers hword htext =>
      obtain rfl := List.mem_singleton.mp hd
      exact ⟨_, rfl, admits_functionKind scope _ modifiers⟩
  | accessors following modifiers hword htext =>
      obtain rfl := List.mem_singleton.mp hd
      exact ⟨_, rfl, admits_variableKind scope modifiers⟩

/-- **Declarations are named for their scope.**  The induction is on the derivation;
what is in a block is carried out of it, all else stays behind its braces. -/
theorem Holds.admitted {scope : Scope} {ts : List Token} {ds : List Declaration}
    (h : Holds scope ts ds) : ∀ d ∈ ds, Admitted scope d := by
  induction h with
  | nil => simp
  | pass t _ ih => exact ih
  | declare hd _ ih => exact List.forall_mem_cons.mpr ⟨hd.admitted, ih⟩
  | body hopens _ _ _ _ ihinner ih =>
      exact List.forall_mem_append.mpr ⟨hopens.admitted ihinner, ih⟩

/-- **The scope inside a declaration.**  A declaration with others inside is a type
whose scope admits them, or a function whose code does. -/
theorem Node.admitted {stretch : List Token} {container d : Declaration}
    (h : Node stretch container) (hd : d ∈ container.children) :
    ∃ outer, container.kind = some outer ∧
      (outer.isType = true ∧ Admitted .type d ∨ outer.isFunction = true ∧ Admitted .code d) := by
  cases h with
  | bare hdeclares => cases hdeclares <;> simp at hd
  | body hopens howner _ _ hinner hcontainer =>
      cases hopens with
      | block => exact absurd rfl howner
      | type following hword htext =>
          obtain rfl := List.mem_singleton.mp hcontainer
          exact ⟨_, rfl, .inl ⟨isType_typeKind _, hinner.admitted d hd⟩⟩
      | function following modifiers hword htext =>
          obtain rfl := List.mem_singleton.mp hcontainer
          exact ⟨_, rfl, .inr ⟨isFunction_functionKind _ _ _, hinner.admitted d hd⟩⟩
      | accessors following modifiers hword htext =>
          obtain rfl := List.mem_singleton.mp hcontainer
          simp at hd

/-- Only variables say who may set them. -/
theorem Node.isVariable_of_setter {stretch : List Token} {d : Declaration} (h : Node stretch d)
    (hsetter : d.setterAccessibility.isSome = true) :
    ∃ kind, d.kind = some kind ∧ kind.isVariable = true := by
  cases h with
  | bare hdeclares =>
      cases hdeclares with
      | function following modifiers hword htext => simp at hsetter
      | «variable» following modifiers hword htext => exact ⟨_, rfl, isVariable_variableKind _ _⟩
  | body hopens howner _ _ _ hd =>
      cases hopens with
      | block => exact absurd rfl howner
      | type following hword htext =>
          obtain rfl := List.mem_singleton.mp hd
          simp at hsetter
      | function following modifiers hword htext =>
          obtain rfl := List.mem_singleton.mp hd
          simp at hsetter
      | accessors following modifiers hword htext =>
          obtain rfl := List.mem_singleton.mp hd
          exact ⟨_, rfl, isVariable_variableKind _ _⟩

variable {root container d : Declaration}

/-- What stands directly in the file is scoped. -/
theorem Admitted.scoped_file (h : Admitted .file d) (hroot : root.kind = none) :
    root.Scoped root d := by
  obtain ⟨kind, hkind, hadmits⟩ := h
  refine ⟨?_, fun _ => rfl, fun _ => .inl rfl, by simp [hroot]⟩
  intro kind' hkind' hmember
  obtain rfl := Option.some.inj (hkind.symm.trans hkind')
  simp [Scope.admits, hmember] at hadmits

/-- What stands directly in a type is scoped. -/
theorem Admitted.scoped_type {outer : DeclarationKind} (h : Admitted .type d)
    (houter : container.kind = some outer) (htype : outer.isType = true) :
    root.Scoped container d := by
  obtain ⟨kind, hkind, hadmits⟩ := h
  refine ⟨fun _ _ _ => ⟨outer, houter, htype⟩, ?_, ?_, ?_⟩
  · intro hglobal
    obtain rfl := Option.some.inj (hkind.symm.trans hglobal)
    exact absurd hadmits (by decide)
  · rintro (hlocal | hfree)
    · obtain rfl := Option.some.inj (hkind.symm.trans hlocal)
      exact absurd hadmits (by decide)
    · obtain rfl := Option.some.inj (hkind.symm.trans hfree)
      exact absurd hadmits (by decide)
  · intro outer' houter' hfunction
    obtain rfl := Option.some.inj (houter.symm.trans houter')
    cases outer <;> simp_all [DeclarationKind.isType, DeclarationKind.isFunction]

/-- What stands directly in a function is scoped. -/
theorem Admitted.scoped_code {outer : DeclarationKind} (h : Admitted .code d)
    (houter : container.kind = some outer) (hfunction : outer.isFunction = true) :
    root.Scoped container d := by
  obtain ⟨kind, hkind, hadmits⟩ := h
  refine ⟨?_, ?_, fun _ => .inr ⟨outer, houter, hfunction⟩, ?_⟩
  · intro kind' hkind' hmember
    obtain rfl := Option.some.inj (hkind.symm.trans hkind')
    simp [Scope.admits, hmember] at hadmits
  · intro hglobal
    obtain rfl := Option.some.inj (hkind.symm.trans hglobal)
    exact absurd hadmits (by decide)
  · intro _ _ _ kind' hkind' hvariable
    obtain rfl := Option.some.inj (hkind.symm.trans hkind')
    simpa [Scope.admits, hvariable] using (Bool.and_eq_true_iff.mp hadmits).2

end Outline

/-- **Scopes and kinds agree.**  In the tree of a text every declaration is named for what
it directly stands in, and only variables say who may set them. -/
theorem declarationTree_scoped {source : String} {root : Declaration}
    (h : declarationTree source = .ok root) :
    (∀ container d, (some container, d) ∈ root.walk none → root.Scoped container d) ∧
      ∀ p ∈ root.walk none, p.2.setterAccessibility.isSome = true →
        ∃ kind, p.2.kind = some kind ∧ kind.isVariable = true := by
  obtain ⟨pieces, hcut, htokens, hroot, -⟩ := exists_cut_of_declarationTree h
  have hholds := Outline.holds_of_ofTokens htokens
  constructor
  · intro container d hd
    rw [Declaration.mem_walk_root_iff] at hd
    rcases Declaration.container_of_mem_walkAll hd with ⟨hcontainer, htop⟩ | ⟨hchild, outer, hwalk⟩
    · obtain rfl := Option.some.inj hcontainer
      exact (hholds.admitted d htop).scoped_file hroot
    · obtain ⟨stretch, -, hnode⟩ := hholds.node _ hwalk
      obtain ⟨kind, hkind, ⟨htype, hadmitted⟩ | ⟨hfunction, hadmitted⟩⟩ := hnode.admitted hchild
      · exact hadmitted.scoped_type hkind htype
      · exact hadmitted.scoped_code hkind hfunction
  · intro p hp hsetter
    rw [Declaration.walk_eq] at hp
    rcases List.mem_cons.mp hp with rfl | hbelow
    · rw [declarationTree_of_cut hcut, htokens] at h
      have hnone : root.setterAccessibility = none := by
        rw [← Except.ok.inj h]
      simp [hnone] at hsetter
    · obtain ⟨stretch, -, hnode⟩ := hholds.node p hbelow
      exact hnode.isVariable_of_setter hsetter

/-- A constant in a block of a method stands in the method, and is a local one. -/
theorem declarationTree_scoped_block :
    ∃ root type method constant,
      declarationTree "struct S \x7b func f() \x7b do \x7b let a = 1 \x7d \x7d \x7d" = .ok root ∧
        root.children = [type] ∧ type.children = [method] ∧ method.children = [constant] ∧
        constant.kind = some .varLocal ∧ root.Scoped type method ∧
        root.Scoped method constant := by
  have htree :
      declarationTree "struct S \x7b func f() \x7b do \x7b let a = 1 \x7d \x7d \x7d" = .ok
        { range := some ⟨0, 42⟩
          children :=
            [{ kind := some .structType
               range := some ⟨0, 42⟩
               bodyLength := some 31
               children :=
                [{ kind := some .functionMethodInstance
                   range := some ⟨11, 29⟩
                   bodyLength := some 18
                   children := [{ kind := some .varLocal, range := some ⟨27, 9⟩ }] }] }] } := by
    with_unfolding_all rfl
  obtain ⟨hscoped, -⟩ := declarationTree_scoped htree
  have hmethod := hscoped _ _ (by
    rw [Declaration.walk_eq, Declaration.walkAll_cons, Declaration.walk_eq,
      Declaration.walkAll_cons, Declaration.walk_eq]
    exact List.mem_cons_of_mem _ (List.mem_cons_of_mem _ List.mem_cons_self))
  have hconstant := hscoped _ _ (by
    rw [Declaration.walk_eq, Declaration.walkAll_cons, Declaration.walk_eq,
      Declaration.walkAll_cons, Declaration.walk_eq, Declaration.walkAll_cons,
      Declaration.walk_eq]
    exact List.mem_cons_of_mem _ (List.mem_cons_of_mem _ (List.mem_cons_of_mem _
      List.mem_cons_self)))
  exact ⟨_, _, _, _, htree, rfl, rfl, rfl, rfl, hmethod, hconstant⟩

end DeclLint
