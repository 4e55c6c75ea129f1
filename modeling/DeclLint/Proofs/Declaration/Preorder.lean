import DeclLint.Proofs.Declaration.Walk

/-!
# The walk visits every place once

A place in a tree is the way to it from the root: at each level the number of the child to
go on with.  Places are compared number by number, what contains a declaration before the
declaration (`List.Lex`), which is the order of the document.

The walk with a list of waiting declarations does what a recursion on the tree does
(`Declaration.visitBelow`), whatever the visits read and change on the way.

* `Declaration.mem_places_iff`, `Declaration.pairwise_places` — the places of a tree are
  those with a declaration, in document order;
* `Declaration.walk_places` — the walk goes through the places, each with what directly
  contains it;
* `Declaration.visitBelow_eq_collect`, `Declaration.collect_eq_mapM` — the recursion visits
  what the walk meets, and so does a loop over it;
* `Declaration.visitAll_preorder` — the list, the recursion and the loop agree.
-/

namespace DeclLint

namespace Declaration

/-- **Induction on a tree.**  What holds of a declaration as soon as it holds of its
children holds of every declaration. -/
@[elab_as_elim]
theorem treeInduction {motive : Declaration → Prop}
    (step : ∀ d : Declaration, (∀ child ∈ d.children, motive child) → motive d) :
    ∀ d, motive d
  | ⟨kind, range, bodyLength, setter, children⟩ =>
      step _ fun child _ => treeInduction step child

/-- The declaration at a place. -/
def at? : List Nat → Declaration → Option Declaration
  | [], d => some d
  | i :: place, d => d.children[i]?.bind (at? place)

/-- What directly contains the declaration at a place of a tree that stands in `above`. -/
def containerAt? (above : Option Declaration) (place : List Nat) (top : Declaration) :
    Option Declaration :=
  if place = [] then above else top.at? place.dropLast

mutual

/-- The places of a tree, in document order. -/
def places : Declaration → List (List Nat)
  | ⟨_, _, _, _, children⟩ => [] :: placesFrom 0 children

/-- The places of some children, the first of which has a given number. -/
def placesFrom (first : Nat) : List Declaration → List (List Nat)
  | [] => []
  | d :: ds => (places d).map (first :: ·) ++ placesFrom (first + 1) ds

end

theorem places_eq (d : Declaration) : d.places = [] :: placesFrom 0 d.children := by
  cases d
  simp [places]

theorem placesFrom_eq_flatMap (first : Nat) (ds : List Declaration) :
    placesFrom first ds = (ds.zipIdx first).flatMap fun p => p.1.places.map (p.2 :: ·) := by
  induction ds generalizing first with
  | nil => simp [placesFrom]
  | cons d ds ih => simp [placesFrom, ih]

/-- A place of children is the number of one of them, then a place in it. -/
theorem cons_mem_placesFrom_iff {ds : List Declaration} {i : Nat} {place : List Nat} :
    i :: place ∈ placesFrom 0 ds ↔ ∃ d, ds[i]? = some d ∧ place ∈ d.places := by
  rw [placesFrom_eq_flatMap]
  simp only [List.mem_flatMap, List.mem_map, Prod.exists, List.mk_mem_zipIdx_iff_getElem?]
  constructor
  · intro ⟨d, _, hd, _, hplace, heq⟩
    obtain ⟨rfl, rfl⟩ := List.cons.inj heq
    exact ⟨d, hd, hplace⟩
  · intro ⟨d, hd, hplace⟩
    exact ⟨d, i, hd, place, hplace, rfl⟩

theorem nil_notMem_placesFrom (ds : List Declaration) : [] ∉ placesFrom 0 ds := by
  rw [placesFrom_eq_flatMap]
  simp

/-- **Every declaration has a place.**  The places of a tree are those with a declaration. -/
theorem mem_places_iff {place : List Nat} {d : Declaration} :
    place ∈ d.places ↔ (d.at? place).isSome := by
  induction place generalizing d with
  | nil => simp [places_eq, at?]
  | cons i place ih =>
      rw [places_eq, List.mem_cons, cons_mem_placesFrom_iff, at?]
      cases hchild : d.children[i]? with
      | none => simp
      | some child => simp [ih]

/-- The numbers of children grow. -/
theorem pairwise_zipIdx (ds : List Declaration) (first : Nat) :
    (ds.zipIdx first).Pairwise fun p q => p.2 < q.2 := by
  induction ds generalizing first with
  | nil => simp
  | cons d ds ih =>
      rw [List.zipIdx_cons, List.pairwise_cons]
      exact ⟨fun p hp => List.le_snd_of_mem_zipIdx hp, ih (first + 1)⟩

/-- **Document order.**  The places of a tree come in increasing order, so none comes
twice. -/
theorem pairwise_places (d : Declaration) : d.places.Pairwise (· < ·) := by
  induction d using treeInduction with
  | step d ih =>
      rw [places_eq, List.pairwise_cons]
      constructor
      · intro place hplace
        cases place with
        | nil => exact absurd hplace (nil_notMem_placesFrom _)
        | cons i place => exact List.nil_lt_cons i place
      · rw [placesFrom_eq_flatMap, List.pairwise_flatMap]
        constructor
        · intro p hp
          rw [List.pairwise_map]
          apply (ih p.1 (List.fst_mem_of_mem_zipIdx hp)).imp
          intro place other hlt
          exact List.cons_lt_cons_iff.mpr (.inr ⟨rfl, hlt⟩)
        · apply (pairwise_zipIdx d.children 0).imp
          intro p q hlt place hplace other hother
          obtain ⟨below, -, rfl⟩ := List.mem_map.mp hplace
          obtain ⟨below', -, rfl⟩ := List.mem_map.mp hother
          exact List.cons_lt_cons_iff.mpr (.inl hlt)

theorem at?_cons {d child : Declaration} {i : Nat} (hchild : d.children[i]? = some child)
    (place : List Nat) : d.at? (i :: place) = child.at? place := by
  rw [at?, hchild, Option.bind_some]

theorem containerAt?_cons {d child : Declaration} {i : Nat}
    (hchild : d.children[i]? = some child) (above : Option Declaration) (place : List Nat) :
    d.containerAt? above (i :: place) = child.containerAt? (some d) place := by
  cases place with
  | nil => simp [containerAt?, at?]
  | cons j place => simp [containerAt?, at?_cons hchild]

theorem walkAll_eq_flatMap_zipIdx (container : Option Declaration) (ds : List Declaration)
    (first : Nat) :
    walkAll container ds = (ds.zipIdx first).flatMap fun p => p.1.walk container := by
  induction ds generalizing first with
  | nil => simp
  | cons d ds ih => simp [ih (first + 1)]

/-- **Each place with its container.**  The walk goes through the places of a tree in their
order. -/
theorem walk_places (above : Option Declaration) (d : Declaration) :
    (d.walk above).map (fun p => (p.1, some p.2)) =
      d.places.map fun place => (d.containerAt? above place, d.at? place) := by
  induction d using treeInduction generalizing above with
  | step d ih =>
      have hbelow : ∀ p ∈ d.children.zipIdx,
          (p.1.walk (some d)).map (fun q => (q.1, some q.2)) =
            (p.1.places.map (p.2 :: ·)).map fun place =>
              (d.containerAt? above place, d.at? place) := by
        intro p hp
        have hchild := List.mem_zipIdx_iff_getElem?.mp hp
        rw [ih p.1 (List.fst_mem_of_mem_zipIdx hp), List.map_map]
        apply List.map_congr_left
        intro place _
        rw [Function.comp_apply, at?_cons hchild, containerAt?_cons hchild]
      rw [walk_eq, places_eq, List.map_cons, List.map_cons, placesFrom_eq_flatMap,
        walkAll_eq_flatMap_zipIdx _ _ 0, List.map_flatMap, List.map_flatMap]
      rw [List.flatMap_def, List.flatMap_def, List.map_congr_left hbelow]
      rfl

variable {m : Type → Type} {β : Type}

mutual

/-- Visit a declaration and then everything inside it, child by child, each with what
directly contains it. -/
def visitBelow [Monad m] (visit : Option Declaration → Declaration → m (List β))
    (container : Option Declaration) : Declaration → m (List β)
  | ⟨kind, range, bodyLength, setter, children⟩ => do
      let found ← visit container ⟨kind, range, bodyLength, setter, children⟩
      let others ← visitEach visit (some ⟨kind, range, bodyLength, setter, children⟩) children
      pure (found ++ others)

/-- Visit the children of a container, each with everything inside it. -/
def visitEach [Monad m] (visit : Option Declaration → Declaration → m (List β))
    (container : Option Declaration) : List Declaration → m (List β)
  | [] => pure []
  | d :: ds => do
      let found ← visitBelow visit container d
      let others ← visitEach visit container ds
      pure (found ++ others)

end

/-- A declaration is visited before its children, and is their container. -/
theorem visitBelow_eq [Monad m] (visit : Option Declaration → Declaration → m (List β))
    (container : Option Declaration) (d : Declaration) :
    visitBelow visit container d = (do
      let found ← visit container d
      let others ← visitEach visit (some d) d.children
      pure (found ++ others)) := by
  cases d
  simp only [visitBelow]

section Lawful

variable [Monad m] [LawfulMonad m]

/-- What is pending is visited front to back. -/
theorem collect_append (visit : Option Declaration → Declaration → m (List β))
    (front back : List Pending) :
    collect visit (front ++ back) = (do
      let found ← collect visit front
      let others ← collect visit back
      pure (found ++ others)) := by
  induction front with
  | nil => simp [collect]
  | cons p front ih =>
      simp only [List.cons_append, collect, ih, bind_assoc, pure_bind, List.append_assoc]

/-- **The recursion visits what the walk meets.** -/
theorem visitBelow_eq_collect (visit : Option Declaration → Declaration → m (List β))
    (container : Option Declaration) (d : Declaration) :
    visitBelow visit container d = collect visit (d.walk container) := by
  induction d using treeInduction generalizing container with
  | step d ih =>
      have heach : ∀ ds : List Declaration, (∀ child ∈ ds, child ∈ d.children) →
          visitEach visit (some d) ds = collect visit (walkAll (some d) ds) := by
        intro ds hds
        induction ds with
        | nil => simp [visitEach, collect]
        | cons child ds ihds =>
            obtain ⟨hchild, hothers⟩ := List.forall_mem_cons.mp hds
            rw [visitEach, ih child hchild, ihds hothers, walkAll_cons, collect_append]
      rw [visitBelow_eq, walk_eq, heach d.children fun child hchild => hchild, collect]

/-- What is visited is a loop over what waits, its results put one after another. -/
theorem collect_eq_mapM (visit : Option Declaration → Declaration → m (List β))
    (pending : List Pending) :
    collect visit pending = List.flatten <$> pending.mapM fun p => visit p.1 p.2 := by
  induction pending with
  | nil => simp [collect]
  | cons p pending ih => simp [collect, ih]

/-- **The walk is the recursion.**  Whatever visits read and change on the way, a walk that
keeps what waits in a list makes the visits of the recursion, in the same order: the root
without container, then each declaration with the one that directly contains it.  It makes
one visit for each place with a declaration, in document order, and returns their results
one after another. -/
theorem visitAll_preorder (visit : Option Declaration → Declaration → m (List β))
    (root : Declaration) :
    visitAll visit root = visitBelow visit none root ∧
      visitAll visit root = List.flatten <$> (root.walk none).mapM (fun p => visit p.1 p.2) ∧
      (root.walk none).map (fun p => (p.1, some p.2)) =
        root.places.map (fun place => (root.containerAt? none place, root.at? place)) ∧
      root.places.Pairwise (· < ·) ∧
      ∀ place, place ∈ root.places ↔ (root.at? place).isSome := by
  have hcollect : visitAll visit root = collect visit (root.walk none) := by
    rw [visitAll, visitPending_eq_collect, List.flatMap_cons, List.flatMap_nil, List.append_nil]
  refine ⟨?_, ?_, walk_places none root, pairwise_places root, fun place => mem_places_iff⟩
  · rw [hcollect, visitBelow_eq_collect]
  · rw [hcollect, collect_eq_mapM]

end Lawful

/-- A visit that counts: it returns its number, where the container begins and where the
declaration does. -/
def numberedVisit (container : Option Declaration) (d : Declaration) :
    StateM Nat (List (Nat × Option Nat × Option Nat)) := do
  let number ← getModify (· + 1)
  let start := fun d : Declaration => d.range.map ByteRange.location
  return [(number, container.bind start, start d)]

/-- A struct with a variable and with a method that holds another one, and behind it a
declaration of unknown kind that holds one. -/
def nestedTree : Declaration :=
  { children := [
      { kind := some .structType, range := some ⟨0, 9⟩, children := [
          { kind := some .varInstance, range := some ⟨1, 1⟩ },
          { kind := some .functionMethodInstance, range := some ⟨2, 5⟩, children := [
              { kind := some .varLocal, range := some ⟨3, 1⟩ }] }] },
      { range := some ⟨10, 5⟩, children := [
          { kind := some .varInstance, range := some ⟨12, 1⟩ }] }] }

/-- A visitor that counts its visits sees the places of a tree in order. -/
theorem visitAll_preorder_numbered : LawfulMonad (StateM Nat) ∧
    visitAll numberedVisit nestedTree = visitBelow numberedVisit none nestedTree ∧
    (visitAll numberedVisit nestedTree).run 0 =
      ([(0, none, none), (1, none, some 0), (2, some 0, some 1), (3, some 0, some 2),
        (4, some 2, some 3), (5, none, some 10), (6, some 10, some 12)], 7) ∧
    nestedTree.places = [[], [0], [0, 0], [0, 1], [0, 1, 0], [1], [1, 0]] := by
  obtain ⟨hrecursion, -⟩ := visitAll_preorder numberedVisit nestedTree
  refine ⟨inferInstance, hrecursion, ?_, by decide⟩
  rw [hrecursion]
  rfl

end Declaration

end DeclLint
