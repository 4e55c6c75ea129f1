import DeclLint.Declaration.Tree
import DeclLint.Log

/-!
# The walk as a recursion

The walk over a tree keeps what is still to be visited in a list.  Read as a
recursion on the tree it is shorter: a declaration, then those inside it, each
with the one that directly contains it (`Declaration.walk`).

* `Declaration.container_of_mem_walk` — what a walk meets stands in what it was met
  below, or is where the walk began;
* `Declaration.visitPending_eq_collect` — what is waiting is visited in the order
  of its walks, one after another;
* `Declaration.value_visitAll` — the values of all visits, in the order of the walk.
-/

namespace DeclLint

namespace Declaration

mutual

/-- A declaration and those inside it in document order, each with what
directly contains it. -/
def walk (container : Option Declaration) : Declaration → List Pending
  | ⟨kind, range, bodyLength, setter, children⟩ =>
      (container, ⟨kind, range, bodyLength, setter, children⟩) ::
        walkAll (some ⟨kind, range, bodyLength, setter, children⟩) children

/-- The declarations of a forest in document order, each with what directly
contains it. -/
def walkAll (container : Option Declaration) : List Declaration → List Pending
  | [] => []
  | d :: ds => walk container d ++ walkAll container ds

end

theorem walk_eq (container : Option Declaration) (d : Declaration) :
    d.walk container = (container, d) :: walkAll (some d) d.children := by
  cases d
  simp [walk]

@[simp] theorem walkAll_nil (container : Option Declaration) : walkAll container [] = [] := by
  simp [walkAll]

@[simp] theorem walkAll_cons (container : Option Declaration) (d : Declaration)
    (ds : List Declaration) :
    walkAll container (d :: ds) = d.walk container ++ walkAll container ds := by
  simp [walkAll]

@[simp] theorem walkAll_append (container : Option Declaration) (ds es : List Declaration) :
    walkAll container (ds ++ es) = walkAll container ds ++ walkAll container es := by
  induction ds with
  | nil => simp
  | cons d ds ih => simp [ih]

theorem walkAll_eq_flatMap (container : Option Declaration) (ds : List Declaration) :
    walkAll container ds = (ds.map fun d => (container, d)).flatMap fun p => p.2.walk p.1 := by
  induction ds with
  | nil => simp
  | cons d ds ih => simp [ih]

/-- Below the root every declaration is walked to with a container. -/
theorem mem_walk_root_iff {root d : Declaration} {container : Declaration} :
    (some container, d) ∈ root.walk none ↔
      (some container, d) ∈ walkAll (some root) root.children := by
  simp [walk_eq]

mutual

/-- **Containers.**  A declaration that a walk meets is where the walk began, or it
stands directly in one that the walk meets too. -/
theorem container_of_mem_walk {above : Option Declaration} {container d : Declaration} :
    ∀ {top : Declaration}, (some container, d) ∈ top.walk above →
      (above = some container ∧ d = top) ∨
        d ∈ container.children ∧ ∃ outer, (outer, container) ∈ top.walk above
  | ⟨kind, range, bodyLength, setter, children⟩, h => by
      rw [walk_eq] at h ⊢
      rcases List.mem_cons.mp h with heq | hbelow
      · obtain ⟨rfl, rfl⟩ := Prod.mk.inj heq
        exact .inl ⟨rfl, rfl⟩
      · right
        rcases container_of_mem_walkAll hbelow with ⟨hcontainer, hchild⟩ | ⟨hchild, outer, hwalk⟩
        · obtain rfl := Option.some.inj hcontainer
          exact ⟨hchild, above, List.mem_cons_self⟩
        · exact ⟨hchild, outer, List.mem_cons_of_mem _ hwalk⟩

/-- A declaration is visited with what is above all of them, or with a visited one that it is a
child of. -/
theorem container_of_mem_walkAll {above : Option Declaration} {container d : Declaration} :
    ∀ {tops : List Declaration}, (some container, d) ∈ walkAll above tops →
      (above = some container ∧ d ∈ tops) ∨
        d ∈ container.children ∧ ∃ outer, (outer, container) ∈ walkAll above tops
  | [], h => by simp at h
  | top :: tops, h => by
      rw [walkAll_cons] at h ⊢
      rcases List.mem_append.mp h with htop | htops
      · rcases container_of_mem_walk htop with ⟨habove, rfl⟩ | ⟨hchild, outer, hwalk⟩
        · exact .inl ⟨habove, List.mem_cons_self⟩
        · exact .inr ⟨hchild, outer, List.mem_append_left _ hwalk⟩
      · rcases container_of_mem_walkAll htops with ⟨habove, hd⟩ | ⟨hchild, outer, hwalk⟩
        · exact .inl ⟨habove, List.mem_cons_of_mem _ hd⟩
        · exact .inr ⟨hchild, outer, List.mem_append_right _ hwalk⟩

end

variable {m : Type → Type} {β : Type}

/-- The results of visits, in the order of the visits. -/
def collect [Monad m] (visit : Option Declaration → Declaration → m (List β)) :
    List Pending → m (List β)
  | [] => pure []
  | (container, d) :: rest => do
      let found ← visit container d
      let others ← collect visit rest
      pure (found ++ others)

/-- **The list is a recursion unrolled.**  What is waiting is visited in the
order of its walks, one after another. -/
theorem visitPending_eq_collect [Monad m]
    (visit : Option Declaration → Declaration → m (List β)) (pending : List Pending) :
    visitPending visit pending = collect visit (pending.flatMap fun p => p.2.walk p.1) := by
  fun_induction visitPending visit pending with
  | case1 => simp [collect]
  | case2 container d rest ih =>
      have hflat : ((d.pendingChildren ++ rest).flatMap fun p => p.2.walk p.1) =
          walkAll (some d) d.children ++ rest.flatMap fun p => p.2.walk p.1 := by
        rw [List.flatMap_append, pendingChildren, ← walkAll_eq_flatMap]
      rw [List.flatMap_cons, walk_eq, List.cons_append, ← hflat]
      simp only [collect, ih]

theorem value_collect (visit : Option Declaration → Declaration → Logged (List β))
    (pending : List Pending) :
    (collect visit pending).value = pending.flatMap fun p => (visit p.1 p.2).value := by
  induction pending with
  | nil => rfl
  | cons p pending ih => simp [collect, ih]

/-- **The values of a walk.**  They come in the order of the recursion. -/
theorem value_visitAll (visit : Option Declaration → Declaration → Logged (List β))
    (root : Declaration) :
    (visitAll visit root).value = (root.walk none).flatMap fun p => (visit p.1 p.2).value := by
  rw [visitAll, visitPending_eq_collect, value_collect]
  simp

/-- Where no visit notes anything, nothing is noted. -/
theorem lines_collect_eq_nil {visit : Option Declaration → Declaration → Logged (List β)}
    {pending : List Pending} (h : ∀ p ∈ pending, (visit p.1 p.2).lines = []) :
    (collect visit pending).lines = [] := by
  induction pending with
  | nil => rfl
  | cons p pending ih =>
      obtain ⟨hfirst, hothers⟩ := List.forall_mem_cons.mp h
      simp [collect, hfirst, ih hothers]

/-- **The lines of a walk.**  Where no visit notes anything, the walk does not. -/
theorem lines_visitAll_eq_nil {visit : Option Declaration → Declaration → Logged (List β)}
    {root : Declaration} (h : ∀ p ∈ root.walk none, (visit p.1 p.2).lines = []) :
    (visitAll visit root).lines = [] := by
  rw [visitAll, visitPending_eq_collect]
  apply lines_collect_eq_nil
  simpa using h

end Declaration

end DeclLint
