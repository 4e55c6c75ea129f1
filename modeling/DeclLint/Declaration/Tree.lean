import DeclLint.Text.Range
import DeclLint.Declaration.Kind

/-!
# The declaration tree

A declaration owns the declarations inside it and never points back at what
contains it; containers are recovered while walking down.  The walk keeps the
declarations still to be visited in a list, so its depth does not grow with the
nesting of the tree.

* `Declaration.visitAll` — every declaration with what directly contains it, in
  document order;
* `Declaration.size_pos` — a tree has at least one declaration, which is what
  makes the walk end.
-/

namespace DeclLint

/-- One declaration, or the file itself at the root of a tree.  Any attribute
may be unknown. -/
structure Declaration where
  kind : Option DeclarationKind := none
  range : Option ByteRange := none
  /-- Bytes between the braces of the body. -/
  bodyLength : Option Nat := none
  /-- Who may set the declared variable, where that was said. -/
  setterAccessibility : Option String := none
  children : List Declaration := []
deriving Repr, Inhabited, BEq

namespace Declaration

mutual

/-- Number of declarations in a tree. -/
def size : Declaration → Nat
  | ⟨_, _, _, _, children⟩ => sizeAll children + 1

/-- Number of declarations in a forest. -/
def sizeAll : List Declaration → Nat
  | [] => 0
  | d :: ds => size d + sizeAll ds

end

/-- A tree has at least one declaration. -/
theorem size_pos (d : Declaration) : 0 < d.size := by
  cases d
  simp [size]

/-- A tree has one declaration more than the forest of its children. -/
theorem size_eq (d : Declaration) : d.size = sizeAll d.children + 1 := by
  cases d
  simp [size]

theorem sizeAll_append (xs ys : List Declaration) :
    sizeAll (xs ++ ys) = sizeAll xs + sizeAll ys := by
  induction xs with
  | nil => simp [sizeAll]
  | cons d ds ih => simp [sizeAll, ih, Nat.add_assoc]

variable {m : Type → Type} {β : Type}

/-- A declaration waiting for its visit, and what directly contains it. -/
abbrev Pending := Option Declaration × Declaration

/-- The children of a declaration, each waiting with it as container. -/
def pendingChildren (d : Declaration) : List Pending :=
  d.children.map fun child => (some d, child)

theorem map_snd_pendingChildren (d : Declaration) :
    d.pendingChildren.map Prod.snd = d.children := by
  simp [pendingChildren, Function.comp_def]

/-- Visit what is waiting, first come first, each declaration before the
declarations inside it and those before what was waiting behind it. -/
def visitPending [Monad m] (visit : Option Declaration → Declaration → m (List β))
    (pending : List Pending) : m (List β) :=
  match pending with
  | [] => pure []
  | (container, d) :: rest => do
      let found ← visit container d
      let others ← visitPending visit (d.pendingChildren ++ rest)
      pure (found ++ others)
termination_by sizeAll (pending.map Prod.snd)
decreasing_by
  simp [map_snd_pendingChildren, sizeAll_append, sizeAll, size_eq d]

/-- Visit a tree in document order: the root, which nothing contains, and then
every declaration with the one that directly contains it.  The results of all
visits follow one another in that order. -/
def visitAll [Monad m] (visit : Option Declaration → Declaration → m (List β))
    (root : Declaration) : m (List β) :=
  visitPending visit [(none, root)]

end Declaration

end DeclLint
