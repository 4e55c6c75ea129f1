import DeclLint.Proofs.Outline.Placement

/-!
# Declarations in document order

The walk over a tree meets a declaration before those inside it, and these before
what follows.  All of them begin at introducing words, and these come in the order
of the text, so along the walk the places where declarations begin only grow.

* `Outline.Holds.begins` — a declaration begins at one of the tokens;
* `Outline.Holds.beginsBefore` — the order of the walk is that of the text.
-/

namespace DeclLint

/-- One declaration begins before another one does. -/
def Declaration.BeginsBefore (d e : Declaration) : Prop :=
  ∃ r s, d.range = some r ∧ e.range = some s ∧ r.location < s.location

namespace Outline

/-- A declaration that begins at one of the given tokens. -/
def Begins (ts : List Token) (d : Declaration) : Prop :=
  ∃ r, d.range = some r ∧ ∃ t ∈ ts, r.location = t.start

theorem Begins.mono {xs ys : List Token} {d : Declaration} (h : Begins xs d) (hsub : xs ⊆ ys) :
    Begins ys d := by
  obtain ⟨r, hr, t, ht, hlocation⟩ := h
  exact ⟨r, hr, t, hsub ht, hlocation⟩

theorem Spanned.begins {ts : List Token} {d : Declaration} (h : Spanned ts d) : Begins ts d := by
  obtain ⟨r, hr, hfirst, -⟩ := h
  exact ⟨r, hr, hfirst⟩

/-- What begins at tokens further on begins later. -/
theorem Begins.before {source : List Char} {xs ys : List Token} {d e : Declaration}
    (hd : Begins xs d) (he : Begins ys e) (hlaid : Token.Laid source (xs ++ ys)) :
    d.BeginsBefore e := by
  obtain ⟨r, hr, t, ht, hlocation⟩ := hd
  obtain ⟨s, hs, u, hu, hlocation'⟩ := he
  have hlt := (hlaid.stands t (List.mem_append_left ys ht)).start_lt_stop
  have hle := (List.pairwise_append.mp hlaid.ordered).2.2 t ht u hu
  exact ⟨r, s, hr, hs, by omega⟩

variable {source : List Char} {scope : Scope} {ts : List Token} {ds : List Declaration}

/-- What a body declares begins at its introduction. -/
theorem Opens.begins {inside : Scope} {introduction : List Token}
    {owner : Owner} {brace closing : Token} {members : List Declaration} {d : Declaration}
    (h : Opens scope introduction owner inside) (howner : owner ≠ .block)
    (hd : d ∈ owner.declare brace closing members) : Begins introduction d := by
  obtain ⟨word, following, text, rfl, -, hrange, -⟩ := h.range_of_mem_declare howner hd
  exact ⟨_, hrange, word, List.mem_cons_self, rfl⟩

/-- **Declarations begin at tokens.**  It holds for all levels of an outline. -/
theorem Holds.begins (h : Holds scope ts ds) {container : Option Declaration} :
    ∀ p ∈ Declaration.walkAll container ds, Begins ts p.2 := by
  intro p hp
  obtain ⟨stretch, hwithin, hnode⟩ := h.node p hp
  obtain ⟨kind, word, following, text, last, -, rfl, -, -, -, hrange⟩ := hnode.introduced
  exact ⟨_, hrange, word, hwithin.subset List.mem_cons_self, rfl⟩

/-- **The walk goes forward.**  Of two declarations of an outline, the one that is
walked to first begins first. -/
theorem Holds.beginsBefore (h : Holds scope ts ds) (hlaid : Token.Laid source ts)
    {container : Option Declaration} :
    (Declaration.walkAll container ds).Pairwise fun p q => p.2.BeginsBefore q.2 := by
  induction h generalizing container with
  | nil => simp
  | pass t _ ih => exact ih (hlaid.within (List.suffix_cons t _).isInfix)
  | @declare scope introduction ts d ds hdeclares tail ih =>
      have hfirst := hlaid.within (List.prefix_append introduction ts).isInfix
      have htail := hlaid.within (List.suffix_append introduction ts).isInfix
      have hleaf : d.children = [] := by
        cases hdeclares <;> rfl
      rw [Declaration.walkAll_cons, Declaration.walk_eq, hleaf, Declaration.walkAll_nil]
      refine List.pairwise_append.mpr ⟨List.pairwise_singleton _ _, ih htail, ?_⟩
      intro p hp q hq
      obtain rfl := List.mem_singleton.mp hp
      exact (hdeclares.spanned hfirst).begins.before (tail.begins q hq) hlaid
  | @body scope inside introduction inner ts owner brace closing ds members
      hopens hbrace hclosing hholds tail ihinner ih =>
      have hinner := hlaid.within (inner_within_body introduction inner ts brace closing)
      rw [append_body_eq] at hlaid
      have hbody := hlaid.within (List.prefix_append _ ts).isInfix
      have htail := hlaid.within (List.suffix_append _ ts).isInfix
      rw [Declaration.walkAll_append]
      refine List.pairwise_append.mpr ⟨?_, ih htail, ?_⟩
      · by_cases howner : owner = .block
        · subst howner
          exact ihinner hinner
        · obtain ⟨d, hd, hchildren⟩ := Owner.declare_eq_singleton howner brace closing members
          have hbegins := hopens.begins howner (hd ▸ List.mem_singleton.mpr rfl)
          rw [hd, Declaration.walkAll_cons, Declaration.walkAll_nil, List.append_nil,
            Declaration.walk_eq]
          rcases hchildren with hmembers | hnone
          · rw [hmembers]
            refine List.pairwise_cons.mpr ⟨?_, ihinner hinner⟩
            intro q hq
            refine (hbegins.mono (List.subset_append_left _ [brace])).before
              (hholds.begins q hq) (hbody.within ⟨[], [closing], by simp⟩)
          · rw [hnone, Declaration.walkAll_nil]
            exact List.pairwise_singleton _ _
      · intro p hp q hq
        have hwhole : Holds scope (introduction ++ brace :: (inner ++ [closing]))
            (owner.declare brace closing members ++ []) :=
          .body hopens hbrace hclosing hholds (.nil scope)
        rw [← List.append_nil (owner.declare brace closing members)] at hp
        exact (hwhole.begins p hp).before (tail.begins q hq) hlaid

end Outline

end DeclLint
