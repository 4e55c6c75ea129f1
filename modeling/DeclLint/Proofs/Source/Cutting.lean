import DeclLint.Proofs.Text.Span
import DeclLint.Source.Token

/-!
# How a text is cut

Cutting goes from left to right and never looks back, so what holds of a piece
and what follows it is a fact about one call of `leading` (`Piece.Fits`).
`Cuts` records the calls without the pieces already done.  Inside of a literal one step
follows another, and there is one equation for each that can be taken.

* `closeAll_char`, `closeAll_interpolation`, `closeAll_delimiter` — a literal passes a
  character, goes into an interpolation, or ends;
* `closeAll_other`, `closeAll_quote`, `closeAll_last` — so does an interpolation;
* `leading_fits` — the shape of a piece of each kind, and what may follow it;
* `cut_eq_ok_iff` — a cut of a text is a derivation of `Cuts`;
* `Cuts.fits` — every piece of a cut has its shape.
-/

namespace DeclLint

/-- The shape of a piece of its kind, and what may follow it: a word holds all
the word characters there are, a line comment ends at a line break. -/
def Piece.Fits (p : Piece) (rest : List Char) : Prop :=
  match p.kind with
  | .lineBreak => p.text = ['\n']
  | .blank => ∃ c ∈ [' ', '\t', '\r'], p.text = [c]
  | .lineComment =>
      (∃ cs, p.text = '/' :: '/' :: cs) ∧ '\n' ∉ p.text ∧ ∀ c ∈ rest.head?, c = '\n'
  | .blockComment => ∃ cs, p.text = '/' :: '*' :: cs
  | .literal => ∃ c cs, p.text = c :: cs ∧ (c = '"' ∨ c = '#')
  | .word =>
      p.text ≠ [] ∧ (∀ c ∈ p.text, isWordChar c = true) ∧
        ∀ c ∈ rest.head?, isWordChar c = false
  | .mark => ∃ c, p.text = [c] ∧ isWordChar c = false

/-- No piece is empty. -/
theorem Piece.Fits.text_ne_nil {p : Piece} {rest : List Char} (h : p.Fits rest) :
    p.text ≠ [] := by
  unfold Piece.Fits at h
  split at h <;> grind

theorem head?_dropWhile_false {q : Char → Bool} {cs : List Char} :
    ∀ c ∈ (cs.dropWhile q).head?, q c = false := by
  intro c hc
  have h := List.head?_dropWhile_not q cs
  rw [Option.mem_def.mp hc] at h
  simpa using h

theorem of_mem_takeWhile {α : Type} {q : α → Bool} {xs : List α} {x : α}
    (h : x ∈ xs.takeWhile q) : q x = true :=
  List.all_eq_true.mp (List.all_takeWhile (p := q) (l := xs)) x h

theorem exists_of_map_eq_ok {ε α β : Type} {x : Except ε α} {f : α → β} {b : β}
    (h : x.map f = .ok b) : ∃ a, x = .ok a ∧ f a = b := by
  cases x with
  | error e => simp [Except.map] at h
  | ok a => exact ⟨a, rfl, Except.ok.inj h⟩

section ClosingSteps

variable {hashes depth : Nat} {multiline : Bool} {c : Char} {cs : List Char}

/-- A character of a literal is passed. -/
theorem closeAll_char (hescape : hashes = 0 → c ≠ '\\') (hbreak : multiline = false → c ≠ '\n')
    (hdelimiter : c = '"' → ¬ Opening.closer hashes multiline <+: cs) (offset start : Nat)
    (outer : List Opening) (taken : List Char) :
    closeAll offset (.quote start hashes multiline :: outer) taken (c :: cs) =
      closeAll (offset + c.utf8Size) (.quote start hashes multiline :: outer) (c :: taken) cs := by
  have hescape' : ¬ (c = '\\' ∧ hashes = 0) := by
    intro h
    exact hescape h.2 h.1
  have hbreak' : ¬ (c = '\n' ∧ multiline = false) := by
    intro h
    exact hbreak h.2 h.1
  have hdelimiter' : ¬ (c = '"' ∧ (Opening.closer hashes multiline).isPrefixOf cs = true) := by
    intro h
    exact hdelimiter h.1 (List.isPrefixOf_iff_prefix.mp h.2)
  rw [closeAll.eq_def]
  simp only [if_neg hescape', if_neg hbreak', if_neg hdelimiter']

/-- So is an escape. -/
theorem closeAll_escape (hc : c ≠ '(') (offset start : Nat) (outer : List Opening)
    (taken : List Char) :
    closeAll offset (.quote start 0 multiline :: outer) taken ('\\' :: c :: cs) =
      closeAll (offset + 1 + c.utf8Size) (.quote start 0 multiline :: outer)
        (c :: '\\' :: taken) cs := by
  rw [closeAll.eq_def]
  simp [hc]

/-- An interpolation is entered. -/
theorem closeAll_interpolation (offset start : Nat) (outer : List Opening) (taken : List Char) :
    closeAll offset (.quote start 0 multiline :: outer) taken ('\\' :: '(' :: cs) =
      closeAll (offset + 2) (.paren (offset + 1) 1 :: .quote start 0 multiline :: outer)
        ('(' :: '\\' :: taken) cs := by
  rw [closeAll.eq_def]
  simp

/-- A line break is refused in a literal of one line. -/
theorem closeAll_lineBreak (offset start : Nat) (outer : List Opening) (taken : List Char) :
    closeAll offset (.quote start hashes false :: outer) taken ('\n' :: cs) =
      .error (.unterminated .stringLiteral start) := by
  rw [closeAll.eq_def]
  simp

/-- A literal is left behind its delimiter. -/
theorem closeAll_delimiter (offset start : Nat) (outer : List Opening) (taken : List Char) :
    closeAll offset (.quote start hashes multiline :: outer) taken
        ('"' :: (Opening.closer hashes multiline ++ cs)) =
      closeAll (offset + 1 + (Opening.closer hashes multiline).length) outer
        ((Opening.closer hashes multiline).reverse ++ '"' :: taken) cs := by
  rw [closeAll.eq_def]
  simp

/-- A parenthesis is entered. -/
theorem closeAll_left (offset start : Nat) (outer : List Opening) (taken : List Char) :
    closeAll offset (.paren start depth :: outer) taken ('(' :: cs) =
      closeAll (offset + 1) (.paren start (depth + 1) :: outer) ('(' :: taken) cs := by
  rw [closeAll.eq_def]
  simp

/-- The last parenthesis is left. -/
theorem closeAll_last (h : depth ≤ 1) (offset start : Nat) (outer : List Opening)
    (taken : List Char) :
    closeAll offset (.paren start depth :: outer) taken (')' :: cs) =
      closeAll (offset + 1) outer (')' :: taken) cs := by
  rw [closeAll.eq_def]
  simp [h]

/-- A parenthesis inside is left. -/
theorem closeAll_right (h : ¬ depth ≤ 1) (offset start : Nat) (outer : List Opening)
    (taken : List Char) :
    closeAll offset (.paren start depth :: outer) taken (')' :: cs) =
      closeAll (offset + 1) (.paren start (depth - 1) :: outer) (')' :: taken) cs := by
  rw [closeAll.eq_def]
  simp [h]

/-- A literal of several lines is entered. -/
theorem closeAll_quotes (offset start : Nat) (outer : List Opening) (taken : List Char) :
    closeAll offset (.paren start depth :: outer) taken ('"' :: '"' :: '"' :: cs) =
      closeAll (offset + 3) (.quote offset 0 true :: .paren start depth :: outer)
        ('"' :: '"' :: '"' :: taken) cs := by
  rw [closeAll.eq_def]
  simp

/-- A literal of one line is entered. -/
theorem closeAll_quote (h : ¬ ['"', '"'] <+: cs) (offset start : Nat) (outer : List Opening)
    (taken : List Char) :
    closeAll offset (.paren start depth :: outer) taken ('"' :: cs) =
      closeAll (offset + 1) (.quote offset 0 false :: .paren start depth :: outer)
        ('"' :: taken) cs := by
  have hquotes : ∀ rest, cs = '"' :: '"' :: rest → False := fun rest hrest =>
    h ⟨rest, hrest.symm⟩
  rw [closeAll.eq_def]
  simp

/-- Any other character of an interpolation is passed. -/
theorem closeAll_other (hleft : c ≠ '(') (hright : c ≠ ')') (hquote : c ≠ '"')
    (offset start : Nat) (outer : List Opening) (taken : List Char) :
    closeAll offset (.paren start depth :: outer) taken (c :: cs) =
      closeAll (offset + c.utf8Size) (.paren start depth :: outer) (c :: taken) cs := by
  rw [closeAll.eq_def]
  simp [hleft, hright, hquote]

end ClosingSteps

/-- **Shapes of pieces.**  What `leading` reads has the shape of its kind. -/
theorem leading_fits {offset : Nat} {c : Char} {cs text rest : List Char}
    {kind : PieceKind} (h : leading offset c cs = .ok (kind, text, rest)) :
    Piece.Fits ⟨kind, c :: text⟩ rest := by
  unfold leading at h
  split at h
  next hbreak =>
    simp only [Except.ok.injEq, Prod.mk.injEq] at h
    obtain ⟨rfl, rfl, rfl⟩ := h
    simp [Piece.Fits, hbreak]
  split at h
  next hblank =>
    simp only [Except.ok.injEq, Prod.mk.injEq] at h
    obtain ⟨rfl, rfl, rfl⟩ := h
    exact ⟨c, by simpa using hblank, rfl⟩
  split at h
  next hbreak _ hcomment =>
    simp only [Except.ok.injEq, Prod.mk.injEq] at h
    obtain ⟨rfl, rfl, rfl⟩ := h
    obtain ⟨rfl, hslash⟩ := hcomment
    obtain ⟨tail, rfl⟩ : ∃ tail, cs = '/' :: tail := by
      cases cs with
      | nil => simp at hslash
      | cons d tail => exact ⟨tail, by simp_all⟩
    refine ⟨⟨tail.takeWhile (· ≠ '\n'), by simp⟩, ?_, ?_⟩
    · intro hmem
      rcases List.mem_cons.mp hmem with hmem | hmem
      · exact absurd hmem (by decide)
      · simpa using of_mem_takeWhile hmem
    · intro d hd
      simpa using head?_dropWhile_false d hd
  split at h
  next hstar =>
    split at h
    next read left hclose =>
      simp only [Except.ok.injEq, Prod.mk.injEq] at h
      obtain ⟨rfl, rfl, rfl⟩ := h
      obtain ⟨rfl, -⟩ := hstar
      exact ⟨read, rfl⟩
    next => simp at h
  split at h
  next hquote =>
    obtain ⟨read, -, hread⟩ := exists_of_map_eq_ok h
    obtain ⟨rfl, -⟩ := Prod.mk.inj hread
    exact ⟨c, text, rfl, Or.inl hquote⟩
  split at h
  next hhash =>
    obtain ⟨read, -, hread⟩ := exists_of_map_eq_ok h
    obtain ⟨rfl, -⟩ := Prod.mk.inj hread
    exact ⟨c, text, rfl, Or.inr hhash.1⟩
  split at h
  next hword =>
    simp only [Except.ok.injEq, Prod.mk.injEq] at h
    obtain ⟨rfl, rfl, rfl⟩ := h
    refine ⟨by simp, ?_, fun d hd => head?_dropWhile_false d hd⟩
    intro d hd
    rcases List.mem_cons.mp hd with rfl | hd
    · exact hword
    · exact of_mem_takeWhile hd
  next hword =>
    simp only [Except.ok.injEq, Prod.mk.injEq] at h
    obtain ⟨rfl, rfl, rfl⟩ := h
    exact ⟨c, rfl, by simpa using hword⟩

/-- The error at another offset. -/
def ParseError.relocate (move : Nat → Nat) : ParseError → ParseError
  | unbalanced delimiter offset => unbalanced delimiter (move offset)
  | unterminated construct offset => unterminated construct (move offset)
  | invalidStructure detail => invalidStructure detail

/-- The characters at an offset are cut into pieces. -/
inductive Cuts : Nat → List Char → List Piece → Prop
  | nil (offset : Nat) : Cuts offset [] []
  | cons {offset : Nat} {c : Char} {cs text rest : List Char} {kind : PieceKind}
      {pieces : List Piece} (hlead : leading offset c cs = .ok (kind, text, rest))
      (tail : Cuts (offset + c.utf8Size + utf8Size text) rest pieces) :
      Cuts offset (c :: cs) (⟨kind, c :: text⟩ :: pieces)

/-- Cutting adds pieces to those already done. -/
theorem cutFrom_eq_ok_iff {offset : Nat} {done pieces : List Piece} {cs : List Char} :
    cutFrom offset done cs = .ok pieces ↔
      ∃ more, pieces = done.reverse ++ more ∧ Cuts offset cs more := by
  constructor
  · intro h
    fun_induction cutFrom offset done cs with
    | case1 =>
        obtain rfl := Except.ok.inj h
        exact ⟨[], by simp, .nil _⟩
    | case2 => simp at h
    | case3 offset done c cs kind text rest hlead _ ih =>
        obtain ⟨more, rfl, htail⟩ := ih h
        exact ⟨⟨kind, c :: text⟩ :: more, by simp, .cons hlead htail⟩
  · rintro ⟨more, rfl, hcuts⟩
    induction hcuts generalizing done with
    | nil => simp [cutFrom]
    | @cons offset c cs text rest kind pieces hlead tail ih =>
        have hrest := @ih (⟨kind, c :: text⟩ :: done)
        rw [cutFrom]
        split
        next e herror => simp [hlead] at herror
        next kind' text' rest' hlead' =>
          obtain ⟨rfl, rfl, rfl⟩ : kind = kind' ∧ text = text' ∧ rest = rest' := by
            simpa [hlead] using hlead'
          simpa using hrest

/-- A cut of a text is a derivation. -/
theorem cut_eq_ok_iff {source : List Char} {pieces : List Piece} :
    cut source = .ok pieces ↔ Cuts 0 source pieces := by
  simp [cut, cutFrom_eq_ok_iff]

@[simp] theorem joinPieces_nil : joinPieces [] = [] := rfl

@[simp] theorem joinPieces_cons (p : Piece) (ps : List Piece) :
    joinPieces (p :: ps) = p.text ++ joinPieces ps := rfl

@[simp] theorem joinPieces_append (ps qs : List Piece) :
    joinPieces (ps ++ qs) = joinPieces ps ++ joinPieces qs := by
  simp [joinPieces]

namespace Cuts

variable {offset : Nat} {cs : List Char} {pieces : List Piece}

/-- The pieces of a cut, joined, are the text. -/
theorem join (h : Cuts offset cs pieces) : joinPieces pieces = cs := by
  induction h with
  | nil => rfl
  | cons hlead _ ih => rw [joinPieces_cons, ih, List.cons_append, leading_split hlead]

variable {p : Piece} {ps : List Piece}

/-- What is left after the first piece is cut into the others. -/
theorem rest (h : Cuts offset cs (p :: ps)) :
    Cuts (offset + utf8Size p.text) (joinPieces ps) ps := by
  cases h with
  | cons hlead tail =>
      rw [tail.join]
      simpa [Nat.add_assoc] using tail

/-- Every piece of a cut has the shape of its kind. -/
theorem fits (h : Cuts offset cs (p :: ps)) : p.Fits (joinPieces ps) := by
  cases h with
  | cons hlead tail => exact tail.join ▸ leading_fits hlead

/-- What is behind some pieces is cut into the others. -/
theorem behind (front : List Piece) (h : Cuts offset cs (front ++ ps)) :
    Cuts (offset + utf8Size (joinPieces front)) (joinPieces ps) ps := by
  induction front generalizing offset cs with
  | nil =>
      have hjoin := h.join
      rw [List.nil_append] at h hjoin
      rw [hjoin]
      simpa using h
  | cons q front ih =>
      have hrest := ih h.rest
      rw [joinPieces_cons, utf8Size_append, ← Nat.add_assoc]
      exact hrest

/-- So has every later piece. -/
theorem fits_behind (front : List Piece) (h : Cuts offset cs (front ++ p :: ps)) :
    p.Fits (joinPieces ps) :=
  (h.behind front).fits

end Cuts

end DeclLint
