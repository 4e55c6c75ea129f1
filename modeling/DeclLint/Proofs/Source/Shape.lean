import DeclLint.Proofs.Source.Cutting
import DeclLint.Text.WordCharacter

/-!
# A text is cut by its shape

Which pieces a text is cut into depends on its marks, blanks and line breaks and
on where its words are, never on how a word is spelled.  So the shape of a text
is what is left of it when all ASCII letters are taken for one, and texts of one
shape are cut into pieces of the same kinds and shapes.

* `closeAll_shape`, `closeComment_shape`, `leading_shape` — reading a piece;
* `Cuts.of_shape_eq` — texts of one shape have cuts of one shape;
* `Piece.eq_of_shape_eq` — the text decides among cuts of one shape.
-/

namespace DeclLint

/-- The shape of a character: all ASCII letters have one. -/
def shape (c : Char) : Char := if c.isAlpha then 'a' else c

/-- The shape of a run of characters. -/
def shapes (cs : List Char) : List Char := cs.map shape

@[simp] theorem shapes_nil : shapes [] = [] := rfl

@[simp] theorem shapes_cons (c : Char) (cs : List Char) :
    shapes (c :: cs) = shape c :: shapes cs := rfl

@[simp] theorem shapes_append (xs ys : List Char) :
    shapes (xs ++ ys) = shapes xs ++ shapes ys :=
  List.map_append

@[simp] theorem shapes_reverse (cs : List Char) : shapes cs.reverse = (shapes cs).reverse :=
  List.map_reverse

@[simp] theorem length_shapes (cs : List Char) : (shapes cs).length = cs.length :=
  List.length_map shape

@[simp] theorem shapes_eq_nil_iff {cs : List Char} : shapes cs = [] ↔ cs = [] :=
  List.map_eq_nil_iff

@[simp] theorem shape_of_isAlpha_false {c : Char} (h : c.isAlpha = false) : shape c = c := by
  simp [shape, h]

/-- What is no letter is told from everything else by its shape. -/
theorem shape_eq_iff {c d : Char} (hd : d.isAlpha = false) : shape c = d ↔ c = d := by
  unfold shape
  split
  next hc =>
    constructor
    · intro h
      rw [← h] at hd
      exact absurd hd (by decide)
    · intro h
      rw [h, hd] at hc
      exact absurd hc (by decide)
  next => exact Iff.rfl

theorem utf8Size_of_isAlpha {c : Char} (h : c.isAlpha = true) : c.utf8Size = 1 := by
  have hcode := isAlpha_iff_toNat.mp h
  rw [Char.utf8Size_eq_one_iff, UInt32.le_iff_toNat_le]
  show c.toNat ≤ 0x7F
  omega

@[simp] theorem utf8Size_shape (c : Char) : (shape c).utf8Size = c.utf8Size := by
  unfold shape
  split
  next h =>
    rw [utf8Size_of_isAlpha h]
    decide
  next => rfl

@[simp] theorem utf8Size_shapes (cs : List Char) : utf8Size (shapes cs) = utf8Size cs := by
  induction cs with
  | nil => rfl
  | cons c cs ih => simp [ih]

/-- A character and its shape both belong to words, or neither does. -/
@[simp] theorem isWordChar_shape (c : Char) : isWordChar (shape c) = isWordChar c := by
  unfold shape
  split
  next h =>
    have hword : isWordChar c = true := by simp [isWordChar, Char.isAlphanum, h]
    rw [hword]
    decide
  next => rfl

/-- A run of one shape with a run that begins with no letter begins alike. -/
theorem eq_cons_of_shapes {cs rest : List Char} {d : Char} (hd : d.isAlpha = false)
    (h : shapes cs = d :: rest) : ∃ more, cs = d :: more ∧ shapes more = rest := by
  obtain ⟨c, more, rfl, hc, hrest⟩ := List.map_eq_cons_iff.mp h
  rw [(shape_eq_iff hd).mp hc]
  exact ⟨more, rfl, hrest⟩

theorem head?_shapes_eq_iff {cs : List Char} {d : Char} (hd : d.isAlpha = false) :
    (shapes cs).head? = some d ↔ cs.head? = some d := by
  cases cs with
  | nil => simp
  | cons c cs => simp [shape_eq_iff hd]

/-- Where no letter is, none is in a run of the same shape. -/
theorem mem_shapes_iff {cs : List Char} {d : Char} (hd : d.isAlpha = false) :
    d ∈ shapes cs ↔ d ∈ cs := by
  induction cs with
  | nil => simp
  | cons c cs ih =>
      rw [shapes_cons, List.mem_cons, List.mem_cons, ih, eq_comm, shape_eq_iff hd, eq_comm]

/-- Whether a run begins with a word character is told by its shape. -/
theorem head?_isWordChar_of_shapes_eq {cs ds : List Char} (h : shapes cs = shapes ds)
    (hends : ∀ d ∈ ds.head?, isWordChar d = false) : ∀ c ∈ cs.head?, isWordChar c = false := by
  intro c hc
  cases ds with
  | nil => simp_all
  | cons d ds =>
      cases cs with
      | nil => simp at hc
      | cons c' cs =>
          obtain rfl : c' = c := by simpa using hc
          obtain ⟨hhead, -⟩ := List.cons.inj h
          rw [← isWordChar_shape, hhead, isWordChar_shape]
          exact hends d rfl

/-- Marks begin a text if they begin its shape. -/
theorem isPrefixOf_shapes {word cs : List Char} (h : ∀ c ∈ word, c.isAlpha = false) :
    word.isPrefixOf (shapes cs) = word.isPrefixOf cs := by
  induction word generalizing cs with
  | nil => rfl
  | cons d word ih =>
      cases cs with
      | nil => rfl
      | cons c cs =>
          have hd : d.isAlpha = false := h d List.mem_cons_self
          have htail : word.isPrefixOf (shapes cs) = word.isPrefixOf cs :=
            ih fun c hc => h c (List.mem_cons_of_mem _ hc)
          have hhead : (d == shape c) = (d == c) := by
            rw [Bool.eq_iff_iff, beq_iff_eq, beq_iff_eq, eq_comm, shape_eq_iff hd, eq_comm]
          simp only [shapes_cons, List.isPrefixOf, hhead, htail]

theorem takeWhile_shapes {q : Char → Bool} (hq : ∀ c, q (shape c) = q c) (cs : List Char) :
    (shapes cs).takeWhile q = shapes (cs.takeWhile q) := by
  unfold shapes
  rw [List.takeWhile_map]
  exact congrArg (List.map shape) (congrArg (List.takeWhile · cs) (funext hq))

theorem dropWhile_shapes {q : Char → Bool} (hq : ∀ c, q (shape c) = q c) (cs : List Char) :
    (shapes cs).dropWhile q = shapes (cs.dropWhile q) := by
  unfold shapes
  rw [List.dropWhile_map]
  exact congrArg (List.map shape) (congrArg (List.dropWhile · cs) (funext hq))

/-- A delimiter holds no letter. -/
theorem isAlpha_of_mem_closer {hashes : Nat} {multiline : Bool} :
    ∀ c ∈ Opening.closer hashes multiline, c.isAlpha = false := by
  intro c hc
  unfold Opening.closer at hc
  rcases List.mem_append.mp hc with hc | hc
  · split at hc
    · have hquote : c = '"' := by simpa using hc
      rw [hquote]
      decide
    · simp at hc
  · rw [(List.mem_replicate.mp hc).2]
    decide

/-- The shapes of what was read and of what is left. -/
def readShapes (read : List Char × List Char) : List Char × List Char :=
  (shapes read.1, shapes read.2)

/-- **Literals by their shape.** -/
theorem closeAll_shape (offset : Nat) (openings : List Opening) (taken cs : List Char) :
    closeAll offset openings (shapes taken) (shapes cs) =
      (closeAll offset openings taken cs).map readShapes := by
  have hcloser : ∀ hashes multiline (cs : List Char),
      (Opening.closer hashes multiline).isPrefixOf (shapes cs) =
        (Opening.closer hashes multiline).isPrefixOf cs :=
    fun _ _ _ => isPrefixOf_shapes isAlpha_of_mem_closer
  have htake : ∀ n (cs : List Char), (shapes cs).take n = shapes (cs.take n) :=
    fun _ _ => List.map_take.symm
  have hdrop : ∀ n (cs : List Char), (shapes cs).drop n = shapes (cs.drop n) :=
    fun _ _ => List.map_drop.symm
  fun_induction closeAll offset openings taken cs with
  | case1 offset taken cs => simp [closeAll, Except.map, readShapes]
  | case2 => simp [closeAll, Except.map]
  | case3 offset taken start hashes multiline outer c h =>
      rw [closeAll.eq_def]
      simp [h, Except.map]
  | case4 offset taken start hashes multiline outer c h rest ih =>
      rw [closeAll.eq_def]
      simpa [h] using ih
  | case5 offset taken start hashes multiline outer c h d rest hd ih =>
      rw [closeAll.eq_def]
      simpa [shape_eq_iff, h, hd] using ih
  | case6 offset taken start hashes multiline outer c cs hescape h =>
      rw [closeAll.eq_def]
      simp [h, Except.map]
  | case7 offset taken start hashes multiline outer c cs hescape hbreak h ih =>
      rw [closeAll.eq_def]
      simpa [shape_eq_iff, hescape, hbreak, h, hcloser, htake, hdrop] using ih
  | case8 offset taken start hashes multiline outer c cs hescape hbreak h ih =>
      have hends : ¬ (c = '"' ∧ Opening.closer hashes multiline <+: cs) := by simpa using h
      rw [closeAll.eq_def]
      simpa [shape_eq_iff, hescape, hbreak, hends, hcloser] using ih
  | case9 offset taken start depth outer cs ih =>
      rw [closeAll.eq_def]
      simpa using ih
  | case10 offset taken start depth outer cs hdepth _ ih =>
      rw [closeAll.eq_def]
      simpa [hdepth] using ih
  | case11 offset taken start depth outer cs hdepth _ ih =>
      rw [closeAll.eq_def]
      simpa [hdepth] using ih
  | case12 offset taken start depth outer cs _ _ ih =>
      rw [closeAll.eq_def]
      simpa using ih
  | case13 offset taken start depth outer cs hquotes _ _ ih =>
      have hshapes : ∀ rest, shapes cs = '"' :: '"' :: rest → False := by
        intro rest h
        obtain ⟨more, rfl, hmore⟩ := eq_cons_of_shapes (by decide) h
        obtain ⟨more', rfl, -⟩ := eq_cons_of_shapes (by decide) hmore
        exact hquotes more' rfl
      rw [closeAll.eq_def]
      simpa using ih
  | case14 offset taken start depth outer c cs hopen hclose hquote ih =>
      rw [closeAll.eq_def]
      simpa [shape_eq_iff, hopen, hclose, hquote] using ih

/-- **Block comments by their shape.** -/
theorem closeComment_shape (depth : Nat) (taken cs : List Char) :
    closeComment depth (shapes taken) (shapes cs) =
      (closeComment depth taken cs).map readShapes := by
  fun_induction closeComment depth taken cs with
  | case1 depth taken cs ih =>
      simpa [closeComment] using ih
  | case2 taken cs => simp [closeComment, readShapes]
  | case3 depth taken cs ih =>
      simpa [closeComment] using ih
  | case4 depth taken c cs hopens hcloses hleaves ih =>
      rw [shapes_cons, closeComment]
      · exact ih
      · intro rest hc hrest
        obtain ⟨more, rfl, -⟩ := eq_cons_of_shapes (by decide) hrest
        exact hopens more ((shape_eq_iff (by decide)).mp hc) rfl
      · intro rest hdepth hc hrest
        obtain ⟨more, rfl, -⟩ := eq_cons_of_shapes (by decide) hrest
        exact hcloses more hdepth ((shape_eq_iff (by decide)).mp hc) rfl
      · intro depth' rest hdepth hc hrest
        obtain ⟨more, rfl, -⟩ := eq_cons_of_shapes (by decide) hrest
        exact hleaves depth' more hdepth ((shape_eq_iff (by decide)).mp hc) rfl
  | case5 => simp [closeComment]

/-- The quotes that a literal begins with are told by the shape of the text. -/
theorem ofQuote_shape (offset hashes : Nat) (cs : List Char) :
    Opening.ofQuote offset hashes (shapes cs) =
      ((Opening.ofQuote offset hashes cs).1, (Opening.ofQuote offset hashes cs).2.1,
        shapes (Opening.ofQuote offset hashes cs).2.2) := by
  unfold Opening.ofQuote
  split
  next rest hrest =>
    obtain ⟨more, rfl, hmore⟩ := eq_cons_of_shapes (by decide) hrest
    obtain ⟨more', rfl, hmore'⟩ := eq_cons_of_shapes (by decide) hmore
    simp [hmore']
  next hshapes =>
    split
    next rest => exact absurd rfl (hshapes (shapes rest))
    next => rfl

/-- The quotes that a literal begins with are no letters. -/
theorem shapes_ofQuote (offset hashes : Nat) (cs : List Char) :
    shapes (Opening.ofQuote offset hashes cs).2.1 = (Opening.ofQuote offset hashes cs).2.1 := by
  unfold Opening.ofQuote
  split
  · exact (by decide : shapes ['"', '"'] = ['"', '"'])
  · rfl

theorem leadingLiteral_shape (offset hashes : Nat) (cs : List Char) :
    leadingLiteral offset hashes (shapes cs) =
      (leadingLiteral offset hashes cs).map readShapes := by
  unfold leadingLiteral
  rw [ofQuote_shape]
  dsimp only
  rw [← closeAll_shape, shapes_reverse, shapes_ofQuote]

/-- The kind of a piece, and the shapes of its text and of what is left. -/
def leadingShapes (read : PieceKind × List Char × List Char) :
    PieceKind × List Char × List Char :=
  (read.1, shapes read.2.1, shapes read.2.2)

/-- **Pieces by their shape.**  A text of some shape begins with a piece of the
same kind and shape. -/
theorem leading_shape (offset : Nat) (c : Char) (cs : List Char) :
    leading offset (shape c) (shapes cs) = (leading offset c cs).map leadingShapes := by
  have hbreak : ∀ c, decide (shape c ≠ '\n') = decide (c ≠ '\n') := by
    intro c
    simp [shape_eq_iff]
  have hhash : ∀ c, decide (shape c = '#') = decide (c = '#') := by
    intro c
    simp [shape_eq_iff]
  have hafter : (shapes cs).dropWhile (· = '#') = shapes (cs.dropWhile (· = '#')) :=
    dropWhile_shapes hhash cs
  have hmore : (shapes cs).takeWhile (· = '#') = shapes (cs.takeWhile (· = '#')) :=
    takeWhile_shapes hhash cs
  have htail : ∀ cs, (shapes cs).tail = shapes cs.tail := fun _ => List.map_tail.symm
  unfold leading
  simp only [shape_eq_iff (d := '\n') rfl, shape_eq_iff (d := ' ') rfl,
    shape_eq_iff (d := '\t') rfl, shape_eq_iff (d := '\r') rfl, shape_eq_iff (d := '/') rfl,
    shape_eq_iff (d := '"') rfl, shape_eq_iff (d := '#') rfl, hafter, hmore, htail,
    head?_shapes_eq_iff (d := '/') rfl, head?_shapes_eq_iff (d := '*') rfl,
    head?_shapes_eq_iff (d := '"') rfl, isWordChar_shape, length_shapes]
  split
  · rfl
  split
  · rfl
  split
  · rw [takeWhile_shapes hbreak, dropWhile_shapes hbreak]
    rfl
  split
  · have hcomment := closeComment_shape 0 [] cs.tail
    rw [shapes_nil] at hcomment
    rw [hcomment]
    cases closeComment 0 [] cs.tail <;> rfl
  split
  · rw [leadingLiteral_shape]
    cases leadingLiteral offset 0 cs <;> rfl
  split
  · rw [leadingLiteral_shape]
    cases leadingLiteral (offset + 1 + (cs.takeWhile (· = '#')).length)
        (1 + (cs.takeWhile (· = '#')).length) (cs.dropWhile (· = '#')).tail with
    | error e => rfl
    | ok read => simp [Except.map, readShapes, leadingShapes]
  split
  · rw [takeWhile_shapes isWordChar_shape, dropWhile_shapes isWordChar_shape]
    rfl
  · rfl

/-- A piece of the same shape, all of whose letters are one. -/
def Piece.shape (p : Piece) : Piece := { p with text := shapes p.text }

/-- **A text is cut by its shape.** -/
theorem Cuts.of_shape_eq {offset : Nat} {cs ds : List Char} {pieces : List Piece}
    (h : Cuts offset cs pieces) (hshape : shapes cs = shapes ds) :
    ∃ pieces', Cuts offset ds pieces' ∧ pieces'.map Piece.shape = pieces.map Piece.shape := by
  induction h generalizing ds with
  | nil offset =>
      obtain rfl : ds = [] := by simpa [eq_comm] using hshape
      exact ⟨[], .nil offset, rfl⟩
  | @cons offset c cs text rest kind pieces hlead _ ih =>
      cases ds with
      | nil => simp at hshape
      | cons d ds =>
          obtain ⟨hhead, htail⟩ : shape c = shape d ∧ shapes cs = shapes ds := by
            simpa using hshape
          have hread := leading_shape offset d ds
          rw [← hhead, ← htail, leading_shape, hlead] at hread
          obtain ⟨⟨kind', text', rest'⟩, hlead', hsame⟩ := exists_of_map_eq_ok hread.symm
          obtain ⟨rfl, htext, hrest⟩ : kind' = kind ∧ shapes text' = shapes text ∧
              shapes rest' = shapes rest := by
            simpa [leadingShapes] using hsame
          have hsize : offset + c.utf8Size + utf8Size text =
              offset + d.utf8Size + utf8Size text' := by
            rw [← utf8Size_shape c, hhead, utf8Size_shape, ← utf8Size_shapes text, ← htext,
              utf8Size_shapes]
          obtain ⟨pieces', hcuts, hpieces⟩ := ih hrest.symm
          rw [hsize] at hcuts
          refine ⟨_, .cons hlead' hcuts, ?_⟩
          simp [Piece.shape, hpieces, htext, hhead]

/-- Pieces of the same shapes that make up one text are the same. -/
theorem Piece.eq_of_shape_eq {ps qs : List Piece} (hshape : ps.map shape = qs.map shape)
    (hjoin : joinPieces ps = joinPieces qs) : ps = qs := by
  induction ps generalizing qs with
  | nil => simpa [eq_comm] using hshape
  | cons p ps ih =>
      cases qs with
      | nil => simp at hshape
      | cons q qs =>
          obtain ⟨hhead, htail⟩ : p.shape = q.shape ∧ ps.map shape = qs.map shape := by
            simpa using hshape
          obtain ⟨hkind, htext⟩ : p.kind = q.kind ∧ shapes p.text = shapes q.text := by
            simpa [Piece.shape] using hhead
          have hlength : p.text.length = q.text.length := by
            simpa using congrArg List.length htext
          obtain ⟨hp, hps⟩ := List.append_inj hjoin hlength
          rw [ih htail hps]
          cases p
          cases q
          simp_all

end DeclLint
