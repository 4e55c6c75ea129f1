import Mathlib.Data.List.Infix
import DeclLint.Proofs.Source.Cutting
import DeclLint.Proofs.Text.Byte

/-!
# String literals and what closes them

Between the delimiters of a literal there are characters, escapes and interpolations, and in
the parentheses of an interpolation there are parentheses and literals again, to any depth
(`Closes`).  The reader keeps what is open in a list.  What it reads closes all of it, one
behind another and the innermost first (`ClosesAll`), and it stops there.

* `closeAll_closes` — what is read closes what is open;
* `Closes.closeAll_eq` — the reader passes what closes an opening;
* `leadingLiteral_eq_ok_iff` — it stops behind the delimiter that closes the literal.
-/

namespace DeclLint

/-- What has an end of its own: a literal, told by its delimiter, or parentheses. -/
inductive Enclosure where
  | quoted (hashes : Nat) (multiline : Bool)
  | bracketed
deriving DecidableEq, Repr

/-- A text goes from inside of an enclosure to its end.  A quote that is not followed by the
rest of the delimiter closes no literal, and only in a literal without `#` there are escapes
and interpolations. -/
inductive Closes : Enclosure → List Char → Prop
  | delimiter (hashes : Nat) (multiline : Bool) :
      Closes (.quoted hashes multiline) ('"' :: Opening.closer hashes multiline)
  | char {hashes : Nat} {multiline : Bool} {c : Char} {text : List Char}
      (hescape : hashes = 0 → c ≠ '\\') (hbreak : multiline = false → c ≠ '\n')
      (hdelimiter : c = '"' → ¬ Opening.closer hashes multiline <+: text)
      (tail : Closes (.quoted hashes multiline) text) : Closes (.quoted hashes multiline) (c :: text)
  | escape {multiline : Bool} {c : Char} {text : List Char} (hc : c ≠ '(')
      (tail : Closes (.quoted 0 multiline) text) : Closes (.quoted 0 multiline) ('\\' :: c :: text)
  | interpolation {multiline : Bool} {inner text : List Char} (hinner : Closes .bracketed inner)
      (tail : Closes (.quoted 0 multiline) text) :
      Closes (.quoted 0 multiline) ('\\' :: '(' :: (inner ++ text))
  | paren : Closes .bracketed [')']
  | other {c : Char} {text : List Char} (hc : c ∉ ['(', ')', '"']) (tail : Closes .bracketed text) :
      Closes .bracketed (c :: text)
  | group {inner text : List Char} (hinner : Closes .bracketed inner)
      (tail : Closes .bracketed text) : Closes .bracketed ('(' :: (inner ++ text))
  | literal {inner text : List Char} (hquotes : ¬ ['"', '"'] <+: inner ++ text)
      (hinner : Closes (.quoted 0 false) inner) (tail : Closes .bracketed text) :
      Closes .bracketed ('"' :: (inner ++ text))
  | multiline {inner text : List Char} (hinner : Closes (.quoted 0 true) inner)
      (tail : Closes .bracketed text) : Closes .bracketed ('"' :: '"' :: '"' :: (inner ++ text))

/-- A text closes some enclosures, the innermost first. -/
inductive ClosesAll : List Enclosure → List Char → Prop
  | nil : ClosesAll [] []
  | cons {enclosure : Enclosure} {outer : List Enclosure} {inner text : List Char}
      (hinner : Closes enclosure inner) (tail : ClosesAll outer text) :
      ClosesAll (enclosure :: outer) (inner ++ text)

theorem ClosesAll.exists_of_cons {enclosure : Enclosure} {outer : List Enclosure} {text : List Char}
    (h : ClosesAll (enclosure :: outer) text) :
    ∃ inner more, text = inner ++ more ∧ Closes enclosure inner ∧ ClosesAll outer more := by
  cases h with
  | cons hinner tail => exact ⟨_, _, rfl, hinner, tail⟩

section ClosesAll

variable {hashes : Nat} {multiline : Bool} {outer : List Enclosure} {c : Char} {text : List Char}

theorem ClosesAll.delimiter (hashes : Nat) (multiline : Bool) (h : ClosesAll outer text) :
    ClosesAll (.quoted hashes multiline :: outer)
      ('"' :: (Opening.closer hashes multiline ++ text)) :=
  .cons (.delimiter hashes multiline) h

/-- Whether a quote closes the literal is told by all that follows, behind the literal too. -/
theorem ClosesAll.char (hescape : hashes = 0 → c ≠ '\\') (hbreak : multiline = false → c ≠ '\n')
    (hdelimiter : c = '"' → ¬ Opening.closer hashes multiline <+: text)
    (h : ClosesAll (.quoted hashes multiline :: outer) text) :
    ClosesAll (.quoted hashes multiline :: outer) (c :: text) := by
  obtain ⟨tail, more, rfl, htail, hmore⟩ := h.exists_of_cons
  refine .cons (.char hescape hbreak (fun hc hbegins => ?_) htail) hmore
  exact hdelimiter hc (hbegins.trans (List.prefix_append tail more))

theorem ClosesAll.escape (hc : c ≠ '(') (h : ClosesAll (.quoted 0 multiline :: outer) text) :
    ClosesAll (.quoted 0 multiline :: outer) ('\\' :: c :: text) := by
  obtain ⟨tail, more, rfl, htail, hmore⟩ := h.exists_of_cons
  exact .cons (.escape hc htail) hmore

/-- What closes an interpolation and then the literal around it closes that literal. -/
theorem ClosesAll.interpolation
    (h : ClosesAll (.bracketed :: .quoted 0 multiline :: outer) text) :
    ClosesAll (.quoted 0 multiline :: outer) ('\\' :: '(' :: text) := by
  obtain ⟨inner, more, rfl, hinner, hmore⟩ := h.exists_of_cons
  obtain ⟨tail, more, rfl, htail, hmore⟩ := hmore.exists_of_cons
  rw [← List.append_assoc]
  exact .cons (.interpolation hinner htail) hmore

theorem ClosesAll.paren (h : ClosesAll outer text) : ClosesAll (.bracketed :: outer) (')' :: text) :=
  .cons .paren h

theorem ClosesAll.other (hc : c ∉ ['(', ')', '"']) (h : ClosesAll (.bracketed :: outer) text) :
    ClosesAll (.bracketed :: outer) (c :: text) := by
  obtain ⟨tail, more, rfl, htail, hmore⟩ := h.exists_of_cons
  exact .cons (.other hc htail) hmore

theorem ClosesAll.group (h : ClosesAll (.bracketed :: .bracketed :: outer) text) :
    ClosesAll (.bracketed :: outer) ('(' :: text) := by
  obtain ⟨inner, more, rfl, hinner, hmore⟩ := h.exists_of_cons
  obtain ⟨tail, more, rfl, htail, hmore⟩ := hmore.exists_of_cons
  rw [← List.append_assoc]
  exact .cons (.group hinner htail) hmore

/-- So does what closes a literal and then the parentheses around it. -/
theorem ClosesAll.literal (hquotes : ¬ ['"', '"'] <+: text)
    (h : ClosesAll (.quoted 0 false :: .bracketed :: outer) text) :
    ClosesAll (.bracketed :: outer) ('"' :: text) := by
  obtain ⟨inner, more, rfl, hinner, hmore⟩ := h.exists_of_cons
  obtain ⟨tail, more, rfl, htail, hmore⟩ := hmore.exists_of_cons
  rw [← List.append_assoc] at hquotes ⊢
  have hquotes' : ¬ ['"', '"'] <+: inner ++ tail := fun hbegins =>
    hquotes (hbegins.trans (List.prefix_append _ more))
  exact .cons (.literal hquotes' hinner htail) hmore

theorem ClosesAll.quotes (h : ClosesAll (.quoted 0 true :: .bracketed :: outer) text) :
    ClosesAll (.bracketed :: outer) ('"' :: '"' :: '"' :: text) := by
  obtain ⟨inner, more, rfl, hinner, hmore⟩ := h.exists_of_cons
  obtain ⟨tail, more, rfl, htail, hmore⟩ := hmore.exists_of_cons
  rw [← List.append_assoc]
  exact .cons (.multiline hinner htail) hmore

end ClosesAll

namespace Opening

/-- What is to be closed, the innermost first: parentheses as often as they are open. -/
def enclosures : Opening → List Enclosure
  | quote _ hashes multiline => [.quoted hashes multiline]
  | paren _ depth => List.replicate depth .bracketed

/-- Parentheses are open at least once. -/
def IsOpen : Opening → Prop
  | quote _ _ _ => True
  | paren _ depth => depth ≠ 0

/-- What is still open of an opening when its innermost enclosure is closed. -/
def closed : Opening → List Opening
  | quote _ _ _ => []
  | paren start depth => if depth ≤ 1 then [] else [paren start (depth - 1)]

end Opening

/-- **What the reader reads** closes what is open. -/
theorem closeAll_closes {offset : Nat} {openings : List Opening} {taken cs text rest : List Char}
    (h : closeAll offset openings taken cs = .ok (text, rest))
    (hopen : ∀ opening ∈ openings, opening.IsOpen) :
    ∃ read, text = taken.reverse ++ read ∧ read ++ rest = cs ∧
      ClosesAll (openings.flatMap Opening.enclosures) read := by
  fun_induction closeAll offset openings taken cs with
  | case1 offset taken cs =>
      obtain ⟨rfl, rfl⟩ : taken.reverse = text ∧ cs = rest := by simpa using h
      exact ⟨[], by simp, rfl, .nil⟩
  | case2 => simp at h
  | case3 => simp at h
  | case4 offset taken start hashes multiline outer c hescape more ih =>
      obtain ⟨rfl, rfl⟩ := hescape
      obtain ⟨read, htext, hrest, hread⟩ :=
        ih h (List.forall_mem_cons.mpr ⟨Nat.one_ne_zero, hopen⟩)
      exact ⟨'\\' :: '(' :: read, by simp [htext], by simp [← hrest], hread.interpolation⟩
  | case5 offset taken start hashes multiline outer c hescape d more hd ih =>
      obtain ⟨rfl, rfl⟩ := hescape
      obtain ⟨read, htext, hrest, hread⟩ := ih h hopen
      exact ⟨'\\' :: d :: read, by simp [htext], by simp [← hrest], hread.escape hd⟩
  | case6 => simp at h
  | case7 offset taken start hashes multiline outer c cs hescape hbreak hcloses ih =>
      obtain ⟨rfl, hbegins⟩ := hcloses
      obtain ⟨tail, rfl⟩ := List.isPrefixOf_iff_prefix.mp hbegins
      obtain ⟨read, htext, hrest, hread⟩ := ih h (List.forall_mem_cons.mp hopen).2
      exact ⟨'"' :: (Opening.closer hashes multiline ++ read), by simp [htext],
        by simpa using hrest, hread.delimiter hashes multiline⟩
  | case8 offset taken start hashes multiline outer c cs hescape hbreak hcloses ih =>
      obtain ⟨read, htext, hrest, hread⟩ := ih h hopen
      have hdelimiter : c = '"' → ¬ Opening.closer hashes multiline <+: read := by
        intro hc hbegins
        have hmore : read <+: cs := ⟨rest, hrest⟩
        exact hcloses ⟨hc, List.isPrefixOf_iff_prefix.mpr (hbegins.trans hmore)⟩
      exact ⟨c :: read, by simp [htext], by simp [← hrest], hread.char
        (fun hhashes hc => hescape ⟨hc, hhashes⟩) (fun hline hc => hbreak ⟨hc, hline⟩) hdelimiter⟩
  | case9 offset taken start depth outer cs ih =>
      obtain ⟨depth, rfl⟩ := Nat.exists_eq_succ_of_ne_zero (List.forall_mem_cons.mp hopen).1
      obtain ⟨read, htext, hrest, hread⟩ :=
        ih h (List.forall_mem_cons.mpr ⟨Nat.succ_ne_zero _, (List.forall_mem_cons.mp hopen).2⟩)
      exact ⟨'(' :: read, by simp [htext], by simp [← hrest], hread.group⟩
  | case10 offset taken start depth outer cs hdepth _ ih =>
      have hone : depth = 1 := by
        have hpos : depth ≠ 0 := (List.forall_mem_cons.mp hopen).1
        omega
      obtain ⟨read, htext, hrest, hread⟩ := ih h (List.forall_mem_cons.mp hopen).2
      rw [hone]
      exact ⟨')' :: read, by simp [htext], by simp [← hrest], hread.paren⟩
  | case11 offset taken start depth outer cs hdepth _ ih =>
      obtain ⟨depth, rfl⟩ := Nat.exists_eq_add_of_lt (Nat.lt_of_not_le hdepth)
      obtain ⟨read, htext, hrest, hread⟩ :=
        ih h (List.forall_mem_cons.mpr ⟨by simp [Opening.IsOpen], (List.forall_mem_cons.mp hopen).2⟩)
      exact ⟨')' :: read, by simp [htext], by simp [← hrest], hread.paren⟩
  | case12 offset taken start depth outer cs _ _ ih =>
      obtain ⟨depth, rfl⟩ := Nat.exists_eq_succ_of_ne_zero (List.forall_mem_cons.mp hopen).1
      obtain ⟨read, htext, hrest, hread⟩ := ih h (List.forall_mem_cons.mpr ⟨trivial, hopen⟩)
      exact ⟨'"' :: '"' :: '"' :: read, by simp [htext], by simp [← hrest], hread.quotes⟩
  | case13 offset taken start depth outer cs hquotes _ _ ih =>
      obtain ⟨depth, rfl⟩ := Nat.exists_eq_succ_of_ne_zero (List.forall_mem_cons.mp hopen).1
      obtain ⟨read, htext, hrest, hread⟩ := ih h (List.forall_mem_cons.mpr ⟨trivial, hopen⟩)
      have hquotes' : ¬ ['"', '"'] <+: read := by
        rintro ⟨more, rfl⟩
        exact hquotes (more ++ rest) (by simp [← hrest])
      exact ⟨'"' :: read, by simp [htext], by simp [← hrest], hread.literal hquotes'⟩
  | case14 offset taken start depth outer c cs hleft hright hquote ih =>
      obtain ⟨depth, rfl⟩ := Nat.exists_eq_succ_of_ne_zero (List.forall_mem_cons.mp hopen).1
      obtain ⟨read, htext, hrest, hread⟩ := ih h hopen
      exact ⟨c :: read, by simp [htext], by simp [← hrest],
        hread.other (by simp [hleft, hright, hquote])⟩

/-- A delimiter consists of quotes and `#`. -/
theorem closer_ascii (hashes : Nat) (multiline : Bool) :
    allAscii ('"' :: Opening.closer hashes multiline) = true := by
  rw [allAscii, List.all_eq_true]
  intro c hc
  have hmarks : c = '"' ∨ c = '#' := by
    unfold Opening.closer at hc
    cases multiline <;> simp at hc <;> grind
  rcases hmarks with rfl | rfl <;> decide

theorem utf8Size_delimiter (hashes : Nat) (multiline : Bool) :
    utf8Size ('"' :: Opening.closer hashes multiline) =
      1 + (Opening.closer hashes multiline).length := by
  rw [utf8Size_eq_length (closer_ascii hashes multiline), List.length_cons, Nat.add_comm]

/-- How many characters it takes at least to close an enclosure. -/
def Enclosure.width : Enclosure → Nat
  | quoted hashes multiline => (Opening.closer hashes multiline).length + 1
  | bracketed => 1

/-- What closes an enclosure is at least as long as its delimiter. -/
theorem Closes.width_le {enclosure : Enclosure} {text : List Char} (h : Closes enclosure text) :
    enclosure.width ≤ text.length := by
  induction h with
  | delimiter | paren => exact Nat.le_refl _
  | char _ _ _ _ ih | other _ _ ih =>
      rw [List.length_cons]
      omega
  | escape _ _ ih =>
      rw [List.length_cons, List.length_cons]
      omega
  | interpolation | group | literal | multiline =>
      simp only [List.length_cons, List.length_append]
      omega

/-- The innermost enclosure of an opening. -/
def Opening.enclosure : Opening → Enclosure
  | quote _ hashes multiline => .quoted hashes multiline
  | paren _ _ => .bracketed

/-- An opening that encloses a literal is a quote. -/
theorem Opening.exists_quote {opening : Opening} {hashes : Nat} {multiline : Bool}
    (h : opening.enclosure = .quoted hashes multiline) :
    ∃ start, opening = quote start hashes multiline := by
  cases opening with
  | quote start hashes' multiline' =>
      obtain ⟨rfl, rfl⟩ := Enclosure.quoted.inj h
      exact ⟨start, rfl⟩
  | paren start depth => simp [enclosure] at h

theorem Opening.exists_paren {opening : Opening} (hopen : opening.IsOpen)
    (h : opening.enclosure = .bracketed) : ∃ start depth, opening = paren start (depth + 1) := by
  cases opening with
  | quote start hashes multiline => simp [enclosure] at h
  | paren start depth =>
      obtain ⟨depth, rfl⟩ := Nat.exists_eq_succ_of_ne_zero hopen
      exact ⟨start, depth, rfl⟩

/-- **The reader passes** what closes the innermost enclosure. -/
theorem Closes.closeAll_eq {enclosure : Enclosure} {text : List Char} (h : Closes enclosure text)
    {opening : Opening} (hopen : opening.IsOpen) (henclosure : opening.enclosure = enclosure)
    (offset : Nat) (outer : List Opening) (taken cs : List Char) :
    closeAll offset (opening :: outer) taken (text ++ cs) =
      closeAll (offset + utf8Size text) (opening.closed ++ outer) (text.reverse ++ taken) cs := by
  have hsizes : '\\'.utf8Size = 1 ∧ '('.utf8Size = 1 ∧ ')'.utf8Size = 1 ∧ '"'.utf8Size = 1 := by
    decide
  induction h generalizing opening offset outer taken cs with
  | delimiter hashes multiline =>
      obtain ⟨start, rfl⟩ := Opening.exists_quote henclosure
      rw [utf8Size_delimiter, List.cons_append, closeAll_delimiter]
      simp [Opening.closed, Nat.add_assoc]
  | @char hashes multiline c text hescape hbreak hdelimiter tail ih =>
      obtain ⟨start, rfl⟩ := Opening.exists_quote henclosure
      have hdelimiter' : c = '"' → ¬ Opening.closer hashes multiline <+: text ++ cs := by
        intro hc hlonger
        have hlength := tail.width_le
        rw [Enclosure.width] at hlength
        exact hdelimiter hc ((List.isPrefix_append_of_length (by omega)).mp hlonger)
      have hrest := ih hopen rfl (offset + c.utf8Size) outer (c :: taken) cs
      rw [List.cons_append, closeAll_char hescape hbreak hdelimiter', hrest]
      simp [Nat.add_assoc]
  | @escape multiline c text hc tail ih =>
      obtain ⟨start, rfl⟩ := Opening.exists_quote henclosure
      have hrest := ih hopen rfl (offset + 1 + c.utf8Size) outer (c :: '\\' :: taken) cs
      rw [List.cons_append, List.cons_append, closeAll_escape hc, hrest]
      simp [hsizes, Nat.add_assoc]
  | @interpolation multiline inner text hinner tail ihinner ih =>
      obtain ⟨start, rfl⟩ := Opening.exists_quote henclosure
      have hentered := @ihinner (.paren (offset + 1) 1) Nat.one_ne_zero rfl (offset + 2)
        (.quote start 0 multiline :: outer) ('(' :: '\\' :: taken) (text ++ cs)
      have hrest := ih hopen rfl (offset + 2 + utf8Size inner) outer
        (inner.reverse ++ '(' :: '\\' :: taken) cs
      rw [List.cons_append, List.cons_append, List.append_assoc, closeAll_interpolation, hentered]
      simpa [Opening.closed, hsizes, ← Nat.add_assoc] using hrest
  | paren =>
      obtain ⟨start, depth, rfl⟩ := Opening.exists_paren hopen henclosure
      rw [List.cons_append]
      cases depth with
      | zero =>
          rw [closeAll_last (Nat.le_refl 1)]
          simp [Opening.closed, hsizes]
      | succ depth =>
          rw [closeAll_right (by omega)]
          simp [Opening.closed, hsizes]
  | @other c text hc tail ih =>
      obtain ⟨start, depth, rfl⟩ := Opening.exists_paren hopen henclosure
      obtain ⟨hleft, hright, hquote⟩ : c ≠ '(' ∧ c ≠ ')' ∧ c ≠ '"' := by simpa using hc
      have hrest := ih hopen rfl (offset + c.utf8Size) outer (c :: taken) cs
      rw [List.cons_append, closeAll_other hleft hright hquote, hrest]
      simp [Nat.add_assoc]
  | @group inner text hinner tail ihinner ih =>
      obtain ⟨start, depth, rfl⟩ := Opening.exists_paren hopen henclosure
      have hentered := @ihinner (.paren start (depth + 2)) (Nat.succ_ne_zero _) rfl (offset + 1)
        outer ('(' :: taken) (text ++ cs)
      have hrest := ih hopen rfl (offset + 1 + utf8Size inner) outer
        (inner.reverse ++ '(' :: taken) cs
      rw [List.cons_append, List.append_assoc, closeAll_left, hentered]
      simpa [Opening.closed, hsizes, ← Nat.add_assoc] using hrest
  | @literal inner text hquotes hinner tail ihinner ih =>
      obtain ⟨start, depth, rfl⟩ := Opening.exists_paren hopen henclosure
      have hentered := @ihinner (.quote offset 0 false) trivial rfl (offset + 1)
        (.paren start (depth + 1) :: outer) ('"' :: taken) (text ++ cs)
      have hrest := ih hopen rfl (offset + 1 + utf8Size inner) outer
        (inner.reverse ++ '"' :: taken) cs
      have hquotes' : ¬ ['"', '"'] <+: inner ++ (text ++ cs) := by
        intro hlonger
        have hlength := hinner.width_le
        have hlength' := tail.width_le
        simp only [Enclosure.width] at hlength hlength'
        rw [← List.append_assoc] at hlonger
        apply hquotes
        apply (List.isPrefix_append_of_length _).mp hlonger
        simp only [List.length_cons, List.length_nil, List.length_append]
        omega
      rw [List.cons_append, List.append_assoc, closeAll_quote hquotes', hentered]
      simpa [Opening.closed, hsizes, ← Nat.add_assoc] using hrest
  | @multiline inner text hinner tail ihinner ih =>
      obtain ⟨start, depth, rfl⟩ := Opening.exists_paren hopen henclosure
      have hentered := @ihinner (.quote offset 0 true) trivial rfl (offset + 3)
        (.paren start (depth + 1) :: outer) ('"' :: '"' :: '"' :: taken) (text ++ cs)
      have hrest := ih hopen rfl (offset + 3 + utf8Size inner) outer
        (inner.reverse ++ '"' :: '"' :: '"' :: taken) cs
      rw [List.cons_append, List.cons_append, List.cons_append, List.append_assoc, closeAll_quotes,
        hentered]
      simpa [Opening.closed, hsizes, ← Nat.add_assoc] using hrest

/-- A literal that was opened is read up to where it is closed. -/
theorem closeAll_quote_eq_ok_iff {offset start hashes : Nat} {multiline : Bool}
    {taken cs text rest : List Char} :
    closeAll offset [.quote start hashes multiline] taken cs = .ok (text, rest) ↔
      ∃ read, text = taken.reverse ++ read ∧ cs = read ++ rest ∧
        Closes (.quoted hashes multiline) read := by
  constructor
  · intro h
    obtain ⟨read, htext, hrest, hread⟩ := closeAll_closes h (by simp [Opening.IsOpen])
    obtain ⟨inner, more, rfl, hinner, hmore⟩ := hread.exists_of_cons
    cases hmore
    exact ⟨inner, by simpa using htext, by simpa using hrest.symm, hinner⟩
  · rintro ⟨read, rfl, rfl, hread⟩
    have hpassed := @Closes.closeAll_eq _ _ hread (.quote start hashes multiline) trivial rfl offset
      [] taken rest
    rw [hpassed, Opening.closed, List.append_nil, closeAll]
    simp

theorem Opening.ofQuote_of_not_prefix {cs : List Char} (h : ¬ ['"', '"'] <+: cs)
    (offset hashes : Nat) : ofQuote offset hashes cs = (quote offset hashes false, [], cs) := by
  unfold ofQuote
  split
  next more => exact absurd ⟨more, rfl⟩ h
  next => rfl

/-- **Literals of one line** are read from their quote to their delimiter. -/
theorem leadingLiteral_eq_ok_iff {offset hashes : Nat} {cs text rest : List Char}
    (h : ¬ ['"', '"'] <+: cs) :
    leadingLiteral offset hashes cs = .ok (text, rest) ↔
      cs = text ++ rest ∧ Closes (.quoted hashes false) text := by
  rw [leadingLiteral, Opening.ofQuote_of_not_prefix h]
  dsimp only
  rw [closeAll_quote_eq_ok_iff]
  constructor
  · rintro ⟨read, rfl, rfl, hread⟩
    exact ⟨by simp, by simpa using hread⟩
  · rintro ⟨rfl, hread⟩
    exact ⟨text, by simp, rfl, hread⟩

/-- **Literals of several lines** are read from their quotes to their delimiter. -/
theorem leadingLiteral_multiline_eq_ok_iff {offset hashes : Nat} {cs text rest : List Char} :
    leadingLiteral offset hashes ('"' :: '"' :: cs) = .ok (text, rest) ↔
      ∃ more, text = '"' :: '"' :: more ∧ cs = more ++ rest ∧ Closes (.quoted hashes true) more :=
  closeAll_quote_eq_ok_iff

theorem utf8Size_hashes (hashes : Nat) : utf8Size (List.replicate hashes '#') = hashes := by
  rw [utf8Size_eq_length (by simp [allAscii]), List.length_replicate]

/-- The `#` before a quote are told apart from it. -/
theorem span_hashes (hashes : Nat) (cs : List Char) :
    (List.replicate hashes '#' ++ '"' :: cs).takeWhile (· = '#') = List.replicate hashes '#' ∧
      (List.replicate hashes '#' ++ '"' :: cs).dropWhile (· = '#') = '"' :: cs := by
  have hhashes : ∀ c ∈ List.replicate hashes '#', decide (c = '#') = true := by
    intro c hc
    exact decide_eq_true (List.eq_of_mem_replicate hc)
  rw [List.takeWhile_append_of_pos hhashes, List.dropWhile_append_of_pos hhashes]
  simp

/-- What begins a raw literal is some `#` and a quote. -/
theorem exists_hashes {cs : List Char} (h : (cs.dropWhile (· = '#')).head? = some '"') :
    ∃ hashes more, cs = List.replicate hashes '#' ++ '"' :: more := by
  obtain ⟨more, hmore⟩ := List.head?_eq_some_iff.mp h
  have hhashes : cs.takeWhile (· = '#') = List.replicate (cs.takeWhile (· = '#')).length '#' := by
    apply List.eq_replicate_iff.mpr ⟨rfl, _⟩
    intro c hc
    simpa using of_mem_takeWhile hc
  refine ⟨(cs.takeWhile (· = '#')).length, more, ?_⟩
  rw [← hhashes, ← hmore]
  exact List.takeWhile_append_dropWhile.symm

/-- **Literals** are pieces: some `#`, a quote, and what closes the literal. -/
theorem leading_of_hashes {c : Char} {cs more : List Char} {hashes : Nat}
    (h : c :: more = List.replicate hashes '#' ++ '"' :: cs) (offset : Nat) :
    leading offset c more = (leadingLiteral (offset + hashes) hashes cs).map fun read =>
      (.literal, (List.replicate hashes '#' ++ '"' :: read.1).tail, read.2) := by
  cases hashes with
  | zero =>
      obtain ⟨rfl, rfl⟩ : c = '"' ∧ more = cs := by simpa using h
      simp [leading]
  | succ hashes =>
      rw [List.replicate_succ, List.cons_append] at h
      obtain ⟨rfl, rfl⟩ := List.cons.inj h
      have hspan := span_hashes hashes cs
      rw [leading, if_neg (by decide), if_neg (by decide), if_neg (by simp), if_neg (by simp),
        if_neg (by decide), if_pos ⟨rfl, by rw [hspan.2]; rfl⟩]
      dsimp only
      rw [hspan.1, hspan.2, List.length_replicate, List.tail_cons, Nat.add_assoc, Nat.add_comm 1]
      rfl

/-- What a piece begins with: a block comment, a literal, or something that is always read. -/
theorem leading_cases (offset : Nat) (c : Char) (cs : List Char) :
    (c = '/' ∧ cs.head? = some '*') ∨
    (∃ hashes more, c :: cs = List.replicate hashes '#' ++ '"' :: more) ∨
    ∃ kind text rest, leading offset c cs = .ok (kind, text, rest) ∧ kind ≠ .literal := by
  unfold leading
  split
  · exact .inr (.inr ⟨_, _, _, rfl, by decide⟩)
  split
  · exact .inr (.inr ⟨_, _, _, rfl, by decide⟩)
  split
  · exact .inr (.inr ⟨_, _, _, rfl, by decide⟩)
  split
  next hblock => exact .inl hblock
  split
  next hquote => exact .inr (.inl ⟨0, cs, by rw [hquote]; rfl⟩)
  split
  next hraw =>
    obtain ⟨hashes, more, hmore⟩ := exists_hashes hraw.2
    exact .inr (.inl ⟨hashes + 1, more, by rw [hmore, hraw.1]; rfl⟩)
  split
  · exact .inr (.inr ⟨_, _, _, rfl, by decide⟩)
  · exact .inr (.inr ⟨_, _, _, rfl, by decide⟩)

/-- A literal that is read is some `#`, a quote, and what closes it. -/
theorem exists_quoted_of_leading {offset : Nat} {c : Char} {cs text rest : List Char}
    (h : leading offset c cs = .ok (.literal, text, rest)) :
    ∃ hashes read, c :: text = List.replicate hashes '#' ++ '"' :: read ∧
      leadingLiteral (offset + hashes) hashes (read ++ rest) = .ok (read, rest) := by
  rcases leading_cases offset c cs with
    ⟨rfl, hstar⟩ | ⟨hashes, more, hmore⟩ | ⟨kind, text', rest', hlead, hkind⟩
  · cases hclose : closeComment 0 [] cs.tail with
    | none => simp [leading, hstar, hclose] at h
    | some read => simp [leading, hstar, hclose] at h
  · rw [leading_of_hashes hmore] at h
    obtain ⟨⟨read, left⟩, hread, hsplit⟩ := exists_of_map_eq_ok h
    obtain ⟨rfl, rfl⟩ : (List.replicate hashes '#' ++ '"' :: read).tail = text ∧ left = rest := by
      simpa using hsplit
    refine ⟨hashes, read, ?_, ?_⟩
    · cases hashes with
      | zero => rw [(List.cons.inj hmore).1]; rfl
      | succ hashes => rw [(List.cons.inj hmore).1]; rfl
    · rwa [leadingLiteral_split hread]
  · rw [hlead] at h
    obtain ⟨rfl, -⟩ : kind = .literal ∧ _ := by simpa using h
    exact absurd rfl hkind

end DeclLint
