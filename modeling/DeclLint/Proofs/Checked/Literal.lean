import DeclLint.Proofs.Checked.Operation
import DeclLint.Proofs.Source.QuotedLiteral
import DeclLint.Proofs.Text.Byte

/-!
# Comments and literals, read byte by byte

A scanner that holds an index into the bytes of a text looks at one byte after another, and
may stand inside of a character: it passes two bytes for a backslash and what is hidden
behind it, whatever that is.  A literal and its interpolations call each other, each from
where the other one stopped.  Every access is checked here, every difference, and that each
call gets on.  Then both ways of reading agree, so no check ever fails.

* `Scanner.commentLoop_eq` — block comments;
* `Scanner.stringLoop_lt`, `Scanner.interpolationLoop_lt` — every call gets on;
* `Scanner.resumeAll_eq`, `Scanner.skipString_eq_leadingLiteral` — literals.
-/

namespace DeclLint

namespace Scanner

open Checked

/-- The first place from `i` on whose byte fails a test. -/
def skipWhile (p : UInt8 → Bool) (bytes : List UInt8) (i : Nat) : Checked ParseError Nat :=
  if _h : i < bytes.length then do
    let b ← get bytes i
    if p b then skipWhile p bytes (i + 1) else pure i
  else pure i
termination_by bytes.length - i

/-- Go on in a block comment that starts at `start`, until it is closed.  `depth` comments are
open; the first line break inside is remembered.

A machine counts them in 32 bits, one of which is the sign: 2^31 comments that are open at once
would overflow, and are outside of what is modelled here. -/
def commentLoop (bytes : List UInt8) (start depth : Nat) (newline? : Option Nat) (i : Nat) :
    Checked ParseError (Nat × Option Nat) :=
  if _h : i < bytes.length then do
    let ahead ← tail bytes i
    if (utf8Bytes ['/', '*']).isPrefixOf ahead then
      commentLoop bytes start (depth + 1) newline? (i + 2)
    else if (utf8Bytes ['*', '/']).isPrefixOf ahead then do
      let depth ← sub depth 1
      if depth = 0 then pure (i + 2, newline?)
      else commentLoop bytes start depth newline? (i + 2)
    else do
      let b ← get bytes i
      let newline? := if b == '\n'.toUInt8 && newline?.isNone then some i else newline?
      commentLoop bytes start depth newline? (i + 1)
  else refuse (.unterminated .blockComment start)
termination_by bytes.length - i

/-- The place behind the delimiter that closes a literal, if it stands at `i`. -/
def closesAt (bytes : List UInt8) (hashes : Nat) (multiline : Bool) (i : Nat) :
    Checked ParseError (Option Nat) := do
  let width := if multiline then 3 else 1
  let ahead ← tail bytes i
  if ahead.length < width + hashes then pure none
  else do
    let quotes ← part ahead 0 width
    let marks ← part ahead width (width + hashes)
    pure (if quotes.all (· == '"'.toUInt8) && marks.all (· == '#'.toUInt8) then
      some (i + width + hashes) else none)

mutual

/-- The place behind the literal whose quote stands at `quote`, with some `#` before it. -/
def skipString (bytes : List UInt8) (quote hashes : Nat) : Checked ParseError Nat := do
  let ahead ← tail bytes quote
  let multiline := (utf8Bytes ['"', '"', '"']).isPrefixOf ahead
  stringLoop bytes quote hashes multiline (quote + if multiline then 3 else 1)
termination_by (bytes.length - quote, 1)
decreasing_by grind

/-- Go on in a literal until it is closed. -/
def stringLoop (bytes : List UInt8) (quote hashes : Nat) (multiline : Bool) (i : Nat) :
    Checked ParseError Nat :=
  if _h : i < bytes.length then do
    let b ← get bytes i
    if b == '\\'.toUInt8 && hashes == 0 then
      if bytes[i + 1]? == some '('.toUInt8 then do
        let after ← interpolationLoop bytes (i + 1) 0 (i + 1)
        if _hafter : i < after then stringLoop bytes quote hashes multiline after
        else stuck i
      else stringLoop bytes quote hashes multiline (i + 2)
    else if b == '\n'.toUInt8 && !multiline then refuse (.unterminated .stringLiteral quote)
    else if b == '"'.toUInt8 then do
      match ← closesAt bytes hashes multiline i with
      | some after => pure after
      | none => stringLoop bytes quote hashes multiline (i + 1)
    else stringLoop bytes quote hashes multiline (i + 1)
  else refuse (.unterminated .stringLiteral quote)
termination_by (bytes.length - i, 0)
decreasing_by all_goals grind

/-- Go on in an interpolation whose parenthesis stands at `start`, until all `depth` open ones
are closed.  They are counted like the comments above: 2^31 of them open at once are outside of
what is modelled here. -/
def interpolationLoop (bytes : List UInt8) (start depth i : Nat) : Checked ParseError Nat :=
  if _h : i < bytes.length then do
    let b ← get bytes i
    if b == '('.toUInt8 then interpolationLoop bytes start (depth + 1) (i + 1)
    else if b == ')'.toUInt8 then do
      let depth ← sub depth 1
      if depth = 0 then pure (i + 1) else interpolationLoop bytes start depth (i + 1)
    else if b == '"'.toUInt8 then do
      let after ← skipString bytes i 0
      if _hafter : i < after then interpolationLoop bytes start depth after else stuck i
    else interpolationLoop bytes start depth (i + 1)
  else refuse (.unterminated .stringInterpolation start)
termination_by (bytes.length - i, 2)
decreasing_by all_goals grind

end

variable {bytes bs : List UInt8} {b : UInt8} {i : Nat}

/-- Bytes are passed as long as they pass the test. -/
theorem skipWhile_eq {p : UInt8 → Bool} (h : Ahead bytes i bs) :
    skipWhile p bytes i = .ok (i + (bs.takeWhile p).length) := by
  induction bs generalizing i with
  | nil =>
      rw [skipWhile, dif_neg (by rw [← h.length_eq]; simp)]
      rfl
  | cons b bs ih =>
      rw [skipWhile, dif_pos h.lt, get_eq h.get, ok_bind, List.takeWhile_cons]
      cases hb : p b with
      | true =>
          rw [if_pos rfl, if_pos rfl, ih h.step, List.length_cons]
          congr 1
          omega
      | false => rfl

/-- The first line break of a text at an offset. -/
def firstBreak (offset : Nat) : List Char → Option Nat
  | [] => none
  | c :: cs => if c = '\n' then some offset else firstBreak (offset + c.utf8Size) cs

/-- The first line break of two texts is in the first one, or else in the second. -/
theorem firstBreak_append (offset : Nat) (xs ys : List Char) :
    firstBreak offset (xs ++ ys) =
      (firstBreak offset xs).or (firstBreak (offset + utf8Size xs) ys) := by
  induction xs generalizing offset with
  | nil => rfl
  | cons c xs ih =>
      rw [List.cons_append, firstBreak, firstBreak]
      by_cases hc : c = '\n'
      · rw [if_pos hc, if_pos hc]
        rfl
      · rw [if_neg hc, if_neg hc, ih, utf8Size_cons, Nat.add_assoc]

/-- Two characters looked for are the next one and the one behind it. -/
theorem isPrefixOf_pair (a b c : Char) (cs : List Char) :
    [a, b].isPrefixOf (c :: cs) = true ↔ c = a ∧ cs.head? = some b := by
  rw [List.isPrefixOf_iff_prefix, List.cons_prefix_cons, eq_comm]
  cases cs with
  | nil => simp
  | cons d cs =>
      rw [List.cons_prefix_cons, List.head?_cons, Option.some_inj, eq_comm (a := b)]
      simp

/-- A block comment passes a character, or the two characters of a mark. -/
theorem commentLoop_cons {c : Char} {cs : List Char} (h : Ahead bytes i (utf8Bytes (c :: cs)))
    (start depth : Nat) (newline? : Option Nat) :
    commentLoop bytes start depth newline? i =
      if c = '/' ∧ cs.head? = some '*' then
        commentLoop bytes start (depth + 1) newline? (i + 2)
      else if c = '*' ∧ cs.head? = some '/' then do
        let depth ← sub depth 1
        if depth = 0 then pure (i + 2, newline?)
        else commentLoop bytes start depth newline? (i + 2)
      else
        commentLoop bytes start depth
          (if c == '\n' && newline?.isNone then some i else newline?) (i + c.utf8Size) := by
  rcases utf8EncodeChar_cases c with ⟨hc, -⟩ | ⟨hc, hbytes⟩
  · have hfirst := h.cons_of_lt hc
    rw [commentLoop, dif_pos hfirst.lt, tail_eq h.le, ok_bind, h.drop_eq, get_eq hfirst.get,
      ok_bind, isPrefixOf_utf8Bytes (by decide), isPrefixOf_utf8Bytes (by decide),
      toUInt8_beq hc (by decide), utf8Size_of_lt hc]
    simp only [isPrefixOf_pair]
  · have hpass : ∀ j b, bytes[j]? = some b → 0x80 ≤ b →
        commentLoop bytes start depth newline? j =
          commentLoop bytes start depth newline? (j + 1) := by
      intro j b hget hb
      have hfirst := Ahead.of_get hget
      rw [commentLoop, dif_pos hfirst.lt, tail_eq hfirst.le, ok_bind, hfirst.drop_eq, get_eq hget,
        ok_bind, isPrefixOf_utf8Bytes_of_le (by decide) hb,
        isPrefixOf_utf8Bytes_of_le (by decide) hb, beq_toUInt8_of_le hb (by decide)]
      rfl
    have hskip := h.pass hbytes hpass
    rw [String.length_utf8EncodeChar] at hskip
    rw [hskip, if_neg fun hopen => ne_of_le hc (by decide) hopen.1,
      if_neg fun hclose => ne_of_le hc (by decide) hclose.1,
      beq_false_of_ne (ne_of_le hc (by decide))]
    rfl

theorem utf8Size_reverse (cs : List Char) : utf8Size cs.reverse = utf8Size cs := by
  induction cs with
  | nil => rfl
  | cons c cs ih =>
      rw [List.reverse_cons, utf8Size_append, ih, utf8Size_cons, utf8Size_cons, utf8Size_nil,
        Nat.add_zero, Nat.add_comm]

theorem firstBreak_cons_reverse (base : Nat) (c : Char) (taken : List Char) :
    firstBreak base (c :: taken).reverse =
      if c == '\n' && (firstBreak base taken.reverse).isNone then some (base + utf8Size taken)
      else firstBreak base taken.reverse := by
  rw [List.reverse_cons, firstBreak_append, utf8Size_reverse, firstBreak, firstBreak]
  cases firstBreak base taken.reverse <;> simp

/-- **Block comments.**  A comment read byte by byte ends where the comment read character by
character does. -/
theorem commentLoop_eq {start base depth : Nat} {taken cs : List Char}
    (h : Ahead bytes (base + utf8Size taken) (utf8Bytes cs)) :
    commentLoop bytes start (depth + 1) (firstBreak base taken.reverse) (base + utf8Size taken) =
      match closeComment depth taken cs with
      | some (text, _) => .ok (base + utf8Size text, firstBreak base text)
      | none => refuse (.unterminated .blockComment start) := by
  -- a mark of two characters has no line break
  have hmark : ∀ c d, c ≠ '\n' → d ≠ '\n' → c.utf8Size = 1 → d.utf8Size = 1 → ∀ taken,
      firstBreak base (d :: c :: taken).reverse = firstBreak base taken.reverse ∧
        base + utf8Size (d :: c :: taken) = base + utf8Size taken + 2 := by
    intro c d hc hd hcsize hdsize taken
    constructor
    · rw [firstBreak_cons_reverse, firstBreak_cons_reverse, beq_false_of_ne hc, beq_false_of_ne hd]
      rfl
    · rw [utf8Size_cons, utf8Size_cons, hcsize, hdsize]
      omega
  fun_induction closeComment depth taken cs with
  | case1 depth taken cs ih =>
      obtain ⟨hbreak, hsize⟩ := hmark '/' '*' (by decide) (by decide) rfl rfl taken
      rw [hbreak, hsize] at ih
      rw [commentLoop_cons h, if_pos ⟨rfl, rfl⟩, ih h.next.next]
  | case2 taken cs =>
      obtain ⟨hbreak, hsize⟩ := hmark '*' '/' (by decide) (by decide) rfl rfl taken
      rw [commentLoop_cons h, if_neg (by simp), if_pos ⟨rfl, rfl⟩, sub_eq (by omega), ok_bind,
        if_pos rfl]
      dsimp only
      rw [utf8Size_reverse, hbreak, hsize]
      rfl
  | case3 depth taken cs ih =>
      obtain ⟨hbreak, hsize⟩ := hmark '*' '/' (by decide) (by decide) rfl rfl taken
      rw [hbreak, hsize] at ih
      rw [commentLoop_cons h, if_neg (by simp), if_pos ⟨rfl, rfl⟩, sub_eq (by omega), ok_bind,
        if_neg (by omega), Nat.add_sub_cancel, ih h.next.next]
  | case4 depth taken c cs hopens hcloses hcloses' ih =>
      have hopen : ¬ (c = '/' ∧ cs.head? = some '*') := by
        rintro ⟨rfl, hhead⟩
        obtain ⟨cs, rfl⟩ := List.head?_eq_some_iff.mp hhead
        exact hopens cs rfl rfl
      have hclose : ¬ (c = '*' ∧ cs.head? = some '/') := by
        rintro ⟨rfl, hhead⟩
        obtain ⟨cs, rfl⟩ := List.head?_eq_some_iff.mp hhead
        cases depth with
        | zero => exact hcloses cs rfl rfl rfl
        | succ depth => exact hcloses' depth cs rfl rfl rfl
      have hsize : base + utf8Size (c :: taken) = base + utf8Size taken + c.utf8Size := by
        rw [utf8Size_cons, Nat.add_comm c.utf8Size, Nat.add_assoc]
      rw [hsize] at ih
      rw [commentLoop_cons h, if_neg hopen, if_neg hclose, ← firstBreak_cons_reverse, ih h.next]
  | case5 depth taken =>
      rw [commentLoop, dif_neg (by rw [← h.length_eq]; simp)]

/-- Two runs begin a list. -/
theorem isPrefixOf_runs {m n : Nat} {a b : UInt8} {as : List UInt8} :
    (List.replicate m a ++ List.replicate n b).isPrefixOf as = true ↔
      m + n ≤ as.length ∧ (as.take m).all (· == a) = true ∧
        ((as.drop m).take n).all (· == b) = true := by
  rw [List.isPrefixOf_iff_prefix]
  constructor
  · rintro ⟨rest, rfl⟩
    simp
  · rintro ⟨hlength, hfirst, hsecond⟩
    have hfirst' : as.take m = List.replicate m a :=
      List.eq_replicate_iff.mpr ⟨by simp; omega, by simpa using hfirst⟩
    have hsecond' : (as.drop m).take n = List.replicate n b :=
      List.eq_replicate_iff.mpr ⟨by simp; omega, by simpa using hsecond⟩
    rw [← hfirst', ← hsecond', ← List.take_add]
    exact List.take_prefix _ _

theorem utf8Bytes_closer (hashes : Nat) (multiline : Bool) :
    utf8Bytes ('"' :: Opening.closer hashes multiline) =
      List.replicate (if multiline then 3 else 1) '"'.toUInt8 ++
        List.replicate hashes '#'.toUInt8 := by
  have hhashes := utf8Bytes_replicate (c := '#') (by decide) hashes
  rw [Opening.closer, ← List.cons_append, utf8Bytes_append, hhashes]
  cases multiline <;> rfl

/-- **Delimiters.**  What closes a literal is found byte by byte where it is found character by
character. -/
theorem closesAt_eq {cs : List Char} {hashes : Nat} {multiline : Bool}
    (h : Ahead bytes i (utf8Bytes ('"' :: cs))) :
    closesAt bytes hashes multiline i =
      .ok (if (Opening.closer hashes multiline).isPrefixOf cs then
        some (i + 1 + (Opening.closer hashes multiline).length) else none) := by
  have hcloser := isPrefixOf_utf8Bytes (closer_ascii hashes multiline) ('"' :: cs)
  rw [List.isPrefixOf_cons_cons, beq_self_eq_true, Bool.true_and, utf8Bytes_closer] at hcloser
  have hwidth : (if multiline then 3 else 1) + hashes =
      1 + (Opening.closer hashes multiline).length := by
    unfold Opening.closer
    cases multiline with
    | true =>
        simp
        omega
    | false => simp
  rw [← hcloser, closesAt, tail_eq h.le, ok_bind, h.drop_eq]
  generalize (if multiline then 3 else 1) = width at hwidth ⊢
  generalize utf8Bytes ('"' :: cs) = ahead
  by_cases hfits : ahead.length < width + hashes
  · have hcloses : ¬ (List.replicate width '"'.toUInt8 ++
        List.replicate hashes '#'.toUInt8).isPrefixOf ahead = true := fun hcloses => by
      have hfit := (isPrefixOf_runs.mp hcloses).1
      omega
    rw [if_pos hfits, if_neg hcloses]
    rfl
  · have hquotes := part_eq (ε := ParseError) (Nat.zero_le width)
      (Nat.le_trans (Nat.le_add_right width hashes) (Nat.le_of_not_lt hfits))
    have hmarks := part_eq (ε := ParseError) (Nat.le_add_right width hashes)
      (Nat.le_of_not_lt hfits)
    rw [if_neg hfits, hquotes, ok_bind, hmarks, ok_bind, Nat.sub_zero, List.drop_zero,
      Nat.add_sub_cancel_left]
    have hruns : ((ahead.take width).all (· == '"'.toUInt8) &&
        ((ahead.drop width).take hashes).all (· == '#'.toUInt8)) =
          (List.replicate width '"'.toUInt8 ++
            List.replicate hashes '#'.toUInt8).isPrefixOf ahead := by
      rw [Bool.eq_iff_iff, Bool.and_eq_true, isPrefixOf_runs]
      exact ⟨fun hall => ⟨Nat.le_of_not_lt hfits, hall⟩, fun hall => hall.2⟩
    rw [hruns, Nat.add_assoc i width, hwidth, ← Nat.add_assoc]
    rfl

/-- A byte of a longer character is passed by itself. -/
theorem stringLoop_pass (quote hashes : Nat) (multiline : Bool) (hget : bytes[i]? = some b)
    (hb : 0x80 ≤ b) :
    stringLoop bytes quote hashes multiline i =
      stringLoop bytes quote hashes multiline (i + 1) := by
  rw [stringLoop, dif_pos (Ahead.of_get hget).lt, get_eq hget, ok_bind,
    beq_toUInt8_of_le hb (by decide), beq_toUInt8_of_le hb (by decide),
    beq_toUInt8_of_le hb (by decide)]
  rfl

theorem interpolationLoop_pass (start depth : Nat) (hget : bytes[i]? = some b) (hb : 0x80 ≤ b) :
    interpolationLoop bytes start depth i = interpolationLoop bytes start depth (i + 1) := by
  rw [interpolationLoop, dif_pos (Ahead.of_get hget).lt, get_eq hget, ok_bind,
    beq_toUInt8_of_le hb (by decide), beq_toUInt8_of_le hb (by decide),
    beq_toUInt8_of_le hb (by decide)]
  rfl

/-- A literal passes a character, or two if the second one is hidden by a backslash. -/
theorem stringLoop_cons {c : Char} {cs : List Char} (h : Ahead bytes i (utf8Bytes (c :: cs)))
    (quote hashes : Nat) (multiline : Bool) :
    stringLoop bytes quote hashes multiline i =
      if c = '\\' ∧ hashes = 0 then
        if cs.head? = some '(' then do
          let after ← interpolationLoop bytes (i + 1) 0 (i + 1)
          if i < after then stringLoop bytes quote hashes multiline after else stuck i
        else stringLoop bytes quote hashes multiline (i + 2)
      else if c = '\n' ∧ multiline = false then refuse (.unterminated .stringLiteral quote)
      else if c = '"' ∧ (Opening.closer hashes multiline).isPrefixOf cs then
        .ok (i + 1 + (Opening.closer hashes multiline).length)
      else stringLoop bytes quote hashes multiline (i + c.utf8Size) := by
  rcases utf8EncodeChar_cases c with ⟨hc, -⟩ | ⟨hc, hbytes⟩
  · have hfirst := h.cons_of_lt hc
    rw [stringLoop, dif_pos hfirst.lt, get_eq hfirst.get, ok_bind, toUInt8_beq hc (by decide),
      toUInt8_beq hc (by decide), toUInt8_beq hc (by decide), hfirst.step.peek (by decide),
      utf8Size_of_lt hc]
    simp only [Bool.and_eq_true, beq_iff_eq, Bool.not_eq_true', dite_eq_ite]
    refine ite_congr rfl (fun _ => rfl) fun _ => ite_congr rfl (fun _ => rfl) fun _ => ?_
    by_cases hquote : c = '"'
    · subst hquote
      rw [if_pos rfl, closesAt_eq h, ok_bind]
      by_cases hcloses : (Opening.closer hashes multiline).isPrefixOf cs = true
      · rw [if_pos hcloses, if_pos ⟨rfl, hcloses⟩]
        rfl
      · rw [if_neg hcloses, if_neg fun hboth => hcloses hboth.2]
    · rw [if_neg hquote, if_neg fun hboth => hquote hboth.1]
  · have hpass := h.pass hbytes fun j b => stringLoop_pass (i := j) quote hashes multiline
    rw [String.length_utf8EncodeChar] at hpass
    rw [hpass, if_neg fun hescape => ne_of_le hc (by decide) hescape.1,
      if_neg fun hbreak => ne_of_le hc (by decide) hbreak.1,
      if_neg fun hquote => ne_of_le hc (by decide) hquote.1]

/-- An interpolation passes a character, or a literal inside. -/
theorem interpolationLoop_cons {c : Char} {cs : List Char}
    (h : Ahead bytes i (utf8Bytes (c :: cs))) (start depth : Nat) :
    interpolationLoop bytes start depth i =
      if c = '(' then interpolationLoop bytes start (depth + 1) (i + 1)
      else if c = ')' then do
        let depth ← sub depth 1
        if depth = 0 then pure (i + 1) else interpolationLoop bytes start depth (i + 1)
      else if c = '"' then do
        let after ← skipString bytes i 0
        if i < after then interpolationLoop bytes start depth after else stuck i
      else interpolationLoop bytes start depth (i + c.utf8Size) := by
  rcases utf8EncodeChar_cases c with ⟨hc, -⟩ | ⟨hc, hbytes⟩
  · have hfirst := h.cons_of_lt hc
    rw [interpolationLoop, dif_pos hfirst.lt, get_eq hfirst.get, ok_bind,
      toUInt8_beq hc (by decide), toUInt8_beq hc (by decide), toUInt8_beq hc (by decide),
      utf8Size_of_lt hc]
    simp only [beq_iff_eq, dite_eq_ite]
  · have hpass := h.pass hbytes fun j b => interpolationLoop_pass (i := j) start depth
    rw [String.length_utf8EncodeChar] at hpass
    rw [hpass, if_neg (ne_of_le hc (by decide)), if_neg (ne_of_le hc (by decide)),
      if_neg (ne_of_le hc (by decide))]

/-- A delimiter has a width, so the place behind it lies further on. -/
theorem closesAt_lt {hashes after : Nat} {multiline : Bool}
    (h : closesAt bytes hashes multiline i = .ok (some after)) : i < after := by
  unfold closesAt at h
  dsimp only at h
  have hwidth : 0 < if multiline then 3 else 1 := by split <;> omega
  generalize (if multiline then 3 else 1) = width at h hwidth
  obtain ⟨ahead, -, h⟩ := exists_of_bind_eq_ok h
  split at h
  · cases h
  · obtain ⟨quotes, -, h⟩ := exists_of_bind_eq_ok h
    obtain ⟨marks, -, h⟩ := exists_of_bind_eq_ok h
    have hsome := Except.ok.inj h
    split at hsome
    · obtain rfl := Option.some.inj hsome
      omega
    · cases hsome

/-- **Every literal advances.** -/
theorem stringLoop_lt {quote hashes i after : Nat} {multiline : Bool}
    (h : stringLoop bytes quote hashes multiline i = .ok after) : i < after := by
  rw [stringLoop] at h
  split at h
  next hi =>
    obtain ⟨b, -, h⟩ := exists_of_bind_eq_ok h
    split at h
    · split at h
      · obtain ⟨after', -, h⟩ := exists_of_bind_eq_ok h
        split at h
        next hafter => exact Nat.lt_trans hafter (stringLoop_lt h)
        next => cases h
      · have hlt := stringLoop_lt h
        omega
    split at h
    · cases h
    split at h
    · obtain ⟨after?, hcloses, h⟩ := exists_of_bind_eq_ok h
      split at h
      · obtain rfl := Except.ok.inj h
        exact closesAt_lt hcloses
      · exact Nat.lt_of_succ_lt (stringLoop_lt h)
    · exact Nat.lt_of_succ_lt (stringLoop_lt h)
  next => cases h
termination_by bytes.length - i

/-- **Every interpolation advances.** -/
theorem interpolationLoop_lt {start depth i after : Nat}
    (h : interpolationLoop bytes start depth i = .ok after) : i < after := by
  rw [interpolationLoop] at h
  split at h
  next hi =>
    obtain ⟨b, -, h⟩ := exists_of_bind_eq_ok h
    split at h
    · exact Nat.lt_of_succ_lt (interpolationLoop_lt h)
    split at h
    · obtain ⟨depth', -, h⟩ := exists_of_bind_eq_ok h
      split at h
      · obtain rfl := Except.ok.inj h
        exact Nat.lt_succ_self i
      · exact Nat.lt_of_succ_lt (interpolationLoop_lt h)
    split at h
    · obtain ⟨after', -, h⟩ := exists_of_bind_eq_ok h
      split at h
      next hafter => exact Nat.lt_trans hafter (interpolationLoop_lt h)
      next => cases h
    · exact Nat.lt_of_succ_lt (interpolationLoop_lt h)
  next => cases h
termination_by bytes.length - i

/-- Go on where an opening is the innermost one. -/
def resume (bytes : List UInt8) (i : Nat) : Opening → Checked ParseError Nat
  | .quote start hashes multiline => stringLoop bytes start hashes multiline i
  | .paren start depth => interpolationLoop bytes start depth i

/-- Go on until everything open is closed: an opening is left where the one inside ended. -/
def resumeAll (bytes : List UInt8) (i : Nat) : List Opening → Checked ParseError Nat
  | [] => pure i
  | opening :: outer => do
      let after ← resume bytes i opening
      resumeAll bytes after outer

/-- A literal begins behind its opening delimiter. -/
theorem skipString_eq {cs : List Char} (h : Ahead bytes i (utf8Bytes ('"' :: cs))) (hashes : Nat) :
    skipString bytes i hashes =
      resume bytes (i + 1 + (Opening.ofQuote i hashes cs).2.1.length)
        (Opening.ofQuote i hashes cs).1 := by
  rw [skipString, tail_eq h.le, ok_bind, h.drop_eq, isPrefixOf_utf8Bytes (by decide),
    List.isPrefixOf_cons_cons, beq_self_eq_true, Bool.true_and]
  unfold Opening.ofQuote
  split
  · rfl
  next hquotes =>
    have hpair : ['"', '"'].isPrefixOf cs = false := by
      rw [Bool.eq_false_iff]
      intro hpair
      obtain ⟨rest, rfl⟩ := List.isPrefixOf_iff_prefix.mp hpair
      exact hquotes rest rfl
    rw [hpair]
    rfl

theorem skipString_lt {cs : List Char} (h : Ahead bytes i (utf8Bytes ('"' :: cs)))
    {hashes after : Nat} (hok : skipString bytes i hashes = .ok after) : i < after := by
  rw [skipString_eq h] at hok
  unfold Opening.ofQuote at hok
  split at hok <;> have hlt := stringLoop_lt hok <;> omega

/-- An interpolation that was entered has a parenthesis open. -/
def Entered (openings : List Opening) : Prop :=
  ∀ start depth, Opening.paren start depth ∈ openings → 0 < depth

theorem Entered.quote {openings : List Opening} (h : Entered openings)
    (offset hashes : Nat) (multiline : Bool) :
    Entered (.quote offset hashes multiline :: openings) := by
  intro start depth hmem
  rcases List.mem_cons.mp hmem with heq | hmem
  · cases heq
  · exact h start depth hmem

theorem Entered.paren {openings : List Opening} (h : Entered openings) (offset : Nat) {depth : Nat}
    (hdepth : 0 < depth) : Entered (.paren offset depth :: openings) := by
  intro start depth' hmem
  rcases List.mem_cons.mp hmem with heq | hmem
  · obtain ⟨-, rfl⟩ := Opening.paren.inj heq
    exact hdepth
  · exact h start depth' hmem

theorem Entered.outer {opening : Opening} {openings : List Opening}
    (h : Entered (opening :: openings)) : Entered openings :=
  fun start depth hmem => h start depth (List.mem_cons_of_mem _ hmem)

/-- What advances is not stuck. -/
theorem bind_of_lt {x : Checked ParseError Nat} {f : Nat → Checked ParseError Nat}
    (h : ∀ after, x = .ok after → i < after) :
    (do let after ← x; if i < after then f after else stuck i) = x >>= f := by
  cases x with
  | error e => rfl
  | ok after => exact if_pos (h after rfl)

section ResumeSteps

variable {offset start hashes depth : Nat} {multiline : Bool} {outer : List Opening} {c : Char}
  {cs : List Char}

theorem resumeAll_closed (taken : List Char) (h : Ahead bytes offset (utf8Bytes cs)) :
    resumeAll bytes offset [] = ofExcept ((closeAll offset [] taken cs).map fun read =>
      bytes.length - utf8Size read.2) := by
  have hlength := h.length_eq
  rw [length_utf8Bytes] at hlength
  rw [resumeAll, closeAll, Except.map, ← hlength, Nat.add_sub_cancel]
  rfl

/-- At the end of a text nothing is closed any more. -/
theorem resumeAll_unclosed (opening : Opening) (h : bytes.length ≤ offset) :
    resumeAll bytes offset (opening :: outer) = refuse opening.unclosed := by
  have hend : ¬ offset < bytes.length := Nat.not_lt.mpr h
  cases opening with
  | quote start hashes multiline =>
      rw [resumeAll, resume, stringLoop, dif_neg hend]
      rfl
  | paren start depth =>
      rw [resumeAll, resume, interpolationLoop, dif_neg hend]
      rfl

/-- A backslash at the end of a text leads past it. -/
theorem resumeAll_hidden (h : Ahead bytes offset (utf8Bytes ['\\'])) :
    resumeAll bytes offset (.quote start 0 multiline :: outer) =
      refuse (.unterminated .stringLiteral start) := by
  have hend : bytes.length ≤ offset + 2 := by
    rw [← (h.next_of_lt (by decide)).length_eq]
    simp
  rw [resumeAll, resume, stringLoop_cons h, if_pos ⟨rfl, rfl⟩, if_neg (by simp)]
  exact resumeAll_unclosed (.quote start 0 multiline) hend

/-- The loop for an interpolation begins at its parenthesis, which is open behind it. -/
theorem resumeAll_interpolation (h : Ahead bytes offset (utf8Bytes ('\\' :: '(' :: cs))) :
    resumeAll bytes offset (.quote start 0 multiline :: outer) =
      resumeAll bytes (offset + 2) (.paren (offset + 1) 1 :: .quote start 0 multiline :: outer) := by
  have hparen : interpolationLoop bytes (offset + 1) 0 (offset + 1) =
      interpolationLoop bytes (offset + 1) 1 (offset + 2) := by
    rw [interpolationLoop_cons (h.next_of_lt (by decide)), if_pos rfl]
  have hlt : ∀ after, interpolationLoop bytes (offset + 1) 0 (offset + 1) = .ok after →
      offset < after := fun after hok => Nat.lt_of_succ_lt (interpolationLoop_lt hok)
  rw [resumeAll, resume, stringLoop_cons h, if_pos ⟨rfl, rfl⟩, List.head?_cons, if_pos rfl,
    bind_of_lt hlt, hparen, bind_assoc]
  rfl

/-- The loop passes one byte of a hidden character, and the others one by one. -/
theorem resumeAll_escape (hc : c ≠ '(') (h : Ahead bytes offset (utf8Bytes ('\\' :: c :: cs))) :
    resumeAll bytes offset (.quote start 0 multiline :: outer) =
      resumeAll bytes (offset + 1 + c.utf8Size) (.quote start 0 multiline :: outer) := by
  have hnext := h.next_of_lt (by decide)
  have hpass := hnext.pass_behind fun j b => stringLoop_pass (i := j) start 0 multiline
  rw [resumeAll, resume, stringLoop_cons h, if_pos ⟨rfl, rfl⟩, if_neg (by simpa using hc), hpass]
  rfl

theorem resumeAll_lineBreak (h : Ahead bytes offset (utf8Bytes ('\n' :: cs))) :
    resumeAll bytes offset (.quote start hashes false :: outer) =
      refuse (.unterminated .stringLiteral start) := by
  rw [resumeAll, resume, stringLoop_cons h, if_neg (by simp), if_pos ⟨rfl, rfl⟩]
  rfl

theorem resumeAll_delimiter
    (h : Ahead bytes offset (utf8Bytes ('"' :: (Opening.closer hashes multiline ++ cs)))) :
    resumeAll bytes offset (.quote start hashes multiline :: outer) =
      resumeAll bytes (offset + 1 + (Opening.closer hashes multiline).length) outer := by
  rw [resumeAll, resume, stringLoop_cons h, if_neg (by simp), if_neg (by simp), if_pos (by simp)]
  rfl

/-- A character that neither escapes, ends the line nor closes is passed whole. -/
theorem resumeAll_char (hescape : ¬ (c = '\\' ∧ hashes = 0))
    (hbreak : ¬ (c = '\n' ∧ multiline = false))
    (hcloses : ¬ (c = '"' ∧ (Opening.closer hashes multiline).isPrefixOf cs = true))
    (h : Ahead bytes offset (utf8Bytes (c :: cs))) :
    resumeAll bytes offset (.quote start hashes multiline :: outer) =
      resumeAll bytes (offset + c.utf8Size) (.quote start hashes multiline :: outer) := by
  rw [resumeAll, resume, stringLoop_cons h, if_neg hescape, if_neg hbreak, if_neg hcloses]
  rfl

theorem resumeAll_left (h : Ahead bytes offset (utf8Bytes ('(' :: cs))) :
    resumeAll bytes offset (.paren start depth :: outer) =
      resumeAll bytes (offset + 1) (.paren start (depth + 1) :: outer) := by
  rw [resumeAll, resume, interpolationLoop_cons h, if_pos rfl]
  rfl

theorem resumeAll_last (h : Ahead bytes offset (utf8Bytes (')' :: cs))) :
    resumeAll bytes offset (.paren start 1 :: outer) = resumeAll bytes (offset + 1) outer := by
  rw [resumeAll, resume, interpolationLoop_cons h, if_neg (by decide), if_pos rfl,
    sub_eq (Nat.le_refl 1), ok_bind, if_pos rfl]
  rfl

theorem resumeAll_right (hdepth : ¬ depth ≤ 1) (h : Ahead bytes offset (utf8Bytes (')' :: cs))) :
    resumeAll bytes offset (.paren start depth :: outer) =
      resumeAll bytes (offset + 1) (.paren start (depth - 1) :: outer) := by
  rw [resumeAll, resume, interpolationLoop_cons h, if_neg (by decide), if_pos rfl,
    sub_eq (by omega), ok_bind, if_neg (by omega)]
  rfl

/-- A literal inside of an interpolation is read by a loop of its own, which gets on. -/
theorem resumeAll_literal (h : Ahead bytes offset (utf8Bytes ('"' :: cs))) :
    resumeAll bytes offset (.paren start depth :: outer) =
      resumeAll bytes (offset + 1 + (Opening.ofQuote offset 0 cs).2.1.length)
        ((Opening.ofQuote offset 0 cs).1 :: .paren start depth :: outer) := by
  rw [resumeAll, resume, interpolationLoop_cons h, if_neg (by decide), if_neg (by decide),
    if_pos rfl, bind_of_lt fun after hok => skipString_lt h hok, skipString_eq h, bind_assoc]
  rfl

theorem resumeAll_other (hleft : c ≠ '(') (hright : c ≠ ')') (hquote : c ≠ '"')
    (h : Ahead bytes offset (utf8Bytes (c :: cs))) :
    resumeAll bytes offset (.paren start depth :: outer) =
      resumeAll bytes (offset + c.utf8Size) (.paren start depth :: outer) := by
  rw [resumeAll, resume, interpolationLoop_cons h, if_neg hleft, if_neg hright, if_neg hquote]
  rfl

end ResumeSteps

/-- A text is left behind the delimiter of a literal. -/
theorem ahead_delimiter {hashes : Nat} {multiline : Bool} {cs : List Char}
    (h : Ahead bytes i (utf8Bytes ('"' :: (Opening.closer hashes multiline ++ cs)))) :
    Ahead bytes (i + 1 + (Opening.closer hashes multiline).length) (utf8Bytes cs) := by
  have hascii := allAscii_cons.mp (closer_ascii hashes multiline)
  have hnext := h.next_of_lt hascii.1
  rw [utf8Bytes_append] at hnext
  have hbehind := hnext.behind
  rwa [length_utf8Bytes, utf8Size_eq_length hascii.2] at hbehind

/-- **Literals.**  Read byte by byte, what is open is closed where it is closed character by
character. -/
theorem resumeAll_eq {offset : Nat} {openings : List Opening} {taken cs : List Char}
    (h : Ahead bytes offset (utf8Bytes cs)) (hentered : Entered openings) :
    resumeAll bytes offset openings =
      ofExcept ((closeAll offset openings taken cs).map fun read =>
        bytes.length - utf8Size read.2) := by
  fun_induction closeAll offset openings taken cs with
  | case1 offset taken cs => rw [resumeAll_closed taken h, closeAll]
  | case2 offset taken opening outer =>
      rw [resumeAll_unclosed opening (by rw [← h.length_eq]; simp)]
      rfl
  | case3 offset taken start hashes multiline outer c hescape =>
      obtain ⟨rfl, rfl⟩ := hescape
      rw [resumeAll_hidden h]
      rfl
  | case4 offset taken start hashes multiline outer c hescape rest ih =>
      obtain ⟨rfl, rfl⟩ := hescape
      have hinside := (h.next_of_lt (by decide)).next_of_lt (by decide)
      rw [resumeAll_interpolation h, ih hinside (hentered.paren _ Nat.one_pos)]
  | case5 offset taken start hashes multiline outer c hescape d rest hd ih =>
      obtain ⟨rfl, rfl⟩ := hescape
      rw [resumeAll_escape hd h, ih (h.next_of_lt (by decide)).next hentered]
  | case6 offset taken start hashes multiline outer c cs hescape hbreak =>
      obtain ⟨rfl, rfl⟩ := hbreak
      rw [resumeAll_lineBreak h]
      rfl
  | case7 offset taken start hashes multiline outer c cs hescape hbreak hcloses ih =>
      obtain ⟨rfl, hcloser⟩ := hcloses
      obtain ⟨rest, rfl⟩ := List.isPrefixOf_iff_prefix.mp hcloser
      rw [List.drop_left' rfl] at ih
      rw [resumeAll_delimiter h, ih (ahead_delimiter h) hentered.outer, List.drop_left' rfl]
  | case8 offset taken start hashes multiline outer c cs hescape hbreak hcloses ih =>
      rw [resumeAll_char hescape hbreak hcloses h, ih h.next hentered]
  | case9 offset taken start depth outer cs ih =>
      rw [resumeAll_left h,
        ih (h.next_of_lt (by decide)) (hentered.outer.paren _ (Nat.succ_pos _))]
  | case10 offset taken start depth outer cs hdepth _ ih =>
      obtain rfl : depth = 1 :=
        Nat.le_antisymm hdepth (hentered start depth List.mem_cons_self)
      rw [resumeAll_last h, ih (h.next_of_lt (by decide)) hentered.outer]
  | case11 offset taken start depth outer cs hdepth _ ih =>
      rw [resumeAll_right hdepth h,
        ih (h.next_of_lt (by decide)) (hentered.outer.paren _ (by omega))]
  | case12 offset taken start depth outer rest _ _ ih =>
      have hinside := ((h.next_of_lt (by decide)).next_of_lt (by decide)).next_of_lt (by decide)
      rw [resumeAll_literal h, ← ih hinside (hentered.quote _ _ _)]
      rfl
  | case13 offset taken start depth outer cs hquotes _ _ ih =>
      have hquotes' : ¬ ['"', '"'] <+: cs := by
        rintro ⟨rest, hrest⟩
        exact hquotes rest hrest.symm
      rw [resumeAll_literal h, Opening.ofQuote_of_not_prefix hquotes',
        ← ih (h.next_of_lt (by decide)) (hentered.quote _ _ _)]
      rfl
  | case14 offset taken start depth outer c cs hleft hright hquote ih =>
      rw [resumeAll_other hleft hright hquote h, ih h.next hentered]

/-- What is ahead behind the quotes that open a literal. -/
theorem ahead_ofQuote {cs : List Char} (h : Ahead bytes i (utf8Bytes ('"' :: cs))) (hashes : Nat) :
    Ahead bytes (i + 1 + (Opening.ofQuote i hashes cs).2.1.length)
      (utf8Bytes (Opening.ofQuote i hashes cs).2.2) := by
  have hnext := h.next_of_lt (by decide)
  unfold Opening.ofQuote
  split
  · exact (hnext.next_of_lt (by decide)).next_of_lt (by decide)
  · exact hnext

/-- **One literal.**  It ends behind the characters that belong to it, or is refused as one
that is never closed. -/
theorem skipString_eq_leadingLiteral {cs : List Char}
    (h : Ahead bytes i (utf8Bytes ('"' :: cs))) (hashes : Nat) :
    skipString bytes i hashes =
      ofExcept ((leadingLiteral i hashes cs).map fun read => i + 1 + utf8Size read.1) := by
  have hentered : Entered [(Opening.ofQuote i hashes cs).1] := by
    intro start depth hmem
    unfold Opening.ofQuote at hmem
    split at hmem <;> cases List.mem_singleton.mp hmem
  have hall : resumeAll bytes (i + 1 + (Opening.ofQuote i hashes cs).2.1.length)
      [(Opening.ofQuote i hashes cs).1] = skipString bytes i hashes := by
    rw [skipString_eq h, resumeAll]
    exact bind_pure _
  have hread := @resumeAll_eq bytes _ _ (Opening.ofQuote i hashes cs).2.1.reverse _
    (ahead_ofQuote h hashes) hentered
  have hdef : closeAll (i + 1 + (Opening.ofQuote i hashes cs).2.1.length)
      [(Opening.ofQuote i hashes cs).1] (Opening.ofQuote i hashes cs).2.1.reverse
      (Opening.ofQuote i hashes cs).2.2 = leadingLiteral i hashes cs := rfl
  rw [hdef] at hread
  rw [← hall, hread]
  cases hliteral : leadingLiteral i hashes cs with
  | error e => rfl
  | ok read =>
      have hlength := (h.next_of_lt (by decide)).length_eq
      rw [length_utf8Bytes, ← leadingLiteral_split hliteral, utf8Size_append] at hlength
      rw [← hlength, ← Nat.add_assoc, Except.map, Except.map, Nat.add_sub_cancel]

end Scanner

end DeclLint
