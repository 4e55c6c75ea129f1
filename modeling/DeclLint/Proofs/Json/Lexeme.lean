import DeclLint.Proofs.Json.Grammar
import DeclLint.Proofs.Source.Cutting

/-!
# Reading the tokens of JSON

A reader of one kind of token finds exactly what the grammar allows, and leaves what
follows.  A number and a word end where no longer one can, so what follows must not go on
(`JsonValue.Ends`); between the tokens of a JSON text it never does.

* `JsonValue.stringTail_eq_some_iff` — strings;
* `JsonValue.isNumber_of_number?`, `JsonValue.number?_append` — numbers;
* `JsonValue.exists_lexeme_of_token?`, `JsonValue.token?_scalar` — tokens.
-/

namespace DeclLint

namespace JsonValue

section Strings

variable {text : Option (List Char)} {high : Option Nat} {body cs rest : List Char}
  {units : List StringUnit}

/-- The text of a string that was read up to some units: the characters so far, last one
first, and a first half of a pair that still waits. -/
def finish (text : Option (List Char)) (high : Option Nat) (units : List StringUnit) : JsonText :=
  text.bind fun done => (charsOf? (high.toList.map .half ++ units)).map fun cs =>
    String.ofList (done.reverse ++ cs)

/-- A character that comes next is one more of those already read. -/
theorem finish_of_cons {high high' : Option Nat} {units units' : List StringUnit} {c : Char}
    (h : charsOf? (high.toList.map .half ++ units) =
      (charsOf? (high'.toList.map .half ++ units')).map (c :: ·)) :
    finish text high units = finish (text.map (c :: ·)) high' units' := by
  cases text with
  | none => rfl
  | some done =>
      rw [finish, finish, h]
      simp only [Option.bind_some, Option.map_some, Option.map_map, Function.comp_def,
        List.reverse_cons, List.append_assoc, List.singleton_append]

theorem finish_of_none (h : charsOf? (high.toList.map .half ++ units) = none) :
    finish text high units = none := by
  cases text with
  | none => rfl
  | some done => rw [finish, h]; rfl

theorem finish_char (text : Option (List Char)) (high : Option Nat) (c : Char)
    (units : List StringUnit) :
    finish text high (.char c :: units) = finish (pushChar text high c) none units := by
  cases high with
  | none => exact finish_of_cons rfl
  | some first => exact finish_of_none rfl

/-- Where the units end, no high surrogate may be left waiting. -/
theorem finish_end (text : Option (List Char)) (high : Option Nat) :
    finish text high [] =
      if high.isSome then none else text.map fun cs => String.ofList cs.reverse := by
  cases high with
  | some first => exact finish_of_none rfl
  | none =>
      cases text with
      | none => rfl
      | some done => simp [finish, charsOf?]

theorem isHighSurrogate_of_low {unit : Nat} (h : isLowSurrogate unit = true) :
    isHighSurrogate unit = false := by
  simp only [isLowSurrogate, isHighSurrogate, Bool.and_eq_true, decide_eq_true_eq,
    Bool.and_eq_false_iff, decide_eq_false_iff_not] at h ⊢
  omega

/-- A low surrogate without a high one before it spells no character. -/
theorem charsOf?_low {unit : Nat} (h : isLowSurrogate unit = true) (units : List StringUnit) :
    charsOf? (.half unit :: units) = none := by
  cases units with
  | nil => rfl
  | cons next units =>
      cases next with
      | char c => rfl
      | half second => simp [charsOf?, isHighSurrogate_of_low h]

/-- A unit that waits for nothing is a character, or waits, or is lost. -/
theorem finish_unit (text : Option (List Char)) (n : Nat) (units : List StringUnit) :
    finish text none (.ofUnit n :: units) =
      if isHighSurrogate n then finish text (some n) units
      else if isLowSurrogate n then finish none none units
      else finish (text.map (Char.ofNat n :: ·)) none units := by
  unfold StringUnit.ofUnit
  by_cases hhigh : isHighSurrogate n = true
  · simp only [hhigh, Bool.true_or, if_true]
    rfl
  by_cases hlow : isLowSurrogate n = true
  · simp only [hhigh, hlow, Bool.or_true, if_true]
    exact finish_of_none (charsOf?_low hlow units)
  · simp only [hhigh, hlow, Bool.or_false]
    exact finish_of_cons rfl

/-- A unit behind a first half completes the pair, or the string has no text. -/
theorem finish_unit_waiting {first : Nat} (hfirst : isHighSurrogate first = true)
    (text : Option (List Char)) (n : Nat) (units : List StringUnit) :
    finish text (some first) (.ofUnit n :: units) =
      if isLowSurrogate n then
        finish (text.map (Char.ofNat (pairedCodePoint first n) :: ·)) none units
      else finish none none units := by
  unfold StringUnit.ofUnit
  by_cases hlow : isLowSurrogate n = true
  · simp only [hlow, Bool.or_true, if_true]
    apply finish_of_cons
    simp [charsOf?, hfirst, hlow]
  by_cases hhigh : isHighSurrogate n = true
  · simp only [hlow, hhigh, Bool.true_or, if_true]
    apply finish_of_none
    simp [charsOf?, hlow]
  · simp only [hlow, hhigh, Bool.or_false]
    exact finish_of_none rfl

/-- **Strings are read.**  The reader goes through what the grammar allows between quotes. -/
theorem stringTail_body (h : StringBody body units) (hhigh : ∀ first ∈ high,
    isHighSurrogate first = true) (rest : List Char) :
    stringTail text high (body ++ '"' :: rest) = some (finish text high units, rest) := by
  induction h generalizing text high with
  | nil => rw [List.nil_append, stringTail, finish_end]
  | @plain c cs units hcontrol hquote hbackslash more ih =>
      have hplain : ¬(c.toNat < 0x20 ∨ c = '\\') := by
        intro hc
        rcases hc with hlt | heq
        · omega
        · exact hbackslash heq
      rw [List.cons_append, stringTail, if_neg hplain, ih (by simp), finish_char]
      · exact hquote
      · intro a b c d rest heq
        exact absurd heq hbackslash
      · intro c rest heq
        exact absurd heq hbackslash
  | @escape letter c cs units h more ih =>
      have hletter : letter ≠ 'u' := by
        intro heq
        have hnone : escapedChar? 'u' = none := by decide
        rw [heq, hnone] at h
        cases h
      rw [List.cons_append, List.cons_append, stringTail, h]
      · rw [finish_char]
        exact ih (by simp)
      · intro a b c d rest heq
        exact absurd heq hletter
  | @unit a b c d n cs units h more ih =>
      simp only [List.cons_append]
      rw [stringTail, h]
      cases high with
      | some first =>
          rw [finish_unit_waiting (hhigh first rfl)]
          by_cases hlow : isLowSurrogate n = true
          · simp only [hlow, if_true]
            exact ih (by simp)
          · simp only [hlow]
            exact ih (by simp)
      | none =>
          rw [finish_unit]
          by_cases hn : isHighSurrogate n = true
          · simp only [hn, if_true]
            exact ih (by simpa using hn)
          by_cases hlow : isLowSurrogate n = true
          · simp only [hn, hlow, if_true]
            exact ih (by simp)
          · simp only [hn, hlow]
            exact ih (by simp)

/-- A text that goes on with the rest of a string, its closing quote and something behind. -/
def EndsString (cs rest : List Char) : Prop :=
  ∃ body units, StringBody body units ∧ cs = body ++ '"' :: rest

theorem EndsString.unit {a b c d : Char} {n : Nat} (h : hexUnit? a b c d = some n)
    (hmore : EndsString cs rest) :
    EndsString ('\\' :: 'u' :: a :: b :: c :: d :: cs) rest := by
  obtain ⟨body, units, hbody, rfl⟩ := hmore
  exact ⟨_, _, .unit h hbody, rfl⟩

/-- What the reader goes through is what the grammar allows between quotes. -/
theorem endsString_of_stringTail {found : JsonText}
    (h : stringTail text high cs = some (found, rest)) : EndsString cs rest := by
  fun_induction stringTail text high cs with
  | case1 text high cs =>
      obtain rfl := (Prod.mk.inj (Option.some.inj h)).2
      exact ⟨[], [], .nil, rfl⟩
  | case2 => cases h
  | case3 text a b c d cs n hunit first hlow ih => exact .unit hunit (ih h)
  | case4 text a b c d cs n hunit first hlow ih => exact .unit hunit (ih h)
  | case5 text a b c d cs n hunit hhigh ih => exact .unit hunit (ih h)
  | case6 text a b c d cs n hunit hhigh hlow ih => exact .unit hunit (ih h)
  | case7 text a b c d cs n hunit hhigh hlow ih => exact .unit hunit (ih h)
  | case8 text high letter cs hletter c hescape ih =>
      obtain ⟨body, units, hbody, rfl⟩ := ih h
      exact ⟨_, _, .escape hescape hbody, rfl⟩
  | case9 => cases h
  | case10 => cases h
  | case11 text high c cs hquote hunit hletter hplain ih =>
      obtain ⟨body, units, hbody, rfl⟩ := ih h
      have hcontrol : 0x20 ≤ c.toNat := Nat.le_of_not_lt fun hlt => hplain (.inl hlt)
      have hbackslash : c ≠ '\\' := fun heq => hplain (.inr heq)
      exact ⟨_, _, .plain hcontrol hquote hbackslash hbody, rfl⟩
  | case12 => cases h

/-- **Strings.**  The reader finds a string exactly if the grammar has one, with its text. -/
theorem stringTail_eq_some_iff {found : JsonText} :
    stringTail (some []) none cs = some (found, rest) ↔
      ∃ body units, StringBody body units ∧ cs = body ++ '"' :: rest ∧ found = textOf? units := by
  have htext : ∀ units, finish (some []) none units = textOf? units := by
    intro units
    simp [finish, textOf?]
  constructor
  · intro h
    obtain ⟨body, units, hbody, rfl⟩ := endsString_of_stringTail h
    rw [stringTail_body hbody (by simp) rest, htext] at h
    exact ⟨body, units, hbody, rfl, (Prod.mk.inj (Option.some.inj h)).1.symm⟩
  · intro ⟨body, units, hbody, heq, hfound⟩
    rw [heq, stringTail_body hbody (by simp) rest, htext, hfound]

end Strings

section Numbers

variable {cs literal part rest : List Char}

/-- A run of characters of a class ends where one follows that is not of the class. -/
theorem run_eq {q : Char → Bool} (hpart : ∀ c ∈ part, q c = true)
    (hrest : ∀ c ∈ rest.head?, q c = false) :
    (part ++ rest).takeWhile q = part ∧ (part ++ rest).dropWhile q = rest := by
  rw [List.takeWhile_append_of_pos hpart, List.dropWhile_append_of_pos hpart]
  cases rest with
  | nil => simp
  | cons c rest => simp [hrest c rfl]

theorem digits?_append (h : IsDigits part) (hrest : ∀ c ∈ rest.head?, c.isDigit = false) :
    digits? (part ++ rest) = some (part, rest) := by
  obtain ⟨htake, hdrop⟩ := run_eq h.2 hrest
  unfold digits?
  simp only [htake, hdrop]
  rw [if_neg (by simpa using h.1)]

/-- What is read as digits is digits, and nothing is lost. -/
theorem isDigits_of_digits? (h : digits? cs = some (part, rest)) :
    IsDigits part ∧ cs = part ++ rest := by
  unfold digits? at h
  simp only at h
  split at h
  · cases h
  next hne =>
    obtain ⟨rfl, rfl⟩ := Prod.mk.inj (Option.some.inj h)
    exact ⟨⟨by simpa using hne, fun c hc => of_mem_takeWhile hc⟩,
      List.takeWhile_append_dropWhile.symm⟩

theorem IsDigits.exists_cons (h : IsDigits part) :
    ∃ c more, part = c :: more ∧ c.isDigit = true := by
  obtain ⟨c, more, rfl⟩ := List.exists_cons_of_ne_nil h.1
  exact ⟨c, more, rfl, h.2 c List.mem_cons_self⟩

/-- A whole part is read back if no digit follows it. -/
theorem wholePart?_append (h : IsWhole part) (hrest : ∀ c ∈ rest.head?, c.isDigit = false) :
    wholePart? (part ++ rest) = some (part, rest) := by
  cases h with
  | zero => rfl
  | digits h hhead =>
      rw [wholePart?]
      · exact digits?_append h hrest
      · intro more heq
        obtain ⟨c, cs, rfl, -⟩ := h.exists_cons
        exact hhead (by rw [(List.cons.inj heq).1]; rfl)

/-- A whole part that is read is one, and stands there. -/
theorem isWhole_of_wholePart? (h : wholePart? cs = some (part, rest)) :
    IsWhole part ∧ cs = part ++ rest := by
  unfold wholePart? at h
  split at h
  · obtain ⟨rfl, rfl⟩ := Prod.mk.inj (Option.some.inj h)
    exact ⟨.zero, rfl⟩
  next hzero =>
    obtain ⟨hdigits, rfl⟩ := isDigits_of_digits? h
    refine ⟨.digits hdigits ?_, rfl⟩
    intro hhead
    obtain ⟨c, more, rfl, -⟩ := hdigits.exists_cons
    obtain rfl : c = '0' := by simpa using hhead
    exact hzero _ rfl

/-- A fraction is read whatever follows, unless that goes on with it. -/
theorem fraction?_append (h : IsFraction part)
    (hrest : ∀ c ∈ rest.head?, c.isDigit = false ∧ c ≠ '.') :
    fraction? (part ++ rest) = some (part, rest) := by
  cases h with
  | missing =>
      rw [List.nil_append, fraction?]
      intro more heq
      exact (hrest '.' (by rw [heq]; rfl)).2 rfl
  | digits h =>
      rw [List.cons_append, fraction?, digits?_append h fun c hc => (hrest c hc).1]
      rfl

/-- What is read as a fraction is one, and nothing is lost. -/
theorem isFraction_of_fraction? (h : fraction? cs = some (part, rest)) :
    IsFraction part ∧ cs = part ++ rest := by
  unfold fraction? at h
  split at h
  · obtain ⟨p, hp, heq⟩ := Option.map_eq_some_iff.mp h
    obtain ⟨rfl, rfl⟩ := Prod.mk.inj heq
    obtain ⟨hdigits, rfl⟩ := isDigits_of_digits? hp
    exact ⟨.digits hdigits, rfl⟩
  · obtain ⟨rfl, rfl⟩ := Prod.mk.inj (Option.some.inj h)
    exact ⟨.missing, rfl⟩

/-- So is an exponent. -/
theorem exponent?_append (h : IsExponent part)
    (hrest : ∀ c ∈ rest.head?, c.isDigit = false ∧ c ≠ 'e' ∧ c ≠ 'E') :
    exponent? (part ++ rest) = some (part, rest) := by
  cases h with
  | missing =>
      cases rest with
      | nil => rfl
      | cons c rest =>
          obtain ⟨-, he, hE⟩ := hrest c rfl
          simp [exponent?, he, hE]
  | @digits e sign digits he hsign h =>
      have hdigits := digits?_append h fun c hc => (hrest c hc).1
      simp only [List.cons_append, exponent?, if_pos he]
      rcases hsign with rfl | rfl | rfl
      · obtain ⟨c, more, rfl, hc⟩ := h.exists_cons
        have hsign : ¬(c = '+' ∨ c = '-') := by
          intro heq
          rcases heq with rfl | rfl <;> exact absurd hc (by decide)
        simp only [List.nil_append, List.cons_append, if_neg hsign] at hdigits ⊢
        rw [hdigits]
        rfl
      · simp [hdigits]
      · simp [hdigits]

/-- An exponent that is read is one, and stands there. -/
theorem isExponent_of_exponent? (h : exponent? cs = some (part, rest)) :
    IsExponent part ∧ cs = part ++ rest := by
  unfold exponent? at h
  split at h
  next e more =>
    split at h
    next he =>
      split at h
      next sign after =>
        split at h
        next hsign =>
          obtain ⟨p, hp, heq⟩ := Option.map_eq_some_iff.mp h
          obtain ⟨rfl, rfl⟩ := Prod.mk.inj heq
          obtain ⟨hdigits, rfl⟩ := isDigits_of_digits? hp
          have hone : [sign] = [] ∨ [sign] = ['+'] ∨ [sign] = ['-'] := by simpa using hsign
          exact ⟨.digits he hone hdigits, rfl⟩
        next =>
          obtain ⟨p, hp, heq⟩ := Option.map_eq_some_iff.mp h
          obtain ⟨rfl, rfl⟩ := Prod.mk.inj heq
          obtain ⟨hdigits, hmore⟩ := isDigits_of_digits? hp
          rw [hmore]
          exact ⟨.digits he (.inl rfl) hdigits, rfl⟩
      · cases h
    next =>
      obtain ⟨rfl, rfl⟩ := Prod.mk.inj (Option.some.inj h)
      exact ⟨.missing, rfl⟩
  · obtain ⟨rfl, rfl⟩ := Prod.mk.inj (Option.some.inj h)
    exact ⟨.missing, rfl⟩

/-- Whether what follows cannot go on with a number or a word: a blank, a separator, the end
of a container or of the text. -/
def Ends (rest : List Char) : Prop :=
  ∀ c ∈ rest.head?, c ∈ [' ', '\t', '\n', '\r', ',', ':', ']', '\x7d']

theorem Ends.head (h : Ends rest) : ∀ c ∈ rest.head?,
    c.isDigit = false ∧ c.isLower = false ∧ c ≠ '.' ∧ c ≠ 'e' ∧ c ≠ 'E' := by
  have hall : [' ', '\t', '\n', '\r', ',', ':', ']', '\x7d'].all (fun c =>
      decide (c.isDigit = false ∧ c.isLower = false ∧ c ≠ '.' ∧ c ≠ 'e' ∧ c ≠ 'E')) = true := by
    decide
  exact fun c hc => of_decide_eq_true (List.all_eq_true.mp hall c (h c hc))

/-- The parts of a number end where the next one begins. -/
theorem IsExponent.head (h : IsExponent part) (hrest : Ends rest) :
    ∀ c ∈ (part ++ rest).head?, c.isDigit = false ∧ c ≠ '.' := by
  cases h with
  | missing => exact fun c hc => ⟨(hrest.head c hc).1, (hrest.head c hc).2.2.1⟩
  | digits he hsign h =>
      intro c hc
      obtain rfl := Option.some.inj hc
      rcases he with rfl | rfl
      · decide
      · decide

/-- A fraction, be it empty, puts no digit behind the whole part. -/
theorem IsFraction.head {more : List Char} (h : IsFraction part)
    (hmore : ∀ c ∈ more.head?, c.isDigit = false) :
    ∀ c ∈ (part ++ more).head?, c.isDigit = false := by
  cases h with
  | missing => exact hmore
  | digits h =>
      intro c hc
      obtain rfl := Option.some.inj hc
      decide

theorem IsWhole.exists_cons (h : IsWhole part) :
    ∃ c more, part = c :: more ∧ c.isDigit = true := by
  cases h with
  | zero => exact ⟨'0', [], rfl, by decide⟩
  | digits h hhead => exact h.exists_cons

/-- **Numbers are read.**  The reader takes a whole number where nothing follows that could
go on with it. -/
theorem number?_append (h : IsNumber literal) (hrest : Ends rest) :
    number? (literal ++ rest) = some (literal, rest) := by
  cases h with
  | @mk sign whole fraction exponent hsign hwhole hfraction hexponent =>
      have hminus : ∀ c ∈ sign, decide (c = '-') = true := by
        rcases hsign with rfl | rfl
        · simp
        · simp
      have hshort : ¬ 1 < sign.length := by
        rcases hsign with rfl | rfl
        · simp
        · simp
      have hafter := hexponent.head hrest
      have hnext : ∀ c ∈ (whole ++ (fraction ++ (exponent ++ rest))).head?,
          decide (c = '-') = false := by
        obtain ⟨c, more, rfl, hc⟩ := hwhole.exists_cons
        intro d hd
        obtain rfl := Option.some.inj hd
        rw [decide_eq_false_iff_not]
        rintro rfl
        exact absurd hc (by decide)
      obtain ⟨htake, hdrop⟩ := run_eq hminus hnext
      unfold number?
      simp only [List.append_assoc, htake, hdrop]
      rw [wholePart?_append hwhole (hfraction.head fun c hc => (hafter c hc).1)]
      simp only [Option.bind_eq_bind, Option.bind_some]
      rw [fraction?_append hfraction hafter]
      simp only [Option.bind_some]
      rw [exponent?_append hexponent fun c hc =>
        ⟨(hrest.head c hc).1, (hrest.head c hc).2.2.2⟩]
      simp [hshort]

/-- What the reader takes for a number is one. -/
theorem isNumber_of_number? (h : number? cs = some (literal, rest)) :
    IsNumber literal ∧ cs = literal ++ rest := by
  unfold number? at h
  simp only [Option.bind_eq_bind, Option.bind_eq_some_iff] at h
  obtain ⟨⟨whole, afterWhole⟩, hwhole, ⟨fraction, afterFraction⟩, hfraction,
    ⟨exponent, afterExponent⟩, hexponent, h⟩ := h
  have hsplit := List.takeWhile_append_dropWhile (p := fun c => decide (c = '-')) (l := cs)
  obtain ⟨isWhole, hdrop⟩ := isWhole_of_wholePart? hwhole
  obtain ⟨isFraction, rfl⟩ := isFraction_of_fraction? hfraction
  obtain ⟨isExponent, rfl⟩ := isExponent_of_exponent? hexponent
  split at h
  · cases h
  next hshort =>
    obtain ⟨rfl, rfl⟩ := Prod.mk.inj (Option.some.inj h)
    have hsign : cs.takeWhile (fun c => decide (c = '-')) = [] ∨
        cs.takeWhile (fun c => decide (c = '-')) = ['-'] := by
      cases hminus : cs.takeWhile (fun c => decide (c = '-')) with
      | nil => exact .inl rfl
      | cons c more =>
          rw [hminus, List.length_cons] at hshort
          have hnil : more = [] := List.eq_nil_of_length_eq_zero (by omega)
          have hc : c ∈ cs.takeWhile fun c => decide (c = '-') := by simp [hminus]
          obtain rfl : c = '-' := by simpa using of_mem_takeWhile hc
          rw [hnil]
          exact .inr rfl
    have hnumber := IsNumber.mk hsign isWhole isFraction isExponent
    simp only [List.append_assoc] at hnumber ⊢
    refine ⟨hnumber, ?_⟩
    rw [← hdrop, hsplit]

end Numbers

section Tokens

variable {c : Char} {cs lexeme rest : List Char} {t : JsonToken} {v : JsonValue}

/-- The characters of a token. -/
inductive Lexeme : JsonToken → List Char → Prop
  | openBracket : Lexeme .openBracket ['[']
  | closeBracket : Lexeme .closeBracket [']']
  | openBrace : Lexeme .openBrace ['\x7b']
  | closeBrace : Lexeme .closeBrace ['\x7d']
  | colon : Lexeme .colon [':']
  | comma : Lexeme .comma [',']
  | scalar {v : JsonValue} {cs : List Char} (h : ScalarText v cs) : Lexeme (.scalar v) cs

/-- A sign or a digit begins a number. -/
theorem token?_number (h : c = '-' ∨ c.isDigit = true) (cs : List Char) :
    token? c cs = (number? (c :: cs)).map fun p =>
      (.scalar (.number (String.ofList p.1)), p.2) := by
  have hnot : ∀ d ∈ ['[', ']', '\x7b', '\x7d', ':', ',', '"'], c ≠ d := by
    intro d hd heq
    have hall : ['[', ']', '\x7b', '\x7d', ':', ',', '"'].all (fun d =>
        decide ¬(d = '-' ∨ d.isDigit = true)) = true := by decide
    exact of_decide_eq_true (List.all_eq_true.mp hall d hd) (heq ▸ h)
  simp only [List.forall_mem_cons] at hnot
  obtain ⟨h1, h2, h3, h4, h5, h6, h7, -⟩ := hnot
  rw [token?, if_neg h1, if_neg h2, if_neg h3, if_neg h4, if_neg h5, if_neg h6, if_neg h7,
    if_pos h]

/-- A letter begins one of the three words, which ends where no letter follows. -/
theorem token?_word (hc : c.isLower = true) {word : List Char}
    (hlower : word.all Char.isLower = true) (hword : word? (c :: word) = some v)
    (hrest : Ends rest) : token? c (word ++ rest) = some (.scalar v, rest) := by
  have hnot : ∀ d ∈ ['[', ']', '\x7b', '\x7d', ':', ',', '"', '-'], c ≠ d := by
    intro d hd heq
    have hall : ['[', ']', '\x7b', '\x7d', ':', ',', '"', '-'].all (fun d =>
        decide ¬d.isLower = true) = true := by decide
    exact of_decide_eq_true (List.all_eq_true.mp hall d hd) (heq ▸ hc)
  have hdigit : c.isDigit = false := by
    have hlow : (decide ('a'.val ≤ c.val) && decide (c.val ≤ 'z'.val)) = true := hc
    simp only [Char.isDigit, Bool.and_eq_true, decide_eq_true_eq, ge_iff_le,
      UInt32.le_iff_toNat_le, Bool.and_eq_false_iff, decide_eq_false_iff_not] at hlow ⊢
    have h9 : ('9'.val).toNat < ('a'.val).toNat := by decide
    omega
  simp only [List.forall_mem_cons] at hnot
  obtain ⟨h1, h2, h3, h4, h5, h6, h7, h8, -⟩ := hnot
  obtain ⟨htake, hdrop⟩ := run_eq (List.all_eq_true.mp hlower) fun d hd => (hrest.head d hd).2.1
  rw [token?, if_neg h1, if_neg h2, if_neg h3, if_neg h4, if_neg h5, if_neg h6, if_neg h7,
    if_neg (by simp [h8, hdigit]), htake, hdrop, hword]
  rfl

/-- **Scalars are read.**  The reader takes a whole scalar where nothing follows that could
go on with it. -/
theorem token?_scalar (h : ScalarText v cs) (hrest : Ends rest) :
    ∃ c more, cs = c :: more ∧ isSpace c = false ∧
      token? c (more ++ rest) = some (.scalar v, rest) := by
  cases h with
  | null => exact ⟨_, _, rfl, by decide, token?_word (by decide) (by decide) rfl hrest⟩
  | true => exact ⟨_, _, rfl, by decide, token?_word (by decide) (by decide) rfl hrest⟩
  | false => exact ⟨_, _, rfl, by decide, token?_word (by decide) (by decide) rfl hrest⟩
  | number h =>
      have hread := number?_append h hrest
      have hfirst : ∃ c more, cs = c :: more ∧ (c = '-' ∨ c.isDigit = true) := by
        cases h with
        | mk hsign hwhole hfraction hexponent =>
            rcases hsign with rfl | rfl
            · obtain ⟨c, more, rfl, hc⟩ := hwhole.exists_cons
              exact ⟨_, _, rfl, .inr hc⟩
            · exact ⟨_, _, rfl, .inl rfl⟩
      obtain ⟨c, more, rfl, hc⟩ := hfirst
      refine ⟨c, more, rfl, ?_, ?_⟩
      · rw [Bool.eq_false_iff]
        intro hspace
        have hblank : c = ' ' ∨ c = '\t' ∨ c = '\n' ∨ c = '\r' := by
          simpa [isSpace, or_assoc] using hspace
        rcases hblank with rfl | rfl | rfl | rfl <;> exact absurd hc (by decide)
      · rw [token?_number hc, ← List.cons_append, hread]
        rfl
  | @string body units h =>
      refine ⟨'"', body ++ ['"'], rfl, by decide, ?_⟩
      have hread : stringTail (some []) none (body ++ '"' :: rest) =
          some (textOf? units, rest) := stringTail_eq_some_iff.mpr ⟨body, units, h, rfl, rfl⟩
      have htoken : ∀ cs, token? '"' cs =
          (stringTail (some []) none cs).map fun p => (.scalar (.string p.1), p.2) :=
        fun cs => rfl
      rw [htoken, List.append_assoc, List.singleton_append, hread]
      rfl

/-- A word that is read spells its value. -/
theorem word?_eq_some (h : word? cs = some v) : ScalarText v cs := by
  unfold word? at h
  split at h
  next heq =>
    obtain rfl := Option.some.inj h
    exact heq ▸ .true
  split at h
  next heq =>
    obtain rfl := Option.some.inj h
    exact heq ▸ .false
  split at h
  next heq =>
    obtain rfl := Option.some.inj h
    exact heq ▸ .null
  · cases h

/-- What the reader takes for a token is one. -/
theorem exists_lexeme_of_token? (h : token? c cs = some (t, rest)) :
    ∃ lexeme, Lexeme t lexeme ∧ c :: cs = lexeme ++ rest := by
  have hmark : ∀ {d : Char} {mark : JsonToken}, Lexeme mark [d] → c = d →
      some (mark, cs) = some (t, rest) → ∃ lexeme, Lexeme t lexeme ∧ c :: cs = lexeme ++ rest := by
    intro d mark hmark hc heq
    obtain ⟨rfl, rfl⟩ := Prod.mk.inj (Option.some.inj heq)
    exact ⟨[d], hmark, by rw [hc]; rfl⟩
  unfold token? at h
  split at h
  next hc => exact hmark .openBracket hc h
  split at h
  next hc => exact hmark .closeBracket hc h
  split at h
  next hc => exact hmark .openBrace hc h
  split at h
  next hc => exact hmark .closeBrace hc h
  split at h
  next hc => exact hmark .colon hc h
  split at h
  next hc => exact hmark .comma hc h
  split at h
  next hc =>
    obtain ⟨⟨found, after⟩, hstring, heq⟩ := Option.map_eq_some_iff.mp h
    obtain ⟨rfl, rfl⟩ := Prod.mk.inj heq
    obtain ⟨body, units, hbody, rfl, rfl⟩ := stringTail_eq_some_iff.mp hstring
    exact ⟨_, .scalar (.string hbody), by rw [hc]; simp⟩
  split at h
  next =>
    obtain ⟨⟨literal, after⟩, hnumber, heq⟩ := Option.map_eq_some_iff.mp h
    obtain ⟨rfl, rfl⟩ := Prod.mk.inj heq
    obtain ⟨isNumber, hsplit⟩ := isNumber_of_number? hnumber
    exact ⟨_, .scalar (.number isNumber), hsplit⟩
  next =>
    obtain ⟨word, hword, heq⟩ := Option.map_eq_some_iff.mp h
    obtain ⟨rfl, rfl⟩ := Prod.mk.inj heq
    refine ⟨_, .scalar (word?_eq_some hword), ?_⟩
    rw [List.cons_append, List.takeWhile_append_dropWhile]

end Tokens

end JsonValue

end DeclLint
