import DeclLint.Proofs.Text.Position
import DeclLint.Proofs.Text.Span
import Mathlib.Data.List.Induction

/-!
# Two line endings

A line may end in a line break alone or in a carriage return and a line break.  A
text that uses the first is turned into one that uses the second by putting a carriage
return before every line break (`crlf`).  What holds no line break stays, so only bytes
and offsets differ; lines and columns do not.

* `takeWhile_crlf`, `dropWhile_crlf`, `isPrefixOf_crlf` — what is looked for at the
  start of a text is found in both;
* `lineBreaks_crlf`, `lastLine_crlf` — a place has the same line and column in both;
* `crlfOffset`, `Occupies.moved` — where a byte and a span of the one are in the other.
-/

namespace DeclLint

/-- The characters with a carriage return before every line break. -/
def crlf (cs : List Char) : List Char :=
  cs.flatMap fun c => if c = '\n' then ['\r', '\n'] else [c]

/-- A text with a carriage return before every line break. -/
def withCrlf (source : String) : String := String.ofList (crlf source.toList)

@[simp] theorem crlf_nil : crlf [] = [] := rfl

@[simp] theorem crlf_lineBreak (cs : List Char) : crlf ('\n' :: cs) = '\r' :: '\n' :: crlf cs := rfl

@[simp] theorem crlf_cons_of_ne {c : Char} (hc : c ≠ '\n') (cs : List Char) :
    crlf (c :: cs) = c :: crlf cs := by
  simp [crlf, hc]

@[simp] theorem crlf_append (xs ys : List Char) : crlf (xs ++ ys) = crlf xs ++ crlf ys :=
  List.flatMap_append

@[simp] theorem toList_withCrlf (source : String) :
    (withCrlf source).toList = crlf source.toList :=
  String.toList_ofList

/-- Characters without line break stay. -/
theorem crlf_of_not_mem {cs : List Char} (h : '\n' ∉ cs) : crlf cs = cs := by
  induction cs with
  | nil => rfl
  | cons c cs ih =>
      obtain ⟨hc, hcs⟩ := List.ne_and_not_mem_of_not_mem_cons h
      rw [crlf_cons_of_ne hc.symm, ih hcs]

/-- Line breaks are where they were among the other characters. -/
theorem mem_crlf_iff {cs : List Char} {d : Char} (hd : d ≠ '\r') : d ∈ crlf cs ↔ d ∈ cs := by
  induction cs with
  | nil => simp
  | cons c cs ih =>
      by_cases hc : c = '\n'
      · simp [hc, hd, ih]
      · simp [hc, ih]

/-- Whether a text begins with a character other than these two. -/
theorem head?_crlf_eq_iff {cs : List Char} {d : Char} (hbreak : d ≠ '\n') (hreturn : d ≠ '\r') :
    (crlf cs).head? = some d ↔ cs.head? = some d := by
  cases cs with
  | nil => simp
  | cons c cs =>
      by_cases hc : c = '\n'
      · simp [hc, hbreak.symm, hreturn.symm]
      · simp [hc]

/-- What begins with a character other than these two began with it. -/
theorem eq_cons_of_crlf {cs rest : List Char} {d : Char} (hbreak : d ≠ '\n') (hreturn : d ≠ '\r')
    (h : crlf cs = d :: rest) : ∃ more, cs = d :: more ∧ crlf more = rest := by
  cases cs with
  | nil => simp at h
  | cons c cs =>
      by_cases hc : c = '\n'
      · simp [hc, hreturn.symm] at h
      · obtain ⟨rfl, hrest⟩ : c = d ∧ crlf cs = rest := by simpa [hc] using h
        exact ⟨cs, rfl, hrest⟩

/-- The last character stays. -/
theorem getLast?_crlf (cs : List Char) : (crlf cs).getLast? = cs.getLast? := by
  induction cs using List.reverseRecOn with
  | nil => rfl
  | append_singleton cs c _ =>
      by_cases hc : c = '\n'
      · simp [hc]
      · simp [hc]

section Leading

variable {q : Char → Bool}

/-- Leading characters that are of neither line ending. -/
theorem takeWhile_crlf (hbreak : q '\n' = false) (hreturn : q '\r' = false) (cs : List Char) :
    (crlf cs).takeWhile q = cs.takeWhile q := by
  induction cs with
  | nil => rfl
  | cons c cs ih =>
      by_cases hc : c = '\n'
      · simp [hc, hbreak, hreturn]
      · simp [hc, List.takeWhile_cons, ih]

/-- What follows leading characters that are of neither line ending. -/
theorem dropWhile_crlf (hbreak : q '\n' = false) (hreturn : q '\r' = false) (cs : List Char) :
    (crlf cs).dropWhile q = crlf (cs.dropWhile q) := by
  induction cs with
  | nil => rfl
  | cons c cs ih =>
      by_cases hc : c = '\n'
      · simp [hc, hbreak, hreturn]
      · by_cases hq : q c = true
        · simp [hc, hq, ih]
        · simp [hc, hq]

end Leading

/-- Whether a text begins with a word of other characters. -/
theorem isPrefixOf_crlf {word cs : List Char} (hbreak : '\n' ∉ word) (hreturn : '\r' ∉ word) :
    word.isPrefixOf (crlf cs) = word.isPrefixOf cs := by
  induction word generalizing cs with
  | nil => simp
  | cons d word ih =>
      obtain ⟨hdbreak, hbreaks⟩ := List.ne_and_not_mem_of_not_mem_cons hbreak
      obtain ⟨hdreturn, hreturns⟩ := List.ne_and_not_mem_of_not_mem_cons hreturn
      cases cs with
      | nil => rfl
      | cons c cs =>
          have hneither : (d == '\n') = false ∧ (d == '\r') = false :=
            ⟨beq_false_of_ne hdbreak.symm, beq_false_of_ne hdreturn.symm⟩
          by_cases hc : c = '\n'
          · simp only [hc, crlf_lineBreak, List.isPrefixOf, hneither, Bool.false_and]
          · simp [hc, List.isPrefixOf, ih hbreaks hreturns]

/-- A place has the same line in both texts. -/
@[simp] theorem lineBreaks_crlf (cs : List Char) : lineBreaks (crlf cs) = lineBreaks cs := by
  induction cs with
  | nil => rfl
  | cons c cs ih =>
      unfold lineBreaks at ih ⊢
      by_cases hc : c = '\n'
      · simp [hc, ih]
      · simp [hc, ih]

/-- The characters of the last line stay. -/
@[simp] theorem lastLine_crlf (cs : List Char) : lastLine (crlf cs) = lastLine cs := by
  unfold lastLine
  induction cs using List.reverseRecOn with
  | nil => rfl
  | append_singleton cs c ih =>
      by_cases hc : c = '\n'
      · simp [hc]
      · simpa [hc] using ih

/-- Every line break adds one character. -/
theorem length_crlf (cs : List Char) : (crlf cs).length = cs.length + lineBreaks cs := by
  induction cs with
  | nil => rfl
  | cons c cs ih =>
      unfold lineBreaks at ih ⊢
      by_cases hc : c = '\n'
      · simp [hc, ih]
        omega
      · simp [hc, ih]
        omega

/-- Every line break adds one byte. -/
theorem utf8Size_crlf (cs : List Char) : utf8Size (crlf cs) = utf8Size cs + lineBreaks cs := by
  have hreturn : '\r'.utf8Size = 1 := rfl
  induction cs with
  | nil => rfl
  | cons c cs ih =>
      unfold lineBreaks at ih ⊢
      by_cases hc : c = '\n'
      · simp [hc, ih, hreturn]
        omega
      · simp [hc, ih]
        omega

theorem utf8Size_le_crlf (cs : List Char) : utf8Size cs ≤ utf8Size (crlf cs) := by
  rw [utf8Size_crlf]
  exact Nat.le_add_right _ _

/-- The position behind some characters is the same in both texts. -/
theorem LinePosition.behind_crlf (front : List Char) :
    LinePosition.behind (crlf front) = LinePosition.behind front := by
  simp [LinePosition.behind]

/-- Where a byte of a text is once carriage returns stand before its line breaks. -/
def crlfOffset (source : List Char) (offset : Nat) : Nat :=
  utf8Size (crlf (Text.before ⟨source⟩ ⟨offset, 0⟩))

/-- The byte behind some leading characters is behind the same characters. -/
theorem crlfOffset_of_append {source front back : List Char} (h : source = front ++ back) :
    crlfOffset source (utf8Size front) = utf8Size (crlf front) := by
  rw [crlfOffset, Text.before_of_append h rfl]

section Spans

variable {source mid : List Char} {start stop : Nat}

/-- A span that is taken up by some characters is moved to the span that they take up with
carriage returns. -/
theorem Occupies.moved_between (h : Occupies source (.between start stop) mid) (hne : mid ≠ []) :
    ∃ front back, source = front ++ mid ++ back ∧
      ByteRange.between start stop = ⟨utf8Size front, utf8Size mid⟩ ∧
      ByteRange.between (crlfOffset source start) (crlfOffset source stop) =
        ⟨utf8Size (crlf front), utf8Size (crlf mid)⟩ := by
  obtain ⟨front, back, hsource, hrange⟩ := h
  obtain ⟨rfl, hlength⟩ : start = utf8Size front ∧ stop - start = utf8Size mid := by
    simpa [ByteRange.between] using hrange
  have hpos : utf8Size mid ≠ 0 := fun hzero => hne (utf8Size_eq_zero_iff.mp hzero)
  obtain rfl : stop = utf8Size (front ++ mid) := by
    rw [utf8Size_append]
    omega
  refine ⟨front, back, hsource, hrange, ?_⟩
  rw [crlfOffset_of_append hsource, crlfOffset_of_append (hsource.trans (List.append_assoc _ _ _)),
    crlf_append, utf8Size_append, ByteRange.between, Nat.add_sub_cancel_left]

theorem Occupies.moved (h : Occupies source (.between start stop) mid) (hne : mid ≠ []) :
    Occupies (crlf source)
      (.between (crlfOffset source start) (crlfOffset source stop)) (crlf mid) := by
  obtain ⟨front, back, rfl, -, hrange⟩ := h.moved_between hne
  exact ⟨crlf front, crlf back, by simp, hrange⟩

/-- What is before such a span. -/
theorem Occupies.before_crlf (h : Occupies source (.between start stop) mid) (hne : mid ≠ []) :
    Text.before ⟨crlf source⟩
        (.between (crlfOffset source start) (crlfOffset source stop)) =
      crlf (Text.before ⟨source⟩ (.between start stop)) := by
  obtain ⟨front, back, hsource, hrange, hrange'⟩ := h.moved_between hne
  have hsplit : source = front ++ (mid ++ back) := hsource.trans (List.append_assoc _ _ _)
  have hsplit' : crlf source = crlf front ++ crlf (mid ++ back) := by
    rw [← crlf_append, ← hsplit]
  rw [@Text.before_of_append ⟨source⟩ _ _ _ hsplit (by rw [hrange]),
    @Text.before_of_append ⟨crlf source⟩ _ _ _ hsplit' (by rw [hrange'])]

end Spans

end DeclLint
