import DeclLint.Proofs.Checked.Scanner
import DeclLint.Proofs.Source.Bracket

/-!
# Places among tokens

An index into the tokens of a text stands for a place among them: the tokens before it, turned
round, and those behind it.  All that the scanner asks of its neighbourhood from an index is
asked here of the two lists, and the answers are the same.  What it takes from the text is the
text of a word and the bytes around a mark, and a mark is a single byte with white space or
characters of other kinds around it (`Layout`); so every access is in range, and every cut is
made between two characters.

* `Scanner.Layout` — what the scanner relies on;
* `Scanner.here`, `Scanner.pass` — the token at a place, and the place behind it;
* `Scanner.text_eq` — the text of a word;
* `Scanner.skipGroup_eq`, `Scanner.skipAttribute_eq` — what is passed in one go;
* `Scanner.findBodyOpen_eq`, `Scanner.variableContinues_eq` — headers and variables.
-/

namespace DeclLint

namespace Scanner

open Checked

/-- What the scanner relies on: its tokens stand in the text, one behind the other, and every
mark between its neighbours. -/
structure Layout (source : String) (all : List Token) : Prop where
  stands : ∀ t ∈ all, t.StandsIn source.toList
  apart : all.Pairwise fun a b => a.stop ≤ b.start
  marks : ∀ t ∈ all, ∀ c, t.mark? = some c → ∃ front back, t.MarksIn source.toList c front back

theorem Layout.of_cut {source : String} {pieces : List Piece} (h : cut source.toList = .ok pieces) :
    Layout source (Token.ofPieces pieces) :=
  ⟨fun _ => Token.standsIn_of_mem h, Token.pairwise_ofPieces h,
    fun _ ht _ => Token.marksIn_of_mem h ht⟩

theorem Layout.ascii {source : String} {all : List Token} (h : Layout source all) {t : Token}
    (ht : t ∈ all) {c : Char} (hc : t.mark? = some c) : c.toNat < 0x80 := by
  obtain ⟨front, back, hmarks⟩ := h.marks t ht c hc
  exact toNat_lt_of_isWordChar hmarks.outside

/-- One byte tells which of some marks a token is, since all of them are ASCII. -/
theorem isPunctOf_raw {t : Token} {marks : List Char} (ht : ∀ c, t.mark? = some c → c.toNat < 0x80)
    (hmarks : allAscii marks = true) : t.raw.isPunctOf marks = t.isMarkOf marks := by
  have hmark : ∀ c, t.mark? = some c →
      (marks.map Char.toUInt8).contains c.toUInt8 = marks.contains c :=
    fun c hc => judges_contains hmarks c c.toUInt8 <| by
      rw [utf8EncodeChar_of_lt (ht c hc)]
      exact List.mem_singleton_self _
  unfold RawToken.isPunctOf Token.isMarkOf Token.raw
  unfold Token.mark? at hmark ⊢
  cases hlexeme : t.lexeme with
  | mark c => exact hmark c (by rw [hlexeme])
  | assign => exact hmark '=' (by rw [hlexeme])
  | query => exact hmark '?' (by rw [hlexeme])
  | _ => rfl

theorem isNewline_raw (t : Token) : t.raw.isNewline = t.isLineBreak := by
  unfold RawToken.isNewline Token.isLineBreak Token.raw
  cases t.lexeme <;> rfl

theorem isWord_raw (t : Token) : (t.raw.kind == .word) = t.isWord := by
  unfold Token.isWord Token.word? Token.raw
  cases t.lexeme <;> rfl

variable {source : String} {all past rest ts : List Token} {t : Token} {n : Nat}

/-- The token behind those passed. -/
theorem here (h : all = past.reverse ++ t :: ts) : all[past.length]? = some t := by
  rw [h, ← List.length_reverse, List.getElem?_append_right (Nat.le_refl _), Nat.sub_self]
  rfl

theorem pass (h : all = past.reverse ++ t :: ts) : all = (t :: past).reverse ++ ts := by
  rw [h, List.reverse_cons, List.append_assoc]
  rfl

theorem unpass (h : all = (t :: past).reverse ++ ts) : all = past.reverse ++ t :: ts := by
  rw [h, List.reverse_cons, List.append_assoc]
  rfl

/-- At the end there is no token. -/
theorem length_of_nil (h : all = past.reverse ++ []) :
    (all.map Token.raw).length = past.length := by
  rw [h, List.append_nil, List.length_map, List.length_reverse]

theorem not_lt_length (h : all = past.reverse ++ []) :
    ¬ past.length < (all.map Token.raw).length := by
  rw [length_of_nil h]
  exact Nat.lt_irrefl _

theorem lt_length (h : all[n]? = some t) : n < (all.map Token.raw).length := by
  rw [List.length_map]
  exact (List.getElem?_eq_some_iff.mp h).1

theorem get_raw {ε : Type} (h : all[n]? = some t) :
    (get (all.map Token.raw) n : Checked ε RawToken) = .ok t.raw :=
  get_eq (by rw [List.getElem?_map, h]; rfl)

theorem isWord_eq (h : all[n]? = some t) : isWord (all.map Token.raw) n = t.isWord := by
  rw [isWord, List.getElem?_map, h]
  exact isWord_raw t

theorem isWordOf_eq_false {words : List String} (h : t.isWord = false) :
    t.isWordOf words = false := by
  rw [Bool.eq_false_iff]
  intro hof
  obtain ⟨word, -, hlexeme⟩ := Token.isWordOf_eq_true_iff.mp hof
  exact Bool.eq_false_iff.mp h (Token.isWord_eq_true_iff.mpr ⟨word, hlexeme⟩)

/-- What is at the place of a cursor. -/
theorem getElem?_here (h : all = past.reverse ++ rest) : all[past.length]? = rest.head? := by
  cases rest with
  | nil => rw [h]; simp
  | cons t ts => exact here h

open Outline (significant significant?)

/-- **Looking back.**  What goes on with the last token that separates no lines depends on it
and on what is before it. -/
theorem prevSignificant_bind {β : Type} {f : Option Nat → Checked ParseError β}
    {g : List Token → β} (h : all = past.reverse ++ rest) (hnil : f none = .ok (g []))
    (hcons : ∀ (t : Token) (earlier later : List Token), all = earlier.reverse ++ t :: later →
      f (some earlier.length) = .ok (g (t :: earlier))) :
    (prevSignificant (all.map Token.raw) past.length >>= f) = .ok (g (significant past)) := by
  induction past generalizing rest with
  | nil => exact hnil
  | cons t past ih =>
      have hback := unpass h
      rw [List.length_cons, prevSignificant, get_raw (here hback), ok_bind, isNewline_raw]
      cases hbreak : t.isLineBreak with
      | true =>
          have hskip : significant (t :: past) = significant past :=
            List.dropWhile_cons_of_pos hbreak
          rw [hskip, if_pos rfl]
          exact ih hback
      | false =>
          have hstop : significant (t :: past) = t :: past :=
            List.dropWhile_cons_of_neg (by rw [hbreak]; decide)
          rw [hstop]
          exact hcons t past rest hback

/-- **Looking ahead.**  What goes on with the next token that separates no lines depends on it
and on what is behind it. -/
theorem nextSignificant_bind {β : Type} {f : Option Nat → Checked ParseError β}
    {g : List Token → β} (h : all = past.reverse ++ rest) (hnil : f none = .ok (g []))
    (hcons : ∀ (t : Token) (earlier later : List Token), all = earlier.reverse ++ t :: later →
      f (some earlier.length) = .ok (g (t :: later))) :
    (nextSignificant (all.map Token.raw) past.length >>= f) = .ok (g (significant rest)) := by
  induction rest generalizing past with
  | nil =>
      rw [nextSignificant, dif_neg (not_lt_length h)]
      exact hnil
  | cons t ts ih =>
      rw [nextSignificant, dif_pos (lt_length (here h)), get_raw (here h), ok_bind, isNewline_raw]
      cases hbreak : t.isLineBreak with
      | true =>
          have hskip : significant (t :: ts) = significant ts :=
            List.dropWhile_cons_of_pos hbreak
          rw [hskip, if_pos rfl]
          exact ih (pass h)
      | false =>
          have hstop : significant (t :: ts) = t :: ts :=
            List.dropWhile_cons_of_neg (by rw [hbreak]; decide)
          rw [hstop]
          exact hcons t past ts h

/-- **Line breaks.**  Whether something goes on after a line break depends on the tokens around
it: on the last one that separates no lines, or else on the next one. -/
theorem continues_eq {ends begins : Option Nat → Checked ParseError Bool} {f g : List Token → Bool}
    (h : all = past.reverse ++ t :: ts) (hbreak : t.isLineBreak = true)
    (hends_nil : ends none = .ok (f []))
    (hends : ∀ (u : Token) (earlier later : List Token), all = earlier.reverse ++ u :: later →
      ends (some earlier.length) = .ok (f (u :: earlier)))
    (hbegins_nil : begins none = .ok (g []))
    (hbegins : ∀ (u : Token) (earlier later : List Token), all = earlier.reverse ++ u :: later →
      begins (some earlier.length) = .ok (g (u :: later))) :
    (do
      let last ← prevSignificant (all.map Token.raw) past.length
      let before ← ends last
      let next ← nextSignificant (all.map Token.raw) past.length
      let after ← begins next
      pure (before || after)) = .ok (f (significant past) || g (significant ts)) := by
  have hskip : significant (t :: ts) = significant ts := List.dropWhile_cons_of_pos hbreak
  have hafter : ∀ b, (do
      let next ← nextSignificant (all.map Token.raw) past.length
      let after ← begins next
      pure (b || after)) = .ok (b || g (significant ts)) := by
    intro b
    rw [← hskip]
    refine nextSignificant_bind (g := fun us => b || g us) h ?_ fun u earlier later hplace => ?_
    · rw [hbegins_nil]
      rfl
    · rw [hbegins u earlier later hplace]
      rfl
  refine prevSignificant_bind (g := fun us => f us || g (significant ts)) h ?_
    fun u earlier later hplace => ?_
  · rw [hends_nil]
    exact hafter _
  · rw [hends u earlier later hplace]
    exact hafter _

/-- The byte before a place is the last one of what comes before it. -/
theorem byteBefore_eq {front back : List Char} :
    byteBefore (utf8Bytes (front ++ back)) (utf8Size front) = .ok (utf8Bytes front).getLast? := by
  rw [byteBefore, ← length_utf8Bytes, utf8Bytes_append]
  generalize utf8Bytes front = bytes
  by_cases hempty : bytes.length = 0
  · rw [if_pos hempty, List.length_eq_zero_iff.mp hempty]
    rfl
  · have hlt : bytes.length - 1 < bytes.length := by omega
    have hget : (bytes ++ utf8Bytes back)[bytes.length - 1]? = some bytes[bytes.length - 1] := by
      rw [List.getElem?_append_left hlt, List.getElem?_eq_getElem hlt]
    rw [if_neg hempty, get_eq hget, ok_bind, List.getLast?_eq_getElem?,
      List.getElem?_eq_getElem hlt]
    rfl

theorem lexemeOfMark_beq_assign (before after : Option Char) :
    (Token.lexemeOfMark before '=' after == .assign) =
      (!before.any Token.comparisonStarts.contains && !(after == some '=')) := by
  by_cases hbefore : before.any Token.comparisonStarts.contains = true <;>
    by_cases hafter : after = some '=' <;>
      simp [Token.lexemeOfMark, hbefore, hafter]

theorem lexemeOfMark_beq_query (before after : Option Char) :
    (Token.lexemeOfMark before '?' after == .query) = before.any [' ', '\t', '?'].contains := by
  by_cases hbefore : before.any [' ', '\t', '?'].contains = true <;>
    simp [Token.lexemeOfMark, hbefore]

/-- The index where a header ends. -/
def headerIndex : Outline.HeaderEnd → Except Nat Nat
  | .body past _ _ => .ok past.length
  | .bare past _ => .error past.length

section

variable (hall : Layout source all)

include hall

/-- A mark is told by its byte. -/
theorem isPunctOf_here {marks : List Char} (hmarks : allAscii marks = true)
    (h : all[n]? = some t) : t.raw.isPunctOf marks = t.isMarkOf marks :=
  isPunctOf_raw (fun _ hc => hall.ascii (List.mem_of_getElem? h) hc) hmarks

theorem isPunct_here {c : Char} (hc : c.toNat < 0x80) (h : all[n]? = some t) :
    t.raw.isPunctOf [c] = t.isMark c := by
  rw [isPunctOf_here hall (allAscii_cons.mpr ⟨hc, rfl⟩) h, Token.isMarkOf_eq_any]
  simp

theorem isPunctOf_eq {marks : List Char} (hmarks : allAscii marks = true)
    (h : all[n]? = some t) : isPunctOf (all.map Token.raw) marks n = t.isMarkOf marks := by
  rw [isPunctOf, List.getElem?_map, h]
  exact isPunctOf_here hall hmarks h

theorem isPunct_eq {c : Char} (hc : c.toNat < 0x80) (h : all[n]? = some t) :
    isPunctOf (all.map Token.raw) [c] n = t.isMark c := by
  rw [isPunctOf, List.getElem?_map, h]
  exact isPunct_here hall hc h

/-- **The text of a word.** -/
theorem text_eq {word : String} (h : all[n]? = some t) (hword : t.lexeme = .word word) :
    text source (all.map Token.raw) n = .ok word := by
  obtain ⟨front, mid, back, hsource, hstands⟩ := hall.stands t (List.mem_of_getElem? h)
  have hspells := hstands.spells
  rw [hword] at hspells
  obtain ⟨rfl, -, -⟩ := hspells
  have hslice := slice_of_append (ε := ParseError) (t := Text.ofString source) hsource
  rw [text, get_raw h, ok_bind, Token.raw, hstands.start_eq, hstands.stop_eq, hslice,
    String.ofList_toList]

theorem isPunct_ahead {c : Char} (hc : c.toNat < 0x80) (h : all = past.reverse ++ rest) :
    isPunctOf (all.map Token.raw) [c] past.length = rest.head?.any (Token.isMark c) := by
  cases rest with
  | nil =>
      rw [isPunctOf, List.getElem?_map, getElem?_here h]
      rfl
  | cons t ts => exact isPunct_eq hall hc (here h)

/-- A group is left at the same token, by its index and in the list. -/
theorem skipGroup_eq (depth : Nat) (h : all = past.reverse ++ rest) :
    skipGroup (all.map Token.raw) depth past.length =
      .ok (Outline.skipGroup depth past rest).past.length := by
  induction rest generalizing depth past with
  | nil =>
      rw [skipGroup, dif_neg (not_lt_length h), length_of_nil h]
      rfl
  | cons t ts ih =>
      rw [skipGroup, dif_pos (lt_length (here h)), get_raw (here h), ok_bind,
        isPunctOf_here hall (by decide) (here h), isPunctOf_here hall (by decide) (here h),
        Outline.skipGroup]
      by_cases hopen : t.isMarkOf ['(', '['] = true
      · rw [if_pos hopen, if_pos hopen]
        exact ih (depth + 1) (pass h)
      rw [if_neg hopen, if_neg hopen]
      by_cases hclose : t.isMarkOf [')', ']'] = true
      · rw [if_pos hclose, if_pos hclose]
        by_cases hdepth : depth ≤ 1
        · rw [if_pos (by omega), if_pos hdepth]
          rfl
        · rw [if_neg (by omega), if_neg hdepth]
          exact ih (depth - 1) (pass h)
      · rw [if_neg hclose, if_neg hclose]
        exact ih depth (pass h)

/-- Arguments end at the index where the cursor stands behind them. -/
theorem skipArguments_eq (h : all = past.reverse ++ rest) :
    skipArguments (all.map Token.raw) past.length =
      .ok (Outline.skipArguments past rest).past.length := by
  rw [skipArguments, isPunct_ahead hall (by decide) h, Outline.skipArguments]
  by_cases hgroup : rest.head?.any (Token.isMark '(') = true
  · rw [if_pos hgroup, if_pos hgroup]
    exact skipGroup_eq hall 0 h
  · rw [if_neg hgroup, if_neg hgroup]
    rfl

/-- So is an attribute, with its name and arguments if it has them. -/
theorem skipAttribute_eq (h : all = past.reverse ++ t :: ts) :
    skipAttribute (all.map Token.raw) past.length =
      .ok (Outline.skipAttribute (t :: past) ts).past.length := by
  have hnext := pass h
  cases ts with
  | nil =>
      have hnone : all[past.length + 1]? = none := getElem?_here hnext
      rw [skipAttribute, isWord, List.getElem?_map, hnone]
      rfl
  | cons word ts =>
      have hword : isWord (all.map Token.raw) (past.length + 1) = word.isWord :=
        isWord_eq (here hnext)
      rw [skipAttribute, hword, Outline.skipAttribute]
      cases word.isWord with
      | true => exact skipArguments_eq hall (pass hnext)
      | false => rfl

/-- Only a word is asked for its text. -/
theorem both_isWord (words : List String) (h : all[n]? = some t) :
    (both (isWord (all.map Token.raw) n) do
        let word ← text source (all.map Token.raw) n
        pure (words.contains word)) = .ok (t.isWordOf words) := by
  rw [isWord_eq h]
  unfold Token.isWord Token.isWordOf Token.word?
  cases hlexeme : t.lexeme with
  | word word =>
      dsimp only
      rw [text_eq hall h hlexeme]
      rfl
  | _ => rfl

theorem nextWordIs_eq (words : List String) (h : all = past.reverse ++ rest) :
    nextWordIs source (all.map Token.raw) past.length words =
      .ok (Outline.nextWordIsOf words rest) :=
  nextSignificant_bind (g := fun ts => ts.head?.any (Token.isWordOf words)) h rfl
    fun _ _ _ hplace => both_isWord hall words (here hplace)

/-- The tokens beside a word, line breaks aside, tell whether it begins a type. -/
theorem startsType_eq (h : all = past.reverse ++ t :: ts) :
    startsType (all.map Token.raw) past.length = .ok (Outline.startsType past ts) := by
  have hafter : ∀ b, (do
      let after ← nextSignificant (all.map Token.raw) (past.length + 1)
      pure (b && after.any (isWord (all.map Token.raw)))) =
        (.ok (b && (significant? ts).any Token.isWord) : Checked ParseError Bool) := by
    intro b
    refine nextSignificant_bind (g := fun ts => b && ts.head?.any Token.isWord) (pass h) rfl ?_
    intro t earlier later hplace
    rw [Option.any_some, isWord_eq (here hplace)]
    rfl
  refine prevSignificant_bind (g := fun ts => !ts.head?.any (Token.isMarkOf ['.', ':', ',']) &&
    (significant? _).any Token.isWord) h (hafter true) ?_
  intro t earlier later hplace
  rw [Option.any_some, isPunctOf_eq hall (by decide) (here hplace)]
  exact hafter _

theorem startsFunction_eq (h : all = past.reverse ++ rest) :
    startsFunction (all.map Token.raw) past.length = .ok (Outline.startsFunction past) := by
  refine prevSignificant_bind (g := fun ts => !ts.head?.any (Token.isMark '.')) h rfl ?_
  intro t earlier later hplace
  rw [Option.any_some, isPunct_eq hall (by decide) (here hplace)]
  rfl

/-- The token before `let` or `var`, line breaks aside, tells whether it binds in a pattern. -/
theorem isBindingPattern_eq (h : all = past.reverse ++ rest) :
    isBindingPattern source (all.map Token.raw) past.length =
      .ok (Outline.isBindingPattern past) := by
  refine (prevSignificant_bind (g := fun us => us.head?.any fun u =>
    u.isWordOf Outline.bindingContexts || u.isMarkOf [',', '(']) h rfl ?_).trans ?_
  case refine_2 =>
    unfold Outline.isBindingPattern significant?
    cases significant past <;> rfl
  intro t earlier later hplace
  dsimp only [List.head?_cons, Option.any_some]
  rw [isWord_eq (here hplace)]
  by_cases hword : t.isWord = true
  · obtain ⟨word, hlexeme⟩ := Token.isWord_eq_true_iff.mp hword
    rw [if_pos hword, text_eq hall (here hplace) hlexeme, ok_bind]
    unfold Token.isWordOf Token.isMarkOf Token.word? Token.mark?
    rw [hlexeme]
    exact congrArg Except.ok (Bool.or_false _).symm
  · rw [if_neg hword, isPunctOf_eq hall (by decide) (here hplace),
      isWordOf_eq_false (Bool.eq_false_iff.mpr hword)]
    rfl

/-- Three tokens make up a setter suffix.  Each of them is looked at only behind the one before
it, so no index leads past the end. -/
theorem skipSetterSuffix_eq (h : all = past.reverse ++ rest) :
    skipSetterSuffix source (all.map Token.raw) past.length =
      .ok ((Outline.setterSuffix? past rest).map fun c => c.past.length) := by
  rw [skipSetterSuffix, isPunct_ahead hall (by decide) h]
  cases rest with
  | nil => rfl
  | cons a rest =>
    have hrest := pass h
    cases rest with
    | nil =>
        have hnone : isWord (all.map Token.raw) (past.length + 1) = false := by
          have hget : all[past.length + 1]? = none := getElem?_here hrest
          rw [isWord, List.getElem?_map, hget]
          rfl
        rw [hnone, Bool.and_false]
        rfl
    | cons b rest =>
        have hword : isWord (all.map Token.raw) (past.length + 1) = b.isWord :=
          isWord_eq (here hrest)
        have hclose : isPunctOf (all.map Token.raw) [')'] (past.length + 2) =
            rest.head?.any (Token.isMark ')') := isPunct_ahead hall (by decide) (pass hrest)
        have hsetter : (both ((a :: b :: rest).head?.any (Token.isMark '(') && b.isWord) do
            let word ← text source (all.map Token.raw) (past.length + 1)
            pure (word == "set" && rest.head?.any (Token.isMark ')'))) =
              .ok (a.isMark '(' && b.isWordOf ["set"] && rest.head?.any (Token.isMark ')')) := by
          by_cases hisWord : b.isWord = true
          · obtain ⟨word, hlexeme⟩ := Token.isWord_eq_true_iff.mp hisWord
            have htext : text source (all.map Token.raw) (past.length + 1) = .ok word :=
              text_eq hall (here hrest) hlexeme
            have hset : b.isWordOf ["set"] = (word == "set") := by
              unfold Token.isWordOf Token.word?
              rw [hlexeme]
              exact Bool.or_false _
            rw [htext, ok_bind, hisWord, hset, Bool.and_true, Bool.and_assoc]
            exact both_eq fun _ => rfl
          · have hfalse := Bool.eq_false_iff.mpr hisWord
            rw [hfalse, isWordOf_eq_false hfalse, Bool.and_false, Bool.and_false, Bool.false_and]
            rfl
        rw [hword, hclose, hsetter, ok_bind]
        cases rest with
        | nil =>
            rw [List.head?_nil, Option.any_none, Bool.and_false]
            rfl
        | cons c ts =>
            rw [List.head?_cons, Option.any_some, Outline.setterSuffix?]
            split <;> rfl

/-- The token before a `>` is looked at only where there is one. -/
theorem isArrowEnd_eq (h : all = past.reverse ++ t :: ts) :
    isArrowEnd (all.map Token.raw) past.length =
      .ok (t.isMark '>' && past.head?.any (Token.isMark '-')) := by
  rw [isArrowEnd, isPunct_eq hall (by decide) (here h)]
  cases past with
  | nil =>
      rw [List.length_nil, List.head?_nil, Option.any_none, Bool.and_false]
      cases t.isMark '>' <;> rfl
  | cons u past =>
      have hback := unpass h
      have hpos : decide (0 < (u :: past).length) = true := decide_eq_true (Nat.succ_pos _)
      rw [hpos, Bool.and_true, List.length_cons, sub_eq (Nat.le_add_left 1 _), ok_bind,
        Nat.add_sub_cancel, isPunct_eq hall (by decide) (here hback)]
      exact both_eq fun _ => rfl

theorem headerEndsOpen_eq (h : all = past.reverse ++ t :: ts) :
    headerEndsOpen (all.map Token.raw) (some past.length) =
      .ok (t.isMarkOf [':', ',', '&'] || (t.isMark '>' && past.head?.any (Token.isMark '-'))) := by
  rw [headerEndsOpen, isPunctOf_eq hall (by decide) (here h), isArrowEnd_eq hall h]
  cases t.isMarkOf [':', ',', '&'] <;> rfl

theorem headerBeginsOpen_eq (h : all[n]? = some t) :
    headerBeginsOpen source (all.map Token.raw) (some n) =
      .ok (t.isMarkOf ['{', ':', ',', '&', '-'] || t.isWordOf Outline.headerContinuers) := by
  rw [headerBeginsOpen, isPunctOf_eq hall (by decide) h, both_isWord hall _ h]
  cases t.isMarkOf ['{', ':', ',', '&', '-'] <;> rfl

/-- **Headers** go on after a line break as they should. -/
theorem headerContinues_eq (h : all = past.reverse ++ t :: ts) (hbreak : t.isLineBreak = true) :
    headerContinues source (all.map Token.raw) past.length =
      .ok (Outline.headerContinues past ts) := by
  refine (continues_eq (f := fun us => us.head?.any fun u =>
      u.isMarkOf [':', ',', '&'] || (u.isMark '>' && us.tail.head?.any (Token.isMark '-')))
    (g := fun us => us.head?.any fun u =>
      u.isMarkOf ['{', ':', ',', '&', '-'] || u.isWordOf Outline.headerContinuers)
    h hbreak rfl ?_ rfl ?_).trans ?_
  · exact fun u earlier later hplace => headerEndsOpen_eq hall hplace
  · exact fun u earlier later hplace => headerBeginsOpen_eq hall (here hplace)
  · unfold Outline.headerContinues significant?
    cases significant past <;> cases significant ts <;> rfl

/-- **Headers.**  A header is passed to the index where it ends. -/
theorem findBodyOpen_eq (depth : Nat) (h : all = past.reverse ++ rest) :
    findBodyOpen source (all.map Token.raw) depth past.length =
      .ok (headerIndex (Outline.passHeader depth past rest)) := by
  induction rest generalizing depth past with
  | nil =>
      rw [findBodyOpen, dif_neg (not_lt_length h), length_of_nil h]
      rfl
  | cons t ts ih =>
      have hplace := here h
      rw [findBodyOpen, dif_pos (lt_length hplace), get_raw hplace, ok_bind,
        isPunct_here hall (by decide) hplace, isPunctOf_here hall (by decide) hplace,
        isPunctOf_here hall (by decide) hplace, isPunct_here hall (by decide) hplace,
        isPunct_here hall (by decide) hplace, isNewline_raw, Outline.passHeader]
      by_cases hbody : (t.isMark '{' && decide (depth = 0)) = true
      · rw [if_pos hbody, if_pos hbody]
        rfl
      rw [if_neg hbody, if_neg hbody]
      by_cases hopen : t.isMarkOf ['(', '[', '{'] = true
      · rw [if_pos hopen, if_pos hopen]
        exact ih (depth + 1) (pass h)
      rw [if_neg hopen, if_neg hopen]
      by_cases hclose : t.isMarkOf [')', ']'] = true
      · rw [if_pos hclose, if_pos hclose]
        exact ih (depth - 1) (pass h)
      rw [if_neg hclose, if_neg hclose]
      by_cases hbrace : t.isMark '}' = true
      · rw [if_pos hbrace, if_pos hbrace]
        by_cases hdepth : depth = 0
        · rw [if_pos hdepth, if_pos hdepth]
          rfl
        · rw [if_neg hdepth, if_neg hdepth, sub_eq (Nat.pos_of_ne_zero hdepth), ok_bind]
          exact ih (depth - 1) (pass h)
      rw [if_neg hbrace, if_neg hbrace]
      by_cases hend : (t.isMark ';' && decide (depth = 0)) = true
      · rw [if_pos hend, if_pos hend]
        rfl
      have hstops : (both (t.isLineBreak && decide (depth = 0)) do
          let continues ← headerContinues source (all.map Token.raw) past.length
          pure !continues) =
            .ok (t.isLineBreak && decide (depth = 0) && !Outline.headerContinues past ts) := by
        refine both_eq fun hbreak => ?_
        rw [headerContinues_eq hall h (Bool.and_eq_true_iff.mp hbreak).1]
        rfl
      rw [if_neg hend, if_neg hend, hstops, ok_bind]
      by_cases hstop : (t.isLineBreak && decide (depth = 0) &&
          !Outline.headerContinues past ts) = true
      · rw [if_pos hstop, if_pos hstop]
        rfl
      · rw [if_neg hstop, if_neg hstop]
        exact ih depth (pass h)

/-- **Assignments.**  An `=` belongs to no comparison if neither byte beside it makes it one. -/
theorem isAssignment_eq (h : all[n]? = some t) (hmark : t.mark? = some '=') :
    isAssignment source (all.map Token.raw) n = .ok (t.lexeme == .assign) := by
  obtain ⟨front, back, hsource, hstart, -, hlexeme⟩ :=
    hall.marks t (List.mem_of_getElem? h) '=' hmark
  have hstarts : allAscii Token.comparisonStarts = true := by decide
  have hbefore := (judges_contains hstarts).any_getLast?_utf8Bytes front
  have hafter : ((utf8Bytes source.toList)[utf8Size front + 1]? == some '='.toUInt8) =
      (back.head? == some '=') := by
    rw [hsource]
    exact ((Ahead.of_append front ('=' :: back)).next_of_lt (by decide)).peek (by decide)
  rw [isAssignment, get_raw h, ok_bind, Token.raw, hstart]
  dsimp only
  rw [hafter, hsource, byteBefore_eq, ok_bind, hbefore, hlexeme, lexemeOfMark_beq_assign]
  rfl

/-- **Ternary marks.**  A `?` is no optional mark if a blank or another `?` is before it. -/
theorem isTernaryMark_eq (h : all[n]? = some t) (hmark : t.mark? = some '?') :
    isTernaryMark source (all.map Token.raw) n = .ok (t.lexeme == .query) := by
  obtain ⟨front, back, hsource, hstart, -, hlexeme⟩ :=
    hall.marks t (List.mem_of_getElem? h) '?' hmark
  have hmarks : allAscii [' ', '\t', '?'] = true := by decide
  have hbefore := (judges_contains hmarks).any_getLast?_utf8Bytes front
  rw [isTernaryMark, get_raw h, ok_bind, Token.raw, hstart]
  dsimp only
  rw [hsource, byteBefore_eq, ok_bind, hbefore, hlexeme, lexemeOfMark_beq_query]
  rfl

/-- The last token of a line tells whether a variable goes on. -/
theorem variableEndsOpen_eq (h : all[n]? = some t) :
    variableEndsOpen source (all.map Token.raw) (some n) =
      .ok (t.lexeme == .query || t.isMarkOf Outline.trailingMarks) := by
  rw [variableEndsOpen, get_raw h, ok_bind, isPunct_here hall (by decide) h,
    isPunctOf_here hall (by decide) h]
  by_cases hmark : t.isMark '?' = true
  · have hquery : t.mark? = some '?' := by simpa [Token.isMark] using hmark
    have htrailing : t.isMarkOf Outline.trailingMarks = false := by
      unfold Token.isMarkOf
      rw [hquery]
      decide
    rw [if_pos hmark, isTernaryMark_eq hall h hquery, htrailing, Bool.or_false]
  · have hquery : (t.lexeme == .query) = false := by
      rw [beq_eq_false_iff_ne]
      intro hlexeme
      exact hmark (by simp [Token.isMark, Token.mark?, hlexeme])
    rw [if_neg hmark, hquery]
    rfl

theorem variableBeginsOpen_eq (assigned : Bool) (h : all[n]? = some t) :
    variableBeginsOpen (all.map Token.raw) assigned (some n) =
      .ok (if t.isMark '{' then !assigned else t.isMarkOf Outline.leadingMarks) := by
  rw [variableBeginsOpen, get_raw h, ok_bind, isPunct_here hall (by decide) h,
    isPunctOf_here hall (by decide) h]
  rfl

/-- **Variables** go on after a line break as they should. -/
theorem variableContinues_eq (assigned : Bool) (h : all = past.reverse ++ t :: ts)
    (hbreak : t.isLineBreak = true) :
    variableContinues source (all.map Token.raw) past.length assigned =
      .ok (Outline.variableContinues assigned past ts) := by
  refine (continues_eq (f := fun us => us.head?.any fun u =>
      u.lexeme == .query || u.isMarkOf Outline.trailingMarks)
    (g := fun us => us.head?.any fun u =>
      if u.isMark '{' then !assigned else u.isMarkOf Outline.leadingMarks)
    h hbreak rfl ?_ rfl ?_).trans ?_
  · exact fun u earlier later hplace => variableEndsOpen_eq hall (here hplace)
  · exact fun u earlier later hplace => variableBeginsOpen_eq hall assigned (here hplace)
  · unfold Outline.variableContinues significant?
    cases significant past <;> cases significant ts <;> rfl

end

/-- Line breaks do not count for where the last token stops. -/
theorem lastStop_cons (t : Token) (past : List Token) :
    Outline.lastStop (t :: past) =
      if t.isLineBreak then Outline.lastStop past else t.stop := by
  unfold Outline.lastStop Outline.significant? Outline.significant
  cases hbreak : t.isLineBreak with
  | true => rw [List.dropWhile_cons_of_pos hbreak, if_pos rfl]
  | false =>
      rw [List.dropWhile_cons_of_neg (by rw [hbreak]; decide), if_neg (by decide)]
      rfl

/-- The offset behind an introduction is the one behind its last token, since the word that
begins it separates no lines. -/
theorem endBefore_eq {following : List Token} {word : Token} (hword : word.isLineBreak = false)
    (h : all = (following ++ word :: past).reverse ++ rest) :
    endBefore (all.map Token.raw) (following ++ word :: past).length past.length =
      .ok (Outline.lastStop (following ++ word :: past)) := by
  have hfloor : all[past.length]? = some word := by
    have hback : all = past.reverse ++ word :: (following.reverse ++ rest) := by
      rw [h]
      simp
    exact here hback
  rw [endBefore, get_raw hfloor, ok_bind]
  induction following generalizing rest with
  | nil =>
      rw [List.nil_append, List.length_cons, prevSignificant, get_raw hfloor, ok_bind,
        isNewline_raw, lastStop_cons, hword, if_neg (by decide), if_neg (by decide)]
      change (if past.length ≤ past.length then _ else _) = _
      rw [if_pos (Nat.le_refl _), get_raw hfloor]
      rfl
  | cons t following ih =>
      have hback : all = (following ++ word :: past).reverse ++ t :: rest := unpass h
      rw [List.cons_append, List.length_cons, prevSignificant, get_raw (here hback), ok_bind,
        isNewline_raw, lastStop_cons]
      cases hbreak : t.isLineBreak with
      | true =>
          rw [if_pos rfl, if_pos rfl]
          exact ih hback
      | false =>
          have hle : past.length ≤ (following ++ word :: past).length := by
            rw [List.length_append, List.length_cons]
            omega
          rw [if_neg (by decide), if_neg (by decide)]
          change (if past.length ≤ (following ++ word :: past).length then _ else _) = _
          rw [if_pos hle, get_raw (here hback)]
          rfl

end Scanner

end DeclLint
