import DeclLint.Proofs.Text.Position
import Mathlib.Data.List.TakeWhile

/-!
# The lines of a text

A text is cut into its lines at every line break.  The position of a character leads to
one of them, and there to the character: its line is told by the line breaks before it,
its column by the characters behind the last of these.

* `LinePosition.behind_before` — later characters have later positions;
* `Text.line?_eq_some_iff`, `Text.exists_line?_iff` — the lines there are;
* `getElem?_splitOn_append` — the line that a place lies on;
* `Text.lines_indexed` — positions and lines together.
-/

namespace DeclLint

/-- Characters without line break, in the form in which lines are read. -/
theorem forall_ne_lineBreak {line : List Char} (h : '\n' ∉ line) :
    ∀ c ∈ line, decide (c ≠ '\n') = true := by
  intro c hc
  simpa using fun heq : c = '\n' => h (heq ▸ hc)

/-- Characters without line break go on with the last line. -/
theorem lastLine_append (front : List Char) {more : List Char} (h : '\n' ∉ more) :
    lastLine (front ++ more) = lastLine front ++ more := by
  have hmore := forall_ne_lineBreak (List.mem_reverse.not.mpr h)
  rw [lastLine, List.reverse_append, List.takeWhile_append_of_pos hmore, List.reverse_append,
    List.reverse_reverse, lastLine]

/-- A line break lies before the last line, or there is none. -/
theorem lastLine_cases (front : List Char) :
    '\n' ∉ lastLine front ∧
      (lastLine front = front ∨ ∃ above, front = above ++ '\n' :: lastLine front) := by
  by_cases hmem : '\n' ∈ front
  · obtain ⟨line, above, hreverse, hline⟩ :=
      List.eq_append_cons_of_mem (List.mem_reverse.mpr hmem)
    have hfront : front = above.reverse ++ ['\n'] ++ line.reverse := by
      rw [List.reverse_eq_iff.mp hreverse]
      simp
    have hlast : lastLine front = line.reverse := by
      rw [hfront, lastLine_append _ (by simpa using hline)]
      simp [lastLine]
    rw [hlast]
    exact ⟨by simpa using hline, .inr ⟨above.reverse, by simpa using hfront⟩⟩
  · have hlast : lastLine front = front := lastLine_append [] hmem
    exact ⟨hlast.symm ▸ hmem, .inl hlast⟩

/-- A line break ends the line before it. -/
theorem lastLine_append_break (above line : List Char) :
    lastLine (above ++ '\n' :: line) = lastLine line := by
  have hall (h : (line.reverse.takeWhile (· ≠ '\n')).length = line.reverse.length) :
      line.reverse.takeWhile (· ≠ '\n') = line.reverse :=
    (List.takeWhile_prefix _).eq_of_length h
  rw [lastLine, List.reverse_append, List.reverse_cons, List.append_assoc,
    List.takeWhile_append]
  split
  next h =>
    rw [lastLine, hall h]
    simp
  next => rfl

theorem length_lastLine_le (front : List Char) : (lastLine front).length ≤ front.length := by
  rcases (lastLine_cases front).2 with hwhole | ⟨above, habove⟩
  · rw [hwhole]
  · have hlength := congrArg List.length habove
    rw [List.length_append, List.length_cons] at hlength
    omega

/-- Of two positions the first lies before the second. -/
def LinePosition.Before (p q : LinePosition) : Prop :=
  p.line < q.line ∨ p.line = q.line ∧ p.character < q.character

/-- More characters lead to a later position. -/
theorem LinePosition.behind_before (front : List Char) {more : List Char} (h : more ≠ []) :
    (behind front).Before (behind (front ++ more)) := by
  have hlines := lineBreaks_append front more
  by_cases hmem : '\n' ∈ more
  · have hbreak : 0 < lineBreaks more := List.count_pos_iff.mpr hmem
    refine .inl ?_
    simp only [behind]
    omega
  · have hnone : lineBreaks more = 0 := List.count_eq_zero.mpr hmem
    have hlength : 0 < more.length := List.length_pos_iff.mpr h
    refine .inr ⟨?_, ?_⟩
    · simp only [behind]
      omega
    · simp only [behind, lastLine_append front hmem, List.length_append]
      omega

section Lines

variable {cs : List Char}

/-- The first line is what comes before the first line break. -/
theorem getElem?_splitOn_zero (cs : List Char) :
    (cs.splitOn '\n')[0]? = some (cs.takeWhile (· ≠ '\n')) := by
  by_cases hmem : '\n' ∈ cs
  · obtain ⟨line, rest, rfl, hline⟩ := List.eq_append_cons_of_mem hmem
    rw [List.splitOn_append_cons_self_of_not_mem hline,
      List.takeWhile_append_of_pos (forall_ne_lineBreak hline)]
    simp
  · rw [List.splitOn_eq_singleton hmem,
      List.takeWhile_eq_self_iff.mpr (forall_ne_lineBreak hmem)]
    rfl

/-- There is one line more than there are line breaks. -/
theorem length_splitOn (cs : List Char) : (cs.splitOn '\n').length = 1 + lineBreaks cs := by
  induction cs with
  | nil => rfl
  | cons c cs ih =>
      by_cases hc : c = '\n'
      · simp only [List.splitOn_cons_eq_if_modifyHead, hc, beq_self_eq_true, if_true,
          List.length_cons, ih, lineBreaks, List.count_cons_self]
        omega
      · simp only [List.splitOn_cons_eq_if_modifyHead, beq_false_of_ne hc, Bool.false_eq_true,
          if_false, List.length_modifyHead, ih, lineBreaks, List.count_cons_of_ne hc]

/-- A line break is passed with the line that it ends. -/
theorem dropLines_append_break {line : List Char} (h : '\n' ∉ line) (n : Nat)
    (rest : List Char) : dropLines (n + 1) (line ++ '\n' :: rest) = dropLines n rest := by
  have hdrop : (line ++ '\n' :: rest).dropWhile (· ≠ '\n') = '\n' :: rest := by
    rw [List.dropWhile_append_of_pos (forall_ne_lineBreak h)]
    simp
  rw [dropLines, hdrop]

theorem dropLines_eq_none (n : Nat) (h : '\n' ∉ cs) : dropLines (n + 1) cs = none := by
  have hdrop : cs.dropWhile (· ≠ '\n') = [] :=
    List.dropWhile_eq_nil_iff.mpr (forall_ne_lineBreak h)
  rw [dropLines, hdrop]

/-- The lines behind some line breaks begin with the one that comes next. -/
theorem map_takeWhile_dropLines (n : Nat) (cs : List Char) :
    (dropLines n cs).map (fun rest => rest.takeWhile (· ≠ '\n')) = (cs.splitOn '\n')[n]? := by
  induction n generalizing cs with
  | zero => exact (getElem?_splitOn_zero cs).symm
  | succ n ih =>
      by_cases hmem : '\n' ∈ cs
      · obtain ⟨line, rest, rfl, hline⟩ := List.eq_append_cons_of_mem hmem
        rw [List.splitOn_append_cons_self_of_not_mem hline, List.getElem?_cons_succ, ← ih,
          dropLines_append_break hline]
      · rw [List.splitOn_eq_singleton hmem, dropLines_eq_none n hmem]
        rfl

/-- **The line of a place.**  It begins with the last line of what comes before the place
and goes on to the next line break. -/
theorem getElem?_splitOn_append (front rest : List Char) :
    ((front ++ rest).splitOn '\n')[lineBreaks front]? =
      some (lastLine front ++ rest.takeWhile (· ≠ '\n')) := by
  obtain ⟨hnone, hcases⟩ := lastLine_cases front
  generalize lastLine front = line at hnone hcases ⊢
  have hfirst : ((line ++ rest).splitOn '\n')[0]? =
      some (line ++ rest.takeWhile (· ≠ '\n')) := by
    rw [getElem?_splitOn_zero, List.takeWhile_append_of_pos (forall_ne_lineBreak hnone)]
  have hbreaks : lineBreaks line = 0 := List.count_eq_zero.mpr hnone
  rcases hcases with rfl | ⟨above, rfl⟩
  · rwa [hbreaks]
  · have hlines : lineBreaks (above ++ '\n' :: line) = (above.splitOn '\n').length := by
      rw [length_splitOn, lineBreaks_append, lineBreaks, lineBreaks, List.count_cons_self,
        ← lineBreaks, ← lineBreaks, hbreaks]
      omega
    rw [hlines, List.append_assoc, List.cons_append, List.splitOn_append_cons_self,
      List.getElem?_append_right (Nat.le_refl _), Nat.sub_self, hfirst]

end Lines

/-- What is read of a line: the line without one carriage return at its end. -/
def ReadsLine (line text : List Char) : Prop :=
  line = text ++ ['\r'] ∨ line = text ∧ line.getLast? ≠ some '\r'

/-- One carriage return is dropped, if the line ends with it. -/
theorem dropTrailingReturn_eq_iff {line text : List Char} :
    dropTrailingReturn line = text ↔ ReadsLine line text := by
  unfold dropTrailingReturn ReadsLine
  split
  next hreturn =>
    obtain ⟨front, rfl⟩ := List.getLast?_eq_some_iff.mp hreturn
    simp
  next hreturn =>
    constructor
    · intro hline
      exact .inr ⟨hline, hreturn⟩
    · rintro (rfl | ⟨hline, -⟩)
      · simp at hreturn
      · exact hline

/-- A character stays unless it is a carriage return at the end. -/
theorem getElem?_dropTrailingReturn {front back : List Char} {c : Char}
    (h : ¬ (c = '\r' ∧ back = [])) :
    (dropTrailingReturn (front ++ c :: back))[front.length]? = some c := by
  unfold dropTrailingReturn
  split
  next hreturn =>
    cases back with
    | nil =>
        have hc : c = '\r' := by simpa using hreturn
        exact absurd ⟨hc, rfl⟩ h
    | cons d back => simp
  next => simp

namespace Text

variable {t : Text}

/-- **Positions.**  They exist up to the end of the text. -/
theorem lineAndCharacter?_eq_some_iff {offset : Nat} {p : LinePosition} :
    t.lineAndCharacter? offset = some p ↔
      offset ≤ t.charLength ∧ p = .behind (t.chars.take offset) := by
  rw [lineAndCharacter?, LinePosition.foldl_advance_start]
  split
  next hbeyond => simp [Nat.not_le.mpr hbeyond]
  next hinside => simp [Nat.le_of_not_lt hinside, eq_comm]

/-- Later offsets have later positions. -/
theorem position_before {offset offset' : Nat} {p p' : LinePosition}
    (h : t.lineAndCharacter? offset = some p) (h' : t.lineAndCharacter? offset' = some p')
    (hlt : offset < offset') : p.Before p' := by
  obtain ⟨-, rfl⟩ := lineAndCharacter?_eq_some_iff.mp h
  obtain ⟨hinside, rfl⟩ := lineAndCharacter?_eq_some_iff.mp h'
  have hsplit : t.chars.take offset' =
      t.chars.take offset ++ (t.chars.drop offset).take (offset' - offset) := by
    rw [← List.take_add, Nat.add_sub_cancel' (Nat.le_of_lt hlt)]
  rw [hsplit]
  refine LinePosition.behind_before _ (List.length_pos_iff.mp ?_)
  unfold charLength at hinside
  rw [List.length_take, List.length_drop]
  omega

/-- **Lines.**  They are the parts between the line breaks, without their carriage
returns. -/
theorem line?_succ (t : Text) (n : Nat) :
    t.line? (n + 1) = (t.chars.splitOn '\n')[n]?.map fun line =>
      String.ofList (dropTrailingReturn line) := by
  rw [line?, ← map_takeWhile_dropLines, Option.map_map]
  rfl

/-- A line is read if the text has one of that number, counted from one. -/
theorem line?_eq_some_iff {n : Nat} {s : String} :
    t.line? n = some s ↔ 1 ≤ n ∧
      ∃ line, (t.chars.splitOn '\n')[n - 1]? = some line ∧ ReadsLine line s.toList := by
  cases n with
  | zero => simp [line?]
  | succ n =>
      have hread (line : List Char) :
          String.ofList (dropTrailingReturn line) = s ↔ ReadsLine line s.toList := by
        rw [← dropTrailingReturn_eq_iff, ← String.toList_inj, String.toList_ofList]
      simp [line?_succ, hread]

/-- There is one more line than there are line breaks. -/
theorem exists_line?_iff {n : Nat} :
    (∃ s, t.line? n = some s) ↔ 1 ≤ n ∧ n ≤ 1 + lineBreaks t.chars := by
  cases n with
  | zero => simp [line?]
  | succ n =>
      have hlength := length_splitOn t.chars
      rw [← Option.isSome_iff_exists, line?_succ, Option.isSome_map, Option.isSome_iff_ne_none,
        ne_eq, List.getElem?_eq_none_iff, hlength]
      omega

/-- The carriage return at an offset ends its line, so it is not read with it. -/
def ReturnAtEnd (t : Text) (offset : Nat) : Prop :=
  t.chars[offset]? = some '\r' ∧
    (t.chars[offset + 1]? = none ∨ t.chars[offset + 1]? = some '\n')

/-- The position behind some characters leads to the next one in its line. -/
theorem exists_getElem?_of_append {front back : List Char} {c : Char}
    (h : t.chars = front ++ c :: back) (hbreak : c ≠ '\n')
    (hreturn : ¬ (c = '\r' ∧ back.takeWhile (· ≠ '\n') = [])) :
    ∃ s, t.line? (LinePosition.behind front).line = some s ∧
      s.toList[(LinePosition.behind front).character - 1]? = some c := by
  have hline : (t.chars.splitOn '\n')[lineBreaks front]? =
      some (lastLine front ++ c :: back.takeWhile (· ≠ '\n')) := by
    rw [h, getElem?_splitOn_append, List.takeWhile_cons_of_pos (by simpa using hbreak)]
  refine ⟨String.ofList (dropTrailingReturn
    (lastLine front ++ c :: back.takeWhile (· ≠ '\n'))), ?_, ?_⟩
  · rw [LinePosition.behind, Nat.add_comm, line?_succ, hline, Option.map_some]
  · rw [String.toList_ofList, LinePosition.behind, Nat.add_sub_cancel_left]
    exact getElem?_dropTrailingReturn hreturn

/-- **Positions in lines.**  The position of a character leads to it in its line. -/
theorem exists_getElem?_line? {offset : Nat} {c : Char} (hc : t.chars[offset]? = some c)
    (hbreak : c ≠ '\n') (hreturn : ¬ t.ReturnAtEnd offset) :
    ∃ p s, t.lineAndCharacter? offset = some p ∧ t.line? p.line = some s ∧
      s.toList[p.character - 1]? = some c := by
  obtain ⟨hlt, hget⟩ := List.getElem?_eq_some_iff.mp hc
  have hsplit : t.chars = t.chars.take offset ++ c :: t.chars.drop (offset + 1) := by
    rw [← hget, ← List.drop_eq_getElem_cons hlt, List.take_append_drop]
  have hend : ¬ (c = '\r' ∧ (t.chars.drop (offset + 1)).takeWhile (· ≠ '\n') = []) := by
    rintro ⟨rfl, hnothing⟩
    refine hreturn ⟨hc, ?_⟩
    rw [← List.head?_drop]
    cases hback : t.chars.drop (offset + 1) with
    | nil => exact .inl rfl
    | cons d back =>
        have hd : d = '\n' := by simpa [hback] using hnothing
        exact .inr (congrArg some hd)
  obtain ⟨s, hline, hcharacter⟩ := exists_getElem?_of_append hsplit hbreak hend
  exact ⟨_, s, lineAndCharacter?_eq_some_iff.mpr ⟨Nat.le_of_lt hlt, rfl⟩, hline, hcharacter⟩

/-- **Positions and lines.**  A position exists for every offset up to the end of the
text; it counts the line breaks before it and the characters behind the last of them, and
later offsets have later positions.  A line exists for every line break and one more; it
is the part of the text between two of them, without the carriage return at its end.  The
position of a character leads to that character in its line. -/
theorem lines_indexed (t : Text) :
    (∀ offset p, t.lineAndCharacter? offset = some p ↔ offset ≤ t.charLength ∧
      p.line = 1 + (t.chars.take offset).count '\n' ∧
      p.character = 1 + (lastLine (t.chars.take offset)).length) ∧
    (∀ offset offset' p p', t.lineAndCharacter? offset = some p →
      t.lineAndCharacter? offset' = some p' → offset < offset' → p.Before p') ∧
    (∀ n, (∃ s, t.line? n = some s) ↔ 1 ≤ n ∧ n ≤ 1 + t.chars.count '\n') ∧
    (∀ n s, t.line? n = some s ↔ 1 ≤ n ∧
      ∃ line, (t.chars.splitOn '\n')[n - 1]? = some line ∧ ReadsLine line s.toList) ∧
    ∀ offset c, t.chars[offset]? = some c → c ≠ '\n' → ¬ t.ReturnAtEnd offset →
      ∃ p s, t.lineAndCharacter? offset = some p ∧ t.line? p.line = some s ∧
        s.toList[p.character - 1]? = some c := by
  refine ⟨fun offset ⟨line, character⟩ => ?_, fun _ _ _ _ h h' hlt => position_before h h' hlt,
    fun n => exists_line?_iff, fun n s => line?_eq_some_iff,
    fun _ _ hc hbreak hreturn => exists_getElem?_line? hc hbreak hreturn⟩
  rw [lineAndCharacter?_eq_some_iff, LinePosition.behind, LinePosition.mk.injEq]
  rfl

/-- Of two carriage returns before a line break the first one is read with its line. -/
theorem lines_indexed_returns :
    (ofString "é\r\r\nb").lineAndCharacter? 1 = some ⟨1, 2⟩ ∧
      (ofString "é\r\r\nb").lineAndCharacter? 4 = some ⟨2, 1⟩ ∧ 1 < 4 ∧
      LinePosition.Before ⟨1, 2⟩ ⟨2, 1⟩ ∧
      (ofString "é\r\r\nb").chars[1]? = some '\r' ∧ '\r' ≠ '\n' ∧
      ¬ (ofString "é\r\r\nb").ReturnAtEnd 1 ∧
      ∃ p s, (ofString "é\r\r\nb").lineAndCharacter? 1 = some p ∧
        (ofString "é\r\r\nb").line? p.line = some s ∧
        s.toList[p.character - 1]? = some '\r' := by
  have hfirst : (ofString "é\r\r\nb").lineAndCharacter? 1 = some ⟨1, 2⟩ := by decide
  have hsecond : (ofString "é\r\r\nb").lineAndCharacter? 4 = some ⟨2, 1⟩ := by decide
  have hreturn : (ofString "é\r\r\nb").chars[1]? = some '\r' := by decide
  have hinside : ¬ (ofString "é\r\r\nb").ReturnAtEnd 1 := by
    unfold ReturnAtEnd
    decide
  obtain ⟨-, hbefore, -, -, hplace⟩ := lines_indexed (ofString "é\r\r\nb")
  exact ⟨hfirst, hsecond, by decide, hbefore 1 4 _ _ hfirst hsecond (by decide), hreturn,
    by decide, hinside, hplace 1 '\r' hreturn (by decide) hinside⟩

end Text

end DeclLint
