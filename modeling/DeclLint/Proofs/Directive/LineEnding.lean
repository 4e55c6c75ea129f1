import DeclLint.Directive
import DeclLint.Proofs.Source.MovedToken

/-!
# Directives do not look at line endings

A line comment of a text with carriage returns ends in one.  No word of a directive holds
a carriage return and no list of rules does, so the directive of a comment is the same
with a carriage return behind it (`Directive.ofComment?_return`); and since comments stay
on their lines, the same rules are silent (`Silencing.ofSource_withCrlf`).
-/

namespace DeclLint

namespace Directive

/-- A word without carriage return is found in front of one or not at all. -/
theorem after?_return {word : List Char} (hword : '\r' ∉ word) (cs : List Char) :
    after? word (cs ++ ['\r']) = (after? word cs).map (· ++ ['\r']) := by
  have hends : word ≠ cs ++ ['\r'] := by
    rintro rfl
    simp at hword
  have hleads : word.isPrefixOf (cs ++ ['\r']) = word.isPrefixOf cs := by
    rw [Bool.eq_iff_iff, List.isPrefixOf_iff_prefix, List.isPrefixOf_iff_prefix,
      List.prefix_concat_iff]
    simp [hends]
  unfold after?
  rw [hleads]
  split
  next h =>
    have hlength := (List.isPrefixOf_iff_prefix.mp h).length_le
    rw [List.drop_append_of_le_length hlength, Option.map_some]
  next => rfl

/-- A carriage return is as blank as nothing. -/
theorem dropBlanks_return (cs : List Char) :
    dropBlanks (cs ++ ['\r']) = dropBlanks cs ++ ['\r'] ∨
      dropBlanks (cs ++ ['\r']) = [] ∧ dropBlanks cs = [] := by
  have hblank : isBlank '\r' = true := by decide
  unfold dropBlanks
  rw [List.dropWhile_append]
  split
  next h => exact .inr ⟨by simp [hblank], by simpa using h⟩
  next => exact .inl rfl

/-- A carriage return at the end is left behind a word and the blanks before it. -/
theorem after?_dropBlanks_return {word : List Char} (hword : '\r' ∉ word) (hne : word ≠ [])
    (cs : List Char) :
    after? word (dropBlanks (cs ++ ['\r'])) = (after? word (dropBlanks cs)).map (· ++ ['\r']) := by
  rcases dropBlanks_return cs with hboth | ⟨hnone, hnone'⟩
  · rw [hboth, after?_return hword]
  · have hmissing : after? word [] = none := by
      cases word with
      | nil => exact absurd rfl hne
      | cons c word => rfl
    rw [hnone, hnone', hmissing]
    rfl

theorem verb?_return (cs : List Char) :
    verb? (cs ++ ['\r']) = (verb? cs).map fun read => (read.1, read.2 ++ ['\r']) := by
  unfold verb?
  rw [after?_return (by decide), after?_return (by decide)]
  cases after? "disable".toList cs with
  | some rest => rfl
  | none => cases after? "enable".toList cs <;> rfl

/-- A carriage return behind a suffix is left over with what follows the suffix. -/
theorem suffix_return (cs : List Char) :
    suffix (cs ++ ['\r']) = ((suffix cs).1, (suffix cs).2 ++ ['\r']) := by
  unfold suffix
  rw [after?_return (by decide), after?_return (by decide), after?_return (by decide)]
  cases after? ":next".toList cs with
  | some rest => rfl
  | none =>
      cases after? ":this".toList cs with
      | some rest => rfl
      | none => cases after? ":previous".toList cs <;> rfl

/-- A list of rules ends before a carriage return. -/
theorem ruleList?_return (cs : List Char) : ruleList? (cs ++ ['\r']) = ruleList? cs := by
  have hlast : isListCharacter '\r' = false := by decide
  have hlist : (cs ++ ['\r']).takeWhile isListCharacter = cs.takeWhile isListCharacter := by
    rw [List.takeWhile_append]
    split
    next h =>
      have hall : cs.takeWhile isListCharacter = cs :=
        (List.takeWhile_prefix _).eq_of_length (by simpa using h)
      simp [hall, hlast]
    next => rfl
  unfold ruleList?
  rw [hlist]

/-- A carriage return at the end of a comment belongs to no list of rules. -/
theorem leading?_return (cs : List Char) : leading? (cs ++ ['\r']) = leading? cs := by
  unfold leading?
  rw [after?_return (by decide)]
  cases after? "//".toList cs with
  | none => rfl
  | some rest =>
      simp only [Option.map_some, Option.bind_eq_bind, Option.bind_some]
      rw [after?_dropBlanks_return (by decide) (by decide)]
      cases after? "structlint:".toList (dropBlanks rest) with
      | none => rfl
      | some rest =>
          simp only [Option.map_some, Option.bind_some]
          rw [verb?_return]
          cases verb? rest with
          | none => rfl
          | some read =>
              simp only [Option.map_some, Option.bind_some]
              rw [suffix_return, ruleList?_return]

theorem first?_return (cs : List Char) : first? (cs ++ ['\r']) = first? cs := by
  induction cs with
  | nil => decide
  | cons c cs ih =>
      have hleading := leading?_return (c :: cs)
      rw [List.cons_append] at hleading ⊢
      rw [first?, first?, hleading, ih]

/-- **The directive of a comment.**  A carriage return behind the comment changes
nothing. -/
theorem ofComment?_return (text : List Char) : ofComment? (text ++ ['\r']) = ofComment? text := by
  unfold ofComment?
  rw [first?_return]

end Directive

namespace Silencing

/-- Directives are known by the lines and directives of the comments. -/
theorem ofComments_congr {comments comments' : List LineComment}
    (h : (comments'.map fun c => (c.line, Directive.ofComment? c.text)) =
      comments.map fun c => (c.line, Directive.ofComment? c.text)) :
    ofComments comments' = ofComments comments := by
  have hread : ∀ cs : List LineComment,
      (cs.filterMap fun c => (Directive.ofComment? c.text).map fun d => (c.line, d)) =
        (cs.map fun c => (c.line, Directive.ofComment? c.text)).filterMap
          fun read => read.2.map fun d => (read.1, d) := by
    intro cs
    rw [List.filterMap_map]
    rfl
  unfold ofComments
  rw [hread comments', hread comments, h]

/-- **The same rules are silent.** -/
theorem ofSource_withCrlf {source : String} (hfree : NoEscapedBreak source.toList) :
    (ofSource (withCrlf source)).value = (ofSource source).value := by
  unfold ofSource lineComments
  rw [toList_withCrlf]
  cases hcut : cut source.toList with
  | ok pieces =>
      have hcuts := cut_eq_ok_iff.mp hcut
      have hjoin : Cuts 0 (joinPieces pieces) pieces := by
        rw [hcuts.join]
        exact hcuts
      rw [cut_crlf hcut hfree]
      exact ofComments_congr
        (LineComment.ofPiecesFrom_crlf Directive.ofComment?_return hjoin 0 0 1 rfl)
  | error e =>
      cases hcut' : cut (crlf source.toList) with
      | ok pieces' =>
          obtain ⟨pieces, hpieces⟩ := exists_cut_of_crlf hcut' hfree
          simp [hpieces] at hcut
      | error e' => rfl

end Silencing

end DeclLint
