import DeclLint.Linter
import DeclLint.Proofs.Checked.Correction
import DeclLint.Proofs.Source.TokenLayout
import DeclLint.Rule.RuntimeLet

/-!
# A linter with checked operations

Rules may report any spans, and their fixes may name any parts of them.  Every such span
passes through a conversion first, which looks at both of its ends; a text is cut only
afterwards.  The comments that directives are read from need no such check, since the
scanner found them: they stand in the text one behind the other (`directives_eq`).

* `Checked.silencing_eq` — directives are read from their comments;
* `Checked.letRange_eq` — the fix that narrows a declaration to its `let`;
* `Checked.lint_eq`, `Checked.corrections_eq`, `Checked.correct_eq` — a linter with any
  rules at all ends with its result.
-/

namespace DeclLint

theorem Logged.mk_bind {α β : Type} (a : α) (lines : List LogLine) (f : α → Logged β) :
    (⟨a, lines⟩ >>= f) = ⟨(f a).value, lines ++ (f a).lines⟩ := rfl

/-- A `let` that introduces a declaration is part of its text, at its offset. -/
theorem split_of_letOffset? {text : String} {offset : Nat} (h : letOffset? text = some offset) :
    ∃ front back, text.toList = front ++ ['l', 'e', 't'] ++ back ∧ offset = utf8Size front := by
  unfold letOffset? at h
  split at h
  next found word hfound =>
    by_cases hword : word = ['l', 'e', 't']
    · rw [if_pos hword] at h
      obtain ⟨-, front, back, htext, hoffset⟩ := introducerFrom?_eq_some hfound
      exact ⟨front, back, hword ▸ htext, by rw [← Option.some.inj h, hoffset, Nat.zero_add]⟩
    · rw [if_neg hword] at h
      cases h
  next => cases h

namespace Checked

variable {ε α β : Type}

/-- The results that are present, with the lines of all. -/
def filterMap (f : α → Checked ε (Logged (Option β))) :
    List α → Checked ε (Logged (List β))
  | [] => pure (pure [])
  | a :: as => do
      let first ← f a
      let others ← filterMap f as
      pure do
        let first ← first
        let others ← others
        pure (first.toList ++ others)

/-- The results one after another, with the lines of all. -/
def flatMap (f : α → Checked ε (Logged (List β))) : List α → Checked ε (Logged (List β))
  | [] => pure (pure [])
  | a :: as => do
      let first ← f a
      let others ← flatMap f as
      pure do
        let first ← first
        let others ← others
        pure (first ++ others)

/-- A walk over a list faults nowhere if none of its steps does. -/
theorem filterMap_eq {f : α → Checked ε (Logged (Option β))} {g : α → Logged (Option β)}
    (h : ∀ a, f a = .ok (g a)) (as : List α) :
    filterMap f as = .ok (Logged.filterMap g as) := by
  induction as with
  | nil => rfl
  | cons a as ih =>
      rw [filterMap, h, ok_bind, ih, ok_bind]
      rfl

/-- The same for steps that give lists. -/
theorem flatMap_eq {f : α → Checked ε (Logged (List β))} {g : α → Logged (List β)}
    (h : ∀ a, f a = .ok (g a)) (as : List α) :
    flatMap f as = .ok (Logged.flatMap g as) := by
  induction as with
  | nil => rfl
  | cons a as ih =>
      rw [flatMap, h, ok_bind, ih, ok_bind]
      rfl

/-- The directives of some comments, each with its line.  Lines are counted on from one
comment to the next; `scanned` is where the last one starts, on line `line`. -/
def directives (t : Text) (scanned line : Nat) :
    List ByteRange → Checked ε (List (Nat × Directive))
  | [] => pure []
  | comment :: comments => do
      let passed ← slice t scanned comment.location
      let stop ← add comment.location comment.length
      let text ← slice t comment.location stop
      let line := line + lineBreaks passed.toList
      let others ← directives t comment.location line comments
      pure (((Directive.ofComment? text.toList).map fun d => (line, d)).toList ++ others)

/-- What the directives of a text silence. -/
def silencing (t : Text) : Checked ε (Logged Silencing) :=
  match lineComments t.contents with
  | .ok comments => do
      let found ← directives t 0 1 (comments.map LineComment.range)
      pure (pure
        { regions := found.filterMap fun p => Silencing.region? p.1 p.2
          lines := found.filterMap fun p => Silencing.line? p.1 p.2 })
  | .error e => pure do
      Logged.note .debug s!"no disable commands read: {e.message}"
      pure {}

/-- **Directives.**  The comments of a text stand one behind the other, so what is between
them can be cut out, and so can they. -/
theorem directives_eq {t : Text} {front mid : List Char} (line : Nat) (pieces : List Piece)
    (htext : t.chars = front ++ mid ++ joinPieces pieces) (hsize : t.byteLength ≤ maxOffset) :
    (directives t (utf8Size front) line
        ((LineComment.ofPiecesFrom (utf8Size (front ++ mid)) (line + lineBreaks mid) []
          pieces).map LineComment.range) : Checked ε _) =
      .ok ((LineComment.ofPiecesFrom (utf8Size (front ++ mid)) (line + lineBreaks mid) []
        pieces).filterMap fun c => (Directive.ofComment? c.text).map fun d => (c.line, d)) := by
  induction pieces generalizing front mid line with
  | nil => rfl
  | cons p ps ih =>
      rw [joinPieces_cons] at htext
      rw [LineComment.ofPiecesFrom_cons, ← utf8Size_append]
      by_cases hkind : p.kind = .lineComment
      · have hslice := slice_of_append (ε := ε) htext
        have htext' : t.chars = (front ++ mid) ++ p.text ++ joinPieces ps := by simp [htext]
        have hslice' := slice_of_append (ε := ε) htext'
        have hsum : utf8Size (front ++ mid) + utf8Size p.text ≤ maxOffset := by
          refine Nat.le_trans ?_ hsize
          rw [Text.byteLength, htext', utf8Size_append (front ++ mid ++ p.text),
            utf8Size_append _ p.text]
          exact Nat.le_add_right _ _
        have hothers := ih (line + lineBreaks mid) htext'
        rw [if_pos hkind, List.singleton_append, List.map_cons, directives, LineComment.range]
        dsimp only
        rw [utf8Size_append, hslice, ok_bind, ← utf8Size_append, add_eq hsum, ok_bind, hslice',
          ok_bind, String.toList_ofList, String.toList_ofList, hothers, ok_bind,
          List.filterMap_cons]
        cases Directive.ofComment? p.text <;> rfl
      · have htext' : t.chars = front ++ (mid ++ p.text) ++ joinPieces ps := by simp [htext]
        have hothers := ih line htext'
        rw [lineBreaks_append, ← Nat.add_assoc, ← List.append_assoc] at hothers
        rw [if_neg hkind, List.nil_append]
        exact hothers

/-- What is silenced is read without a fault, whether or not the text can be cut. -/
theorem silencing_eq {t : Text} (hsize : t.byteLength ≤ maxOffset) :
    (silencing t : Checked ε (Logged Silencing)) = .ok (Silencing.ofSource t.contents) := by
  unfold silencing Silencing.ofSource lineComments
  cases hcut : cut t.contents.toList with
  | error e => rfl
  | ok pieces =>
      have hchars : t.chars = [] ++ [] ++ joinPieces pieces := by
        rw [cut_join hcut, Text.contents, String.toList_ofList]
        rfl
      have hfound := directives_eq (ε := ε) 1 pieces hchars hsize
      rw [List.append_nil, utf8Size_nil, show lineBreaks [] = 0 from rfl, Nat.add_zero] at hfound
      simp only [Except.map]
      rw [LineComment.ofPieces, hfound]
      rfl

/-- The whole declaration, if it breaks the rule against runtime `let`s. -/
def detect (file : SourceFile) (kind : DeclarationKind) (d : Declaration)
    (container : Option Declaration) : Checked ε (Logged (List ByteRange)) :=
  if RuntimeLet.isCandidate kind d container then
    match d.range with
    | none => pure (pure [])
    | some range => do
        match ← attempt (sliceBytes file.text range) with
        | .ok text => pure (pure (if RuntimeLet.isRuntimeLet text then [range] else []))
        | .error e => pure do
            Logged.note .warning
              s!"{file.displayPath}: skipping declaration at byte {range.location}: {e.message}"
            pure []
  else pure (pure [])

/-- The `let` that introduces a reported declaration. -/
def letRange (file : SourceFile) (detected : ByteRange) : Checked ε (Option ByteRange) := do
  match ← attempt (sliceBytes file.text detected) with
  | .ok text =>
      match letOffset? text with
      | some offset => do
          let start ← add detected.location offset
          pure (some ⟨start, 3⟩)
      | none => pure none
  | .error _ => pure none

/-- `var`, in place of `let` only. -/
def varForLet (file : SourceFile) (range : ByteRange) : Checked ε (Option String) := do
  match ← attempt (sliceBytes file.text range) with
  | .ok text => pure (if text = "let" then some "var" else none)
  | .error _ => pure none

/-- A declaration is cut out only after its span was looked up. -/
theorem detect_eq (file : SourceFile) (kind : DeclarationKind) (d : Declaration)
    (container : Option Declaration) :
    (detect file kind d container : Checked ε (Logged (List ByteRange))) =
      .ok (RuntimeLet.detect file kind d container) := by
  unfold detect RuntimeLet.detect
  split
  next =>
    cases d.range with
    | none => rfl
    | some range =>
        dsimp only
        rw [sliceBytes_eq, attempt_ofExcept, ok_bind]
        cases file.text.sliceBytes range <;> rfl
  next => rfl

/-- **The `let` of a declaration.**  It stands inside the declaration, so its offset is no
larger than the end of it, which fits. -/
theorem letRange_eq (file : SourceFile) (detected : ByteRange) :
    (letRange file detected : Checked ε (Option ByteRange)) =
      .ok (RuntimeLet.letRange file detected) := by
  unfold letRange RuntimeLet.letRange
  rw [sliceBytes_eq, attempt_ofExcept, ok_bind]
  cases hslice : file.text.sliceBytes detected with
  | error e => rfl
  | ok text =>
      dsimp only
      cases hoffset : letOffset? text with
      | none => rfl
      | some offset =>
          have hfits : detected.location + offset ≤ maxOffset := by
            obtain ⟨⟨front, back, -, rfl⟩, hstop⟩ := Text.sliceBytes_eq_ok_iff.mp hslice
            refine Nat.le_trans (Nat.add_le_add_left ?_ _) hstop
            obtain ⟨lead, more, htext, hlead⟩ := split_of_letOffset? hoffset
            rw [htext, hlead, utf8Size_append, utf8Size_append, Nat.add_assoc]
            exact Nat.le_add_right _ _
          dsimp only
          rw [add_eq hfits]
          rfl

theorem varForLet_eq (file : SourceFile) (range : ByteRange) :
    (varForLet file range : Checked ε (Option String)) = .ok (RuntimeLet.varForLet file range) := by
  unfold varForLet RuntimeLet.varForLet
  rw [sliceBytes_eq, attempt_ofExcept, ok_bind]
  cases file.text.sliceBytes range <;> rfl

/-- Where a reported span begins. -/
def locate? (r : Rule) (file : SourceFile) (range : ByteRange) :
    Checked ε (Logged (Option Location)) := do
  match ← attempt (toCharRange file.text range) with
  | .ok chars => pure (pure (Location.ofCharOffset? file.path file.text chars.location))
  | .error e => pure do
      Logged.note .warning s!"{file.displayPath}: skipping {r.id} result: {e.message}"
      pure none

/-- The violation at a reported span, unless it is silenced. -/
def violation? (r : Rule) (file : SourceFile) (silencing : Silencing) (range : ByteRange) :
    Checked ε (Logged (Option Violation)) := do
  let location? ← locate? r file range
  pure do
    match ← location? with
    | none => pure none
    | some location =>
        if silencing.isDisabled location.line r.id then pure none
        else pure (some
          { ruleId := r.id
            ruleName := r.description.name
            severity := r.severity
            message := r.message file range
            location := location })

/-- The correction of a reported span that was located, unless it is silenced where the part
to replace begins. -/
def edit? (r : Rule) (fix : Fix) (index : Nat) (file : SourceFile) (silencing : Silencing)
    (detected : ByteRange) : Option Location → Checked ε (Logged (Option Correction))
  | none => pure (pure none)
  | some _ =>
      match fix.range file detected with
      | none => pure (pure none)
      | some part =>
          if !detected.contains part then
            pure do
              Logged.note .warning
                s!"{file.displayPath}: {r.id} correction range escapes its violation, skipping"
              pure none
          else
            match fix.replacement file part with
            | none => pure (pure none)
            | some replacement => do
                match ← attempt (toCharRange file.text part) with
                | .error e => pure do
                    Logged.note .warning
                      s!"{file.displayPath}: skipping {r.id} correction: {e.message}"
                    pure none
                | .ok range => pure (pure do
                    let location ← Location.ofCharOffset? file.path file.text range.location
                    if silencing.isDisabled location.line r.id then none
                    else some ⟨r.id, index, range, replacement, location⟩)

/-- The correction of a reported span. -/
def correction? (r : Rule) (fix : Fix) (index : Nat) (file : SourceFile)
    (silencing : Silencing) (detected : ByteRange) : Checked ε (Logged (Option Correction)) := do
  let location? ← locate? r file detected
  let made ← edit? r fix index file silencing detected location?.value
  pure do
    let _ ← location?
    made

/-- The violations of a rule. -/
def ruleViolations (file : SourceFile) (root : Declaration) (silencing : Silencing) (r : Rule) :
    Checked ε (Logged (List Violation)) := do
  let detected := r.detectAll file root
  let found ← filterMap (violation? r file silencing) detected.value
  pure do
    let _ ← detected
    found

/-- The violations of every rule. -/
def lint (linter : Linter) (file : SourceFile) : Checked ε (Logged (List Violation)) :=
  match file.tree with
  | .error _ => pure (pure [])
  | .ok root => do
      let silenced ← silencing file.text
      let found ← flatMap (ruleViolations file root silenced.value) linter.rules
      pure do
        let _ ← silenced
        found

/-- The corrections of a rule at an index; a rule without fix has none. -/
def ruleCorrections (file : SourceFile) (root : Declaration) (silencing : Silencing)
    (p : Rule × Nat) : Checked ε (Logged (List Correction)) :=
  match p.1.fix with
  | none => pure (pure [])
  | some fix => do
      let detected := p.1.detectAll file root
      let found ← filterMap (correction? p.1 fix p.2 file silencing) detected.value
      pure do
        let _ ← detected
        found

/-- The corrections of every rule. -/
def corrections (linter : Linter) (file : SourceFile) : Checked ε (Logged (List Correction)) :=
  match file.tree with
  | .error _ => pure (pure [])
  | .ok root => do
      let silenced ← silencing file.text
      let found ← flatMap (ruleCorrections file root silenced.value) linter.rules.zipIdx
      pure do
        let _ ← silenced
        found

/-- Apply every correction of a file to its text. -/
def correct (linter : Linter) (file : SourceFile) : Checked ε (Logged CorrectedText) := do
  let found ← corrections linter file
  let corrected ← ofCorrections file.text found.value
  pure do
    let _ ← found
    corrected

theorem locate?_eq (r : Rule) (file : SourceFile) (range : ByteRange) :
    (locate? r file range : Checked ε (Logged (Option Location))) = .ok (r.locate? file range) := by
  unfold locate? Rule.locate?
  rw [toCharRange_eq, attempt_ofExcept, ok_bind]
  cases file.text.toCharRange range <;> rfl

theorem violation?_eq (r : Rule) (file : SourceFile) (silencing : Silencing) (range : ByteRange) :
    (violation? r file silencing range : Checked ε (Logged (Option Violation))) =
      .ok (r.violation? file silencing range) := by
  rw [violation?, locate?_eq]
  rfl

/-- **Corrections.**  The part that a fix names is looked up before it is located. -/
theorem correction?_eq (r : Rule) (fix : Fix) (index : Nat) (file : SourceFile)
    (silencing : Silencing) (detected : ByteRange) :
    (correction? r fix index file silencing detected : Checked ε (Logged (Option Correction))) =
      .ok (r.correction? fix index file silencing detected) := by
  unfold correction? Rule.correction?
  rw [locate?_eq, ok_bind]
  cases r.locate? file detected with
  | mk location? lines =>
      rw [Logged.mk_bind]
      unfold edit?
      cases location? with
      | none => rfl
      | some location =>
          cases fix.range file detected with
          | none => rfl
          | some part =>
              dsimp only
              cases detected.contains part with
              | false => rfl
              | true =>
                  rw [Bool.not_true, if_neg Bool.false_ne_true, if_neg Bool.false_ne_true]
                  cases fix.replacement file part with
                  | none => rfl
                  | some replacement =>
                      dsimp only
                      rw [toCharRange_eq, attempt_ofExcept, ok_bind]
                      cases file.text.toCharRange part <;> rfl

theorem ruleViolations_eq (file : SourceFile) (root : Declaration) (silencing : Silencing)
    (r : Rule) :
    (ruleViolations file root silencing r : Checked ε (Logged (List Violation))) =
      .ok (r.violations file root silencing) := by
  rw [ruleViolations, filterMap_eq (violation?_eq r file silencing)]
  rfl

/-- The corrections of a rule are found as those of its spans are. -/
theorem ruleCorrections_eq (file : SourceFile) (root : Declaration) (silencing : Silencing)
    (p : Rule × Nat) :
    (ruleCorrections file root silencing p : Checked ε (Logged (List Correction))) =
      .ok (p.1.corrections p.2 file root silencing) := by
  unfold ruleCorrections Rule.corrections
  cases p.1.fix with
  | none => rfl
  | some fix =>
      dsimp only
      rw [filterMap_eq (correction?_eq p.1 fix p.2 file silencing)]
      rfl

/-- **No span is fatal.**  Whatever the rules report and their fixes name, the violations of
a file are found. -/
theorem lint_eq (linter : Linter) {file : SourceFile} (hsize : file.text.byteLength ≤ maxOffset) :
    (lint linter file : Checked ε (Logged (List Violation))) = .ok (linter.lint file) := by
  unfold lint Linter.lint
  cases file.tree with
  | error e => rfl
  | ok root =>
      dsimp only
      rw [silencing_eq hsize, ok_bind]
      rw [flatMap_eq (ruleViolations_eq file root _)]
      rfl

/-- So are the corrections of a file. -/
theorem corrections_eq (linter : Linter) {file : SourceFile}
    (hsize : file.text.byteLength ≤ maxOffset) :
    (corrections linter file : Checked ε (Logged (List Correction))) =
      .ok (linter.corrections file) := by
  unfold corrections Linter.corrections
  cases file.tree with
  | error e => rfl
  | ok root =>
      dsimp only
      rw [silencing_eq hsize, ok_bind]
      rw [flatMap_eq (ruleCorrections_eq file root _)]
      rfl

theorem correct_eq (linter : Linter) {file : SourceFile}
    (hsize : file.text.byteLength ≤ maxOffset) :
    (correct linter file : Checked ε (Logged CorrectedText)) = .ok (linter.correct file) := by
  rw [correct, corrections_eq linter hsize, ok_bind, ofCorrections_eq _ hsize]
  rfl

end Checked

end DeclLint
