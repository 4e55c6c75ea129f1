import DeclLint.Proofs.Directive.Spelling
import DeclLint.Proofs.Source.TokenLayout
import DeclLint.Proofs.Text.Position
import Mathlib.Data.List.Infix

/-!
# What directives silence

The directives of a text are the first ones in its line comments.  One with a suffix
speaks of one line, next to the line that its comment begins on or that line itself; one
without speaks of every line behind its own until another one speaks of the same rule.

The lines of comments are counted along the pieces of the text, and regions are read up
to the first one that comes too late.  Both work because no two comments begin on one
line: comments are sorted by their lines strictly, so a region that is passed over is
behind the line that is asked about, and "the last directive before a line" is one.

* `Spelling.StandsOn` — a directive stands on a line of a text;
* `Spelling.Targets`, `Spelling.LastBefore` — one speaks of a line by its suffix, or as
  the last one without suffix;
* `Silencing.isDisabled_ofSource_iff` — what is silenced, whatever the verbs are;
* `Silencing.isDisabled_documented` — what is silenced if no suffix follows `enable`;
* `Silencing.isDisabled_enabling` — what is silenced by directives that enable.
-/

namespace DeclLint

namespace LineComment

/-- A comment of a text begins on a line: so says the position of its first
character. -/
def BeginsOn (c : LineComment) (source : String) (line : Nat) : Prop :=
  ∃ offset position, (Text.ofString source).toCharOffset c.start = .ok offset ∧
    (Text.ofString source).lineAndCharacter? offset = some position ∧ position.line = line

/-- **Lines of comments.**  The line counted along the pieces is the line of the position
in the text. -/
theorem beginsOn_iff {source : String} {comments : List LineComment} {c : LineComment}
    {line : Nat} (h : lineComments source = .ok comments) (hc : c ∈ comments) :
    c.BeginsOn source line ↔ c.line = line := by
  obtain ⟨pieces, hcut, rfl⟩ := exists_of_map_eq_ok h
  obtain ⟨front, back, hsource, hstart, hline⟩ := stands_of_mem hcut hc
  have hchars : (Text.ofString source).chars = front ++ (c.text ++ back) := by
    rw [← List.append_assoc]
    exact hsource
  have hoffset : (Text.ofString source).toCharOffset c.start = .ok front.length :=
    Text.toCharOffset_eq_ok_iff.mpr ⟨front, c.text ++ back, hchars, hstart, rfl⟩
  have hposition := Text.lineAndCharacter?_of_append hchars
  rw [hline]
  constructor
  · rintro ⟨offset, position, hoffset', hposition', rfl⟩
    obtain rfl : front.length = offset := Except.ok.inj (hoffset.symm.trans hoffset')
    obtain rfl := Option.some.inj (hposition.symm.trans hposition')
    rfl
  · rintro rfl
    exact ⟨front.length, .behind front, hoffset, hposition, rfl⟩

/-- The lines of comments are sorted strictly. -/
theorem pairwise_lineComments {source : String} {comments : List LineComment}
    (h : lineComments source = .ok comments) :
    comments.Pairwise fun a b => a.line < b.line := by
  obtain ⟨pieces, hcut, rfl⟩ := exists_of_map_eq_ok h
  exact pairwise_ofPieces hcut

theorem line_pos {source : String} {comments : List LineComment} {c : LineComment}
    (h : lineComments source = .ok comments) (hc : c ∈ comments) : 1 ≤ c.line := by
  obtain ⟨pieces, hcut, rfl⟩ := exists_of_map_eq_ok h
  obtain ⟨front, back, -, -, hline⟩ := stands_of_mem hcut hc
  omega

end LineComment

/-- The line that a suffix speaks of, seen from the line of its directive. -/
def Target.Hits (target : Target) (own line : Nat) : Prop :=
  match target with
  | .next => line = own + 1
  | .this => line = own
  | .previous => line + 1 = own

/-- The line that a suffix speaks of is there unless it is before the first one. -/
theorem Target.line?_eq_some_iff {target : Target} {own line : Nat} (hown : 1 ≤ own) :
    target.line? own = some line ↔ 1 ≤ line ∧ target.Hits own line := by
  cases target with
  | next =>
      simp only [line?, Hits, Option.some.injEq]
      omega
  | this =>
      simp only [line?, Hits, Option.some.injEq]
      omega
  | previous =>
      simp only [line?, Hits]
      split
      · rw [Option.some.injEq]
        omega
      · simp only [reduceCtorEq, false_iff]
        omega

namespace Spelling

/-- A directive stands on a line of a text: a line comment begins there, and the
directive is the first one in it. -/
def StandsOn (s : Spelling) (source : String) (line : Nat) : Prop :=
  ∃ comments, lineComments source = .ok comments ∧
    ∃ c ∈ comments, c.BeginsOn source line ∧ s.FirstIn c.text

/-- A directive is written somewhere in a line comment of a text, as the first one or
behind others. -/
def OccursIn (s : Spelling) (source : String) : Prop :=
  ∃ comments, lineComments source = .ok comments ∧
    ∃ c ∈ comments, ∃ front cs, c.text = front ++ cs ∧ s.Leads cs

/-- A directive speaks of a line by its suffix. -/
def Targets (s : Spelling) (source : String) (line : Nat) : Prop :=
  ∃ own target, s.StandsOn source own ∧ s.target = some target ∧ target.Hits own line

/-- A directive without suffix stands on a line and covers a rule. -/
structure Opens (s : Spelling) (source : String) (rule : String) (line : Nat) : Prop where
  standsOn : s.StandsOn source line
  target_eq : s.target = none
  covers : s.Covers rule

/-- A directive is the last one before a line that has no suffix and covers a rule. -/
def LastBefore (s : Spelling) (source : String) (rule : String) (line : Nat) : Prop :=
  ∃ own, s.Opens source rule own ∧ own < line ∧
    ∀ (other : Spelling) (own' : Nat), other.Opens source rule own' → own' < line → own' ≤ own

/-- A directive stands on a line if a comment of the line begins with it. -/
theorem standsOn_iff {s : Spelling} {source : String} {comments : List LineComment} {line : Nat}
    (h : lineComments source = .ok comments) :
    s.StandsOn source line ↔ ∃ c ∈ comments, c.line = line ∧ s.FirstIn c.text := by
  constructor
  · rintro ⟨comments', h', c, hc, hline, hfirst⟩
    obtain rfl := Except.ok.inj (h'.symm.trans h)
    exact ⟨c, hc, (LineComment.beginsOn_iff h hc).mp hline, hfirst⟩
  · rintro ⟨c, hc, hline, hfirst⟩
    exact ⟨comments, h, c, hc, (LineComment.beginsOn_iff h hc).mpr hline, hfirst⟩

theorem StandsOn.occursIn {s : Spelling} {source : String} {line : Nat}
    (h : s.StandsOn source line) : s.OccursIn source := by
  obtain ⟨comments, hcomments, c, hc, -, front, cs, htext, hleads, -⟩ := h
  exact ⟨comments, hcomments, c, hc, front, cs, htext, hleads⟩

/-- What holds of every directive that is read anywhere in a comment holds of every one
that is spelled there. -/
theorem OccursIn.of_read {q : Bool → Option Target → Bool} {s : Spelling} {source : String}
    {comments : List LineComment} (hs : s.OccursIn source)
    (h : lineComments source = .ok comments)
    (hq : ∀ c ∈ comments, ∀ cs ∈ c.text.tails, ∀ parts ∈ Directive.leading? cs,
      q parts.1 parts.2.1 = true) :
    q s.disable s.target = true := by
  obtain ⟨comments', h', c, hc, front, cs, htext, hleads⟩ := hs
  obtain rfl := Except.ok.inj (h'.symm.trans h)
  obtain ⟨list, hread, -⟩ := hleads.exists_leading?
  have htail : cs ∈ c.text.tails := (List.mem_tails cs c.text).mpr ⟨front, htext.symm⟩
  exact hq c hc cs htail _ hread

/-- No directive stands in a text that cannot be cut. -/
theorem not_standsOn_of_error {s : Spelling} {source : String} {e : ParseError} {line : Nat}
    (h : lineComments source = .error e) : ¬ s.StandsOn source line := by
  rintro ⟨comments, hcomments, -⟩
  simp [h] at hcomments

end Spelling

namespace Silencing

/-- Of regions that are sorted by their lines, those before a line come first. -/
theorem takeWhile_regions {regions : List Region}
    (hsorted : regions.Pairwise fun a b => a.line < b.line) (line : Nat) :
    (regions.takeWhile fun r => decide (r.line < line)) =
      regions.filter fun r => decide (r.line < line) := by
  induction regions with
  | nil => rfl
  | cons r regions ih =>
      obtain ⟨hlater, hsorted⟩ := List.pairwise_cons.mp hsorted
      by_cases hr : r.line < line
      · rw [List.takeWhile_cons_of_pos (by simpa), List.filter_cons_of_pos (by simpa), ih hsorted]
      · have hnone : (regions.filter fun r => decide (r.line < line)) = [] := by
          rw [List.filter_eq_nil_iff]
          intro other hother
          have hlt := hlater other hother
          simp only [decide_eq_true_eq]
          omega
        rw [List.takeWhile_cons_of_neg (by simpa using hr),
          List.filter_cons_of_neg (by simpa using hr), hnone]

/-- **The last region decides.**  Of the regions that cover a rule the last one tells
whether it is disabled. -/
theorem foldl_regions (regions : List Region) (rule : String) (disabled : Bool) :
    regions.foldl (fun disabled r => if r.rules.covers rule then r.disable else disabled)
        disabled =
      ((regions.filter fun r => r.rules.covers rule).getLast?.map Region.disable).getD
        disabled := by
  induction regions generalizing disabled with
  | nil => rfl
  | cons r regions ih =>
      rw [List.foldl_cons, ih, List.filter_cons]
      split
      next =>
        rw [List.getLast?_cons]
        cases (regions.filter fun r => r.rules.covers rule).getLast? <;> rfl
      next => rfl

/-- Of regions that are sorted by their lines, the last one is behind the others. -/
theorem getLast?_regions_eq_some_iff {regions : List Region}
    (hsorted : regions.Pairwise fun a b => a.line < b.line) {r : Region} :
    regions.getLast? = some r ↔ r ∈ regions ∧ ∀ other ∈ regions, other.line ≤ r.line := by
  constructor
  · intro h
    obtain ⟨front, rfl⟩ := List.getLast?_eq_some_iff.mp h
    obtain ⟨-, -, hbefore⟩ := List.pairwise_append.mp hsorted
    refine ⟨by simp, ?_⟩
    intro other hother
    rcases List.mem_append.mp hother with hother | hother
    · exact Nat.le_of_lt (hbefore other hother r List.mem_cons_self)
    · exact Nat.le_of_eq (by rw [List.mem_singleton.mp hother])
  · rintro ⟨hr, hleast⟩
    cases hlast : regions.getLast? with
    | none =>
        obtain rfl := List.getLast?_eq_none_iff.mp hlast
        simp at hr
    | some last =>
        obtain ⟨front, rfl⟩ := List.getLast?_eq_some_iff.mp hlast
        obtain ⟨-, -, hbefore⟩ := List.pairwise_append.mp hsorted
        rcases List.mem_append.mp hr with hr | hr
        · have hlt := hbefore r hr last List.mem_cons_self
          have hle := hleast last (by simp)
          omega
        · rw [List.mem_singleton.mp hr]

/-- Going through regions in their order, the last one that covers a rule decides. -/
theorem foldl_regions_eq_true_iff {regions : List Region}
    (hsorted : regions.Pairwise fun a b => a.line < b.line) (rule : String) :
    (regions.foldl (fun disabled r => if r.rules.covers rule then r.disable else disabled)
        false) = true ↔
      ∃ r ∈ regions, r.disable = true ∧ r.rules.covers rule = true ∧
        ∀ other ∈ regions, other.rules.covers rule = true → other.line ≤ r.line := by
  have hlast := fun r : Region =>
    getLast?_regions_eq_some_iff (hsorted.filter fun r => r.rules.covers rule) (r := r)
  rw [foldl_regions]
  constructor
  · intro hdisable
    cases hcovering : (regions.filter fun r => r.rules.covers rule).getLast? with
    | none => simp [hcovering] at hdisable
    | some r =>
        obtain ⟨hr, hleast⟩ := (hlast r).mp hcovering
        obtain ⟨hr, hcovers⟩ := List.mem_filter.mp hr
        refine ⟨r, hr, by simpa [hcovering] using hdisable, hcovers, ?_⟩
        exact fun other hother hother' => hleast other (List.mem_filter.mpr ⟨hother, hother'⟩)
  · rintro ⟨r, hr, hdisable, hcovers, hleast⟩
    have hcovering := (hlast r).mpr ⟨List.mem_filter.mpr ⟨hr, hcovers⟩, fun other hother =>
      hleast other (List.mem_filter.mp hother).1 (List.mem_filter.mp hother).2⟩
    rw [hcovering]
    exact hdisable

/-- A region begins at a comment whose directive has no suffix. -/
theorem mem_regions_iff {comments : List LineComment} {r : Region} :
    r ∈ (ofComments comments).regions ↔
      ∃ c ∈ comments, ∃ d, Directive.ofComment? c.text = some d ∧ d.target = none ∧
        r = ⟨c.line, d.disable, d.rules⟩ := by
  simp only [ofComments, List.mem_filterMap, Option.map_eq_some_iff]
  constructor
  · rintro ⟨_, ⟨c, hc, d, hread, rfl⟩, hregion⟩
    cases htarget : d.target with
    | some target => simp [region?, htarget] at hregion
    | none => exact ⟨c, hc, d, hread, htarget, by simpa [region?, htarget, eq_comm] using hregion⟩
  · rintro ⟨c, hc, d, hread, htarget, rfl⟩
    exact ⟨(c.line, d), ⟨c, hc, d, hread, rfl⟩, by simp [region?, htarget]⟩

/-- A single line is silenced by a comment whose directive has a suffix. -/
theorem mem_lines_iff {comments : List LineComment} {line : Nat} {rules : RuleSelection} :
    (line, rules) ∈ (ofComments comments).lines ↔
      ∃ c ∈ comments, ∃ d, Directive.ofComment? c.text = some d ∧
        (∃ target, d.target = some target ∧ target.line? c.line = some line) ∧
        d.rules = rules := by
  simp only [ofComments, List.mem_filterMap, Option.map_eq_some_iff]
  constructor
  · rintro ⟨_, ⟨c, hc, d, hread, rfl⟩, hline⟩
    simp only [line?, Option.bind_eq_bind, Option.bind_eq_some_iff, Option.pure_def,
      Option.some.injEq, Prod.mk.injEq] at hline
    obtain ⟨target, htarget, found, hfound, rfl, hrules⟩ := hline
    exact ⟨c, hc, d, hread, ⟨target, htarget, hfound⟩, hrules⟩
  · rintro ⟨c, hc, d, hread, ⟨target, htarget, hfound⟩, rfl⟩
    exact ⟨(c.line, d), ⟨c, hc, d, hread, rfl⟩, by simp [line?, htarget, hfound]⟩

/-- Regions are sorted by their lines as comments are. -/
theorem pairwise_regions {comments : List LineComment}
    (hsorted : comments.Pairwise fun a b => a.line < b.line) :
    (ofComments comments).regions.Pairwise fun a b => a.line < b.line := by
  have hline : ∀ {c : LineComment} {p : Nat × Directive} {r : Region},
      (Directive.ofComment? c.text).map (fun d => (c.line, d)) = some p →
        region? p.1 p.2 = some r → r.line = c.line := by
    intro c p r hp hr
    obtain ⟨d, -, rfl⟩ := Option.map_eq_some_iff.mp hp
    unfold region? at hr
    split at hr
    next => exact (Option.some.inj hr) ▸ rfl
    next => simp at hr
  rw [ofComments, List.pairwise_filterMap, List.pairwise_filterMap]
  refine hsorted.imp ?_
  intro c c' hlt p hp p' hp' r hr r' hr'
  rw [hline hp hr, hline hp' hr']
  exact hlt

/-- What is silenced by directives as they are read. -/
theorem isDisabled_ofComments_iff {comments : List LineComment}
    (hsorted : comments.Pairwise fun a b => a.line < b.line) (line : Nat) (rule : String) :
    (ofComments comments).isDisabled line rule = true ↔
      (∃ c ∈ comments, ∃ d, Directive.ofComment? c.text = some d ∧
        (∃ target, d.target = some target ∧ target.line? c.line = some line) ∧
        d.rules.covers rule = true) ∨
      ∃ c ∈ comments, c.line < line ∧
        (∃ d, Directive.ofComment? c.text = some d ∧ (d.disable = true ∧ d.target = none) ∧
          d.rules.covers rule = true) ∧
        ∀ other ∈ comments, other.line < line →
          (∃ d, Directive.ofComment? other.text = some d ∧ d.target = none ∧
            d.rules.covers rule = true) → other.line ≤ c.line := by
  rw [isDisabled, Bool.or_eq_true, takeWhile_regions (pairwise_regions hsorted),
    foldl_regions_eq_true_iff ((pairwise_regions hsorted).filter _)]
  refine or_congr ?_ ?_
  · simp only [List.any_eq_true, Bool.and_eq_true, beq_iff_eq]
    constructor
    · rintro ⟨⟨found, rules⟩, hmem, rfl, hcovers⟩
      obtain ⟨c, hc, d, hread, htarget, rfl⟩ := mem_lines_iff.mp hmem
      exact ⟨c, hc, d, hread, htarget, hcovers⟩
    · rintro ⟨c, hc, d, hread, htarget, hcovers⟩
      exact ⟨(line, d.rules), mem_lines_iff.mpr ⟨c, hc, d, hread, htarget, rfl⟩, rfl, hcovers⟩
  · simp only [List.mem_filter, decide_eq_true_eq, mem_regions_iff]
    constructor
    · rintro ⟨_, ⟨⟨c, hc, d, hread, htarget, rfl⟩, hline⟩, hdisable, hcovers, hlast⟩
      refine ⟨c, hc, hline, ⟨d, hread, ⟨hdisable, htarget⟩, hcovers⟩, ?_⟩
      rintro other hother hbefore ⟨d', hread', htarget', hcovers'⟩
      exact hlast _ ⟨⟨other, hother, d', hread', htarget', rfl⟩, hbefore⟩ hcovers'
    · rintro ⟨c, hc, hline, ⟨d, hread, ⟨hdisable, htarget⟩, hcovers⟩, hlast⟩
      refine ⟨⟨c.line, d.disable, d.rules⟩, ⟨⟨c, hc, d, hread, htarget, rfl⟩, hline⟩, hdisable,
        hcovers, ?_⟩
      rintro _ ⟨⟨other, hother, d', hread', htarget', rfl⟩, hbefore⟩ hcovers'
      exact hlast other hother hbefore ⟨d', hread', htarget', hcovers'⟩

/-- A directive with a suffix that is read is one that is spelled. -/
theorem exists_targets_iff {source : String} {comments : List LineComment}
    (h : lineComments source = .ok comments) (line : Nat) (rule : String) :
    (∃ c ∈ comments, ∃ d, Directive.ofComment? c.text = some d ∧
        (∃ target, d.target = some target ∧ target.line? c.line = some line) ∧
        d.rules.covers rule = true) ↔
      1 ≤ line ∧ ∃ s : Spelling, s.Targets source line ∧ s.Covers rule := by
  have hspelled := fun c : LineComment => Spelling.exists_ofComment?_iff
    (fun _ target => ∃ t, target = some t ∧ t.line? c.line = some line) c.text rule
  constructor
  · rintro ⟨c, hc, hread⟩
    obtain ⟨s, hfirst, ⟨target, htarget, hline⟩, hcovers⟩ := (hspelled c).mp hread
    obtain ⟨hpos, hhits⟩ := (Target.line?_eq_some_iff (LineComment.line_pos h hc)).mp hline
    have hstands := (Spelling.standsOn_iff h).mpr ⟨c, hc, rfl, hfirst⟩
    exact ⟨hpos, s, ⟨c.line, target, hstands, htarget, hhits⟩, hcovers⟩
  · rintro ⟨hpos, s, ⟨own, target, hstands, htarget, hhits⟩, hcovers⟩
    obtain ⟨c, hc, rfl, hfirst⟩ := (Spelling.standsOn_iff h).mp hstands
    have hline := (Target.line?_eq_some_iff (LineComment.line_pos h hc)).mpr ⟨hpos, hhits⟩
    exact ⟨c, hc, (hspelled c).mpr ⟨s, hfirst, ⟨target, htarget, hline⟩, hcovers⟩⟩

/-- A directive without suffix that is read is one that is spelled. -/
theorem exists_opens_iff (q : Bool → Prop) {source : String} {comments : List LineComment}
    (h : lineComments source = .ok comments) (own : Nat) (rule : String) :
    (∃ c ∈ comments, c.line = own ∧ ∃ d, Directive.ofComment? c.text = some d ∧
        (q d.disable ∧ d.target = none) ∧ d.rules.covers rule = true) ↔
      ∃ s : Spelling, q s.disable ∧ s.Opens source rule own := by
  have hspelled := fun c : LineComment => Spelling.exists_ofComment?_iff
    (fun disable target => q disable ∧ target = none) c.text rule
  constructor
  · rintro ⟨c, hc, hline, hread⟩
    obtain ⟨s, hfirst, ⟨hq, htarget⟩, hcovers⟩ := (hspelled c).mp hread
    exact ⟨s, hq, (Spelling.standsOn_iff h).mpr ⟨c, hc, hline, hfirst⟩, htarget, hcovers⟩
  · rintro ⟨s, hq, hstands, htarget, hcovers⟩
    obtain ⟨c, hc, hline, hfirst⟩ := (Spelling.standsOn_iff h).mp hstands
    exact ⟨c, hc, hline, (hspelled c).mpr ⟨s, hfirst, ⟨hq, htarget⟩, hcovers⟩⟩

/-- What a text silences is told by its line comments. -/
theorem value_ofSource {source : String} {comments : List LineComment}
    (h : lineComments source = .ok comments) : (ofSource source).value = ofComments comments := by
  rw [ofSource, h]
  rfl

/-- A text that cannot be cut silences nothing. -/
theorem isDisabled_of_error {source : String} {e : ParseError}
    (h : lineComments source = .error e) (line : Nat) (rule : String) :
    (ofSource source).value.isDisabled line rule = false := by
  rw [ofSource, h]
  rfl

/-- **What is silenced.**  A rule is silent on a line if a directive with a suffix speaks of
that line, or if the last one without suffix before it disables. -/
theorem isDisabled_ofSource_iff (source : String) (line : Nat) (rule : String) :
    (ofSource source).value.isDisabled line rule = true ↔
      (1 ≤ line ∧ ∃ s : Spelling, s.Targets source line ∧ s.Covers rule) ∨
      ∃ s : Spelling, s.disable = true ∧ s.LastBefore source rule line := by
  cases h : lineComments source with
  | error e =>
      have hnone : ∀ (s : Spelling) (own : Nat), ¬ s.StandsOn source own :=
        fun s own => Spelling.not_standsOn_of_error h
      rw [isDisabled_of_error h, Bool.false_eq_true, false_iff]
      rintro (⟨-, s, ⟨own, target, hstands, -⟩, -⟩ | ⟨s, -, own, hopens, -⟩)
      · exact hnone s own hstands
      · exact hnone s own hopens.standsOn
  | ok comments =>
      rw [value_ofSource h, isDisabled_ofComments_iff (LineComment.pairwise_lineComments h),
        exists_targets_iff h]
      have hopens := fun q own => exists_opens_iff q h own rule
      refine or_congr Iff.rfl ?_
      -- The verb matters of the last directive only; the others are taken with either.
      constructor
      · rintro ⟨c, hc, hbefore, hread, hlast⟩
        obtain ⟨s, hdisable, hs⟩ := (hopens (· = true) _).mp ⟨c, hc, rfl, hread⟩
        refine ⟨s, hdisable, c.line, hs, hbefore, ?_⟩
        intro other own' hother hbefore'
        obtain ⟨c', hc', rfl, d, hread', ⟨-, htarget⟩, hcovers⟩ :=
          (hopens (fun _ => True) _).mpr ⟨other, trivial, hother⟩
        exact hlast c' hc' hbefore' ⟨d, hread', htarget, hcovers⟩
      · rintro ⟨s, hdisable, own, hs, hbefore, hlast⟩
        obtain ⟨c, hc, rfl, hread⟩ := (hopens (· = true) _).mpr ⟨s, hdisable, hs⟩
        refine ⟨c, hc, hbefore, hread, ?_⟩
        rintro c' hc' hbefore' ⟨d, hread', htarget, hcovers⟩
        obtain ⟨other, -, hother⟩ := (hopens (fun _ => True) _).mp
          ⟨c', hc', rfl, d, hread', ⟨trivial, htarget⟩, hcovers⟩
        exact hlast other c'.line hother hbefore'

/-- **Directives mean what is documented.**  In a text in which no `enable` that names a
rule has a suffix, a rule is silent on a line if some `disable` speaks of that line by its
suffix, or if the last directive without suffix before the line is a `disable`; and only
then.  A text that cannot be cut silences nothing. -/
theorem isDisabled_documented (source : String) :
    ((∀ (s : Spelling) (own : Nat) (named : String), s.StandsOn source own →
        s.target.isSome = true → s.Covers named → s.disable = true) →
      ∀ (line : Nat) (rule : String), 1 ≤ line →
        ((ofSource source).value.isDisabled line rule = true ↔
          (∃ s : Spelling, s.disable = true ∧ s.Targets source line ∧ s.Covers rule) ∨
          ∃ s : Spelling, s.disable = true ∧ s.LastBefore source rule line)) ∧
    ∀ e : ParseError, lineComments source = .error e →
      ∀ (line : Nat) (rule : String), (ofSource source).value.isDisabled line rule = false := by
  refine ⟨?_, fun e h line rule => isDisabled_of_error h line rule⟩
  intro hdocumented line rule hline
  rw [isDisabled_ofSource_iff]
  refine or_congr ?_ Iff.rfl
  constructor
  · rintro ⟨-, s, ⟨own, target, hstands, htarget, hhits⟩, hcovers⟩
    have hdisable := hdocumented s own rule hstands (by rw [htarget]; rfl) hcovers
    exact ⟨s, hdisable, ⟨own, target, hstands, htarget, hhits⟩, hcovers⟩
  · rintro ⟨s, -, htargets, hcovers⟩
    exact ⟨hline, s, htargets, hcovers⟩

/-- A rule is silenced on the second line and on the third. -/
def silencedStretch : String :=
  "// structlint:disable rule\n/* \n */ let b = 1 // structlint:enable rule"

theorem lineComments_silencedStretch :
    lineComments silencedStretch = .ok
      [⟨0, 1, "// structlint:disable rule".toList⟩,
        ⟨45, 3, "// structlint:enable rule".toList⟩] := by
  with_unfolding_all rfl

/-- The last directive before the third line disables the rule; the one on that line is
the last before the fourth. -/
theorem isDisabled_documented_stretch :
    (∀ (s : Spelling) (own : Nat) (named : String), s.StandsOn silencedStretch own →
      s.target.isSome = true → s.Covers named → s.disable = true) ∧
    1 ≤ 3 ∧
    ((∃ s : Spelling, s.disable = true ∧ s.Targets silencedStretch 3 ∧ s.Covers "rule") ∨
      ∃ s : Spelling, s.disable = true ∧ s.LastBefore silencedStretch "rule" 3) ∧
    1 ≤ 4 ∧
    ¬ ((∃ s : Spelling, s.disable = true ∧ s.Targets silencedStretch 4 ∧ s.Covers "rule") ∨
      ∃ s : Spelling, s.disable = true ∧ s.LastBefore silencedStretch "rule" 4) := by
  have hdocumented : ∀ (s : Spelling) (own : Nat) (named : String),
      s.StandsOn silencedStretch own → s.target.isSome = true → s.Covers named →
      s.disable = true := by
    intro s own named hstands htarget _
    have hread := hstands.occursIn.of_read (q := fun disable target => !target.isSome || disable)
      lineComments_silencedStretch (by decide +kernel)
    simpa [htarget] using hread
  have hmeaning := (isDisabled_documented silencedStretch).1 hdocumented
  have hsilent : (ofSource silencedStretch).value.isDisabled 3 "rule" = true := by
    rw [value_ofSource lineComments_silencedStretch]
    decide +kernel
  have hheard : (ofSource silencedStretch).value.isDisabled 4 "rule" ≠ true := by
    rw [value_ofSource lineComments_silencedStretch]
    decide +kernel
  exact ⟨hdocumented, by decide, (hmeaning 3 "rule" (by decide)).mp hsilent, by decide,
    fun h => hheard ((hmeaning 4 "rule" (by decide)).mpr h)⟩

/-- **What `enable` silences.**  A rule that is silent on a line is covered by some
`disable`, or by an `enable` that speaks of the line by its suffix.  Where every directive
that covers the rule enables, the rule is silent on the lines that suffixes speak of. -/
theorem isDisabled_enabling (source : String) (line : Nat) (rule : String) :
    ((ofSource source).value.isDisabled line rule = true →
      (∃ (s : Spelling) (own : Nat), s.StandsOn source own ∧ s.disable = true ∧
        s.Covers rule) ∨
      ∃ s : Spelling, s.disable = false ∧ s.Targets source line ∧ s.Covers rule) ∧
    ((∀ (s : Spelling) (own : Nat), s.StandsOn source own → s.Covers rule →
        s.disable = false) →
      ((ofSource source).value.isDisabled line rule = true ↔
        1 ≤ line ∧ ∃ s : Spelling, s.Targets source line ∧ s.Covers rule)) := by
  constructor
  · intro h
    rcases (isDisabled_ofSource_iff source line rule).mp h with
      ⟨-, s, htargets, hcovers⟩ | ⟨s, hdisable, own, hopens, -⟩
    · cases hverb : s.disable with
      | false => exact .inr ⟨s, hverb, htargets, hcovers⟩
      | true =>
          obtain ⟨own, target, hstands, -⟩ := htargets
          exact .inl ⟨s, own, hstands, hverb, hcovers⟩
    · exact .inl ⟨s, own, hopens.standsOn, hdisable, hopens.covers⟩
  · intro henable
    rw [isDisabled_ofSource_iff]
    refine or_iff_left ?_
    rintro ⟨s, hdisable, own, hopens, -⟩
    have hverb := henable s own hopens.standsOn hopens.covers
    simp [hdisable] at hverb

/-- A source text all of whose directives enable. -/
def enabledNext : String :=
  "// structlint:enable:next all\nlet a: Int\n// structlint:enable other_rule\n"

theorem lineComments_enabledNext :
    lineComments enabledNext = .ok
      [⟨0, 1, "// structlint:enable:next all".toList⟩,
        ⟨41, 3, "// structlint:enable other_rule".toList⟩] := by
  with_unfolding_all rfl

theorem disable_of_occursIn_enabledNext {s : Spelling} (h : s.OccursIn enabledNext) :
    s.disable = false := by
  have hread := h.of_read (q := fun disable _ => !disable) lineComments_enabledNext
    (by decide +kernel)
  simpa using hread

theorem isDisabled_enabledNext :
    (ofSource enabledNext).value.isDisabled 2 "discouraged_struct_runtime_let" = true ∧
      (ofSource enabledNext).value.isDisabled 3 "discouraged_struct_runtime_let" = false := by
  rw [value_ofSource lineComments_enabledNext]
  decide +kernel

/-- Nothing in the text disables, and its second line is silenced, by the suffix of the
directive before it. -/
theorem isDisabled_enabling_next :
    ((∃ (s : Spelling) (own : Nat), s.StandsOn enabledNext own ∧ s.disable = true ∧
        s.Covers "discouraged_struct_runtime_let") ∨
      ∃ s : Spelling, s.disable = false ∧ s.Targets enabledNext 2 ∧
        s.Covers "discouraged_struct_runtime_let") ∧
    (∀ (s : Spelling) (own : Nat), s.StandsOn enabledNext own →
      s.Covers "discouraged_struct_runtime_let" → s.disable = false) ∧
    (1 ≤ 2 ∧ ∃ s : Spelling, s.Targets enabledNext 2 ∧
      s.Covers "discouraged_struct_runtime_let") ∧
    ¬ (1 ≤ 3 ∧ ∃ s : Spelling, s.Targets enabledNext 3 ∧
      s.Covers "discouraged_struct_runtime_let") := by
  obtain ⟨hsilent, hheard⟩ := isDisabled_enabledNext
  have henable : ∀ (s : Spelling) (own : Nat), s.StandsOn enabledNext own →
      s.Covers "discouraged_struct_runtime_let" → s.disable = false :=
    fun s own hstands _ => disable_of_occursIn_enabledNext hstands.occursIn
  obtain ⟨hcause, hbelow⟩ := isDisabled_enabling enabledNext 2 "discouraged_struct_runtime_let"
  obtain ⟨-, hlater⟩ := isDisabled_enabling enabledNext 3 "discouraged_struct_runtime_let"
  refine ⟨hcause hsilent, henable, (hbelow henable).mp hsilent, fun h => ?_⟩
  simp [(hlater henable).mpr h] at hheard

/-- A rule is silent though no comment of the text holds a directive that disables. -/
theorem isDisabled_without_disable :
    ¬ ((ofSource enabledNext).value.isDisabled 2 "discouraged_struct_runtime_let" = true →
        ∃ s : Spelling, s.OccursIn enabledNext ∧ s.disable = true ∧
          s.Covers "discouraged_struct_runtime_let") ∧
    ¬ ((∀ s : Spelling, s.OccursIn enabledNext → s.disable = false) →
        (ofSource enabledNext).value.isDisabled 2 "discouraged_struct_runtime_let" = false) := by
  obtain ⟨hsilent, -⟩ := isDisabled_enabledNext
  constructor
  · intro h
    obtain ⟨s, hoccurs, hdisable, -⟩ := h hsilent
    simp [disable_of_occursIn_enabledNext hoccurs] at hdisable
  · intro h
    simp [h fun s => disable_of_occursIn_enabledNext] at hsilent

end Silencing

end DeclLint
