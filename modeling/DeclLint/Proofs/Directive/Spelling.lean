import DeclLint.Directive
import DeclLint.Proofs.Source.Cutting

/-!
# How directives are spelled

A directive is spelled with two slashes, blanks, `structlint:`, a verb, a suffix or
none, spaces or tabs, and a list of rules that goes on for as long as it can.  This is
said here without a reader, and so is which directive of a comment counts and which
rules a list names; the readers are then shown to find just what is spelled.

The spelling leaves open where the spaces end and the list begins, since a list may
begin with spaces too.  So a reader and a spelling agree on the names in a list and not
on its characters.

* `Spelling.Leads` — some characters begin with a directive;
* `Spelling.FirstIn` — it is the first directive among some characters;
* `Spelling.Covers` — it names a rule, or all of them;
* `mem_ruleNames_iff` — the names that are read are the ones between separators;
* `Spelling.exists_ofComment?_iff` — the directive that is read from a comment is the
  first one in it.
-/

namespace DeclLint

/-- A name stands in a list of rules: it holds no separator, and there is one, or no
more of the list, on either side of it. -/
def Lists (list name : List Char) : Prop :=
  name ≠ [] ∧ (∀ c ∈ name, separatesRules c = false) ∧
    ∃ front back, list = front ++ name ++ back ∧
      (∀ c ∈ front.getLast?, separatesRules c = true) ∧
      ∀ c ∈ back.head?, separatesRules c = true

/-- Characters are cut at separators as the library cuts a list. -/
theorem splitAtSeparators_eq_splitOnP (separates : Char → Bool) (cs : List Char) :
    splitAtSeparators separates cs = cs.splitOnP separates := by
  induction cs with
  | nil => simp [splitAtSeparators]
  | cons c cs ih =>
      have hne := List.splitOnP_ne_nil separates cs
      rw [List.splitOnP_cons_eq_if_modifyHead, ← ih]
      rw [← ih] at hne
      rw [splitAtSeparators, List.foldr_cons, ← splitAtSeparators]
      split
      next => rfl
      next =>
        cases hparts : splitAtSeparators separates cs with
        | nil => exact absurd hparts hne
        | cons part others => rfl

/-- A part that is cut out has a separator, or nothing more, on either side. -/
theorem exists_of_mem_splitOnP {separates : Char → Bool} {cs part : List Char}
    (h : part ∈ cs.splitOnP separates) :
    ∃ front back, cs = front ++ part ++ back ∧
      (∀ c ∈ front.getLast?, separates c = true) ∧
      ∀ c ∈ back.head?, separates c = true := by
  induction hlength : cs.length using Nat.strongRecOn generalizing cs with
  | ind length ih =>
    -- The induction is on what is left behind the first separator.
    cases hfind : cs.find? separates with
    | none =>
        have hword : ∀ c ∈ cs, separates c = false := by simpa using List.find?_eq_none.mp hfind
        rw [List.splitOnP_eq_singleton hword, List.mem_singleton] at h
        exact ⟨[], [], by simp [h], by simp, by simp⟩
    | some separator =>
        obtain ⟨hseparator, word, rest, rfl, hword⟩ := List.find?_eq_some_iff_append.mp hfind
        have hword : ∀ c ∈ word, separates c = false := by simpa using hword
        rw [List.splitOnP_append_cons_of_forall_mem hword _ hseparator] at h
        rcases List.mem_cons.mp h with rfl | h
        · exact ⟨[], separator :: rest, rfl, by simp, by simpa⟩
        · have hshorter : rest.length < length := by
            rw [← hlength, List.length_append, List.length_cons]
            omega
          obtain ⟨front, back, rfl, hfront, hback⟩ := ih _ hshorter h rfl
          refine ⟨word ++ separator :: front, back, by simp, ?_, hback⟩
          intro c hc
          cases front with
          | nil =>
              obtain rfl : separator = c := by simpa using hc
              exact hseparator
          | cons d front => exact hfront c (by simpa using hc)

/-- What has a separator or nothing behind it is cut off there. -/
theorem head_mem_splitOnP {separates : Char → Bool} {part back : List Char}
    (hpart : ∀ c ∈ part, separates c = false) (hback : ∀ c ∈ back.head?, separates c = true) :
    part ∈ (part ++ back).splitOnP separates := by
  cases back with
  | nil =>
      rw [List.append_nil, List.splitOnP_eq_singleton hpart]
      exact List.mem_singleton.mpr rfl
  | cons separator back =>
      rw [List.splitOnP_append_cons_of_forall_mem hpart _ (hback separator rfl)]
      exact List.mem_cons_self

/-- **The names in a list.**  They are the stretches between separators. -/
theorem mem_ruleNames_iff {list name : List Char} :
    name ∈ ruleNames list ↔ Lists list name := by
  constructor
  · intro h
    obtain ⟨hne, hname⟩ := mem_ruleNames h
    have hpart := (List.mem_filter.mp h).1
    rw [splitAtSeparators_eq_splitOnP] at hpart
    exact ⟨hne, hname, exists_of_mem_splitOnP hpart⟩
  · rintro ⟨hne, hname, front, back, rfl, hfront, hback⟩
    have hpart := head_mem_splitOnP hname hback
    refine List.mem_filter.mpr ⟨?_, by simpa using hne⟩
    rw [splitAtSeparators_eq_splitOnP, List.append_assoc]
    cases hlast : front.getLast? with
    | none =>
        obtain rfl := List.getLast?_eq_none_iff.mp hlast
        exact hpart
    | some separator =>
        obtain ⟨more, rfl⟩ := List.getLast?_eq_some_iff.mp hlast
        rw [List.append_assoc, List.singleton_append,
          List.splitOnP_append_cons _ _ (hfront separator hlast)]
        exact List.mem_append_right _ hpart

/-- Separators before a list add no name. -/
theorem ruleNames_append {gap : List Char} (hgap : ∀ c ∈ gap, separatesRules c = true)
    (list : List Char) : ruleNames (gap ++ list) = ruleNames list := by
  induction gap with
  | nil => rfl
  | cons c gap ih =>
      have hc := hgap c List.mem_cons_self
      rw [← ih fun d hd => hgap d (List.mem_cons_of_mem c hd)]
      simp [ruleNames, splitAtSeparators, hc]

namespace Directive

/-- The characters of a verb. -/
def verbText (disable : Bool) : List Char :=
  if disable then "disable".toList else "enable".toList

/-- The characters of a suffix, which may be missing. -/
def suffixText : Option Target → List Char
  | none => []
  | some .next => ":next".toList
  | some .this => ":this".toList
  | some .previous => ":previous".toList

end Directive

/-- A directive as it is spelled: its verb, its suffix if any, and the characters of
its list of rules. -/
structure Spelling where
  disable : Bool
  target : Option Target
  list : List Char

namespace Spelling

/-- Some characters begin with a directive.  No more of them could belong to its
list. -/
inductive Leads (s : Spelling) : List Char → Prop
  | intro {blanks gap rest : List Char}
      (hblanks : ∀ c ∈ blanks, isBlank c = true)
      (hgap : gap ≠ []) (hspace : ∀ c ∈ gap, c = ' ' ∨ c = '\t')
      (hlist : s.list ≠ []) (hrules : ∀ c ∈ s.list, Directive.isListCharacter c = true)
      (hends : ∀ c ∈ rest.head?, Directive.isListCharacter c = false) :
      Leads s ("//".toList ++ (blanks ++ ("structlint:".toList ++
        (Directive.verbText s.disable ++ (Directive.suffixText s.target ++
          (gap ++ (s.list ++ rest)))))))

/-- A directive is the first one among some characters. -/
def FirstIn (s : Spelling) (text : List Char) : Prop :=
  ∃ front cs, text = front ++ cs ∧ s.Leads cs ∧
    ∀ front' cs', text = front' ++ cs' → front'.length < front.length →
      ∀ other : Spelling, ¬ other.Leads cs'

/-- A directive covers the rules it names, and every rule if it names `all`. -/
def Covers (s : Spelling) (rule : String) : Prop :=
  Lists s.list rule.toList ∨ Lists s.list "all".toList

end Spelling

namespace Directive

/-- What is left behind a word is told by the text. -/
theorem after?_eq_some_iff {word cs rest : List Char} :
    after? word cs = some rest ↔ cs = word ++ rest := by
  unfold after?
  split
  next h =>
    obtain ⟨tail, rfl⟩ := List.isPrefixOf_iff_prefix.mp h
    simp [eq_comm]
  next h =>
    simp only [reduceCtorEq, false_iff]
    rintro rfl
    simp at h

theorem after?_append (word rest : List Char) : after? word (word ++ rest) = some rest :=
  after?_eq_some_iff.mpr rfl

/-- A word is found behind blanks if it begins with none. -/
theorem after?_dropBlanks {word blanks : List Char} (hblanks : ∀ c ∈ blanks, isBlank c = true)
    (hword : ∃ c ∈ word.head?, isBlank c = false) (rest : List Char) :
    after? word (dropBlanks (blanks ++ (word ++ rest))) = some rest := by
  obtain ⟨c, hhead, hc⟩ := hword
  obtain ⟨more, rfl⟩ := List.head?_eq_some_iff.mp hhead
  rw [dropBlanks, List.dropWhile_append_of_pos hblanks, List.cons_append,
    List.dropWhile_cons_of_neg (by simp [hc])]
  exact after?_append (c :: more) rest

/-- A verb that is spelled out is read back, whatever follows it. -/
theorem verb?_verbText (disable : Bool) (rest : List Char) :
    verb? (verbText disable ++ rest) = some (disable, rest) := by
  unfold verb? verbText
  cases disable with
  | true => rw [if_pos rfl, after?_append]
  | false =>
      have hother : after? "disable".toList ("enable".toList ++ rest) = none := rfl
      rw [if_neg (by simp), hother, after?_append]
      rfl

theorem suffix_suffixText (target : Option Target) {space : Char}
    (hspace : space = ' ' ∨ space = '\t') (rest : List Char) :
    suffix (suffixText target ++ space :: rest) = (target, space :: rest) := by
  cases target with
  | none => rcases hspace with rfl | rfl <;> rfl
  | some target => cases target <;> rfl

/-- A list of rules is read up to the first character that cannot belong to one. -/
theorem ruleList?_append {space : Char} {list rest : List Char}
    (hspace : space = ' ' ∨ space = '\t') (hlist : list ≠ [])
    (hrules : ∀ c ∈ list, isListCharacter c = true)
    (hends : ∀ c ∈ rest.head?, isListCharacter c = false) :
    ruleList? (space :: (list ++ rest)) = some list := by
  have hstop : rest.takeWhile isListCharacter = [] := by
    cases rest with
    | nil => rfl
    | cons c rest => simp [hends c rfl]
  have hread : (space :: (list ++ rest)).takeWhile isListCharacter = space :: list := by
    have hspaces : isListCharacter space = true := by rcases hspace with rfl | rfl <;> decide
    rw [List.takeWhile_cons_of_pos hspaces, List.takeWhile_append_of_pos hrules, hstop,
      List.append_nil]
  obtain ⟨c, more, rfl⟩ := List.exists_cons_of_ne_nil hlist
  rw [ruleList?, hread]
  exact if_pos hspace

/-- A verb that is read stands there. -/
theorem eq_of_verb?_eq_some {cs rest : List Char} {disable : Bool}
    (h : verb? cs = some (disable, rest)) : cs = verbText disable ++ rest := by
  unfold verb? at h
  split at h
  next hdisable =>
    obtain ⟨rfl, rfl⟩ : true = disable ∧ _ = rest := by simpa using h
    exact after?_eq_some_iff.mp hdisable
  next =>
    obtain ⟨found, hfound, heq⟩ := Option.map_eq_some_iff.mp h
    obtain ⟨rfl, rfl⟩ := Prod.mk.inj heq
    exact after?_eq_some_iff.mp hfound

theorem suffixText_suffix (cs : List Char) : suffixText (suffix cs).1 ++ (suffix cs).2 = cs := by
  unfold suffix
  split
  next hnext => exact (after?_eq_some_iff.mp hnext).symm
  next hthis _ => exact (after?_eq_some_iff.mp hthis).symm
  next hprevious _ _ => exact (after?_eq_some_iff.mp hprevious).symm
  next => rfl

/-- A list that is read stands behind a blank and goes as far as it can. -/
theorem exists_of_ruleList?_eq_some {cs list : List Char} (h : ruleList? cs = some list) :
    ∃ space rest, cs = space :: (list ++ rest) ∧ (space = ' ' ∨ space = '\t') ∧ list ≠ [] ∧
      (∀ c ∈ list, isListCharacter c = true) ∧
      ∀ c ∈ rest.head?, isListCharacter c = false := by
  have hsplit := List.takeWhile_append_dropWhile (p := isListCharacter) (l := cs)
  unfold ruleList? at h
  split at h
  next space c more hread =>
    split at h
    next hspace =>
      obtain rfl := Option.some.inj h
      refine ⟨space, cs.dropWhile isListCharacter, ?_, hspace, by simp, ?_, ?_⟩
      · rw [hread] at hsplit
        exact hsplit.symm
      · intro d hd
        exact of_mem_takeWhile (hread ▸ List.mem_cons_of_mem space hd)
      · exact fun d hd => head?_dropWhile_false d hd
    next => simp at h
  next => simp at h

end Directive

namespace Spelling

open Directive

/-- Whether a rule is covered is told by the names that are read. -/
theorem covers_iff {s : Spelling} {rule : String} :
    s.Covers rule ↔ rule.toList ∈ ruleNames s.list ∨ "all".toList ∈ ruleNames s.list := by
  rw [Covers, mem_ruleNames_iff, mem_ruleNames_iff]

/-- What is spelled at the beginning is read there. -/
theorem Leads.exists_leading? {s : Spelling} {cs : List Char} (h : s.Leads cs) :
    ∃ list, leading? cs = some (s.disable, s.target, list) ∧
      ruleNames list = ruleNames s.list := by
  cases h with
  | @intro blanks gap rest hblanks hgap hspace hlist hrules hends =>
      obtain ⟨space, gap, rfl⟩ := List.exists_cons_of_ne_nil hgap
      have hfirst := hspace space List.mem_cons_self
      have hgap : ∀ c ∈ gap, separatesRules c = true ∧ isListCharacter c = true := by
        intro c hc
        rcases hspace c (List.mem_cons_of_mem space hc) with rfl | rfl <;> decide
      -- All but the first space before the list is read as part of it.
      have hread : ruleList? (space :: (gap ++ s.list ++ rest)) = some (gap ++ s.list) := by
        refine ruleList?_append hfirst (by simp [hlist]) ?_ hends
        intro c hc
        rcases List.mem_append.mp hc with hc | hc
        · exact (hgap c hc).2
        · exact hrules c hc
      refine ⟨gap ++ s.list, ?_, ruleNames_append (fun c hc => (hgap c hc).1) s.list⟩
      have hmark : ∀ behind, after? "structlint:".toList
          (dropBlanks (blanks ++ ("structlint:".toList ++ behind))) = some behind :=
        after?_dropBlanks hblanks ⟨'s', rfl, by decide⟩
      have happend : space :: gap ++ (s.list ++ rest) = space :: (gap ++ s.list ++ rest) := by simp
      rw [happend]
      simp only [leading?, Option.bind_eq_bind, Option.bind_some, after?_append, hmark,
        verb?_verbText, suffix_suffixText s.target hfirst, hread, Option.pure_def]

/-- What is read at the beginning is spelled there. -/
theorem leads_of_leading? {cs list : List Char} {disable : Bool} {target : Option Target}
    (h : leading? cs = some (disable, target, list)) : (mk disable target list).Leads cs := by
  simp only [leading?, Option.bind_eq_bind, Option.bind_eq_some_iff, Option.pure_def,
    Option.some.injEq, Prod.mk.injEq, Prod.exists] at h
  obtain ⟨behind, hslashes, behind', hmark, read, verbless, hverb, rules, hlist, rfl, rfl, rfl⟩ := h
  obtain ⟨space, rest, hrest, hspace, hne, hrules, hends⟩ := exists_of_ruleList?_eq_some hlist
  have hblanks : ∀ c ∈ behind.takeWhile isBlank, isBlank c = true :=
    fun c hc => of_mem_takeWhile hc
  have hbehind : behind = behind.takeWhile isBlank ++ ("structlint:".toList ++ behind') := by
    rw [← after?_eq_some_iff.mp hmark, dropBlanks, List.takeWhile_append_dropWhile]
  have hspaces : ∀ c ∈ [space], c = ' ' ∨ c = '\t' := by simpa using hspace
  have hleads := Leads.intro (s := .mk read (suffix verbless).1 rules) hblanks
    (List.cons_ne_nil space []) hspaces hne hrules hends
  rw [List.singleton_append, ← hrest, suffixText_suffix, ← eq_of_verb?_eq_some hverb, ← hbehind,
    ← after?_eq_some_iff.mp hslashes] at hleads
  exact hleads

theorem Leads.ne_nil {s : Spelling} {cs : List Char} (h : s.Leads cs) : cs ≠ [] := by
  cases h with
  | intro => simp

theorem not_firstIn_nil (s : Spelling) : ¬ s.FirstIn [] := by
  rintro ⟨front, cs, hcs, hleads, -⟩
  exact hleads.ne_nil (List.append_eq_nil_iff.mp hcs.symm).2

/-- A directive is the first one where it begins, or behind a place where none begins. -/
theorem firstIn_cons_iff {s : Spelling} {c : Char} {cs : List Char} :
    s.FirstIn (c :: cs) ↔
      s.Leads (c :: cs) ∨ (∀ other : Spelling, ¬ other.Leads (c :: cs)) ∧ s.FirstIn cs := by
  constructor
  · rintro ⟨front, cs', hcs, hleads, hnone⟩
    cases front with
    | nil => exact .inl (hcs ▸ hleads)
    | cons d front =>
        obtain ⟨rfl, rfl⟩ := List.cons.inj hcs
        refine .inr ⟨hnone [] _ rfl (by simp), front, cs', rfl, hleads, ?_⟩
        intro front' back heq hshorter
        exact hnone (c :: front') back (by rw [heq]; rfl) (by simpa using hshorter)
  · rintro (hleads | ⟨hnone, front, cs', rfl, hleads, hearlier⟩)
    · exact ⟨[], c :: cs, rfl, hleads, by simp⟩
    · refine ⟨c :: front, cs', rfl, hleads, ?_⟩
      intro front' back heq hshorter
      cases front' with
      | nil =>
          obtain rfl : c :: (front ++ cs') = back := heq
          exact hnone
      | cons d front' =>
          obtain ⟨-, heq⟩ := List.cons.inj heq
          exact hearlier front' back heq (by simpa using hshorter)

/-- **The first directive is read.** -/
theorem FirstIn.exists_first? {s : Spelling} {text : List Char} (h : s.FirstIn text) :
    ∃ list, first? text = some (s.disable, s.target, list) ∧
      ruleNames list = ruleNames s.list := by
  induction text with
  | nil => exact absurd h (not_firstIn_nil s)
  | cons c cs ih =>
      rw [first?]
      rcases firstIn_cons_iff.mp h with hleads | ⟨hnone, hrest⟩
      · obtain ⟨list, hread, hnames⟩ := hleads.exists_leading?
        rw [hread]
        exact ⟨list, rfl, hnames⟩
      · cases hread : leading? (c :: cs) with
        | none => exact ih hrest
        | some found => exact absurd (leads_of_leading? hread) (hnone _)

/-- **What is read is the first directive.** -/
theorem firstIn_of_first? {text list : List Char} {disable : Bool} {target : Option Target}
    (h : first? text = some (disable, target, list)) : (mk disable target list).FirstIn text := by
  induction text with
  | nil => simp [first?] at h
  | cons c cs ih =>
      rw [first?] at h
      rw [firstIn_cons_iff]
      cases hread : leading? (c :: cs) with
      | some found =>
          rw [hread] at h
          obtain rfl := Option.some.inj h
          exact .inl (leads_of_leading? hread)
      | none =>
          rw [hread] at h
          refine .inr ⟨?_, ih h⟩
          intro other hleads
          obtain ⟨list', hread', -⟩ := hleads.exists_leading?
          simp [hread] at hread'

end Spelling

/-- A selection covers the rules that are named, and every rule if `all` is. -/
theorem RuleSelection.exists_ofList?_iff {list : List Char} {rule : String} :
    (∃ selection, ofList? list = some selection ∧ selection.covers rule = true) ↔
      rule.toList ∈ ruleNames list ∨ "all".toList ∈ ruleNames list := by
  have hmem : ∀ name : String,
      name ∈ (ruleNames list).map String.ofList ↔ name.toList ∈ ruleNames list := by
    intro name
    rw [List.mem_map]
    constructor
    · rintro ⟨cs, hcs, rfl⟩
      rwa [String.toList_ofList]
    · exact fun h => ⟨name.toList, h, String.ofList_toList⟩
  rw [← hmem, ← hmem]
  unfold ofList?
  dsimp only
  split
  next hempty =>
    have hnil : (ruleNames list).map String.ofList = [] := by simpa using hempty
    simp [hnil]
  next =>
    split
    next hall =>
      have hall : "all" ∈ (ruleNames list).map String.ofList := by simpa using hall
      simp [covers, hall]
    next hall =>
      have hall : "all" ∉ (ruleNames list).map String.ofList := by simpa using hall
      simp only [Option.some.injEq, exists_eq_left', covers, List.contains_iff_mem, hall, or_false]

/-- **The directive of a comment.**  What is read from a comment and covers a rule is
the first directive in it, if that one covers the rule. -/
theorem Spelling.exists_ofComment?_iff (q : Bool → Option Target → Prop) (text : List Char)
    (rule : String) :
    (∃ d, Directive.ofComment? text = some d ∧ q d.disable d.target ∧
        d.rules.covers rule = true) ↔
      ∃ s : Spelling, s.FirstIn text ∧ q s.disable s.target ∧ s.Covers rule := by
  constructor
  · rintro ⟨d, hread, hq, hcovers⟩
    simp only [Directive.ofComment?, Option.bind_eq_bind, Option.bind_eq_some_iff,
      Option.pure_def, Option.some.injEq, Prod.exists] at hread
    obtain ⟨disable, target, list, hfirst, selection, hlist, rfl⟩ := hread
    refine ⟨⟨disable, target, list⟩, firstIn_of_first? hfirst, hq, covers_iff.mpr ?_⟩
    exact RuleSelection.exists_ofList?_iff.mp ⟨selection, hlist, hcovers⟩
  · rintro ⟨s, hfirst, hq, hcovers⟩
    obtain ⟨list, hread, hnames⟩ := hfirst.exists_first?
    rw [covers_iff, ← hnames] at hcovers
    obtain ⟨selection, hlist, hcovers⟩ := RuleSelection.exists_ofList?_iff.mpr hcovers
    refine ⟨⟨s.disable, s.target, selection⟩, ?_, hq, hcovers⟩
    simp [Directive.ofComment?, hread, hlist]

end DeclLint
