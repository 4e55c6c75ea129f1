import DeclLint.Proofs.Outline.Stretch

/-!
# The segments of a text and its curly brackets

A reader that knows nothing of frames cuts the tokens into segments: a curly bracket, a token
that stands alone, or a token with the stretch it brings with it.  There is exactly one way to
do so.  The curly brackets that are segments of their own are those at which bodies begin and
end, and they alone decide whether the tokens are read: the brackets of a stretch are passed
over, whatever they are.

* `Outline.Reads` — the segments of some tokens;
* `Outline.exists_reads`, `Outline.Reads.unique` — there is one way to cut them;
* `Outline.exists_readsTo` — a step takes segments and opens and closes frames at their
  curly brackets;
* `Outline.run_eq_ok_iff` — **a run succeeds just where these match each other.**
-/

namespace DeclLint

namespace Outline

open DeclLint.Bracket

/-- Whether a token is a curly bracket. -/
def IsBrace (t : Token) : Prop := t.lexeme = .mark '{' ∨ t.lexeme = .mark '}'

/-- What the reader takes at a time. -/
inductive Segment where
  /-- A curly bracket at which a body begins or ends. -/
  | brace (t : Token)
  /-- A token that brings nothing with it. -/
  | plain (t : Token)
  /-- A token and the stretch that it brings with it. -/
  | stretch (kind : Introduction) (t : Token) (following : List Token)
deriving DecidableEq, Repr

/-- The tokens of a segment. -/
def Segment.tokens : Segment → List Token
  | brace t => [t]
  | plain t => [t]
  | stretch _ t following => t :: following

/-- The curly bracket that a segment is. -/
def Segment.brace? : Segment → Option Token
  | brace t => some t
  | plain _ => none
  | stretch _ _ _ => none

/-- The stretch of a segment. -/
def Segment.following : Segment → List Token
  | brace _ => []
  | plain _ => []
  | stretch _ _ following => following

/-- The segments of some tokens.  `past` is what stands before them, last token first. -/
inductive Reads : List Token → List Token → List Segment → Prop
  | done (past : List Token) : Reads past [] []
  | brace {past ts : List Token} {t : Token} {segments : List Segment} (hbrace : IsBrace t)
      (tail : Reads (t :: past) ts segments) : Reads past (t :: ts) (.brace t :: segments)
  | plain {past ts : List Token} {t : Token} {segments : List Segment} (hbrace : ¬ IsBrace t)
      (halone : ∀ kind, ¬ Introduces past t ts kind) (tail : Reads (t :: past) ts segments) :
      Reads past (t :: ts) (.plain t :: segments)
  | stretch {past following rest : List Token} {t : Token} {kind : Introduction}
      {segments : List Segment} (hkind : Introduces past t (following ++ rest) kind)
      (htakes : Takes (t :: past) kind following rest)
      (tail : Reads (following.reverse ++ t :: past) rest segments) :
      Reads past (t :: (following ++ rest)) (.stretch kind t following :: segments)

variable {past ts rest following : List Token} {segments others : List Segment} {t : Token}
  {kind kind' : Introduction} {word : String} {s next : State}

section Unique

theorem Introduces.not_isBrace (h : Introduces past t rest kind) : ¬ IsBrace t := by
  unfold IsBrace
  cases h with
  | decoration hmark => simp [hmark]
  | modifier hword | type hword | function hword | definition hword => simp [hword]

/-- A word that introduces a variable introduces nothing else. -/
theorem notMem_of_variable (h : word = "let" ∨ word = "var") :
    word ∉ declarationModifiers ∧ word ∉ typeIntroducers ∧ word ∉ functionIntroducers := by
  rcases h with rfl | rfl <;> decide

/-- No modifier introduces a type or a function. -/
theorem notMem_of_modifier (h : word ∈ declarationModifiers) :
    word ∉ typeIntroducers ∧ word ∉ functionIntroducers := by
  have hall : ∀ w ∈ declarationModifiers, w ∉ typeIntroducers ∧ w ∉ functionIntroducers := by
    decide
  exact hall word h

/-- A token brings others with it for one reason. -/
theorem Introduces.kind_unique (h : Introduces past t rest kind)
    (h' : Introduces past t rest kind') : kind = kind' := by
  cases h <;> cases h' <;> simp_all [notMem_of_variable, notMem_of_modifier]

/-- **There is a way to cut.** -/
theorem exists_reads (past ts : List Token) : ∃ segments, Reads past ts segments := by
  induction hlength : ts.length using Nat.strongRecOn generalizing past ts with
  | ind n ih =>
      cases ts with
      | nil => exact ⟨[], .done past⟩
      | cons t ts =>
          by_cases hbrace : IsBrace t
          · obtain ⟨segments, htail⟩ := ih ts.length (by simp [← hlength]) (t :: past) ts rfl
            exact ⟨_, .brace hbrace htail⟩
          by_cases halone : ∀ kind, ¬ Introduces past t ts kind
          · obtain ⟨segments, htail⟩ := ih ts.length (by simp [← hlength]) (t :: past) ts rfl
            exact ⟨_, .plain hbrace halone htail⟩
          · obtain ⟨kind, hkind⟩ := Classical.not_forall_not.mp halone
            obtain ⟨following, rest, rfl, htakes⟩ := hkind.exists_takes (t :: past)
            have hshorter : rest.length < n := by
              rw [← hlength, List.length_cons, List.length_append]
              omega
            obtain ⟨segments, htail⟩ := ih _ hshorter (following.reverse ++ t :: past) rest rfl
            exact ⟨_, .stretch hkind htakes htail⟩

/-- **There is one way to cut.** -/
theorem Reads.unique (h : Reads past ts segments) (h' : Reads past ts others) :
    segments = others := by
  induction h generalizing others with
  | done past =>
      cases h' with
      | done => rfl
  | brace hbrace tail ih =>
      cases h' with
      | brace _ tail' => rw [ih tail']
      | plain hnone => exact absurd hbrace hnone
      | stretch hkind => exact absurd hbrace hkind.not_isBrace
  | plain hnone halone tail ih =>
      cases h' with
      | brace hbrace => exact absurd hbrace hnone
      | plain _ _ tail' => rw [ih tail']
      | stretch hkind => exact absurd hkind (halone _)
  | @stretch past following rest t kind segments hkind htakes tail ih =>
      generalize hts : t :: (following ++ rest) = ts at h'
      cases h' with
      | done => cases hts
      | brace hbrace =>
          obtain ⟨rfl, -⟩ := List.cons.inj hts
          exact absurd hbrace hkind.not_isBrace
      | plain hnone halone =>
          obtain ⟨rfl, rfl⟩ := List.cons.inj hts
          exact absurd hkind (halone _)
      | stretch hkind' htakes' tail' =>
          obtain ⟨rfl, hsplit⟩ := List.cons.inj hts
          rw [← hsplit] at hkind'
          obtain rfl := hkind.kind_unique hkind'
          obtain rfl := htakes.unique htakes' hsplit
          obtain rfl := List.append_cancel_left hsplit
          rw [ih tail']

/-- The segments hold the tokens. -/
theorem Reads.flatMap_tokens (h : Reads past ts segments) : segments.flatMap Segment.tokens = ts := by
  induction h with
  | done => rfl
  | brace _ _ ih | plain _ _ _ ih => simpa [Segment.tokens] using ih
  | stretch _ _ _ ih => simpa [Segment.tokens] using ih

end Unique

section Steps

/-- A step takes some segments.  At their curly brackets it opens and closes frames. -/
structure State.ReadsTo (s next : State) (ahead : List Token) (taken : List Segment) : Prop where
  reads : ∀ segments, Reads next.past next.rest segments → Reads s.past ahead (taken ++ segments)
  frames : after (List.replicate s.frames.length .brace) (taken.filterMap Segment.brace?) =
    some (List.replicate next.frames.length .brace)

/-- A token that stands alone is passed. -/
theorem State.ReadsTo.of_plain (hbrace : ¬ IsBrace t)
    (halone : ∀ kind, ¬ Introduces s.past t rest kind) (hpast : next.past = t :: s.past)
    (hrest : next.rest = rest) (hframes : next.frames = s.frames) :
    s.ReadsTo next (t :: rest) [.plain t] := by
  refine ⟨fun segments htail => ?_, ?_⟩
  · rw [hpast, hrest] at htail
    exact .plain hbrace halone htail
  · rw [hframes]
    rfl

/-- A token is passed with the stretch it brings with it. -/
theorem State.ReadsTo.of_stretch (hkind : Introduces s.past t (following ++ rest) kind)
    (htakes : Takes (t :: s.past) kind following rest)
    (hpast : next.past = following.reverse ++ t :: s.past) (hrest : next.rest = rest)
    (hframes : next.frames = s.frames) :
    s.ReadsTo next (t :: (following ++ rest)) [.stretch kind t following] := by
  refine ⟨fun segments htail => ?_, ?_⟩
  · rw [hpast, hrest] at htail
    exact .stretch hkind htakes htail
  · rw [hframes]
    rfl

/-- The body behind a stretch is entered at its curly bracket. -/
theorem State.ReadsTo.of_body {brace : Token} {owner : Owner} {scope : Scope}
    (hkind : Introduces s.past t (following ++ brace :: rest) kind)
    (htakes : Takes (t :: s.past) kind following (brace :: rest))
    (hbrace : brace.lexeme = .mark '{') :
    s.ReadsTo (s.enter owner scope (following.reverse ++ t :: s.past) brace rest)
      (t :: (following ++ brace :: rest)) [.stretch kind t following, .brace brace] := by
  refine ⟨fun segments htail => .stretch hkind htakes (.brace (.inl hbrace) htail), ?_⟩
  have hopens : brace.opens? = some .brace := Token.opens?_eq_some_iff.mpr hbrace
  exact after_cons_eq_some_iff.mpr ⟨_, turn_of_opens hopens _, rfl⟩

theorem not_isBrace_of_word (hword : t.lexeme = .word word) : ¬ IsBrace t := by
  simp [IsBrace, hword]

/-- A word stands alone if it introduces nothing where it stands. -/
theorem alone_of_word (hword : t.lexeme = .word word) (hmodifier : word ∉ declarationModifiers)
    (htype : word ∈ typeIntroducers → startsType past rest = true →
      word = "class" ∧ nextWordIsOf classModifierFollowers rest = true)
    (hfunction : word ∈ functionIntroducers → startsFunction past = false)
    (hvariable : word = "let" ∨ word = "var" → isBindingPattern past = true) (kind : Introduction) :
    ¬ Introduces past t rest kind := by
  intro h
  cases h with
  | decoration hmark => simp [hword] at hmark
  | modifier hword' hmem =>
      obtain rfl := Lexeme.word.inj (hword.symm.trans hword')
      exact hmodifier hmem
  | type hword' hmem hstarts hclass =>
      obtain rfl := Lexeme.word.inj (hword.symm.trans hword')
      obtain ⟨hword, hfollowed⟩ := htype hmem hstarts
      simp [hclass hword] at hfollowed
  | function hword' hmem hstarts =>
      obtain rfl := Lexeme.word.inj (hword.symm.trans hword')
      simp [hfunction hmem] at hstarts
  | definition hword' hmem hpattern =>
      obtain rfl := Lexeme.word.inj (hword.symm.trans hword')
      simp [hvariable hmem] at hpattern

/-- A word of none of the lists stands alone wherever it stands. -/
theorem alone_of_plain_word (hword : t.lexeme = .word word)
    (h : word ∉ declarationModifiers ++ typeIntroducers ++ functionIntroducers ++ ["let", "var"])
    (kind : Introduction) : ¬ Introduces past t rest kind := by
  simp only [List.mem_append, List.mem_cons, List.not_mem_nil, or_false, not_or] at h
  obtain ⟨⟨⟨hmodifier, htype⟩, hfunction⟩, hlet, hvar⟩ := h
  exact alone_of_word hword hmodifier (fun hmem => absurd hmem htype)
    (fun hmem => absurd hmem hfunction) (fun hmem => hmem.elim (absurd · hlet) (absurd · hvar)) kind

/-- A token that is neither a word nor `@` stands alone. -/
theorem alone_of_not_word (hword : ∀ word, t.lexeme ≠ .word word) (hat : t.lexeme ≠ .mark '@')
    (kind : Introduction) : ¬ Introduces past t rest kind := by
  intro h
  cases h with
  | decoration hmark => exact hat hmark
  | modifier hword' | type hword' | function hword' | definition hword' => exact hword _ hword'

/-- A type reads its header as one stretch, and its curly bracket by itself. -/
theorem State.readType_readsTo (hkind : Introduces s.past t rest .header) :
    ∃ taken, s.ReadsTo (s.readType word t rest) (t :: rest) taken := by
  obtain ⟨following, rest, rfl, hcursor, htakes⟩ := passHeader_takes (t :: s.past) rest
  unfold State.readType
  split
  next past brace rest' hend =>
    rw [hend] at hcursor
    obtain ⟨rfl, rfl⟩ := Cursor.mk.inj hcursor
    exact ⟨_, .of_body hkind htakes (passHeader_brace hend)⟩
  next past rest' hend =>
    rw [hend] at hcursor
    obtain ⟨rfl, rfl⟩ := Cursor.mk.inj hcursor
    exact ⟨_, .of_stretch hkind htakes rfl rfl rfl⟩

/-- So does a function. -/
theorem State.readFunction_readsTo (hkind : Introduces s.past t rest .header) :
    ∃ taken, s.ReadsTo (s.readFunction word t rest) (t :: rest) taken := by
  obtain ⟨following, rest, rfl, hcursor, htakes⟩ := passHeader_takes (t :: s.past) rest
  unfold State.readFunction
  dsimp only
  split
  next past brace rest' hend =>
    rw [hend] at hcursor
    obtain ⟨rfl, rfl⟩ := Cursor.mk.inj hcursor
    exact ⟨_, .of_body hkind htakes (passHeader_brace hend)⟩
  next past rest' hend =>
    rw [hend] at hcursor
    obtain ⟨rfl, rfl⟩ := Cursor.mk.inj hcursor
    exact ⟨_, .of_stretch hkind htakes rfl rfl rfl⟩

/-- A variable reads its definition as one stretch, and the curly bracket of its accessors by
itself. -/
theorem State.readVariable_readsTo (hkind : Introduces s.past t rest .definition) :
    ∃ taken, s.ReadsTo (s.readVariable t rest) (t :: rest) taken := by
  obtain ⟨following, rest, rfl, hcursor, htakes⟩ := passVariable_takes (t :: s.past) rest
  unfold State.readVariable
  dsimp only
  split
  next past brace rest' hend =>
    rw [hend] at hcursor
    obtain ⟨rfl, rfl⟩ := Cursor.mk.inj hcursor
    exact ⟨_, .of_body hkind htakes (passVariable_brace hend)⟩
  next past rest' hend =>
    rw [hend] at hcursor
    obtain ⟨rfl, rfl⟩ := Cursor.mk.inj hcursor
    exact ⟨_, .of_stretch hkind htakes rfl rfl rfl⟩

/-- The tokens of `(set)` stand alone. -/
theorem setterSuffix?_reads {c : Cursor} (h : setterSuffix? past rest = some c) :
    ∃ taken, taken.filterMap Segment.brace? = [] ∧
      ∀ segments, Reads c.past c.rest segments → Reads past rest (taken ++ segments) := by
  unfold setterSuffix? at h
  split at h
  next first middle last ts =>
    split at h
    next hsuffix =>
      simp only [Bool.and_eq_true] at hsuffix
      obtain ⟨⟨hround, hset⟩, hlast⟩ := hsuffix
      obtain rfl := Option.some.inj h
      have hfirst : first.lexeme = .mark '(' :=
        (Token.isMark_iff (by decide) (by decide)).mp hround
      have hclosing : last.lexeme = .mark ')' :=
        (Token.isMark_iff (by decide) (by decide)).mp hlast
      obtain ⟨word, hmem, hword⟩ := Token.isWordOf_eq_true_iff.mp hset
      obtain rfl : word = "set" := by simpa using hmem
      refine ⟨[.plain first, .plain middle, .plain last], rfl, fun segments htail => ?_⟩
      refine .plain (by simp [IsBrace, hfirst]) (alone_of_not_word (by simp [hfirst]) (by simp [hfirst])) ?_
      refine .plain (not_isBrace_of_word hword) (alone_of_plain_word hword (by decide)) ?_
      exact .plain (by simp [IsBrace, hclosing])
        (alone_of_not_word (by simp [hclosing]) (by simp [hclosing])) htail
    next => simp at h
  next => simp at h

/-- **Words.**  A word is passed alone or with what it brings with it. -/
theorem State.readWord_readsTo (hword : t.lexeme = .word word) :
    ∃ taken, s.ReadsTo (s.readWord word t rest) (t :: rest) taken := by
  have hbrace := not_isBrace_of_word hword
  have hlists : ∀ access ∈ accessLevels, access ∉ declarationModifiers ++ typeIntroducers ++
      functionIntroducers ++ ["let", "var"] := by decide
  unfold State.readWord
  dsimp only
  split
  next hstatic =>
    exact ⟨_, .of_plain hbrace (alone_of_plain_word hword (by rw [hstatic]; decide)) rfl rfl rfl⟩
  split
  next hclass =>
    obtain ⟨rfl, hfollowed⟩ := hclass
    refine ⟨_, .of_plain hbrace (alone_of_word hword (by decide) ?_ ?_ ?_) rfl rfl rfl⟩
    · exact fun _ _ => ⟨rfl, hfollowed⟩
    · exact fun hmem => absurd hmem (by decide)
    · exact fun hvariable => absurd hvariable (by decide)
  split
  next haccess =>
    have halone : ∀ kind, ¬ Introduces s.past t rest kind :=
      alone_of_plain_word hword (hlists word (by simpa using haccess))
    split
    next after hafter =>
      obtain ⟨taken, hnone, hreads⟩ := setterSuffix?_reads hafter
      refine ⟨.plain t :: taken, fun segments htail => ?_, ?_⟩
      · exact .plain hbrace halone (hreads segments htail)
      · rw [List.filterMap_cons_none rfl, hnone]
        rfl
    next => exact ⟨_, .of_plain hbrace halone rfl rfl rfl⟩
  split
  next hclass _ htype =>
    obtain ⟨hmem, hstarts⟩ := htype
    refine readType_readsTo (.type hword (by simpa using hmem) hstarts fun heq => ?_)
    simpa [heq] using hclass
  split
  next hfunction =>
    exact readFunction_readsTo (.function hword (by simpa using hfunction.1) hfunction.2)
  split
  next hvariable =>
    obtain ⟨hmodifier, htype, hfunction⟩ := notMem_of_variable hvariable
    split
    next hpattern =>
      refine ⟨_, .of_plain hbrace (alone_of_word hword hmodifier ?_ ?_ ?_) rfl rfl rfl⟩
      · exact fun hmem => absurd hmem htype
      · exact fun hmem => absurd hmem hfunction
      · exact fun _ => hpattern
    next hpattern =>
      exact readVariable_readsTo (.definition hword hvariable (by simpa using hpattern))
  split
  next hmodifier =>
    obtain ⟨arguments, rest', rfl, hcursor, harguments⟩ := skipArguments_isArguments (t :: s.past) rest
    have hkind : Introduces s.past t (arguments ++ rest') .modifier :=
      .modifier hword (by simpa using hmodifier)
    rw [hcursor]
    exact ⟨_, .of_stretch hkind (.modifier harguments) rfl rfl rfl⟩
  next hclass _ htype hfunction hvariable hmodifier =>
    refine ⟨_, .of_plain hbrace (alone_of_word hword (by simpa using hmodifier) ?_ ?_ ?_) rfl rfl rfl⟩
    · exact fun hmem hstarts => absurd ⟨by simpa using hmem, hstarts⟩ htype
    · intro hmem
      exact Bool.eq_false_iff.mpr fun hstarts => hfunction ⟨by simpa using hmem, hstarts⟩
    · exact fun hmem => absurd hmem hvariable

/-- A token that is neither a word, nor a curly bracket, nor `@` is passed alone. -/
theorem State.ReadsTo.of_mark (hword : ∀ word, t.lexeme ≠ .word word) (hbrace : ¬ IsBrace t)
    (hat : t.lexeme ≠ .mark '@') (hpast : next.past = t :: s.past) (hrest : next.rest = rest)
    (hframes : next.frames = s.frames) : s.ReadsTo next (t :: rest) [.plain t] :=
  .of_plain hbrace (alone_of_not_word hword hat) hpast hrest hframes

/-- **Attributes.**  `@` is passed with its name and arguments, or alone. -/
theorem State.skipAttribute_readsTo (hat : t.lexeme = .mark '@') :
    ∃ taken, s.ReadsTo (s.moveTo (skipAttribute (t :: s.past) rest)) (t :: rest) taken := by
  cases hname : rest.head?.any Token.isWord with
  | true =>
      obtain ⟨following, rest', rfl, hcursor, htakes⟩ := skipAttribute_takes (t :: s.past) hname
      rw [hcursor]
      exact ⟨_, .of_stretch (.decoration hat hname) htakes rfl rfl rfl⟩
  | false =>
      have hstay : skipAttribute (t :: s.past) rest = ⟨t :: s.past, rest⟩ := by
        cases rest with
        | nil => rfl
        | cons name ts => exact if_neg (by simpa using hname)
      rw [hstay]
      refine ⟨_, .of_plain (by simp [IsBrace, hat]) (fun kind hkind => ?_) rfl rfl rfl⟩
      cases hkind with
      | decoration _ hname' => simp [hname] at hname'
      | modifier hword | type hword | function hword | definition hword => simp [hat] at hword

/-- **Steps.**  A step takes segments, and opens and closes frames at their brackets. -/
theorem exists_readsTo (h : step s t rest = .ok next) :
    ∃ taken, s.ReadsTo next (t :: rest) taken := by
  unfold step at h
  dsimp only at h
  split at h
  next word hword =>
    obtain rfl := Except.ok.inj h
    exact State.readWord_readsTo hword
  next hlexeme =>
    obtain rfl := Except.ok.inj h
    exact ⟨_, .of_mark (by simp [hlexeme]) (by simp [IsBrace, hlexeme]) (by simp [hlexeme]) rfl rfl rfl⟩
  next hlexeme =>
    obtain rfl := Except.ok.inj h
    exact ⟨_, .of_mark (by simp [hlexeme]) (by simp [IsBrace, hlexeme]) (by simp [hlexeme]) rfl rfl rfl⟩
  next hlexeme =>
    obtain rfl := Except.ok.inj h
    exact ⟨_, .of_mark (by simp [hlexeme]) (by simp [IsBrace, hlexeme]) (by simp [hlexeme]) rfl rfl rfl⟩
  next hlexeme =>
    obtain rfl := Except.ok.inj h
    exact ⟨_, .of_mark (by simp [hlexeme]) (by simp [IsBrace, hlexeme]) (by simp [hlexeme]) rfl rfl rfl⟩
  next c hmark =>
    split at h
    next hclosing =>
      subst hclosing
      split at h
      next => simp at h
      next frame frames hframes =>
        obtain rfl := Except.ok.inj h
        have hcloses : t.closes? = some .brace := Token.closes?_eq_some_iff.mpr hmark
        refine ⟨[.brace t], fun segments htail => .brace (.inr hmark) htail, ?_⟩
        rw [hframes]
        exact after_cons_eq_some_iff.mpr ⟨_, turn_of_closes hcloses _, rfl⟩
    split at h
    next hopening =>
      subst hopening
      obtain rfl := Except.ok.inj h
      have hopens : t.opens? = some .brace := Token.opens?_eq_some_iff.mpr hmark
      refine ⟨[.brace t], fun segments htail => .brace (.inl hmark) htail, ?_⟩
      exact after_cons_eq_some_iff.mpr ⟨_, turn_of_opens hopens _, rfl⟩
    next hclosing hopening =>
      have hbrace : ¬ IsBrace t := by simp [IsBrace, hmark, hclosing, hopening]
      split at h
      next hsemicolon =>
        obtain rfl := Except.ok.inj h
        exact ⟨_, .of_mark (by simp [hmark]) hbrace (by simp [hmark, hsemicolon]) rfl rfl rfl⟩
      split at h
      next hat =>
        obtain rfl := Except.ok.inj h
        exact State.skipAttribute_readsTo (hat ▸ hmark)
      next hat =>
        obtain rfl := Except.ok.inj h
        exact ⟨_, .of_mark (by simp [hmark]) hbrace (by simp [hmark, hat]) rfl rfl rfl⟩

/-- **Runs.**  A run succeeds just where the curly brackets that are segments close the open
frames, one by one, and match each other. -/
theorem run_eq_ok_iff (h : Reads s.past s.rest segments) :
    (∃ ds, run s = .ok ds) ↔
      after (List.replicate s.frames.length .brace) (segments.filterMap Segment.brace?) =
        some [] := by
  fun_induction run s generalizing segments with
  | case1 s hrest hframes =>
      rw [hrest] at h
      cases h with
      | done => simp [hframes]
  | case2 s hrest frame frames hframes =>
      rw [hrest] at h
      cases h with
      | done => simp [hframes]
  | case3 s t rest hrest e hstep =>
      obtain ⟨hclosing, hframes, -⟩ := step_eq_error_iff.mp hstep
      rw [hrest] at h
      cases h with
      | brace _ tail =>
          have hcloses : t.closes? = some .brace := Token.closes?_eq_some_iff.mpr hclosing
          have hturn : turn [] t = none := by
            simp [turn, hcloses, Token.opens?_of_closes? hcloses]
          simp [hframes, Segment.brace?, after_cons, hturn]
      | plain hbrace => exact absurd (.inr hclosing) hbrace
      | stretch hkind => exact absurd (.inr hclosing) hkind.not_isBrace
  | case4 s t rest hrest next hstep ih =>
      obtain ⟨taken, hreads, hframes⟩ := exists_readsTo hstep
      obtain ⟨others, hothers⟩ := exists_reads next.past next.rest
      rw [hrest] at h
      obtain rfl := h.unique (hreads others hothers)
      rw [ih hothers, List.filterMap_append, after_append, hframes, Option.bind_some]

end Steps

section Braces

variable {depth : Nat} {xs : List Token}

/-- Tokens that close the curly brackets open before them: `depth` are open, never are more
closed than open, and none is left in the end. -/
structure ClosesBraces (depth : Nat) (ts : List Token) : Prop where
  never_ahead : ∀ xs, xs <+: ts → closedBraces xs ≤ depth + openedBraces xs
  total : closedBraces ts = depth + openedBraces ts

theorem closesBraces_zero_iff : ClosesBraces 0 ts ↔ BracesBalanced ts := by
  constructor
  · intro ⟨hahead, htotal⟩
    simp only [Nat.zero_add] at hahead htotal
    exact ⟨hahead, htotal⟩
  · intro ⟨hahead, htotal⟩
    exact ⟨fun xs hxs => (Nat.zero_add _).symm ▸ hahead xs hxs, (Nat.zero_add _).symm ▸ htotal⟩

/-- One more token in front. -/
theorem ClosesBraces.cons {left : Nat} (h : ClosesBraces left ts)
    (hturn : left + closedBraces [t] = depth + openedBraces [t]) :
    ClosesBraces depth (t :: ts) := by
  constructor
  · intro front hfront
    rcases List.prefix_cons_iff.mp hfront with rfl | ⟨back, rfl, hback⟩
    · exact Nat.zero_le _
    · have hinside := h.never_ahead back hback
      rw [← List.singleton_append, closedBraces_append, openedBraces_append]
      omega
  · have htotal := h.total
    rw [← List.singleton_append, closedBraces_append, openedBraces_append]
    omega

/-- Balanced tokens may stand in front. -/
theorem ClosesBraces.append (h : ClosesBraces depth ts) (hxs : BracesBalanced xs) :
    ClosesBraces depth (xs ++ ts) := by
  have hbalanced := hxs.total
  constructor
  · intro front hfront
    obtain ⟨back, hback⟩ := hfront
    rcases List.append_eq_append_iff.mp hback with ⟨more, hmore, -⟩ | ⟨more, rfl, hmore⟩
    · have hinside := hxs.never_ahead front ⟨more, hmore.symm⟩
      omega
    · have hinside := h.never_ahead more ⟨back, hmore.symm⟩
      rw [closedBraces_append, openedBraces_append]
      omega
  · have htotal := h.total
    rw [closedBraces_append, openedBraces_append]
    omega

/-- A token that is no curly bracket counts for nothing. -/
theorem braces_of_not_isBrace (h : ¬ IsBrace t) : closedBraces [t] = openedBraces [t] := by
  obtain ⟨hopening, hclosing⟩ := not_or.mp h
  simp [closedBraces, openedBraces, hopening, hclosing]

/-- A curly bracket leads from curly brackets to curly brackets. -/
theorem exists_replicate_of_turn {left : List Bracket} (hbrace : IsBrace t)
    (h : turn (List.replicate depth .brace) t = some left) :
    ∃ more, left = List.replicate more .brace := by
  rcases hbrace with hopening | hclosing
  · have hopens : t.opens? = some .brace := Token.opens?_eq_some_iff.mpr hopening
    exact ⟨depth + 1, Option.some.inj (h.symm.trans (turn_of_opens hopens _))⟩
  · have hcloses : t.closes? = some .brace := Token.closes?_eq_some_iff.mpr hclosing
    cases depth with
    | zero => simp [turn, hcloses, Token.opens?_of_closes? hcloses] at h
    | succ depth => exact ⟨depth, Option.some.inj (h.symm.trans (turn_of_closes hcloses _))⟩

/-- **The brackets of bodies decide.**  If those match each other and those of every stretch
are balanced, all are. -/
theorem Reads.closesBraces (h : Reads past ts segments)
    (hbodies : after (List.replicate depth .brace) (segments.filterMap Segment.brace?) = some [])
    (hstretches : ∀ segment ∈ segments, BracesBalanced segment.following) :
    ClosesBraces depth ts := by
  induction h generalizing depth with
  | done =>
      obtain rfl : depth = 0 := by simpa using hbodies
      exact ⟨fun xs hxs => by simp [List.prefix_nil.mp hxs, closedBraces], rfl⟩
  | @brace past ts t segments hbrace tail ih =>
      have hothers := (List.forall_mem_cons.mp hstretches).2
      obtain ⟨left, hturn, hleft⟩ := after_cons_eq_some_iff.mp hbodies
      obtain ⟨more, rfl⟩ := exists_replicate_of_turn hbrace hturn
      have hcount := braces_after (after_cons_eq_some_iff.mpr ⟨_, hturn, after_nil _⟩)
      rw [List.count_replicate_self, List.count_replicate_self] at hcount
      exact (ih hleft hothers).cons hcount
  | plain hnone _ tail ih =>
      have hothers := (List.forall_mem_cons.mp hstretches).2
      exact (ih hbodies hothers).cons (by rw [braces_of_not_isBrace hnone])
  | stretch hkind _ tail ih =>
      obtain ⟨hbalanced, hothers⟩ := List.forall_mem_cons.mp hstretches
      refine ((ih hbodies hothers).append hbalanced).cons ?_
      rw [braces_of_not_isBrace hkind.not_isBrace]

end Braces

end Outline

end DeclLint
