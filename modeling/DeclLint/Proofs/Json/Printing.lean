import DeclLint.Json.Printer
import DeclLint.Proofs.Json.Reading

/-!
# What is written is a spelling

The layout puts blanks only where the grammar allows them, and a string in quotes spells
the text that it was made from, whatever that text holds.  So a value whose scalars spell
themselves is spelled by its layout, and the reader finds it there again.

* `JsonValue.stringBody_escape` — an escaped text spells the text;
* `JsonValue.isWhole_toDigits` — decimal digits spell a number;
* `JsonValue.spells_prettyAt`, `JsonValue.parse?_pretty` — **what is written is read.**
-/

namespace DeclLint

namespace JsonValue

section Scalars

/-- A control character is the only character of its unit. -/
theorem ofUnit_toNat {c : Char} (h : c.toNat < 0x20) : StringUnit.ofUnit c.toNat = .char c := by
  have hhigh : isHighSurrogate c.toNat = false := by
    simp only [isHighSurrogate, Bool.and_eq_false_iff, decide_eq_false_iff_not]
    omega
  have hlow : isLowSurrogate c.toNat = false := by
    simp only [isLowSurrogate, Bool.and_eq_false_iff, decide_eq_false_iff_not]
    omega
  rw [StringUnit.ofUnit, hhigh, hlow, Char.ofNat_toNat]
  rfl

theorem hexUnit?_hexDigit {n : Nat} (h : n < 0x20) :
    hexUnit? '0' '0' (hexDigit (n / 16)) (hexDigit (n % 16)) = some n := by
  have hall : ∀ n < 0x20, hexUnit? '0' '0' (hexDigit (n / 16)) (hexDigit (n % 16)) = some n := by
    decide
  exact hall n h

/-- **Every character has an escaped form that stands for it.** -/
theorem stringBody_escapeChar (c : Char) {cs : List Char} {units : List StringUnit}
    (more : StringBody cs units) : StringBody (escapeChar c ++ cs) (.char c :: units) := by
  have hescape : ∀ {letter d : Char}, c = d → escapedChar? letter = some d →
      StringBody ('\\' :: letter :: cs) (.char c :: units) :=
    fun hc hletter => .escape (hc ▸ hletter) more
  unfold escapeChar
  split
  next hc => exact hescape hc rfl
  next hquote =>
  split
  next hc => exact hescape hc rfl
  next hbackslash =>
  split
  next hc => exact hescape hc rfl
  split
  next hc => exact hescape hc rfl
  split
  next hc => exact hescape hc rfl
  split
  next hc => exact hescape hc rfl
  split
  next hc => exact hescape hc rfl
  split
  next hcontrol =>
    rw [← ofUnit_toNat hcontrol]
    exact .unit (hexUnit?_hexDigit hcontrol) more
  next hcontrol => exact .plain (by omega) hquote hbackslash more

theorem stringBody_escape (cs : List Char) : StringBody (escape cs) (cs.map .char) := by
  induction cs with
  | nil => exact .nil
  | cons c cs ih => exact stringBody_escapeChar c ih

theorem charsOf?_map_char (cs : List Char) : charsOf? (cs.map .char) = some cs := by
  induction cs with
  | nil => rfl
  | cons c cs ih => rw [List.map_cons, charsOf?, ih, Option.map_some]

/-- A string in quotes spells its text. -/
theorem scalarText_quoted (s : String) :
    ScalarText (.string (some s)) (quoted (some s)).toList := by
  have htext : textOf? (s.toList.map .char) = some s := by
    rw [textOf?, charsOf?_map_char, Option.map_some, String.ofList_toList]
  have h := ScalarText.string (stringBody_escape s.toList)
  rw [htext] at h
  simpa [quoted] using h

/-- No numeral but that of zero begins with zero. -/
theorem head_toDigits (n : Nat) (h : 0 < n) : (Nat.toDigits 10 n).head? ≠ some '0' := by
  induction n using Nat.strongRecOn with
  | ind n ih =>
      by_cases hlt : n < 10
      · have hall : ∀ n < 10, 0 < n → (Nat.toDigits 10 n).head? ≠ some '0' := by decide
        exact hall n hlt h
      · rw [Nat.toDigits_of_base_le (by omega) (by omega), List.head?_append]
        have hfront := ih (n / 10) (by omega) (by omega)
        cases hdigits : Nat.toDigits 10 (n / 10) with
        | nil => exact absurd hdigits Nat.toDigits_ne_nil
        | cons c cs =>
            rw [hdigits] at hfront
            exact hfront

/-- The decimal digits of a number do not begin with a needless zero. -/
theorem isWhole_toDigits (n : Nat) : IsWhole (Nat.toDigits 10 n) := by
  cases n with
  | zero => exact .zero
  | succ n => exact .digits (isDigits_toDigits (n + 1)) (head_toDigits (n + 1) n.succ_pos)

theorem scalarText_ofNat (n : Nat) : ScalarText (ofNat n) (toString n).toList := by
  have h : IsNumber ([] ++ (Nat.toDigits 10 n ++ ([] ++ []))) :=
    .mk (.inl rfl) (isWhole_toDigits n) .missing .missing
  rw [List.nil_append, List.append_nil, List.append_nil] at h
  rw [toList_toString, ofNat, Nat.toString_eq_ofList_toDigits]
  exact .number h

end Scalars

section Layout

variable {before after : List Char}

/-- A new line with its indentation is blank. -/
theorem isBlank_newLine (level : Nat) : IsBlank (newLine level).toList := by
  intro c hc
  have hmem : c = '\n' ∨ c ∈ List.replicate (2 * level) ' ' := by
    simpa [newLine] using hc
  rcases hmem with rfl | hmem
  · decide
  · rw [List.eq_of_mem_replicate hmem]
    decide

theorem isBlank_nil : IsBlank [] := fun _ hc => absurd hc List.not_mem_nil

/-- Whether a scalar is spelled by what is written for it. -/
def SpellsItself (v : JsonValue) : Prop := ScalarText v v.compact.toList

/-- What is written for a value spells it, at every level. -/
def IsLaidOut (v : JsonValue) : Prop :=
  ∀ level, (JsonPhrase.value v).Spells (prettyAt level v).toList

/-- The items of an array are spelled, each on a line of its own. -/
theorem spells_prettyItems {vs : List JsonValue} (hvs : ∀ v ∈ vs, v.IsLaidOut) (hne : vs ≠ [])
    (level : Nat) (hbefore : IsBlank before) (hafter : IsBlank after) :
    (JsonPhrase.items vs).Spells (before ++ ((prettyItems level vs).toList ++ after)) := by
  induction vs generalizing before with
  | nil => exact absurd rfl hne
  | cons v vs ih =>
      obtain ⟨hv, hvs⟩ := List.forall_mem_cons.mp hvs
      cases vs with
      | nil => exact .lastItem (.element hbefore (hv level) hafter)
      | cons next vs =>
          have hmore := ih hvs (List.cons_ne_nil next vs) (isBlank_newLine level)
          have h := JsonPhrase.Spells.item (.element hbefore (hv level) isBlank_nil) hmore
          simpa [prettyItems] using h

/-- So are the members of an object, each behind its key. -/
theorem spells_prettyMembers {ms : List (JsonText × JsonValue)}
    (hkeys : ∀ m ∈ ms, SpellsItself (.string m.1)) (hms : ∀ m ∈ ms, m.2.IsLaidOut)
    (hne : ms ≠ []) (level : Nat) (hbefore : IsBlank before) (hafter : IsBlank after) :
    (JsonPhrase.members ms).Spells (before ++ ((prettyMembers level ms).toList ++ after)) := by
  have hspace : IsBlank [' '] := List.forall_mem_singleton.mpr (by decide)
  induction ms generalizing before with
  | nil => exact absurd rfl hne
  | cons m ms ih =>
      obtain ⟨key, v⟩ := m
      obtain ⟨hkey, hkeys⟩ := List.forall_mem_cons.mp hkeys
      obtain ⟨hv, hms⟩ := List.forall_mem_cons.mp hms
      have hname : (JsonPhrase.element (.string key)).Spells
          (before ++ ((compact (.string key)).toList ++ [])) :=
        .element hbefore (.scalar hkey) isBlank_nil
      cases ms with
      | nil =>
          have h := JsonPhrase.Spells.lastMember hname (.element hspace (hv level) hafter)
          simpa [prettyMembers, compact] using h
      | cons next ms =>
          have hmore := ih hkeys hms (List.cons_ne_nil next ms) (isBlank_newLine level)
          have h := JsonPhrase.Spells.member hname (.element hspace (hv level) isBlank_nil) hmore
          simpa [prettyMembers, compact] using h

/-- **The layout is a spelling.** -/
theorem spells_prettyAt {v : JsonValue} (h : v.Leaves SpellsItself) : v.IsLaidOut := by
  induction h with
  | null h => exact fun level => by simpa [prettyAt, SpellsItself, compact] using .scalar h
  | bool h => exact fun level => by simpa [prettyAt, SpellsItself, compact] using .scalar h
  | number h => exact fun level => by simpa [prettyAt, SpellsItself, compact] using .scalar h
  | string h => exact fun level => by simpa [prettyAt, SpellsItself, compact] using .scalar h
  | @array vs h ih =>
      intro level
      cases vs with
      | nil =>
          have h := JsonPhrase.Spells.emptyArray isBlank_nil
          simpa [prettyAt] using h
      | cons v vs =>
          have hitems := spells_prettyItems ih (List.cons_ne_nil v vs) (level + 1)
            (isBlank_newLine (level + 1)) (isBlank_newLine level)
          simpa [prettyAt] using JsonPhrase.Spells.array hitems
  | @object ms hkeys h ih =>
      intro level
      cases ms with
      | nil =>
          have h := JsonPhrase.Spells.emptyObject isBlank_nil
          simpa [prettyAt] using h
      | cons m ms =>
          have hmembers := spells_prettyMembers hkeys ih (List.cons_ne_nil m ms) (level + 1)
            (isBlank_newLine (level + 1)) (isBlank_newLine level)
          simpa [prettyAt] using JsonPhrase.Spells.object hmembers

theorem spelledBy_pretty {v : JsonValue} (h : v.Leaves SpellsItself) : v.SpelledBy v.pretty := by
  have hspells := JsonPhrase.Spells.element isBlank_nil (spells_prettyAt h 0) isBlank_nil
  rwa [List.nil_append, List.append_nil] at hspells

/-- **What is written is read.** -/
theorem parse?_pretty {v : JsonValue} (h : v.Leaves SpellsItself) : parse? v.pretty = some v :=
  parse?_eq_some_iff.mpr (spelledBy_pretty h)

end Layout

section Leaves

theorem leaves_ofString (s : String) : (ofString s).Leaves SpellsItself := by
  have h := scalarText_quoted s
  exact .string (by simpa [SpellsItself, compact] using h)

theorem leaves_ofNat (n : Nat) : (ofNat n).Leaves SpellsItself := by
  have h := scalarText_ofNat n
  exact .number (by simpa [SpellsItself, compact, ofNat] using h)

/-- An object has the leaves of its members. -/
theorem leaves_ofMembers {ms : List (String × JsonValue)}
    (h : ∀ m ∈ ms, m.2.Leaves SpellsItself) : (ofMembers ms).Leaves SpellsItself := by
  refine .object (fun m hm => ?_) fun m hm => ?_
  · obtain ⟨member, -, rfl⟩ := List.mem_map.mp hm
    cases leaves_ofString member.1 with
    | string hkey => exact hkey
  · obtain ⟨member, hmember, rfl⟩ := List.mem_map.mp hm
    exact h member hmember

end Leaves

end JsonValue

end DeclLint
