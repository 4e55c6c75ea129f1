import DeclLint.Json.Decode
import DeclLint.Json.Reader
import Mathlib.Data.List.Induction

/-!
# The grammar of JSON

What texts spell a value is said here without a reader.  A phrase is a value, a value with
blanks around it, or the items or members of a container that is not empty; `Spells` has
one rule for each way to write a phrase.  A string is a row of characters, escapes and
16-bit units; two units that make up a surrogate pair are one character, and a unit that is
half of a pair without its partner leaves the string without a text.

* `JsonPhrase.Spells` — the characters that spell a phrase;
* `JsonValue.SpelledBy` — the texts that spell a value;
* `JsonValue.Leaves` — what holds of all scalars in a value;
* `JsonPhrase.Spells.leaves` — every scalar in a value that is spelled is spelled itself;
* `JsonValue.natOfDigits_toDigits`, `JsonValue.toDigits_natOfDigits` — a natural number has
  one spelling.
-/

namespace DeclLint

namespace JsonValue

/-- Digits, at least one. -/
def IsDigits (cs : List Char) : Prop := cs ≠ [] ∧ ∀ c ∈ cs, c.isDigit = true

/-- The whole part of a number: zero, or digits that do not begin with one. -/
inductive IsWhole : List Char → Prop
  | zero : IsWhole ['0']
  | digits {cs : List Char} (h : IsDigits cs) (hhead : cs.head? ≠ some '0') : IsWhole cs

/-- The fraction of a number. -/
inductive IsFraction : List Char → Prop
  | missing : IsFraction []
  | digits {cs : List Char} (h : IsDigits cs) : IsFraction ('.' :: cs)

/-- The exponent of a number. -/
inductive IsExponent : List Char → Prop
  | missing : IsExponent []
  | digits {e : Char} {sign cs : List Char} (he : e = 'e' ∨ e = 'E')
      (hsign : sign = [] ∨ sign = ['+'] ∨ sign = ['-']) (h : IsDigits cs) :
      IsExponent (e :: (sign ++ cs))

/-- A number: a sign, the whole part, a fraction and an exponent. -/
inductive IsNumber : List Char → Prop
  | mk {sign whole fraction exponent : List Char} (hsign : sign = [] ∨ sign = ['-'])
      (hwhole : IsWhole whole) (hfraction : IsFraction fraction)
      (hexponent : IsExponent exponent) :
      IsNumber (sign ++ (whole ++ (fraction ++ exponent)))

/-- What a string is made of: a character, or a unit that is half of a surrogate pair. -/
inductive StringUnit where
  | char (c : Char)
  | half (unit : Nat)

/-- What a 16-bit unit is on its own. -/
def StringUnit.ofUnit (unit : Nat) : StringUnit :=
  if isHighSurrogate unit || isLowSurrogate unit then half unit else char (Char.ofNat unit)

/-- The characters between the quotes of a string and what they stand for. -/
inductive StringBody : List Char → List StringUnit → Prop
  | nil : StringBody [] []
  | plain {c : Char} {cs : List Char} {units : List StringUnit} (hcontrol : 0x20 ≤ c.toNat)
      (hquote : c ≠ '"') (hbackslash : c ≠ '\\') (more : StringBody cs units) :
      StringBody (c :: cs) (.char c :: units)
  | escape {letter c : Char} {cs : List Char} {units : List StringUnit}
      (h : escapedChar? letter = some c) (more : StringBody cs units) :
      StringBody ('\\' :: letter :: cs) (.char c :: units)
  | unit {a b c d : Char} {n : Nat} {cs : List Char} {units : List StringUnit}
      (h : hexUnit? a b c d = some n) (more : StringBody cs units) :
      StringBody ('\\' :: 'u' :: a :: b :: c :: d :: cs) (.ofUnit n :: units)

/-- The characters of a string.  A first half and a second half that follows it are one
character; any other half has none. -/
def charsOf? : List StringUnit → Option (List Char)
  | [] => some []
  | .char c :: units => (charsOf? units).map (c :: ·)
  | .half first :: .half second :: units =>
      if isHighSurrogate first && isLowSurrogate second then
        (charsOf? units).map (Char.ofNat (pairedCodePoint first second) :: ·)
      else none
  | .half _ :: _ => none

/-- The text of a string. -/
def textOf? (units : List StringUnit) : JsonText := (charsOf? units).map String.ofList

/-- The characters that spell a value which holds no others. -/
inductive ScalarText : JsonValue → List Char → Prop
  | null : ScalarText .null ['n', 'u', 'l', 'l']
  | true : ScalarText (.bool Bool.true) ['t', 'r', 'u', 'e']
  | false : ScalarText (.bool Bool.false) ['f', 'a', 'l', 's', 'e']
  | number {cs : List Char} (h : IsNumber cs) : ScalarText (.number (String.ofList cs)) cs
  | string {body : List Char} {units : List StringUnit} (h : StringBody body units) :
      ScalarText (.string (textOf? units)) ('"' :: (body ++ ['"']))

/-- Characters between tokens. -/
def IsBlank (cs : List Char) : Prop := ∀ c ∈ cs, isSpace c = true

end JsonValue

/-- What a JSON text is made of. -/
inductive JsonPhrase where
  | value (v : JsonValue)
  /-- A value with blanks around it. -/
  | element (v : JsonValue)
  | items (vs : List JsonValue)
  | members (ms : List (JsonText × JsonValue))

open JsonValue in
/-- The characters that spell a phrase. -/
inductive JsonPhrase.Spells : JsonPhrase → List Char → Prop
  | scalar {v : JsonValue} {cs : List Char} (h : ScalarText v cs) : Spells (.value v) cs
  | emptyArray {gap : List Char} (hgap : IsBlank gap) :
      Spells (.value (.array [])) ('[' :: (gap ++ [']']))
  | array {vs : List JsonValue} {cs : List Char} (h : Spells (.items vs) cs) :
      Spells (.value (.array vs)) ('[' :: (cs ++ [']']))
  | emptyObject {gap : List Char} (hgap : IsBlank gap) :
      Spells (.value (.object [])) ('\x7b' :: (gap ++ ['\x7d']))
  | object {ms : List (JsonText × JsonValue)} {cs : List Char} (h : Spells (.members ms) cs) :
      Spells (.value (.object ms)) ('\x7b' :: (cs ++ ['\x7d']))
  | element {v : JsonValue} {before cs after : List Char} (hbefore : IsBlank before)
      (h : Spells (.value v) cs) (hafter : IsBlank after) :
      Spells (.element v) (before ++ (cs ++ after))
  | lastItem {v : JsonValue} {cs : List Char} (h : Spells (.element v) cs) :
      Spells (.items [v]) cs
  | item {v : JsonValue} {vs : List JsonValue} {cs more : List Char}
      (h : Spells (.element v) cs) (hmore : Spells (.items vs) more) :
      Spells (.items (v :: vs)) (cs ++ ',' :: more)
  | lastMember {key : JsonText} {v : JsonValue} {name cs : List Char}
      (hkey : Spells (.element (.string key)) name) (h : Spells (.element v) cs) :
      Spells (.members [(key, v)]) (name ++ ':' :: cs)
  | member {key : JsonText} {v : JsonValue} {ms : List (JsonText × JsonValue)}
      {name cs more : List Char} (hkey : Spells (.element (.string key)) name)
      (h : Spells (.element v) cs) (hmore : Spells (.members ms) more) :
      Spells (.members ((key, v) :: ms)) (name ++ ':' :: (cs ++ ',' :: more))

namespace JsonValue

/-- Whether a text spells a value: nothing but blanks may stand around it. -/
def SpelledBy (v : JsonValue) (text : String) : Prop := (JsonPhrase.element v).Spells text.toList

/-- What holds of every scalar in a value, keys included. -/
inductive Leaves (P : JsonValue → Prop) : JsonValue → Prop
  | null (h : P .null) : Leaves P .null
  | bool {b : Bool} (h : P (.bool b)) : Leaves P (.bool b)
  | number {literal : String} (h : P (.number literal)) : Leaves P (.number literal)
  | string {text : JsonText} (h : P (.string text)) : Leaves P (.string text)
  | array {vs : List JsonValue} (h : ∀ v ∈ vs, Leaves P v) : Leaves P (.array vs)
  | object {ms : List (JsonText × JsonValue)} (hkeys : ∀ m ∈ ms, P (.string m.1))
      (h : ∀ m ∈ ms, Leaves P m.2) : Leaves P (.object ms)

/-- Whether a scalar is spelled by anything. -/
def IsSpelled (v : JsonValue) : Prop := ∃ cs, ScalarText v cs

end JsonValue

/-- What holds of every scalar in a phrase. -/
def JsonPhrase.Leaves (P : JsonValue → Prop) : JsonPhrase → Prop
  | value v => v.Leaves P
  | element v => v.Leaves P
  | items vs => ∀ v ∈ vs, v.Leaves P
  | members ms => (∀ m ∈ ms, P (.string m.1)) ∧ ∀ m ∈ ms, m.2.Leaves P

/-- **Nothing unspelled.**  Every scalar in a phrase that is spelled is spelled itself. -/
theorem JsonPhrase.Spells.leaves {p : JsonPhrase} {cs : List Char} (h : p.Spells cs) :
    p.Leaves JsonValue.IsSpelled := by
  induction h with
  | @scalar v cs h =>
      cases h with
      | null => exact .null ⟨_, .null⟩
      | true => exact .bool ⟨_, .true⟩
      | false => exact .bool ⟨_, .false⟩
      | number h => exact .number ⟨_, .number h⟩
      | string h => exact .string ⟨_, .string h⟩
  | emptyArray hgap => exact .array fun v hv => absurd hv List.not_mem_nil
  | array h ih => exact .array ih
  | emptyObject hgap =>
      exact .object (fun m hm => absurd hm List.not_mem_nil) fun m hm =>
        absurd hm List.not_mem_nil
  | object h ih => exact .object ih.1 ih.2
  | element hbefore h hafter ih => exact ih
  | lastItem h ih => exact List.forall_mem_singleton.mpr ih
  | item h hmore ih ihmore => exact List.forall_mem_cons.mpr ⟨ih, ihmore⟩
  | lastMember hkey h ihkey ih =>
      cases ihkey with
      | string hkey =>
          exact ⟨List.forall_mem_singleton.mpr hkey, List.forall_mem_singleton.mpr ih⟩
  | member hkey h hmore ihkey ih ihmore =>
      cases ihkey with
      | string hkey =>
          exact ⟨List.forall_mem_cons.mpr ⟨hkey, ihmore.1⟩,
            List.forall_mem_cons.mpr ⟨ih, ihmore.2⟩⟩

namespace JsonValue

section Decimal

variable {cs : List Char}

theorem toList_toString (n : Nat) : (toString n).toList = Nat.toDigits 10 n := by
  rw [Nat.toString_eq_ofList_toDigits, String.toList_ofList]

theorem natOfDigits_eq (cs : List Char) : natOfDigits cs = Nat.ofDigitChars 10 cs 0 := by
  simp only [natOfDigits, Nat.ofDigitChars_eq_foldl, Nat.mul_comm]

/-- The decimal digits of a number spell it. -/
theorem natOfDigits_toDigits (n : Nat) : natOfDigits (Nat.toDigits 10 n) = n := by
  rw [natOfDigits_eq, Nat.ofDigitChars_ten_toDigits]

theorem isDigits_toDigits (n : Nat) : IsDigits (Nat.toDigits 10 n) :=
  ⟨Nat.toDigits_ne_nil, fun _ hc => Nat.isDigit_of_mem_toDigits (by omega) (by omega) hc⟩

/-- A digit is the numeral of its value. -/
theorem toDigits_digit {c : Char} (h : c.isDigit = true) :
    Nat.toDigits 10 (c.toNat - '0'.toNat) = [c] ∧ c.toNat - '0'.toNat < 10 := by
  have hbounds : 48 ≤ c.toNat ∧ c.toNat ≤ 57 := by
    simp only [Char.isDigit, Bool.and_eq_true, decide_eq_true_eq, ge_iff_le,
      UInt32.le_iff_toNat_le] at h
    exact h
  have hdigits : ∀ n < 10, Nat.toDigits 10 n = [Char.ofNat (48 + n)] := by decide
  have hlt : c.toNat - '0'.toNat < 10 := by
    have hzero : '0'.toNat = 48 := rfl
    omega
  refine ⟨?_, hlt⟩
  rw [hdigits _ hlt]
  have hsum : 48 + (c.toNat - '0'.toNat) = c.toNat := by
    have hzero : '0'.toNat = 48 := rfl
    omega
  rw [hsum, Char.ofNat_toNat]

/-- Digits that do not begin with zero are the numeral of their value.  The induction is on the
last digit first, as numerals are made. -/
theorem toDigits_natOfDigits_of_head (h : IsDigits cs) (hhead : cs.head? ≠ some '0') :
    Nat.toDigits 10 (natOfDigits cs) = cs := by
  obtain ⟨hne, hdigits⟩ := h
  induction cs using List.reverseRecOn with
  | nil => exact absurd rfl hne
  | append_singleton front c ih =>
      have hc := hdigits c (List.mem_append_right _ List.mem_cons_self)
      obtain ⟨hdigit, hlt⟩ := toDigits_digit hc
      have hvalue : natOfDigits (front ++ [c]) =
          natOfDigits front * 10 + (c.toNat - '0'.toNat) := by
        simp [natOfDigits]
      rw [hvalue]
      cases front with
      | nil => simpa [natOfDigits] using hdigit
      | cons d front =>
          have hfront := ih (by simpa using hhead) (List.cons_ne_nil d front)
            fun x hx => hdigits x (List.mem_append_left _ hx)
          have hpos : 0 < natOfDigits (d :: front) := by
            rw [Nat.pos_iff_ne_zero]
            intro hzero
            rw [hzero, Nat.toDigits_zero] at hfront
            have hd : '0' = d := (List.cons.inj hfront).1
            exact hhead (by rw [← hd]; rfl)
          rw [Nat.mul_comm, ← Nat.toDigits_append_toDigits (by omega) hpos hlt, hfront, hdigit]

/-- **One spelling.**  Digits without a needless zero in front are the decimal digits of the
number that they spell. -/
theorem toDigits_natOfDigits (h : IsWhole cs) : Nat.toDigits 10 (natOfDigits cs) = cs := by
  cases h with
  | zero => decide
  | digits h hhead => exact toDigits_natOfDigits_of_head h hhead

end Decimal

end JsonValue

end DeclLint
