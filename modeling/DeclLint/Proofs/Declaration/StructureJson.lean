import DeclLint.Declaration.StructureJson
import DeclLint.Proofs.Declaration.Preorder
import DeclLint.Proofs.Json.Printing
import Mathlib.Data.List.Forall2

/-!
# Loading a declaration tree undoes writing it

A tree has many JSON forms: the members of an object may stand in any order, others may
stand between them, and blanks and escapes are free.  Whatever form a tree is written in,
loading gives it back.  And whatever text is loaded, the range of each declaration is what
the value at its place says.

* `JsonValue.int64OfLiteral?_eq_some_iff` — a literal spells a natural number in one way;
* `Declaration.JsonForm`, `Declaration.jsonForm_toJson` — the forms of a tree; every tree
  has one;
* `Declaration.ofJsonWithin?_of_jsonForm` — a form is read as its tree;
* `Declaration.exists_itemAt` — each declaration comes from the value at its place;
* `Declaration.ofStructureJson_pretty` — loading undoes printing;
* `Declaration.structureJson_exact` — both, on texts.
-/

namespace DeclLint

/-- The largest number that a signed 64-bit integer can be. -/
def maxInt64 : Nat := 0x7FFFFFFFFFFFFFFF

namespace JsonValue

section Integers

variable {cs : List Char} {literal : String} {n : Nat}

/-- Digits alone are a number only as its whole part. -/
theorem IsNumber.isWhole (h : IsNumber cs) (hdigits : ∀ c ∈ cs, c.isDigit = true) :
    IsWhole cs := by
  cases h with
  | @mk sign whole fraction exponent hsign hwhole hfraction hexponent =>
      simp only [List.forall_mem_append] at hdigits
      obtain ⟨hs, -, hf, he⟩ := hdigits
      have hnosign : sign = [] := by
        rcases hsign with rfl | rfl
        · rfl
        · exact absurd (hs '-' List.mem_cons_self) (by decide)
      have hnofraction : fraction = [] := by
        cases hfraction with
        | missing => rfl
        | digits h => exact absurd (hf '.' List.mem_cons_self) (by decide)
      have hnoexponent : exponent = [] := by
        cases hexponent with
        | missing => rfl
        | digits hletter hsign h =>
            rcases hletter with rfl | rfl
            · exact absurd (he 'e' List.mem_cons_self) (by decide)
            · exact absurd (he 'E' List.mem_cons_self) (by decide)
      rw [hnosign, hnofraction, hnoexponent, List.nil_append, List.append_nil, List.append_nil]
      exact hwhole

/-- The decimal digits of a number are read as the number, if it fits. -/
theorem int64OfLiteral?_toString (n : Nat) :
    int64OfLiteral? (toString n) = if n ≤ maxInt64 then some (n : Int) else none := by
  have hdigits := (isDigits_toDigits n).2
  unfold int64OfLiteral?
  rw [toList_toString]
  split
  next digits heq =>
    rw [heq] at hdigits
    exact absurd (hdigits '-' List.mem_cons_self) (by decide)
  next =>
    have hall : (Nat.toDigits 10 n).all Char.isDigit = true := List.all_eq_true.mpr hdigits
    have hbound : n < 0x8000000000000000 ↔ n ≤ maxInt64 := by
      rw [maxInt64]
      omega
    simp only [natOfDigits_toDigits, hall, true_and, hbound]

/-- **One literal.**  A number is read as a natural number exactly when it is written as its
decimal digits and fits. -/
theorem int64OfLiteral?_eq_some_iff (hnumber : IsNumber literal.toList) :
    int64OfLiteral? literal = some (n : Int) ↔ literal = toString n ∧ n ≤ maxInt64 := by
  constructor
  · intro h
    have hvalue : literal.toList.all Char.isDigit = true ∧ natOfDigits literal.toList = n := by
      unfold int64OfLiteral? at h
      split at h
      next digits heq =>
        simp only at h
        split at h
        next hneg =>
          have hint := Option.some.inj h
          omega
        next => cases h
      next =>
        simp only at h
        split at h
        next hfits => exact ⟨hfits.1, by exact_mod_cast Option.some.inj h⟩
        next => cases h
    obtain ⟨hall, hn⟩ := hvalue
    have hwhole := hnumber.isWhole (List.all_eq_true.mp hall)
    have hliteral : literal = toString n := by
      rw [Nat.toString_eq_ofList_toDigits, ← hn, toDigits_natOfDigits hwhole,
        String.ofList_toList]
    refine ⟨hliteral, ?_⟩
    rw [hliteral, int64OfLiteral?_toString] at h
    split at h
    next hfits => exact hfits
    next => cases h
  · intro ⟨hliteral, hfits⟩
    rw [hliteral, int64OfLiteral?_toString, if_pos hfits]

end Integers

theorem isNumber_of_leaves {literal : String} (h : (number literal).Leaves IsSpelled) :
    IsNumber literal.toList := by
  cases h with
  | number h =>
      obtain ⟨cs, hcs⟩ := h
      cases hcs with
      | number h => rwa [String.toList_ofList]

section Members

variable {key : String} {ms : List (JsonText × JsonValue)} {found : Option JsonValue}

/-- A member that is found is the only one with its key. -/
theorem eq_some_iff_of_member? (h : member? key ms = some found) {w : JsonValue} :
    found = some w ↔ (some key, w) ∈ ms := by
  have hmem : (some key, w) ∈ ms ↔ (some key, w) ∈ ms.filter fun m => m.1 == some key := by
    simp
  rw [hmem]
  unfold member? at h
  split at h
  next hnone =>
    obtain rfl := Option.some.inj h
    simp [hnone]
  next m hone =>
    obtain rfl := Option.some.inj h
    have hkey : m.1 = some key := by
      have hm : m ∈ ms.filter fun m => m.1 == some key := by simp [hone]
      simpa using (List.mem_filter.mp hm).2
    obtain ⟨key', w'⟩ := m
    obtain rfl : key' = some key := hkey
    simp [hone, eq_comm]
  next => cases h

theorem member?_of_filter (h : (ms.filter fun m => m.1 == some key) =
    (found.map fun w => (some key, w)).toList) : member? key ms = some found := by
  rw [member?, h]
  cases found with
  | none => rfl
  | some w => rfl

end Members

end JsonValue

namespace Declaration

/-- What a declaration can be given. -/
inductive JsonField where
  | kind
  | offset
  | length
  | bodyLength
  | setterAccessibility
  | substructure

/-- The key of a field in an object. -/
def JsonField.key : JsonField → String
  | kind => "key.kind"
  | offset => "key.offset"
  | length => "key.length"
  | bodyLength => "key.bodylength"
  | setterAccessibility => "key.setter_accessibility"
  | substructure => "key.substructure"

/-- The place of a field in an array. -/
def JsonField.place : JsonField → Nat
  | kind => 0
  | offset => 1
  | length => 2
  | bodyLength => 3
  | setterAccessibility => 4
  | substructure => 5

/-- Every field, in order. -/
def JsonField.all : List JsonField :=
  [kind, offset, length, bodyLength, setterAccessibility, substructure]

/-- The value of a field. -/
def JsonFields.get (fields : JsonFields) : JsonField → Option JsonValue
  | .kind => fields.kind
  | .offset => fields.offset
  | .length => fields.length
  | .bodyLength => fields.bodyLength
  | .setterAccessibility => fields.setterAccessibility
  | .substructure => fields.substructure

/-- What a value gives in a field, by key or by place. -/
inductive Gives : JsonValue → JsonField → JsonValue → Prop
  | key {ms : List (JsonText × JsonValue)} {f : JsonField} {w : JsonValue}
      (h : (some f.key, w) ∈ ms) : Gives (.object ms) f w
  | place {items : List JsonValue} {f : JsonField} {w : JsonValue}
      (h : items[f.place]? = some w) : Gives (.array items) f w

/-- The value that describes the declaration at a place. -/
inductive ItemAt : JsonValue → List Nat → JsonValue → Prop
  | here (v : JsonValue) : ItemAt v [] v
  | child {v item w : JsonValue} {items : List JsonValue} {i : Nat} {place : List Nat}
      (h : Gives v .substructure (.array items)) (hitem : items[i]? = some item)
      (more : ItemAt item place w) : ItemAt v (i :: place) w

/-- What a declaration says in a field, if some items describe its children. -/
def said (d : Declaration) (items : List JsonValue) : JsonField → Option JsonValue
  | .kind => d.kind.map fun k => .ofString k.identifier
  | .offset => (d.range.map ByteRange.location).map .ofNat
  | .length => (d.range.map ByteRange.length).map .ofNat
  | .bodyLength => d.bodyLength.map .ofNat
  | .setterAccessibility => d.setterAccessibility.map .ofString
  | .substructure => if d.children.isEmpty then none else some (.array items)

/-- **The JSON forms of a tree.**  Each declaration is an object.  What the declaration says
stands in it once, and other members may stand between. -/
inductive JsonForm : Declaration → JsonValue → Prop
  | object {d : Declaration} {ms : List (JsonText × JsonValue)} {items : List JsonValue}
      (hkeys : ∀ m ∈ ms, m.1.isSome)
      (hsaid : ∀ f : JsonField, (ms.filter fun m => m.1 == some f.key) =
        ((d.said items f).map fun w => (some f.key, w)).toList)
      (hitems : List.Forall₂ JsonForm d.children items) : JsonForm d (.object ms)

/-- Whether the numbers of a declaration fit a signed 64-bit integer. -/
def Fits (d : Declaration) : Prop :=
  (∀ r ∈ d.range, r.location ≤ maxInt64 ∧ r.length ≤ maxInt64) ∧ ∀ n ∈ d.bodyLength, n ≤ maxInt64

/-- Whether the numbers of every declaration in a tree fit. -/
def AllFit (d : Declaration) : Prop := ∀ place node, d.at? place = some node → node.Fits

/-- Whether no more than some number of declarations are nested in one another. -/
def NestedWithin (depth : Nat) (d : Declaration) : Prop :=
  ∀ place, (d.at? place).isSome → place.length < depth

/-- A declaration has a range exactly when a value gives both its numbers and neither is
negative; and then the end of the range fits a word. -/
def RangeAsGiven (item : JsonValue) (d : Declaration) : Prop :=
  ∀ r : ByteRange,
    (d.range = some r ↔
      Gives item .offset (.ofNat r.location) ∧ Gives item .length (.ofNat r.length)) ∧
    (d.range = some r → r.stop ≤ maxOffset)

section Reading

variable {v w : JsonValue} {fields : JsonFields} {f : JsonField} {d top : Declaration}
  {number : Option Int} {n : Nat}

theorem gives_object_iff {ms : List (JsonText × JsonValue)} :
    Gives (.object ms) f w ↔ (some f.key, w) ∈ ms := by
  constructor
  · intro h
    cases h with
    | key h => exact h
  · exact .key

theorem gives_array_iff {items : List JsonValue} :
    Gives (.array items) f w ↔ items[f.place]? = some w := by
  constructor
  · intro h
    cases h with
    | place h => exact h
  · exact .place

/-- What is given for a field has the leaves of the value it is taken from. -/
theorem Gives.leaves {P : JsonValue → Prop} (h : Gives v f w) (hv : v.Leaves P) :
    w.Leaves P := by
  cases h with
  | key h =>
      cases hv with
      | object hkeys hms => exact hms _ h
  | place h =>
      cases hv with
      | array hitems => exact hitems w (List.mem_of_getElem? h)

/-- **Fields are what is given**, by key or by place. -/
theorem get_eq_some_iff (h : jsonFields? v = some fields) :
    fields.get f = some w ↔ Gives v f w := by
  unfold jsonFields? at h
  split at h
  next ms =>
    obtain ⟨-, -, h⟩ := Option.bind_eq_some_iff.mp h
    obtain ⟨kind, hkind, h⟩ := Option.bind_eq_some_iff.mp h
    obtain ⟨offset, hoffset, h⟩ := Option.bind_eq_some_iff.mp h
    obtain ⟨length, hlength, h⟩ := Option.bind_eq_some_iff.mp h
    obtain ⟨bodyLength, hbody, h⟩ := Option.bind_eq_some_iff.mp h
    obtain ⟨setter, hsetter, h⟩ := Option.bind_eq_some_iff.mp h
    obtain ⟨substructure, hsubstructure, h⟩ := Option.bind_eq_some_iff.mp h
    obtain rfl := Option.some.inj h
    rw [gives_object_iff]
    cases f with
    | kind => exact JsonValue.eq_some_iff_of_member? hkind
    | offset => exact JsonValue.eq_some_iff_of_member? hoffset
    | length => exact JsonValue.eq_some_iff_of_member? hlength
    | bodyLength => exact JsonValue.eq_some_iff_of_member? hbody
    | setterAccessibility => exact JsonValue.eq_some_iff_of_member? hsetter
    | substructure => exact JsonValue.eq_some_iff_of_member? hsubstructure
  next =>
    obtain rfl := Option.some.inj h
    rw [gives_array_iff]
    cases f <;> simp [JsonFields.get, JsonField.place]
  next =>
    obtain rfl := Option.some.inj h
    rw [gives_array_iff]
    cases f <;> simp [JsonFields.get, JsonField.place]
  next => cases h

/-- A whole number is given by a number that fits. -/
theorem optionalInt?_eq_some_some_iff {found : Option JsonValue} {i : Int} :
    JsonValue.optionalInt? found = some (some i) ↔
      ∃ literal, found = some (.number literal) ∧
        JsonValue.int64OfLiteral? literal = some i := by
  unfold JsonValue.optionalInt?
  split
  next => simp
  next => simp
  next literal => simp
  next v hnull hnumber =>
    simp only [reduceCtorEq, false_iff]
    rintro ⟨literal, heq, -⟩
    exact hnumber literal (Option.some.inj heq)

/-- **A natural number is read exactly where it is given**, and then it fits. -/
theorem eq_some_iff_gives (hv : v.Leaves JsonValue.IsSpelled) (h : jsonFields? v = some fields)
    (hnumber : JsonValue.optionalInt? (fields.get f) = some number) (n : Nat) :
    (number = some (n : Int) ↔ Gives v f (.ofNat n)) ∧
      (number = some (n : Int) → n ≤ maxInt64) := by
  have hforward : number = some (n : Int) → Gives v f (.ofNat n) ∧ n ≤ maxInt64 := by
    intro hn
    rw [hn] at hnumber
    obtain ⟨literal, hget, hread⟩ := optionalInt?_eq_some_some_iff.mp hnumber
    have hgiven := (get_eq_some_iff h).mp hget
    have hspelled := JsonValue.isNumber_of_leaves (hgiven.leaves hv)
    obtain ⟨rfl, hfits⟩ := (JsonValue.int64OfLiteral?_eq_some_iff hspelled).mp hread
    exact ⟨hgiven, hfits⟩
  refine ⟨⟨fun hn => (hforward hn).1, fun hgiven => ?_⟩, fun hn => (hforward hn).2⟩
  rw [(get_eq_some_iff h).mpr hgiven, JsonValue.ofNat, JsonValue.optionalInt?,
    JsonValue.int64OfLiteral?_toString] at hnumber
  split at hnumber
  next => exact (Option.some.inj hnumber).symm
  next => cases hnumber

/-- A tree that is read has its range from two numbers that are read. -/
theorem exists_numbers_of_ofJsonFields? (h : ofJsonFields? fields = some d) :
    ∃ offset length, JsonValue.optionalInt? (fields.get .offset) = some offset ∧
      JsonValue.optionalInt? (fields.get .length) = some length ∧
      d.range = rangeOf offset length := by
  unfold ofJsonFields? at h
  simp only [Option.bind_eq_bind, Option.bind_eq_some_iff, Option.pure_def] at h
  obtain ⟨kind, -, offset, hoffset, length, hlength, bodyLength, -, setter, -, heq⟩ := h
  obtain rfl := Option.some.inj heq
  exact ⟨offset, length, hoffset, hlength, rfl⟩

/-- The range that is read is the range that is given. -/
theorem rangeAsGiven_of_ofJsonFields? (hv : v.Leaves JsonValue.IsSpelled)
    (h : jsonFields? v = some fields) (hd : ofJsonFields? fields = some d) :
    RangeAsGiven v d := by
  obtain ⟨offset, length, hoffset, hlength, hrange⟩ := exists_numbers_of_ofJsonFields? hd
  intro r
  obtain ⟨hlocation, hlocationFits⟩ := eq_some_iff_gives hv h hoffset r.location
  obtain ⟨hsize, hsizeFits⟩ := eq_some_iff_gives hv h hlength r.length
  rw [hrange, rangeOf_eq_some_iff]
  refine ⟨and_congr hlocation hsize, fun ⟨hsome, hsome'⟩ => ?_⟩
  have hfirst := hlocationFits hsome
  have hsecond := hsizeFits hsome'
  rw [ByteRange.stop]
  rw [maxInt64] at hfirst hsecond
  rw [maxOffset]
  omega

/-- Every entry has a result, or there is none for the list. -/
theorem mapM_eq_some_iff {α β : Type} {g : α → Option β} {as : List α} {bs : List β} :
    as.mapM g = some bs ↔ List.Forall₂ (fun a b => g a = some b) as bs := by
  induction as generalizing bs with
  | nil => simp [eq_comm]
  | cons a as ih =>
      simp only [List.mapM_cons, Option.bind_eq_bind, Option.bind_eq_some_iff, Option.pure_def,
        Option.some.injEq, List.forall₂_cons_left_iff, ih]
      constructor
      · intro ⟨b, hb, rest, hrest, heq⟩
        exact ⟨b, rest, hb, hrest, heq.symm⟩
      · intro ⟨b, rest, hb, hrest, heq⟩
        exact ⟨b, hb, rest, hrest, heq.symm⟩

/-- One level of a tree: the attributes, then the children one by one. -/
theorem ofJsonWithin?_succ (n : Nat) (v : JsonValue) :
    ofJsonWithin? (n + 1) v = (do
      let fields ← jsonFields? v
      let d ← ofJsonFields? fields
      match fields.substructure, n with
      | none, _ => pure d
      | some (.array items), m + 1 => do
          let children ← items.mapM (ofJsonWithin? m)
          pure { d with children := children }
      | some _, _ => none) := by
  -- the number of containers is matched on twice, which leaves the definition no equation
  delta ofJsonWithin?
  refine congrArg (Option.bind (jsonFields? v)) (funext fun fields => ?_)
  refine congrArg (Option.bind (ofJsonFields? fields)) (funext fun d => ?_)
  cases fields.substructure with
  | none => cases n <;> rfl
  | some w => cases w <;> cases n <;> rfl

/-- **What is read.**  A declaration has the attributes that are given, and its children are
what their items describe. -/
theorem exists_parts_of_ofJsonWithin? {containers : Nat}
    (h : ofJsonWithin? containers v = some d) :
    ∃ fields top, jsonFields? v = some fields ∧ ofJsonFields? fields = some top ∧
      d.range = top.range ∧
      (d.children = [] ∨ ∃ items m, fields.get .substructure = some (.array items) ∧
        List.Forall₂ (fun item child => ofJsonWithin? m item = some child) items d.children) := by
  cases containers with
  | zero => cases h
  | succ n =>
      rw [ofJsonWithin?_succ] at h
      simp only [Option.bind_eq_bind, Option.bind_eq_some_iff] at h
      obtain ⟨fields, hfields, top, htop, h⟩ := h
      refine ⟨fields, top, hfields, htop, ?_⟩
      split at h
      next hnone =>
        obtain rfl := Option.some.inj h
        refine ⟨rfl, .inl ?_⟩
        unfold ofJsonFields? at htop
        simp only [Option.bind_eq_bind, Option.bind_eq_some_iff, Option.pure_def] at htop
        obtain ⟨kind, -, offset, -, length, -, bodyLength, -, setter, -, heq⟩ := htop
        obtain rfl := Option.some.inj heq
        rfl
      next items m hitems =>
        simp only [Option.bind_eq_some_iff, Option.pure_def] at h
        obtain ⟨children, hchildren, heq⟩ := h
        obtain rfl := Option.some.inj heq
        exact ⟨rfl, .inr ⟨items, m, hitems, mapM_eq_some_iff.mp hchildren⟩⟩
      next => cases h

theorem itemAt_nil_iff : ItemAt v [] w ↔ w = v := by
  constructor
  · intro h
    cases h
    rfl
  · rintro rfl
    exact .here w

/-- The items below a place are those of the item there. -/
theorem itemAt_cons_iff {items : List JsonValue} {item : JsonValue} {i : Nat} {place : List Nat}
    (hfields : jsonFields? v = some fields)
    (hitems : fields.get .substructure = some (.array items)) (hitem : items[i]? = some item) :
    ItemAt v (i :: place) w ↔ ItemAt item place w := by
  have hgiven := (get_eq_some_iff hfields).mp hitems
  constructor
  · intro h
    cases h with
    | child hother hother' more =>
        have hsame := hitems.symm.trans ((get_eq_some_iff hfields).mpr hother)
        obtain rfl := JsonValue.array.inj (Option.some.inj hsame)
        obtain rfl := Option.some.inj (hitem.symm.trans hother')
        exact more
  · exact .child hgiven hitem

/-- **Each declaration comes from the value at its place**, and no other stands there. -/
theorem exists_itemAt {containers : Nat} (hv : v.Leaves JsonValue.IsSpelled)
    (h : ofJsonWithin? containers v = some d) {place : List Nat} {node : Declaration}
    (hat : d.at? place = some node) :
    ∃ item, (∀ w, ItemAt v place w ↔ w = item) ∧ RangeAsGiven item node := by
  induction place generalizing v d containers with
  | nil =>
      obtain rfl := Option.some.inj hat
      obtain ⟨fields, top, hfields, htop, hrange, -⟩ := exists_parts_of_ofJsonWithin? h
      refine ⟨v, fun w => itemAt_nil_iff, ?_⟩
      rw [RangeAsGiven, hrange]
      exact rangeAsGiven_of_ofJsonFields? hv hfields htop
  | cons i place ih =>
      obtain ⟨child, hchild, hbelow⟩ := Option.bind_eq_some_iff.mp hat
      obtain ⟨fields, top, hfields, -, -, hchildren⟩ := exists_parts_of_ofJsonWithin? h
      rcases hchildren with hnone | ⟨items, m, hitems, hread⟩
      · rw [hnone] at hchild
        cases hchild
      · obtain ⟨hi, rfl⟩ := List.getElem?_eq_some_iff.mp hchild
        have hi' : i < items.length := hread.length_eq ▸ hi
        have hitem : items[i]? = some items[i] := List.getElem?_eq_getElem hi'
        have hleaves : items[i].Leaves JsonValue.IsSpelled := by
          cases ((get_eq_some_iff hfields).mp hitems).leaves hv with
          | array h => exact h _ (List.getElem_mem hi')
        obtain ⟨item, hat, hrange⟩ := ih hleaves (hread.get hi' hi) hbelow
        exact ⟨item, fun w => (itemAt_cons_iff hfields hitems hitem).trans (hat w), hrange⟩

end Reading

section Writing

variable {d : Declaration} {v : JsonValue} {items : List JsonValue}

theorem optionalText?_said (found : Option String) :
    JsonValue.optionalText? (found.map .ofString) = some found := by
  cases found with
  | none => rfl
  | some s => rfl

/-- A number that fits a signed word is read as it is given. -/
theorem optionalInt?_said {found : Option Nat} (hfits : ∀ n ∈ found, n ≤ maxInt64) :
    JsonValue.optionalInt? (found.map .ofNat) = some (found.map fun n : Nat => (n : Int)) := by
  cases found with
  | none => rfl
  | some n =>
      rw [Option.map_some, JsonValue.ofNat, JsonValue.optionalInt?,
        JsonValue.int64OfLiteral?_toString, if_pos (hfits n rfl)]
      rfl

theorem rangeOf_said (range : Option ByteRange) :
    rangeOf ((range.map ByteRange.location).map fun n : Nat => (n : Int))
      ((range.map ByteRange.length).map fun n : Nat => (n : Int)) = range := by
  cases range with
  | none => rfl
  | some r => exact rangeOf_eq_some_iff.mpr ⟨rfl, rfl⟩

theorem bodyLength_said (bodyLength : Option Nat) :
    ((bodyLength.map fun n : Nat => (n : Int)).filter fun n => decide (0 ≤ n)).map Int.toNat =
      bodyLength := by
  cases bodyLength with
  | none => rfl
  | some n => simp

/-- The fields that a declaration says. -/
def saidFields (d : Declaration) (items : List JsonValue) : JsonFields :=
  ⟨d.said items .kind, d.said items .offset, d.said items .length, d.said items .bodyLength,
    d.said items .setterAccessibility, d.said items .substructure⟩

/-- **What is said is read.** -/
theorem ofJsonFields?_saidFields (hfits : d.Fits) (items : List JsonValue) :
    ofJsonFields? (d.saidFields items) = some { d with children := [] } := by
  obtain ⟨hrange, hbody⟩ := hfits
  have hkind : JsonValue.optionalText? (d.said items .kind) =
      some (d.kind.map DeclarationKind.identifier) := by
    rw [← optionalText?_said, Option.map_map]
    rfl
  have hoffset : JsonValue.optionalInt? (d.said items .offset) =
      some ((d.range.map ByteRange.location).map fun n : Nat => (n : Int)) := by
    refine optionalInt?_said fun n hn => ?_
    obtain ⟨r, hr, rfl⟩ := Option.map_eq_some_iff.mp hn
    exact (hrange r hr).1
  have hlength : JsonValue.optionalInt? (d.said items .length) =
      some ((d.range.map ByteRange.length).map fun n : Nat => (n : Int)) := by
    refine optionalInt?_said fun n hn => ?_
    obtain ⟨r, hr, rfl⟩ := Option.map_eq_some_iff.mp hn
    exact (hrange r hr).2
  have hbodyLength := optionalInt?_said hbody
  have hsetter := optionalText?_said d.setterAccessibility
  have hidentifier : (d.kind.map DeclarationKind.identifier).bind
      DeclarationKind.ofIdentifier? = d.kind := by
    cases d.kind with
    | none => rfl
    | some k => exact DeclarationKind.ofIdentifier?_identifier k
  unfold ofJsonFields? saidFields
  simp only [hkind, hoffset, hlength, Option.bind_eq_bind, Option.bind_some]
  simp only [said, hbodyLength, hsetter, Option.bind_some, hidentifier, rangeOf_said,
    bodyLength_said, Option.pure_def]

/-- An object that says each field once, or not at all, is read as what it says. -/
theorem jsonFields?_of_said {ms : List (JsonText × JsonValue)} (hkeys : ∀ m ∈ ms, m.1.isSome)
    (hsaid : ∀ f : JsonField, (ms.filter fun m => m.1 == some f.key) =
      ((d.said items f).map fun w => (some f.key, w)).toList) :
    jsonFields? (.object ms) = some (d.saidFields items) := by
  have hmember : ∀ f : JsonField, JsonValue.member? f.key ms = some (d.said items f) :=
    fun f => JsonValue.member?_of_filter (hsaid f)
  have hall : (ms.all fun m => m.1.isSome) = true := List.all_eq_true.mpr hkeys
  have hkind : JsonValue.member? "key.kind" ms = _ := hmember .kind
  have hoffset : JsonValue.member? "key.offset" ms = _ := hmember .offset
  have hlength : JsonValue.member? "key.length" ms = _ := hmember .length
  have hbody : JsonValue.member? "key.bodylength" ms = _ := hmember .bodyLength
  have hsetter : JsonValue.member? "key.setter_accessibility" ms = _ :=
    hmember .setterAccessibility
  have hsubstructure : JsonValue.member? "key.substructure" ms = _ := hmember .substructure
  unfold jsonFields?
  dsimp only
  rw [hall, hkind, hoffset, hlength, hbody, hsetter, hsubstructure]
  rfl

/-- A tree is its attributes and its children. -/
theorem eq_of_children (d : Declaration) :
    (⟨d.kind, d.range, d.bodyLength, d.setterAccessibility, d.children⟩ : Declaration) = d := by
  cases d
  rfl

theorem NestedWithin.child {depth : Nat} (h : d.NestedWithin (depth + 1)) {child : Declaration}
    (hchild : child ∈ d.children) : child.NestedWithin depth := by
  obtain ⟨i, hi⟩ := List.getElem?_of_mem hchild
  intro place hplace
  have hlt := h (i :: place) (by rwa [at?_cons hi])
  rw [List.length_cons] at hlt
  omega

theorem AllFit.child (h : d.AllFit) {child : Declaration} (hchild : child ∈ d.children) :
    child.AllFit := by
  obtain ⟨i, hi⟩ := List.getElem?_of_mem hchild
  exact fun place node hnode => h (i :: place) node (by rwa [at?_cons hi])

/-- **A form is read as its tree.**  Each level takes two containers, the object and the list
of its children, and the last level takes one. -/
theorem ofJsonWithin?_of_jsonForm (h : JsonForm d v) (hfits : d.AllFit) (depth : Nat)
    (hdepth : d.NestedWithin (depth + 1)) : ofJsonWithin? (2 * depth + 1) v = some d := by
  induction d using treeInduction generalizing v depth with
  | step d ih =>
      cases h with
      | @object _ ms items hkeys hsaid hitems =>
          rw [ofJsonWithin?_succ, jsonFields?_of_said hkeys hsaid]
          simp only [Option.bind_eq_bind, Option.bind_some,
            ofJsonFields?_saidFields (hfits [] d rfl)]
          cases hchildren : d.children with
          | nil =>
              have hnone : (d.saidFields items).substructure = none := by
                simp [saidFields, said, hchildren]
              rw [hnone, ← hchildren]
              cases depth <;> exact congrArg some (eq_of_children d)
          | cons first rest =>
              have hsome : (d.saidFields items).substructure = some (.array items) := by
                simp [saidFields, said, hchildren]
              have hfirst : d.children[0]? = some first := by rw [hchildren]; rfl
              have hone := hdepth [0] (by rw [at?_cons hfirst]; rfl)
              obtain ⟨k, rfl⟩ : ∃ k, depth = k + 1 := ⟨depth - 1, by simp at hone; omega⟩
              have hread : List.Forall₂ (fun item child =>
                  ofJsonWithin? (2 * k + 1) item = some child) items d.children := by
                rw [List.forall₂_iff_get] at hitems ⊢
                refine ⟨hitems.1.symm, fun i hi hi' => ?_⟩
                have hmem := List.get_mem d.children ⟨i, hi'⟩
                exact ih _ hmem (hitems.2 i hi' hi) (hfits.child hmem) k (hdepth.child hmem)
              rw [hsome, show 2 * (k + 1) = 2 * k + 1 + 1 from rfl]
              simp only [mapM_eq_some_iff.mpr hread, Option.bind_some, Option.pure_def]
              exact congrArg some (eq_of_children d)

/-- **Every accepted text.**  Loading gives each declaration its range as the text gives it. -/
theorem exists_itemAt_of_ofStructureJson {text : String} (h : ofStructureJson text = .ok d) :
    ∃ v : JsonValue, v.SpelledBy text ∧ ∀ place node, d.at? place = some node →
      ∃ item, (∀ w, ItemAt v place w ↔ w = item) ∧ RangeAsGiven item node := by
  unfold ofStructureJson at h
  split at h
  next => cases h
  next v hparse =>
    split at h
    next => cases h
    next read hread =>
      obtain rfl := Except.ok.inj h
      have hspelled := JsonValue.parse?_eq_some_iff.mp hparse
      exact ⟨v, hspelled, fun place node hat => exists_itemAt hspelled.leaves hread hat⟩

/-- **Every form of a tree is loaded as the tree.** -/
theorem ofStructureJson_of_jsonForm {text : String} (hdepth : d.NestedWithin 64)
    (hfits : d.AllFit) (h : JsonForm d v) (htext : v.SpelledBy text) :
    ofStructureJson text = .ok d := by
  have hread : ofJsonWithin? maxOpenContainers v = some d :=
    ofJsonWithin?_of_jsonForm h hfits 63 hdepth
  rw [ofStructureJson, JsonValue.parse?_eq_some_iff.mpr htext]
  simp only [hread]

end Writing

section Form

mutual

/-- A tree as JSON: each declaration is an object with what the declaration says. -/
def toJson : Declaration → JsonValue
  | ⟨kind, range, bodyLength, setter, children⟩ =>
      .object (JsonField.all.filterMap fun f =>
        (said ⟨kind, range, bodyLength, setter, children⟩ (toJsonAll children) f).map
          fun w => (some f.key, w))

/-- Trees as JSON. -/
def toJsonAll : List Declaration → List JsonValue
  | [] => []
  | d :: ds => toJson d :: toJsonAll ds

end

theorem toJsonAll_eq_map (ds : List Declaration) : toJsonAll ds = ds.map toJson := by
  induction ds with
  | nil => simp [toJsonAll]
  | cons d ds ih => simp [toJsonAll, ih]

theorem toJson_eq (d : Declaration) :
    d.toJson = .object (JsonField.all.filterMap fun f =>
      (d.said (d.children.map toJson) f).map fun w => (some f.key, w)) := by
  cases d
  rw [toJson, toJsonAll_eq_map]

/-- In a list of all fields each one stands once. -/
theorem filter_all_key (said : JsonField → Option JsonValue) (f : JsonField) :
    (JsonField.all.filterMap fun g => (said g).map fun w => (some g.key, w)).filter
        (fun m => m.1 == some f.key) = ((said f).map fun w => (some f.key, w)).toList := by
  have hself : ((said f).map fun w => (some f.key, w)).filter (fun m => m.1 == some f.key) =
      (said f).map fun w => (some f.key, w) := by
    cases said f with
    | none => rfl
    | some w => simp
  have hother : ∀ g : JsonField, g.key ≠ f.key →
      ((said g).map fun w => (some g.key, w)).filter (fun m => m.1 == some f.key) = none := by
    intro g hne
    cases said g with
    | none => rfl
    | some w => simp [hne]
  rw [List.filter_filterMap]
  cases f <;> simp (disch := decide) only [JsonField.all, List.filterMap_cons, hself, hother,
    List.filterMap_nil]
  all_goals cases said _ <;> rfl

/-- Every tree has a JSON form. -/
theorem jsonForm_toJson (d : Declaration) : JsonForm d d.toJson := by
  induction d using treeInduction with
  | step d ih =>
      rw [toJson_eq]
      refine .object (fun m hm => ?_) (filter_all_key _) ?_
      · obtain ⟨f, -, hf⟩ := List.mem_filterMap.mp hm
        obtain ⟨w, -, rfl⟩ := Option.map_eq_some_iff.mp hf
        rfl
      · rw [List.forall₂_map_right_iff, List.forall₂_same]
        exact ih

/-- What a declaration says is JSON, if what describes its children is. -/
theorem leaves_of_said {d : Declaration} {items : List JsonValue} {f : JsonField} {w : JsonValue}
    (hitems : ∀ v ∈ items, v.Leaves JsonValue.SpellsItself) (h : d.said items f = some w) :
    w.Leaves JsonValue.SpellsItself := by
  have hnat : ∀ {found : Option Nat}, found.map .ofNat = some w →
      w.Leaves JsonValue.SpellsItself := by
    intro found hfound
    obtain ⟨n, -, rfl⟩ := Option.map_eq_some_iff.mp hfound
    exact JsonValue.leaves_ofNat n
  cases f with
  | kind =>
      obtain ⟨k, -, rfl⟩ := Option.map_eq_some_iff.mp h
      exact JsonValue.leaves_ofString _
  | offset => exact hnat h
  | length => exact hnat h
  | bodyLength => exact hnat h
  | setterAccessibility =>
      obtain ⟨s, -, rfl⟩ := Option.map_eq_some_iff.mp h
      exact JsonValue.leaves_ofString s
  | substructure =>
      rw [said] at h
      split at h
      next => cases h
      next =>
        obtain rfl := Option.some.inj h
        exact .array hitems

/-- What is written for a tree is JSON. -/
theorem leaves_toJson (d : Declaration) : d.toJson.Leaves JsonValue.SpellsItself := by
  induction d using treeInduction with
  | step d ih =>
      have hmember : ∀ m ∈ JsonField.all.filterMap fun f =>
          (d.said (d.children.map toJson) f).map fun w => ((some f.key : JsonText), w),
          (JsonValue.string m.1).Leaves JsonValue.SpellsItself ∧
            m.2.Leaves JsonValue.SpellsItself := by
        intro m hm
        obtain ⟨f, -, hf⟩ := List.mem_filterMap.mp hm
        obtain ⟨w, hw, rfl⟩ := Option.map_eq_some_iff.mp hf
        exact ⟨JsonValue.leaves_ofString f.key, leaves_of_said (List.forall_mem_map.mpr ih) hw⟩
      rw [toJson_eq]
      refine .object (fun m hm => ?_) fun m hm => (hmember m hm).2
      cases (hmember m hm).1 with
      | string h => exact h

/-- **Loading undoes printing.** -/
theorem ofStructureJson_pretty (d : Declaration) (hdepth : d.NestedWithin 64)
    (hfits : d.AllFit) : ofStructureJson d.toJson.pretty = .ok d :=
  ofStructureJson_of_jsonForm hdepth hfits (jsonForm_toJson d)
    (JsonValue.spelledBy_pretty (leaves_toJson d))

end Form

/-- **Loading is exact.**  A text in any form of a tree is loaded as the tree, if no more than
64 declarations are nested and the numbers fit a signed 64-bit integer.  And in every text
that is accepted, each declaration has a range exactly when the value at its place gives both
numbers and neither is negative; the end of a range fits a word. -/
theorem structureJson_exact :
    (∀ (d : Declaration) (v : JsonValue) (text : String), d.NestedWithin 64 → d.AllFit →
        JsonForm d v → v.SpelledBy text → ofStructureJson text = .ok d) ∧
      ∀ (text : String) (d : Declaration), ofStructureJson text = .ok d →
        ∃ v : JsonValue, v.SpelledBy text ∧ ∀ place node, d.at? place = some node →
          ∃ item, (∀ w, ItemAt v place w ↔ w = item) ∧ RangeAsGiven item node :=
  ⟨fun _ _ _ hdepth hfits h htext => ofStructureJson_of_jsonForm hdepth hfits h htext,
    fun _ _ h => exists_itemAt_of_ofStructureJson h⟩

/-- A file with one variable, and who may set it. -/
def setterTree : Declaration :=
  { range := some ⟨0, 31⟩
    children := [{ kind := some .varInstance, setterAccessibility := some "\"private\"\n" }] }

/-- A JSON form of the file, with another member between. -/
def setterValue : JsonValue :=
  .ofMembers [("key.length", .ofNat 31), ("key.name", .array [.null]), ("key.offset", .ofNat 0),
    ("key.substructure", .array [.ofMembers [
      ("key.setter_accessibility", .ofString "\"private\"\n"),
      ("key.kind", .ofString "source.lang.swift.decl.var.instance")]])]

theorem places_setterTree : setterTree.places = [[], [0]] := by
  simp [setterTree, places, placesFrom]

theorem nestedWithin_setterTree : setterTree.NestedWithin 64 := by
  intro place hplace
  rw [← mem_places_iff, places_setterTree] at hplace
  rcases List.mem_pair.mp hplace with rfl | rfl
  · decide
  · decide

/-- The offsets of the example fit. -/
theorem allFit_setterTree : setterTree.AllFit := by
  intro place node hnode
  have hplace : place ∈ setterTree.places := by
    rw [mem_places_iff, hnode]
    rfl
  rw [places_setterTree] at hplace
  rcases List.mem_pair.mp hplace with rfl | rfl
  · obtain rfl := Option.some.inj hnode
    refine ⟨fun r hr => ?_, fun n hn => nomatch hn⟩
    obtain rfl := Option.some.inj hr
    decide
  · obtain rfl := Option.some.inj hnode
    exact ⟨fun r hr => (nomatch hr), fun n hn => (nomatch hn)⟩

/-- The form of a variable with a setter is one of its tree. -/
theorem jsonForm_setterValue : JsonForm setterTree setterValue := by
  have hitem : JsonForm
      { kind := some .varInstance, setterAccessibility := some "\"private\"\n" }
      (.ofMembers [("key.setter_accessibility", .ofString "\"private\"\n"),
        ("key.kind", .ofString "source.lang.swift.decl.var.instance")]) := by
    refine .object (by simp) (fun f => ?_) .nil
    cases f <;> rfl
  refine .object (by simp) (fun f => ?_) (.cons hitem .nil)
  cases f <;> rfl

/-- The form over several lines is a text that spells it. -/
theorem spelledBy_setterValue : setterValue.SpelledBy setterValue.pretty := by
  have hnull : JsonValue.null.Leaves JsonValue.SpellsItself := .null .null
  refine JsonValue.spelledBy_pretty (JsonValue.leaves_ofMembers ?_)
  simp only [List.forall_mem_cons]
  refine ⟨JsonValue.leaves_ofNat 31, .array (List.forall_mem_singleton.mpr hnull),
    JsonValue.leaves_ofNat 0, .array (List.forall_mem_singleton.mpr ?_),
    fun _ h => absurd h List.not_mem_nil⟩
  refine JsonValue.leaves_ofMembers ?_
  simp only [List.forall_mem_cons]
  exact ⟨JsonValue.leaves_ofString _, JsonValue.leaves_ofString _,
    fun _ h => absurd h List.not_mem_nil⟩

/-- A variable with a private setter, as it is printed. -/
theorem structureJson_exact_setter :
    setterTree.NestedWithin 64 ∧ setterTree.AllFit ∧ JsonForm setterTree setterValue ∧
      setterValue.SpelledBy setterValue.pretty ∧
      ofStructureJson setterValue.pretty = .ok setterTree ∧
      ∃ v : JsonValue, v.SpelledBy setterValue.pretty ∧ ∀ place node,
        setterTree.at? place = some node →
          ∃ item, (∀ w, ItemAt v place w ↔ w = item) ∧ RangeAsGiven item node := by
  have hload := structureJson_exact.1 setterTree setterValue _ nestedWithin_setterTree
    allFit_setterTree jsonForm_setterValue spelledBy_setterValue
  exact ⟨nestedWithin_setterTree, allFit_setterTree, jsonForm_setterValue, spelledBy_setterValue,
    hload, structureJson_exact.2 _ setterTree hload⟩

end Declaration

end DeclLint
