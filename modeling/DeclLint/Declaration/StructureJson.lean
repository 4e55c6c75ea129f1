import DeclLint.Declaration.ParseError
import DeclLint.Declaration.Tree
import DeclLint.Json.Decode
import DeclLint.Json.Reader

/-!
# Declaration trees as JSON

`sourcekitten structure` prints a tree as one JSON object per declaration.  A
known member must have its type and may be given once; unknown members are
passed over.  The members may also come as an array, in their fixed order.  At
most 127 objects and arrays of the tree may be open at once, so 64 declarations
may be nested.

* `Declaration.ofStructureJson` — the tree that a text spells;
* `Declaration.rangeOf_eq_some_iff` — a span is known exactly when both its
  numbers are given and neither is negative.
-/

namespace DeclLint

namespace Declaration

/-- The values of the members of a declaration, in their fixed order. -/
structure JsonFields where
  kind : Option JsonValue
  offset : Option JsonValue
  length : Option JsonValue
  bodyLength : Option JsonValue
  setterAccessibility : Option JsonValue
  substructure : Option JsonValue

/-- The members of a declaration, given by key or by place.  By place only the
last may be missing. -/
def jsonFields? : JsonValue → Option JsonFields
  | .object members => do
      guard (members.all fun m => m.1.isSome)
      pure
        { kind := ← JsonValue.member? "key.kind" members
          offset := ← JsonValue.member? "key.offset" members
          length := ← JsonValue.member? "key.length" members
          bodyLength := ← JsonValue.member? "key.bodylength" members
          setterAccessibility := ← JsonValue.member? "key.setter_accessibility" members
          substructure := ← JsonValue.member? "key.substructure" members }
  | .array [kind, offset, length, bodyLength, setter] =>
      some ⟨some kind, some offset, some length, some bodyLength, some setter, none⟩
  | .array [kind, offset, length, bodyLength, setter, substructure] =>
      some ⟨some kind, some offset, some length, some bodyLength, some setter, some substructure⟩
  | _ => none

/-- The span that an offset and a length make, if both are given and neither is
negative. -/
def rangeOf (offset length : Option Int) : Option ByteRange :=
  match offset, length with
  | some offset, some length =>
      if 0 ≤ offset ∧ 0 ≤ length then some ⟨offset.toNat, length.toNat⟩ else none
  | _, _ => none

/-- A span is known exactly when both its numbers are given and neither is
negative. -/
theorem rangeOf_eq_some_iff {offset length : Option Int} {r : ByteRange} :
    rangeOf offset length = some r ↔
      offset = some (r.location : Int) ∧ length = some (r.length : Int) := by
  cases r with
  | mk location size =>
      cases offset <;> cases length <;> simp [rangeOf]
      omega

/-- The declaration that its members describe, without what is inside it. -/
def ofJsonFields? (fields : JsonFields) : Option Declaration := do
  let kind ← JsonValue.optionalText? fields.kind
  let offset ← JsonValue.optionalInt? fields.offset
  let length ← JsonValue.optionalInt? fields.length
  let bodyLength ← JsonValue.optionalInt? fields.bodyLength
  let setter ← JsonValue.optionalText? fields.setterAccessibility
  pure
    { kind := kind.bind DeclarationKind.ofIdentifier?
      range := rangeOf offset length
      bodyLength := (bodyLength.filter fun n => decide (0 ≤ n)).map Int.toNat
      setterAccessibility := setter }

/-- The tree that a value describes, if no more than some number of its objects
and arrays are open at once. -/
def ofJsonWithin? (containers : Nat) (v : JsonValue) : Option Declaration :=
  match containers with
  | 0 => none
  | n + 1 => do
      let fields ← jsonFields? v
      let d ← ofJsonFields? fields
      match fields.substructure, n with
      | none, _ => pure d
      | some (.array items), m + 1 => do
          let children ← items.mapM (ofJsonWithin? m)
          pure { d with children := children }
      | some _, _ => none

/-- How many objects and arrays of a tree may be open at once. -/
def maxOpenContainers : Nat := 127

/-- The tree that a JSON text spells. -/
def ofStructureJson (text : String) : Except ParseError Declaration :=
  match JsonValue.parse? text with
  | none => .error (.invalidStructure "malformed JSON")
  | some v =>
      match ofJsonWithin? maxOpenContainers v with
      | none => .error (.invalidStructure "not the structure of a file")
      | some d => .ok d

end Declaration

end DeclLint
