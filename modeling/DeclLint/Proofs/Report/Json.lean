import DeclLint.Proofs.Json.Printing
import DeclLint.Report

/-!
# The JSON report loses nothing

A report is read back without knowing how it was written: its text is read as JSON, and
each item of the array is asked for its members by key.  What comes back is every violation
with the path of its result, in order, so no two reports that say different things look
the same.

* `Report.entries` — what a report says;
* `Report.Entry.ofJson?` — what one item of the array says;
* `Report.decode?_json` — the text of a report decodes to what it says;
* `Report.json_faithful` — **nothing is lost.**
-/

namespace DeclLint

namespace JsonValue

/-- The natural number that decimal digits spell, however large. -/
def natural? : JsonValue → Option Nat
  | .number literal =>
      if literal.toList.all Char.isDigit then some (natOfDigits literal.toList) else none
  | _ => none

theorem natural?_ofNat (n : Nat) : (ofNat n).natural? = some n := by
  have hall : (toString n).toList.all Char.isDigit = true := by
    rw [toList_toString, List.all_eq_true]
    exact (isDigits_toDigits n).2
  rw [ofNat, natural?, if_pos hall, toList_toString, natOfDigits_toDigits]

/-- The value of a member that must be there, in the form that is asked for. -/
def required? {α : Type} (decode? : JsonValue → Option α) (key : String) :
    JsonValue → Option α
  | .object members => do
      let found ← member? key members
      decode? (← found)
  | _ => none

end JsonValue

namespace Report

/-- What a report says about one violation. -/
structure Entry where
  /-- The path of the result that the violation belongs to. -/
  file : String
  line : Nat
  character : Nat
  severity : Severity
  ruleId : String
  ruleName : String
  reason : String
deriving DecidableEq, Repr

namespace Entry

/-- What a report says about a violation of the file at a path. -/
def ofViolation (path : String) (v : Violation) : Entry :=
  { file := path
    line := v.location.line
    character := v.location.character
    severity := v.severity
    ruleId := v.ruleId
    ruleName := v.ruleName
    reason := v.message }

/-- A violation that a report says this about. -/
def violation (e : Entry) : Violation :=
  ⟨e.ruleId, e.ruleName, e.severity, e.reason, ⟨none, e.line, e.character, 0⟩⟩

/-- What a JSON object with the members of an entry says. -/
def ofJson? (v : JsonValue) : Option Entry := do
  pure
    { file := ← v.required? JsonValue.text? "file"
      line := ← v.required? JsonValue.natural? "line"
      character := ← v.required? JsonValue.natural? "character"
      severity := ← Severity.ofLabel? (← v.required? JsonValue.text? "severity")
      ruleId := ← v.required? JsonValue.text? "rule_id"
      ruleName := ← v.required? JsonValue.text? "rule_name"
      reason := ← v.required? JsonValue.text? "reason" }

end Entry

/-- What a report says: every violation with the path of its result, results in order and
the violations of each in order. -/
def entries (results : List LintResult) : List Entry :=
  results.flatMap fun r => r.violations.map (Entry.ofViolation r.path)

/-- What a text says that is read as a report. -/
def decode? (text : String) : Option (List Entry) := do
  (← JsonValue.parse? text).list? Entry.ofJson?

section Decoding

/-- A violation that is printed is decoded as its entry. -/
theorem ofJson?_violationJson (path : String) (v : Violation) :
    Entry.ofJson? (violationJson path v) = some (Entry.ofViolation path v) := by
  have hkey : ∀ {α : Type} (decode? : JsonValue → Option α) (key : String)
      (ms : List (String × JsonValue)) (w : JsonValue),
      (ms.map fun m => (some m.1, m.2)).filter (fun m => m.1 == some key) = [(some key, w)] →
        (JsonValue.ofMembers ms).required? decode? key = decode? w := by
    intro α decode? key ms w h
    rw [JsonValue.ofMembers, JsonValue.required?, JsonValue.member?, h]
    rfl
  unfold Entry.ofJson? violationJson
  rw [hkey JsonValue.text? "file" _ _ rfl, hkey JsonValue.natural? "line" _ _ rfl,
    hkey JsonValue.natural? "character" _ _ rfl, hkey JsonValue.text? "severity" _ _ rfl,
    hkey JsonValue.text? "rule_id" _ _ rfl, hkey JsonValue.text? "rule_name" _ _ rfl,
    hkey JsonValue.text? "reason" _ _ rfl, JsonValue.natural?_ofNat, JsonValue.natural?_ofNat]
  simp [JsonValue.ofString, JsonValue.text?, Severity.ofLabel?_label, Entry.ofViolation]

/-- The items of a report decode to its entries. -/
theorem list?_ofJson? (results : List LintResult) :
    (results.flatMap fun r => r.violations.map (violationJson r.path)).mapM Entry.ofJson? =
      some (entries results) := by
  have hall : ∀ r : LintResult, (r.violations.map (violationJson r.path)).mapM Entry.ofJson? =
      some (r.violations.map (Entry.ofViolation r.path)) := by
    intro r
    rw [List.mapM_map]
    induction r.violations with
    | nil => rfl
    | cons v vs ih =>
        rw [List.mapM_cons, Function.comp_apply, ofJson?_violationJson, ih]
        rfl
  induction results with
  | nil => rfl
  | cons r results ih =>
      rw [List.flatMap_cons, List.mapM_append, hall, ih]
      rfl

theorem leaves_violationJson (path : String) (v : Violation) :
    (violationJson path v).Leaves JsonValue.SpellsItself := by
  refine JsonValue.leaves_ofMembers ?_
  simp only [List.forall_mem_cons]
  exact ⟨JsonValue.leaves_ofString _, JsonValue.leaves_ofNat _, JsonValue.leaves_ofNat _,
    JsonValue.leaves_ofString _, JsonValue.leaves_ofString _, JsonValue.leaves_ofString _,
    JsonValue.leaves_ofString _, fun _ hm => absurd hm List.not_mem_nil⟩

theorem leaves_json (results : List LintResult) :
    (JsonValue.array (results.flatMap fun r =>
      r.violations.map (violationJson r.path))).Leaves JsonValue.SpellsItself := by
  refine .array fun v hv => ?_
  obtain ⟨r, -, hv⟩ := List.mem_flatMap.mp hv
  obtain ⟨violation, -, rfl⟩ := List.mem_map.mp hv
  exact leaves_violationJson r.path violation

/-- **A report decodes to what it says.** -/
theorem decode?_json (results : List LintResult) :
    decode? (json results) = some (entries results) := by
  rw [decode?, json, JsonValue.parse?_pretty (leaves_json results)]
  exact list?_ofJson? results

theorem length_entries (results : List LintResult) :
    (entries results).length = (Summary.ofResults results).total := by
  rw [Summary.total_ofResults, entries, List.length_flatMap, List.length_flatMap]
  simp only [List.length_map]

/-- A report is written from what it says. -/
theorem json_eq (results : List LintResult) :
    json results =
      (JsonValue.array
        ((entries results).map fun e => violationJson e.file e.violation)).pretty := by
  rw [json, entries, List.map_flatMap]
  simp only [List.map_map]
  rfl

/-- **The JSON report loses nothing.**  Its text is JSON; read back it gives every violation
with the path of its result, in order, as many as the summary counts; and two lists of
results have one text exactly when they say the same. -/
theorem json_faithful (results : List LintResult) :
    (∃ v : JsonValue, v.SpelledBy (json results)) ∧
      decode? (json results) = some (entries results) ∧
      (entries results).length = (Summary.ofResults results).total ∧
      ∀ others, json others = json results ↔ entries others = entries results := by
  refine ⟨⟨_, JsonValue.spelledBy_pretty (leaves_json results)⟩, decode?_json results,
    length_entries results, ?_⟩
  intro others
  constructor
  · intro h
    have hothers := decode?_json others
    rw [h, decode?_json results] at hothers
    exact (Option.some.inj hothers).symm
  · intro h
    rw [json_eq, json_eq, h]

end Decoding

end Report

end DeclLint
