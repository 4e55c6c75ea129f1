import DeclLint.Json.Decode
import DeclLint.Json.Printer
import DeclLint.Json.Reader
import DeclLint.RunLog.Entry

/-!
# Run log entries as JSON

An entry is one line with one JSON object.  A list of corrections that is empty
and a line of source that is not there are left out.  To be read, an object has
to give every other member once and in its form; members without meaning are
passed over.  The members may also come as an array, in their order.

* `RunLogEntry.json` — the object;
* `RunLogEntry.ofJsonLine?` — the entry that a line spells.
-/

namespace DeclLint

namespace LoggedViolation

/-- A violation as an object. -/
def json (v : LoggedViolation) : JsonValue :=
  JsonValue.ofMembers ([
    ("rule_id", .ofString v.ruleId),
    ("file_path", .ofString v.path),
    ("line", .ofNat v.line),
    ("character", .ofNat v.character),
    ("severity", .ofString v.severity.label),
    ("message", .ofString v.message)] ++
    v.sourceLine.toList.map fun line => ("source_line", .ofString line))

end LoggedViolation

namespace LoggedCorrection

/-- A correction as an object. -/
def json (c : LoggedCorrection) : JsonValue :=
  JsonValue.ofMembers [
    ("rule_id", .ofString c.ruleId),
    ("file_path", .ofString c.path),
    ("line", .ofNat c.line),
    ("character", .ofNat c.character),
    ("replacement", .ofString c.replacement)]

end LoggedCorrection

namespace RunLogEntry

/-- An entry as an object. -/
def json (e : RunLogEntry) : JsonValue :=
  JsonValue.ofMembers ([
    ("timestamp", .number (toString e.timestamp)),
    ("datetime", .ofString e.datetime),
    ("command", .ofString e.command),
    ("files_scanned", .ofNat e.filesScanned),
    ("total_violations", .ofNat e.totalViolations),
    ("error_count", .ofNat e.errorCount),
    ("warning_count", .ofNat e.warningCount),
    ("failed_files", .ofNat e.failedFiles),
    ("violations", .array (e.violations.map LoggedViolation.json))] ++
    (if e.corrections.isEmpty then []
    else [("corrections", .array (e.corrections.map LoggedCorrection.json))]) ++
    [("enabled_rules", .array (e.enabledRules.map JsonValue.ofString))])

/-- An entry as a line of the log. -/
def jsonLine (e : RunLogEntry) : String := e.json.compact

end RunLogEntry

/-- The values of the members with some keys, in the order of the keys.  An
array gives them by place. -/
def fieldsOf? (keys : List String) : JsonValue → Option (List (Option JsonValue))
  | .object members => do
      guard (members.all fun m => m.1.isSome)
      keys.mapM fun key => JsonValue.member? key members
  | .array items => if items.length ≤ keys.length then
      some (items.map some ++ List.replicate (keys.length - items.length) none) else none
  | _ => none

/-- A severity: its word, or an object that gives its word `null`. -/
def severityOfJson? : JsonValue → Option Severity
  | .string (some word) => Severity.ofLabel? word
  | .object [(some word, .null)] => Severity.ofLabel? word
  | _ => none

/-- The violation that a value describes. -/
def LoggedViolation.ofJson? (v : JsonValue) : Option LoggedViolation := do
  let keys := ["rule_id", "file_path", "line", "character", "severity", "message", "source_line"]
  match ← fieldsOf? keys v with
  | [some ruleId, some path, some line, some character, some severity, some message, source] =>
      if source.isNone && !v.isObject then none
      else pure {
        ruleId := ← ruleId.text?
        path := ← path.text?
        line := ← line.nat64?
        character := ← character.nat64?
        severity := ← severityOfJson? severity
        message := ← message.text?
        sourceLine := ← JsonValue.optionalText? source }
  | _ => none

/-- The correction that a value describes. -/
def LoggedCorrection.ofJson? (v : JsonValue) : Option LoggedCorrection := do
  match ← fieldsOf? ["rule_id", "file_path", "line", "character", "replacement"] v with
  | [some ruleId, some path, some line, some character, some replacement] =>
      pure ⟨← ruleId.text?, ← path.text?, ← line.nat64?, ← character.nat64?, ← replacement.text?⟩
  | _ => none

namespace RunLogEntry

/-- The keys of an entry, in their order. -/
def keys : List String :=
  ["timestamp", "datetime", "command", "files_scanned", "total_violations", "error_count",
    "warning_count", "failed_files", "violations", "corrections", "enabled_rules"]

/-- The entry that a value describes. -/
def ofJson? (v : JsonValue) : Option RunLogEntry := do
  match ← fieldsOf? keys v with
  | [some timestamp, some datetime, some command, some files, some total, some errors,
      some warnings, some failed, some violations, corrections, some rules] =>
      pure {
        timestamp := ← timestamp.int64?
        datetime := ← datetime.text?
        command := ← command.text?
        filesScanned := ← files.nat64?
        totalViolations := ← total.nat64?
        errorCount := ← errors.nat64?
        warningCount := ← warnings.nat64?
        failedFiles := ← failed.nat64?
        violations := ← violations.list? LoggedViolation.ofJson?
        corrections := ← (corrections.getD (.array [])).list? LoggedCorrection.ofJson?
        enabledRules := ← rules.list? JsonValue.text? }
  | _ => none

/-- The entry that a line spells. -/
def ofJsonLine? (line : String) : Option RunLogEntry := do ofJson? (← JsonValue.parse? line)

end RunLogEntry

end DeclLint
