import DeclLint.Files.Lint
import DeclLint.Proofs.Files.Machine
import DeclLint.Proofs.Files.Task

/-!
# Correcting a file, operation by operation

The correction of a file is written for any monad with the operations of a machine.  As a
task it has two operations: it reads the file, and if anything is corrected it writes the
corrected text.  On its own the task does what the correction does on a machine.

* `Linter.correctFile_eq` — the task, from its first operation on;
* `Linter.run_correctFile` — the task on its own;
* `Linter.turn_correctFile`, `Linter.turn_saving` — its two turns;
* `Linter.correctFile_within` — it has no more.
-/

namespace DeclLint

namespace Linter

variable {linter : Linter} {producer : StructureProducer} {machine : Machine}
  {path source text : String} {names : List String} {old : ByteArray}
  {result : Logged CorrectionResult}

/-- The result of a corrected file that was written. -/
def saved (path : String) (result : Logged CorrectionResult) : Logged CorrectionResult := do
  let corrected ← result
  Logged.note .info s!"{path}: applied {corrected.applied.length} correction(s)"
  return corrected

/-- What is left to do with the result of a source text: write the corrected text, if
there is one. -/
def saving (path : String) (result : Logged CorrectionResult) : Task (Logged CorrectionResult) :=
  match result.value.corrected with
  | none => .done result
  | some contents => .doing (.write path contents) fun (written : Except FileFault Unit) =>
      match written with
      | .error e => .done do
          let _ ← result
          return .ofError path (.unwritable e)
      | .ok _ => .done (saved path result)

/-- What follows on reading a file. -/
def opened (linter : Linter) (producer : StructureProducer) (path : String) :
    Except FileFault String → Task (Logged CorrectionResult)
  | .error e => .done (pure (.ofError path (.unreadable e)))
  | .ok source => saving path (linter.correctSource producer path source)

/-- Correcting a file begins with reading it. -/
theorem correctFile_eq (linter : Linter) (producer : StructureProducer) (path : String) :
    linter.correctFile (m := Task) producer path =
      .doing (.read path) fun (contents : Except FileFault ByteArray) =>
        opened linter producer path (contents >>= textOf) := by
  refine congrArg (Task.doing (.read path)) (funext fun contents => ?_)
  show Task.andThen (.done (contents >>= textOf)) _ = _
  rw [Task.andThen]
  cases (contents >>= textOf : Except FileFault String) with
  | error e => rfl
  | ok source =>
      unfold opened saving
      dsimp only
      cases (linter.correctSource producer path source).value.corrected with
      | none => rfl
      | some text =>
          refine congrArg (Task.doing (.write path text)) (funext fun written => ?_)
          cases written <;> rfl

/-- On its own the task does what correcting the file does. -/
theorem run_correctFile (linter : Linter) (producer : StructureProducer) (path : String) :
    (linter.correctFile (m := Task) producer path).run =
      linter.correctFile (m := StateM Machine) producer path := by
  unfold correctFile
  rw [Task.run_bind]
  refine congrArg (bind (Host.readText path)) (funext fun found => ?_)
  cases found with
  | error e => rfl
  | ok source =>
      dsimp only
      cases (linter.correctSource producer path source).value.corrected with
      | none => rfl
      | some text =>
          dsimp only
          rw [Task.run_bind]
          refine congrArg (bind (Host.write path text)) (funext fun written => ?_)
          cases written <;> rfl

/-- **The first turn** reads. -/
theorem turn_correctFile (linter : Linter) (producer : StructureProducer) (path : String)
    (machine : Machine) :
    (linter.correctFile (m := Task) producer path).turn machine =
      (opened linter producer path (machine.text path), machine) := by
  rw [correctFile_eq]
  rfl

theorem saving_of_none (h : result.value.corrected = none) (path : String) :
    saving path result = .done result := by
  rw [saving, h]

/-- **The second turn** writes. -/
theorem turn_saving (h : result.value.corrected = some text)
    (hlocate : machine.locate path = .ok names)
    (hfile : machine.files.at? names = some (.file old)) :
    (saving path result).turn machine =
      (.done (saved path result), machine.overwrite names text.toUTF8) := by
  have hwrite : (Host.write path text : StateM Machine (Except FileFault Unit)) machine =
      (.ok (), machine.overwrite names text.toUTF8) := by
    have hchange := Machine.change_of_file hlocate hfile fun _ => text.toUTF8
    show Machine.attempt _ machine = _
    rw [Machine.attempt, hchange]
  rw [saving, h]
  show (_, ((Host.write path text : StateM Machine (Except FileFault Unit)) machine).2) = _
  simp only [Operation.perform, hwrite]

/-- A file that was read is written once at most. -/
theorem opened_within (linter : Linter) (producer : StructureProducer) (path : String)
    (found : Except FileFault String) : (opened linter producer path found).Within 1 := by
  cases found with
  | error e => trivial
  | ok source =>
      dsimp only [opened, saving]
      cases (linter.correctSource producer path source).value.corrected with
      | none => trivial
      | some text =>
          intro written
          cases written <;> trivial

/-- A task has two operations at most. -/
theorem correctFile_within (linter : Linter) (producer : StructureProducer) (path : String) :
    (linter.correctFile (m := Task) producer path).Within 2 := by
  rw [correctFile_eq]
  exact fun contents => opened_within linter producer path _

/-- The result of correcting a file is that of what follows on reading it. -/
theorem correctFile_fst (linter : Linter) (producer : StructureProducer) (path : String)
    (machine : Machine) :
    (linter.correctFile (m := StateM Machine) producer path machine).1 =
      ((opened linter producer path (machine.text path)).run machine).1 := by
  rw [← run_correctFile, ← Task.run_turn, turn_correctFile]

/-- A corrected text that is written on its own has the saved result. -/
theorem saving_run_fst (h : result.value.corrected = some text)
    (hlocate : machine.locate path = .ok names)
    (hfile : machine.files.at? names = some (.file old)) :
    ((saving path result).run machine).1 = saved path result := by
  rw [← Task.run_turn, turn_saving h hlocate hfile]
  rfl

end Linter

end DeclLint
