import DeclLint.Proofs.Files.CorrectFile
import DeclLint.Proofs.Linter.CorrectedSource

/-!
# Files that are corrected side by side

Correcting a file reads it and, if anything is corrected, writes it later.  Between the
two another task may read or write the same file.  It does no harm: a file holds its
original text or the corrected one at any time (`Linter.Held`), and a task that reads the
corrected one has nothing to correct.  So every order of turns leaves the same files.

The results differ where several tasks share a file: one that comes late reports that
nothing was applied.  A task with a file to itself has the result it has on its own.

* `Linter.Stage` — how far a task has come;
* `Linter.Stage.of_original`, `Linter.Stage.of_corrected` — what comes of either text that a
  task can read;
* `Linter.Stage.turn`, `Linter.Stage.of_moved` — a turn of the task itself, and of another
  one;
* `Linter.Underway.play` — what holds in the middle of any schedule;
* `Linter.correctFile_interleaved` — what every schedule ends in;
* `Linter.exists_result_ne_alone` — what a task reports that shares its file.
-/

namespace DeclLint

namespace Linter

section Contents

/-- The contents of a file with its text corrected; contents that are no text stay. -/
def recastContents (contents : ByteArray) : ByteArray :=
  match textOf contents with
  | .error _ => contents
  | .ok source => ((recast? source).map String.toUTF8).getD contents

variable {contents : ByteArray} {source text : String}

theorem recastContents_of_error {e : FileFault} (h : textOf contents = .error e) :
    recastContents contents = contents := by
  rw [recastContents, h]

theorem recastContents_of_none (h : textOf contents = .ok source) (hnone : recast? source = none) :
    recastContents contents = contents := by
  rw [recastContents, h]
  simp [hnone]

theorem recastContents_of_some (h : textOf contents = .ok source)
    (hsome : recast? source = some text) : recastContents contents = text.toUTF8 := by
  rw [recastContents, h]
  simp [hsome]

/-- The text of corrected contents is the corrected text. -/
theorem textOf_recastContents (h : textOf contents = .ok source) :
    textOf (recastContents contents) = .ok ((recast? source).getD source) := by
  cases hrecast : recast? source with
  | none => rw [recastContents_of_none h hrecast, h, Option.getD_none]
  | some text => rw [recastContents_of_some h hrecast, textOf_toUTF8, Option.getD_some]

end Contents

/-- Each file holds what it held at first, or that with its text corrected if a listed
path leads there. -/
structure Held (initial : Machine) (paths : List String) (now : Machine) : Prop where
  alike : initial.Alike now
  files : ∀ names old, initial.files.at? names = some (.file old) →
    now.files.at? names = some (.file old) ∨
      now.files.at? names = some (.file (recastContents old)) ∧
        ∃ path ∈ paths, initial.locate path = .ok names

/-- A turn of the task of a path: nothing is written, or its file is corrected. -/
def Moved (initial : Machine) (path : String) (now later : Machine) : Prop :=
  later = now ∨ ∃ names old, initial.locate path = .ok names ∧
    initial.files.at? names = some (.file old) ∧
      later = now.overwrite names (recastContents old)

/-- How far the task of a path has come: it is about to read, about to write, or done.
Before it reads, a file of its own holds what it held at first.  Once it is done the file
is corrected, and with a file of its own it has the result that it has alone. -/
inductive Stage (severity : Severity) (initial now : Machine) (path : String) (own : Prop) :
    Task (Logged CorrectionResult) → Prop where
  | waiting
      (holds : own → ∀ names old, initial.locate path = .ok names →
        initial.files.at? names = some (.file old) → now.files.at? names = some (.file old)) :
      Stage severity initial now path own
        ((runtimeLet severity).correctFile (m := Task) declarationTree path)
  | writing {names : List String} {old : ByteArray} {source text : String}
      (located : initial.locate path = .ok names)
      (held : initial.files.at? names = some (.file old)) (reads : textOf old = .ok source)
      (recasts : recast? source = some text) :
      Stage severity initial now path own
        (saving path ((runtimeLet severity).correctSource declarationTree path source))
  | finished {result : Logged CorrectionResult}
      (holds : ∀ names old, initial.locate path = .ok names →
        initial.files.at? names = some (.file old) →
          now.files.at? names = some (.file (recastContents old)))
      (alone : own → result =
        ((runtimeLet severity).correctFile (m := StateM Machine) declarationTree path initial).1) :
      Stage severity initial now path own (.done result)

variable {severity : Severity} {initial now later : Machine} {paths : List String}
  {path other : String} {own : Prop} {task : Task (Logged CorrectionResult)}
  {names : List String} {old : ByteArray} {source text : String}

namespace Held

theorem refl (initial : Machine) (paths : List String) : Held initial paths initial :=
  ⟨.refl initial, fun _ _ hfile => .inl hfile⟩

/-- A file is there as long as it was there at first. -/
theorem exists_file (h : Held initial paths now)
    (hfile : initial.files.at? names = some (.file old)) :
    ∃ contents, now.files.at? names = some (.file contents) := by
  rcases h.files names old hfile with hnow | ⟨hnow, -⟩
  · exact ⟨_, hnow⟩
  · exact ⟨_, hnow⟩

/-- A file that was held is held after a step of any task: the step leaves it, or recasts it. -/
theorem moved (h : Held initial paths now) (hpath : path ∈ paths)
    (hmoved : Moved initial path now later) : Held initial paths later := by
  rcases hmoved with rfl | ⟨names, old, hlocate, hfile, rfl⟩
  · exact h
  · obtain ⟨contents, hnow⟩ := h.exists_file hfile
    refine ⟨h.alike.trans (Machine.overwrite_alike hnow _), ?_⟩
    intro others held hheld
    by_cases hsame : others = names
    · subst hsame
      obtain rfl : held = old := by simpa [hheld] using hfile
      exact .inr ⟨Machine.at?_overwrite now others _, path, hpath, hlocate⟩
    · rcases h.files others held hheld with hothers | ⟨hothers, hlisted⟩
      · exact .inl (Machine.at?_overwrite_of_ne hnow _ hothers hsame)
      · exact .inr ⟨Machine.at?_overwrite_of_ne hnow _ hothers hsame, hlisted⟩

/-- What no listed path leads to that can be read is as it was. -/
theorem at?_eq (h : Held initial paths now) (hfile : initial.files.at? names = some (.file old))
    (hothers : ∀ path ∈ paths, ∀ source, initial.text path = .ok source →
      initial.locate path ≠ .ok names) :
    now.files.at? names = some (.file old) := by
  rcases h.files names old hfile with hnow | ⟨hnow, path, hpath, hlocate⟩
  · exact hnow
  · cases htext : textOf old with
    | error e => rw [hnow, recastContents_of_error htext]
    | ok source =>
        have hsource := (Machine.text_of_file hlocate hfile).trans htext
        exact absurd hlocate (hothers path hpath source hsource)

end Held

namespace Stage

/-- **A turn of another task** leaves a task where it is. -/
theorem of_moved (h : Stage severity initial now path own task) (hheld : Held initial paths now)
    (hmoved : Moved initial other now later) (hown : own → ¬ initial.SamePlace path other) :
    Stage severity initial later path own task := by
  rcases hmoved with rfl | ⟨names, old, hlocate, hfile, rfl⟩
  · exact h
  · obtain ⟨contents, hnow⟩ := hheld.exists_file hfile
    cases h with
    | waiting holds =>
        refine .waiting fun hmine names' old' hlocate' hfile' => ?_
        -- The path of the other task leads elsewhere, so its file is another one.
        have hne : names' ≠ names := by
          rintro rfl
          exact hown hmine ⟨names', hlocate', hlocate⟩
        exact Machine.at?_overwrite_of_ne hnow _ (holds hmine _ _ hlocate' hfile') hne
    | writing located held reads recasts => exact .writing located held reads recasts
    | finished holds alone =>
        refine .finished (fun names' old' hlocate' hfile' => ?_) alone
        by_cases hsame : names' = names
        · subst hsame
          obtain rfl : old = old' := by simpa [hfile] using hfile'
          exact Machine.at?_overwrite now names' _
        · exact Machine.at?_overwrite_of_ne hnow _ (holds _ _ hlocate' hfile') hsame

/-- A task that is done is finished if its file is corrected and, with a file of its own,
its result is the one it has alone. -/
theorem of_done {result : Logged CorrectionResult} (hlocate : initial.locate path = .ok names)
    (hfile : initial.files.at? names = some (.file old))
    (hnow : now.files.at? names = some (.file (recastContents old)))
    (halone : own → result =
      ((runtimeLet severity).correctFile (m := StateM Machine) declarationTree path initial).1) :
    Stage severity initial now path own (.done result) := by
  refine .finished (fun names' old' hlocate' hfile' => ?_) halone
  obtain rfl : names = names' := by simpa [hlocate] using hlocate'
  obtain rfl : old = old' := by simpa [hfile] using hfile'
  exact hnow

/-- **A path without file** is reported. -/
theorem of_unreadable {e : FileFault} (hheld : Held initial paths now)
    (herror : initial.contents path = .error e) :
    Stage severity initial now path own
      (opened (runtimeLet severity) declarationTree path (now.text path)) := by
  have htext : initial.text path = .error e := by
    rw [Machine.text, herror]
    rfl
  have hnow : now.text path = .error e := by
    rw [Machine.text, hheld.alike.contents_eq_error herror]
    rfl
  rw [hnow]
  refine .finished (fun names old hlocate hfile => ?_) (fun _ => ?_)
  · have hread := Machine.contents_eq_ok_iff.mpr ⟨names, hlocate, hfile⟩
    rw [herror] at hread
    cases hread
  · rw [correctFile_fst, htext]
    rfl

/-- **The original text is read.**  It is corrected next, unless it stays. -/
theorem of_original (hlocate : initial.locate path = .ok names)
    (hfile : initial.files.at? names = some (.file old))
    (hnow : now.files.at? names = some (.file old)) :
    Stage severity initial now path own
      (opened (runtimeLet severity) declarationTree path (textOf old)) := by
  have halone := correctFile_fst (runtimeLet severity) declarationTree path initial
  rw [Machine.text_of_file hlocate hfile] at halone
  cases htext : textOf old with
  | error e =>
      rw [htext] at halone
      have hstays := recastContents_of_error htext
      exact of_done hlocate hfile (by rw [hstays, hnow]) fun _ => halone.symm
  | ok source =>
      rw [htext] at halone
      dsimp only [opened] at halone ⊢
      cases hrecast : recast? source with
      | none =>
          have hnone := (corrected_correctSource severity path source).trans hrecast
          have hstays := recastContents_of_none htext hrecast
          rw [saving_of_none hnone] at halone ⊢
          exact of_done hlocate hfile (by rw [hstays, hnow]) fun _ => halone.symm
      | some text => exact .writing hlocate hfile htext hrecast

/-- **The corrected text is read.**  It is left alone. -/
theorem of_corrected (hlocate : initial.locate path = .ok names)
    (hfile : initial.files.at? names = some (.file old)) (hrecast : recast? source = some text)
    (hnow : now.files.at? names = some (.file (recastContents old))) (hshared : ¬ own) :
    Stage severity initial now path own
      (opened (runtimeLet severity) declarationTree path (.ok text)) := by
  have hnone := (corrected_correctSource severity path text).trans
    (recast?_of_recast?_eq_some hrecast)
  rw [opened, saving_of_none hnone]
  exact of_done hlocate hfile hnow fun hown => absurd hown hshared

/-- **The first turn.**  What is read is the original text or the corrected one. -/
theorem of_waiting (hheld : Held initial paths now)
    (holds : own → ∀ names old, initial.locate path = .ok names →
      initial.files.at? names = some (.file old) → now.files.at? names = some (.file old)) :
    Stage severity initial now path own
      (opened (runtimeLet severity) declarationTree path (now.text path)) := by
  cases hcontents : initial.contents path with
  | error e => exact of_unreadable hheld hcontents
  | ok old =>
      obtain ⟨names, hlocate, hfile⟩ := Machine.contents_eq_ok_iff.mp hcontents
      have hlocate' := (hheld.alike.locate_eq path).trans hlocate
      by_cases hstill : now.files.at? names = some (.file old)
      · rw [Machine.text_of_file hlocate' hstill]
        exact of_original hlocate hfile hstill
      · -- Another task has written the file, so it is shared, and something is corrected in it.
        have hshared : ¬ own := fun hown => hstill (holds hown names old hlocate hfile)
        obtain ⟨hnow, -⟩ := (hheld.files names old hfile).resolve_left hstill
        obtain ⟨source, text, htext, hrecast⟩ : ∃ source text,
            textOf old = .ok source ∧ recast? source = some text := by
          cases htext : textOf old with
          | error e => exact absurd (recastContents_of_error htext ▸ hnow) hstill
          | ok source =>
              cases hrecast : recast? source with
              | none => exact absurd (recastContents_of_none htext hrecast ▸ hnow) hstill
              | some text => exact ⟨source, text, rfl, hrecast⟩
        rw [Machine.text_of_file hlocate' hnow, textOf_recastContents htext, hrecast,
          Option.getD_some]
        exact of_corrected hlocate hfile hrecast hnow hshared

/-- **The second turn.**  The file is corrected, and the result is the one of the task
alone. -/
theorem of_writing (hlocate : initial.locate path = .ok names)
    (hfile : initial.files.at? names = some (.file old)) (htext : textOf old = .ok source)
    (hrecast : recast? source = some text) :
    Stage severity initial (now.overwrite names (recastContents old)) path own
      (.done (saved path ((runtimeLet severity).correctSource declarationTree path source))) := by
  refine of_done hlocate hfile (Machine.at?_overwrite now names _) fun _ => ?_
  have hsome := (corrected_correctSource severity path source).trans hrecast
  rw [correctFile_fst, Machine.text_of_file hlocate hfile, htext, opened,
    saving_run_fst hsome hlocate hfile]

/-- Where a task that is done has come to. -/
theorem of_eq_done {result : Logged CorrectionResult}
    (h : Stage severity initial now path own (.done result)) :
    (∀ names old, initial.locate path = .ok names →
      initial.files.at? names = some (.file old) →
        now.files.at? names = some (.file (recastContents old))) ∧
      (own → result =
        ((runtimeLet severity).correctFile (m := StateM Machine) declarationTree path initial).1) := by
  -- The other stages are of tasks that go on with an operation.
  generalize hdone : Task.done result = task at h
  cases h with
  | waiting holds =>
      rw [correctFile_eq] at hdone
      cases hdone
  | writing located held reads recasts =>
      rw [saving, (corrected_correctSource severity path _).trans recasts] at hdone
      cases hdone
  | finished holds alone =>
      obtain rfl := Task.done.inj hdone
      exact ⟨holds, alone⟩

/-- **A turn of the task itself** takes it further, and at most corrects its file. -/
theorem turn (h : Stage severity initial now path own task) (hheld : Held initial paths now) :
    Stage severity initial (task.turn now).2 path own (task.turn now).1 ∧
      Moved initial path now (task.turn now).2 := by
  cases h with
  | waiting holds =>
      rw [turn_correctFile]
      exact ⟨of_waiting hheld holds, .inl rfl⟩
  | writing located held reads recasts =>
      obtain ⟨contents, hnow⟩ := hheld.exists_file held
      have hsome := (corrected_correctSource severity path _).trans recasts
      have hlocate := (hheld.alike.locate_eq path).trans located
      rw [turn_saving hsome hlocate hnow, ← recastContents_of_some reads recasts]
      exact ⟨of_writing located held reads recasts, .inr ⟨_, _, located, held, rfl⟩⟩
  | finished holds alone => exact ⟨.finished holds alone, .inl rfl⟩

end Stage

/-- No other listed path leads to the place that a listed path leads to. -/
def Own (initial : Machine) (paths : List String) (i : Nat) : Prop :=
  ∀ path j other, paths[i]? = some path → paths[j]? = some other → j ≠ i →
    ¬ initial.SamePlace path other

/-- Every task of a pool has come to a stage. -/
structure Underway (severity : Severity) (initial : Machine) (paths : List String)
    (pool : Pool (Logged CorrectionResult)) : Prop where
  held : Held initial paths pool.machine
  stage : ∀ (i : Nat) (path : String) (task : Task (Logged CorrectionResult)),
    paths[i]? = some path → pool.tasks[i]? = some task →
      Stage severity initial pool.machine path (Own initial paths i) task
  length_eq : pool.tasks.length = paths.length

/-- The tasks that correct some files, on one machine. -/
def correcting (severity : Severity) (paths : List String) (machine : Machine) :
    Pool (Logged CorrectionResult) :=
  ⟨machine, paths.map ((runtimeLet severity).correctFile declarationTree)⟩

namespace Underway

variable {pool : Pool (Logged CorrectionResult)}

theorem start (severity : Severity) (initial : Machine) (paths : List String) :
    Underway severity initial paths (correcting severity paths initial) := by
  refine ⟨.refl initial paths, ?_, by simp [correcting]⟩
  intro i path task hpath htask
  obtain rfl : (runtimeLet severity).correctFile declarationTree path = task := by
    simpa [correcting, hpath] using htask
  exact .waiting fun _ _ _ _ hfile => hfile

/-- **A turn** takes one task further and leaves the others where they are. -/
theorem turn (h : Underway severity initial paths pool) (i : Nat) :
    Underway severity initial paths (pool.turn i) := by
  cases htask : pool.tasks[i]? with
  | none => rwa [Pool.turn_of_none htask]
  | some task =>
      obtain ⟨hlt, -⟩ := List.getElem?_eq_some_iff.mp htask
      obtain ⟨path, hpath⟩ : ∃ path, paths[i]? = some path :=
        ⟨_, List.getElem?_eq_getElem (h.length_eq ▸ hlt)⟩
      obtain ⟨hstage, hmoved⟩ := (h.stage i path task hpath htask).turn h.held
      have hmachine : (pool.turn i).machine = (task.turn pool.machine).2 := by
        rw [Pool.turn_eq htask]
      rw [← hmachine] at hstage hmoved
      refine ⟨h.held.moved (List.mem_of_getElem? hpath) hmoved, ?_, ?_⟩
      · intro j other next hother hnext
        by_cases hj : i = j
        · subst hj
          rw [Pool.getElem?_tasks_turn htask] at hnext
          obtain rfl := Option.some.inj hnext
          obtain rfl : path = other := by simpa [hpath] using hother
          exact hstage
        · rw [Pool.getElem?_tasks_turn_of_ne hj] at hnext
          exact (h.stage j other next hother hnext).of_moved h.held hmoved
            fun hown => hown other i path hother hpath hj
      · rw [Pool.length_tasks_turn, h.length_eq]

/-- After a schedule every task has come to a stage. -/
theorem play (severity : Severity) (initial : Machine) (paths : List String)
    (schedule : List Nat) :
    Underway severity initial paths ((correcting severity paths initial).play schedule) :=
  Pool.play_induction (fun _ i h => h.turn i) schedule (.start severity initial paths)

section Done

variable {results : List (Logged CorrectionResult)} {i : Nat}

/-- When all tasks are done, each is finished. -/
theorem exists_result (h : Underway severity initial paths ⟨now, results.map .done⟩)
    (hpath : paths[i]? = some path) :
    ∃ result, results[i]? = some result ∧
      Stage severity initial now path (Own initial paths i) (.done result) := by
  have hlength : results.length = paths.length := by simpa using h.length_eq
  obtain ⟨hlt, -⟩ := List.getElem?_eq_some_iff.mp hpath
  have hresult := List.getElem?_eq_getElem (hlength ▸ hlt)
  refine ⟨_, hresult, h.stage i path _ hpath ?_⟩
  rw [List.getElem?_map, hresult, Option.map_some]

/-- A listed file has its original text corrected. -/
theorem text_eq (h : Underway severity initial paths ⟨now, results.map .done⟩)
    (hpath : path ∈ paths) (hsource : initial.text path = .ok source) :
    now.text path = .ok (((runtimeLet severity).correctSource declarationTree path
      source).value.corrected.getD source) := by
  obtain ⟨i, hi⟩ := List.mem_iff_getElem?.mp hpath
  obtain ⟨result, -, hdone⟩ := h.exists_result hi
  obtain ⟨contents, hcontents, htext⟩ := exists_of_bind_eq_ok hsource
  obtain ⟨names, hlocate, hfile⟩ := Machine.contents_eq_ok_iff.mp hcontents
  have hlocate' := (h.held.alike.locate_eq path).trans hlocate
  rw [Machine.text_of_file hlocate' (hdone.of_eq_done.1 names contents hlocate hfile),
    textOf_recastContents htext, corrected_correctSource]

end Done

end Underway

/-- Once a task had two turns it is done. -/
theorem exists_done_of_two_turns {severity : Severity} {initial : Machine} {paths : List String}
    {schedule : List Nat} {i : Nat} (hi : i < paths.length) (hturns : 2 ≤ schedule.count i) :
    ∃ result, ((correcting severity paths initial).play schedule).tasks[i]? =
      some (.done result) := by
  have htask : (correcting severity paths initial).tasks[i]? =
      some ((runtimeLet severity).correctFile (m := Task) declarationTree paths[i]) := by
    simp [correcting, hi]
  exact Pool.exists_done_of_play htask (correctFile_within _ _ _) hturns

/-- **Files that are corrected side by side.**  Whatever the machine, the paths, which may
repeat, and the schedule: once each task has had two turns, or is done before, all of them
are done.  Each listed file that can be read has its original text corrected, or as it was
if it has no tree or nothing is corrected; the other files hold what they held, and
nothing else has changed.  A path has the result that it has alone, unless another listed
path leads to the same place. -/
theorem correctFile_interleaved (severity : Severity) (initial : Machine) (paths : List String)
    (schedule : List Nat)
    (hends : ∀ i < paths.length, 2 ≤ schedule.count i ∨
      ∃ result, ((correcting severity paths initial).play schedule).tasks[i]? =
        some (.done result)) :
    ∃ (final : Machine) (results : List (Logged CorrectionResult)),
      (correcting severity paths initial).play schedule = ⟨final, results.map .done⟩ ∧
      results.length = paths.length ∧ initial.Alike final ∧
      (∀ path ∈ paths, ∀ source, initial.text path = .ok source →
        final.text path = .ok (((runtimeLet severity).correctSource declarationTree path
          source).value.corrected.getD source)) ∧
      (∀ names contents, initial.files.at? names = some (.file contents) →
        (∀ path ∈ paths, ∀ source, initial.text path = .ok source →
          initial.locate path ≠ .ok names) →
        final.files.at? names = some (.file contents)) ∧
      ∀ i path, paths[i]? = some path → Own initial paths i →
        results[i]? = some ((runtimeLet severity).correctFile (m := StateM Machine)
          declarationTree path initial).1 := by
  have hunderway := Underway.play severity initial paths schedule
  obtain ⟨results, hresults⟩ : ∃ results : List (Logged CorrectionResult),
      ((correcting severity paths initial).play schedule).tasks = results.map .done := by
    refine exists_eq_map_done fun i hi => ?_
    rw [hunderway.length_eq] at hi
    rcases hends i hi with hturns | hdone
    · exact exists_done_of_two_turns hi hturns
    · exact hdone
  obtain ⟨final, hfinal⟩ : ∃ final, (correcting severity paths initial).play schedule =
      ⟨final, results.map .done⟩ := ⟨_, congrArg (Pool.mk _) hresults⟩
  rw [hfinal] at hunderway
  refine ⟨final, results, hfinal, by simpa using hunderway.length_eq, hunderway.held.alike,
    fun path hpath source hsource => hunderway.text_eq hpath hsource,
    fun names contents hfile hothers => hunderway.held.at?_eq hfile hothers, ?_⟩
  intro i path hpath hown
  obtain ⟨result, hresult, hdone⟩ := hunderway.exists_result hpath
  rw [hresult, hdone.of_eq_done.2 hown]

/-- A machine with two files, one to be corrected. -/
def twoFiles : Machine where
  files := .directory
    [("a.swift", .file oneLet.toUTF8), ("b.swift", .file oneVar.toUTF8)]

/-- Two tasks read one file before either writes it; the third has its file to itself. -/
theorem correctFile_interleaved_twice :
    ∃ (final : Machine) (results : List (Logged CorrectionResult)),
      (correcting .warning ["a.swift", "b.swift", "a.swift"] twoFiles).play [0, 2, 0, 1, 2, 1] =
        ⟨final, results.map .done⟩ ∧
      final.text "a.swift" = .ok oneVar ∧ final.text "b.swift" = .ok oneVar ∧
      results[1]? = some ((runtimeLet .warning).correctFile (m := StateM Machine)
        declarationTree "b.swift" twoFiles).1 := by
  have hturns : ∀ i < 3, 2 ≤ [0, 2, 0, 1, 2, 1].count i := by decide
  have ha : twoFiles.locate "a.swift" = .ok ["a.swift"] := by decide +kernel
  have hb : twoFiles.locate "b.swift" = .ok ["b.swift"] := by decide +kernel
  have hreadA : twoFiles.text "a.swift" = .ok oneLet :=
    (Machine.text_of_file ha rfl).trans (textOf_toUTF8 oneLet)
  have hreadB : twoFiles.text "b.swift" = .ok oneVar :=
    (Machine.text_of_file hb rfl).trans (textOf_toUTF8 oneVar)
  have hown : Own twoFiles ["a.swift", "b.swift", "a.swift"] 1 := by
    rintro path j other hpath hother hj ⟨names, hhere, hthere⟩
    obtain rfl : "b.swift" = path := by simpa using hpath
    obtain rfl : "a.swift" = other := by
      match j with
      | 0 => simpa using hother
      | 2 => simpa using hother
      | 1 => exact absurd rfl hj
      | j + 3 => simp at hother
    rw [hb] at hhere
    rw [ha, ← hhere] at hthere
    revert hthere
    decide
  obtain ⟨final, results, hplay, -, -, htexts, -, halone⟩ :=
    correctFile_interleaved .warning twoFiles ["a.swift", "b.swift", "a.swift"]
      [0, 2, 0, 1, 2, 1] fun i hi => .inl (hturns i hi)
  have hafterA := htexts "a.swift" (by simp) oneLet hreadA
  have hafterB := htexts "b.swift" (by simp) oneVar hreadB
  rw [corrected_correctSource, recast?_oneLet] at hafterA
  rw [corrected_correctSource, recast?_of_recast?_eq_some recast?_oneLet] at hafterB
  exact ⟨final, results, hplay, hafterA, hafterB, halone 1 "b.swift" rfl hown⟩

/-- **A task that comes late.**  Where two paths lead to one file, the second task finds
it corrected, and its result is not the one that it has alone. -/
theorem exists_result_ne_alone (hlocate : initial.locate path = .ok names)
    (hother : initial.locate other = .ok names)
    (hfile : initial.files.at? names = some (.file old)) (htext : textOf old = .ok source)
    (hrecast : recast? source = some text) :
    ∃ first second : Logged CorrectionResult,
      ((correcting severity [path, other] initial).play [0, 0, 1, 1]).tasks =
        [.done first, .done second] ∧
      second ≠ ((runtimeLet severity).correctFile (m := StateM Machine) declarationTree other
        initial).1 := by
  have hsome := (corrected_correctSource severity path source).trans hrecast
  have hsome' := (corrected_correctSource severity other source).trans hrecast
  have hnone := (corrected_correctSource severity other text).trans
    (recast?_of_recast?_eq_some hrecast)
  have hread : ((runtimeLet severity).correctFile (m := Task) declarationTree path).turn initial =
      (saving path ((runtimeLet severity).correctSource declarationTree path source), initial) := by
    rw [turn_correctFile, Machine.text_of_file hlocate hfile, htext, opened]
  have hlate : ((runtimeLet severity).correctFile (m := Task) declarationTree other).turn
      (initial.overwrite names text.toUTF8) =
        (.done ((runtimeLet severity).correctSource declarationTree other text),
          initial.overwrite names text.toUTF8) := by
    have halike := Machine.overwrite_alike hfile text.toUTF8
    rw [turn_correctFile, Machine.text_of_file ((halike.locate_eq other).trans hother)
      (Machine.at?_overwrite initial names _), textOf_toUTF8, opened, saving_of_none hnone]
  refine ⟨saved path ((runtimeLet severity).correctSource declarationTree path source),
    (runtimeLet severity).correctSource declarationTree other text, ?_, ?_⟩
  · simp only [correcting, List.map_cons, List.map_nil, Pool.play_cons, Pool.play_nil, Pool.turn,
      List.getElem?_cons_zero, List.getElem?_cons_succ, List.set_cons_zero, List.set_cons_succ,
      hread, turn_saving hsome hlocate hfile, hlate, Task.turn_done]
  · intro hsame
    rw [correctFile_fst, Machine.text_of_file hother hfile, htext, opened,
      saving_run_fst hsome' hother hfile] at hsame
    have hvalue := congrArg (fun result => result.value.corrected) hsame
    rw [hnone] at hvalue
    have hsaved : (saved other ((runtimeLet severity).correctSource declarationTree other
        source)).value.corrected = some text := hsome'
    rw [hsaved] at hvalue
    cases hvalue

/-- Two spellings of one path are different paths that lead to one file. -/
theorem correctFile_interleaved_spellings :
    ["a.swift", "./a.swift"].Nodup ∧
      ∃ first second : Logged CorrectionResult,
        ((correcting .warning ["a.swift", "./a.swift"] twoFiles).play [0, 0, 1, 1]).tasks =
          [.done first, .done second] ∧
        second ≠ ((runtimeLet .warning).correctFile (m := StateM Machine) declarationTree
          "./a.swift" twoFiles).1 := by
  have hlocate : twoFiles.locate "a.swift" = .ok ["a.swift"] := by decide +kernel
  have hother : twoFiles.locate "./a.swift" = .ok ["a.swift"] := by decide +kernel
  exact ⟨by decide, exists_result_ne_alone hlocate hother rfl (textOf_toUTF8 oneLet)
    recast?_oneLet⟩

end Linter

end DeclLint
