import DeclLint.Files.Machine

/-!
# Runs that take turns on a machine

A run that may be suspended at each of its operations is a `Task`: it is done, or it is
about to do one operation and goes on with the answer.  Whatever is written for any monad
with the operations of a machine is a task, so a run of the program is one.  A `Pool` is
several tasks on one machine.  In a turn one of them does its next operation, and a
schedule says whose turn it is; a turn of a task that is done changes nothing.

* `Task.run` — a task on its own;
* `Pool.play` — the tasks of a pool, in turns;
* `Pool.play_induction` — what every turn preserves;
* `Pool.exists_done_of_play` — a task with as many turns as it has operations is done.
-/

namespace DeclLint

/-- An operation of a machine. -/
inductive Operation where
  | survey (path : String)
  | read (path : String)
  | write (path text : String)
  | append (path text : String)
  | makeDirectories (path : String)
  | isDirectory? (path : String)
  | currentDirectory
  | time
  | print (channel : Channel) (line : String)

namespace Operation

/-- What an operation answers. -/
def Answer : Operation → Type
  | survey _ => Option Listing
  | read _ => Except FileFault ByteArray
  | write _ _ => Except FileFault Unit
  | append _ _ => Except FileFault Unit
  | makeDirectories _ => Except FileFault Unit
  | isDirectory? _ => Option Bool
  | currentDirectory => Option String
  | time => Nat
  | print _ _ => Unit

/-- Do an operation. -/
def perform : (o : Operation) → StateM Machine o.Answer
  | survey path => Host.survey path
  | read path => Host.read path
  | write path text => Host.write path text
  | append path text => Host.append path text
  | makeDirectories path => Host.makeDirectories path
  | isDirectory? path => Host.isDirectory? path
  | currentDirectory => Host.currentDirectory
  | time => Host.time
  | print channel line => Host.print channel line

end Operation

/-- A run that is done, or is about to do an operation. -/
inductive Task (α : Type) where
  | done (a : α)
  | doing (o : Operation) (next : o.Answer → Task α)

namespace Task

variable {α β : Type}

/-- Go on where a task is done. -/
def andThen (task : Task α) (f : α → Task β) : Task β :=
  match task with
  | done a => f a
  | doing o next => doing o fun answer => (next answer).andThen f

instance : Monad Task where
  pure := done
  bind := andThen

instance : Host Task where
  survey path := doing (.survey path) done
  read path := doing (.read path) done
  write path text := doing (.write path text) done
  append path text := doing (.append path text) done
  makeDirectories path := doing (.makeDirectories path) done
  isDirectory? path := doing (.isDirectory? path) done
  currentDirectory := doing .currentDirectory done
  time := doing .time done
  print channel line := doing (.print channel line) done

/-- Do what is left of a task, with no other one in between. -/
def run : Task α → StateM Machine α
  | done a => pure a
  | doing o next => do (next (← o.perform)).run

/-- Do the next operation of a task, if there is one. -/
def turn (machine : Machine) : Task α → Task α × Machine
  | done a => (done a, machine)
  | doing o next => ((next (o.perform machine).1), (o.perform machine).2)

@[simp] theorem turn_done (machine : Machine) (a : α) :
    (done a).turn machine = (done a, machine) := rfl

/-- A task has at most so many operations left. -/
def Within : Nat → Task α → Prop
  | _, done _ => True
  | 0, doing _ _ => False
  | n + 1, doing _ next => ∀ answer, (next answer).Within n

theorem Within.turn {n : Nat} {task : Task α} (h : task.Within (n + 1)) (machine : Machine) :
    (task.turn machine).1.Within n := by
  cases task with
  | done a => cases n <;> trivial
  | doing o next => exact h _

/-- A task that ends within some steps ends within one more. -/
theorem Within.succ {n : Nat} {task : Task α} (h : task.Within n) : task.Within (n + 1) := by
  induction n generalizing task with
  | zero =>
      cases task with
      | done a => trivial
      | doing o next => exact h.elim
  | succ n ih =>
      cases task with
      | done a => trivial
      | doing o next => exact fun answer => ih (h answer)

/-- A task with no operation left is done. -/
theorem Within.exists_done {task : Task α} (h : task.Within 0) : ∃ a, task = done a := by
  cases task with
  | done a => exact ⟨a, rfl⟩
  | doing o next => exact h.elim

/-- Running a task and then another is running both in order. -/
@[simp] theorem run_bind (task : Task α) (f : α → Task β) :
    (task >>= f).run = task.run >>= fun a => (f a).run := by
  induction task with
  | done a => rfl
  | doing o next ih =>
      show (o.perform >>= fun answer => (next answer >>= f).run) = _
      simp only [ih]
      rfl

/-- A turn does a part of what is left to do. -/
theorem run_turn (machine : Machine) (task : Task α) :
    (task.turn machine).1.run (task.turn machine).2 = task.run machine := by
  cases task <;> rfl

end Task

/-- Tasks that share a machine. -/
structure Pool (α : Type) where
  machine : Machine
  tasks : List (Task α)

namespace Pool

variable {α : Type} {pool : Pool α} {i j : Nat} {task : Task α}

/-- A turn of the task with a number. -/
def turn (pool : Pool α) (i : Nat) : Pool α :=
  match pool.tasks[i]? with
  | none => pool
  | some task => ⟨(task.turn pool.machine).2, pool.tasks.set i (task.turn pool.machine).1⟩

/-- The turns of a schedule, one after another. -/
def play (pool : Pool α) (schedule : List Nat) : Pool α := schedule.foldl turn pool

@[simp] theorem play_nil (pool : Pool α) : pool.play [] = pool := rfl

@[simp] theorem play_cons (pool : Pool α) (i : Nat) (schedule : List Nat) :
    pool.play (i :: schedule) = (pool.turn i).play schedule := rfl

theorem turn_eq (h : pool.tasks[i]? = some task) :
    pool.turn i =
      ⟨(task.turn pool.machine).2, pool.tasks.set i (task.turn pool.machine).1⟩ := by
  rw [turn, h]

theorem turn_of_none (h : pool.tasks[i]? = none) : pool.turn i = pool := by
  rw [turn, h]

/-- The task whose turn it was. -/
theorem getElem?_tasks_turn (h : pool.tasks[i]? = some task) :
    (pool.turn i).tasks[i]? = some (task.turn pool.machine).1 := by
  obtain ⟨hlt, -⟩ := List.getElem?_eq_some_iff.mp h
  rw [turn_eq h, List.getElem?_set_self hlt]

/-- Another task. -/
theorem getElem?_tasks_turn_of_ne (hne : i ≠ j) : (pool.turn i).tasks[j]? = pool.tasks[j]? := by
  cases h : pool.tasks[i]? with
  | none => rw [turn_of_none h]
  | some task => rw [turn_eq h, List.getElem?_set_ne hne]

/-- **What every turn preserves** holds after a schedule. -/
theorem play_induction {P : Pool α → Prop} (hturn : ∀ pool i, P pool → P (pool.turn i))
    (schedule : List Nat) (h : P pool) : P (pool.play schedule) := by
  induction schedule generalizing pool with
  | nil => exact h
  | cons i schedule ih => exact ih (hturn pool i h)

@[simp] theorem length_tasks_turn (pool : Pool α) (i : Nat) :
    (pool.turn i).tasks.length = pool.tasks.length := by
  cases h : pool.tasks[i]? with
  | none => rw [turn_of_none h]
  | some task => rw [turn_eq h, List.length_set]

/-- **Enough turns.**  A task with as many turns as it has operations left is done. -/
theorem exists_done_of_play {n : Nat} {schedule : List Nat} (h : pool.tasks[i]? = some task)
    (hwithin : task.Within n) (hturns : n ≤ schedule.count i) :
    ∃ a, (pool.play schedule).tasks[i]? = some (.done a) := by
  induction schedule generalizing pool task n with
  | nil =>
      obtain rfl : n = 0 := by simpa using hturns
      obtain ⟨a, rfl⟩ := hwithin.exists_done
      exact ⟨a, h⟩
  | cons j schedule ih =>
      rw [play_cons]
      by_cases hj : j = i
      · subst hj
        rw [List.count_cons_self] at hturns
        cases n with
        | zero => exact ih (getElem?_tasks_turn h) (hwithin.succ.turn _) (Nat.zero_le _)
        | succ n => exact ih (getElem?_tasks_turn h) (hwithin.turn _) (Nat.le_of_succ_le_succ hturns)
      · rw [List.count_cons_of_ne hj] at hturns
        exact ih ((getElem?_tasks_turn_of_ne hj).trans h) hwithin hturns

end Pool

/-- Tasks that are all done have results. -/
theorem exists_eq_map_done {α : Type} {tasks : List (Task α)}
    (h : ∀ i < tasks.length, ∃ a, tasks[i]? = some (.done a)) :
    ∃ results : List α, tasks = results.map .done := by
  induction tasks with
  | nil => exact ⟨[], rfl⟩
  | cons task tasks ih =>
      obtain ⟨a, ha⟩ := h 0 (Nat.zero_lt_succ _)
      obtain rfl : task = .done a := by simpa using ha
      obtain ⟨results, rfl⟩ := ih fun i hi => by
        simpa using h (i + 1) (Nat.succ_lt_succ hi)
      exact ⟨a :: results, rfl⟩

end DeclLint
