/-!
# Results that carry log lines

What a run notes on the side is part of its result: a `Logged` value is a value
with the lines noted while it was computed, in order.  Taking the value of a
composition composes the values (`value_bind`), so a statement about results
never has to speak of the lines.
-/

namespace DeclLint

/-- How much a log line matters. -/
inductive LogLevel where
  | debug
  | info
  | warning
deriving DecidableEq, Repr

/-- The name of a level in a log line. -/
def LogLevel.label : LogLevel → String
  | debug => "DEBUG"
  | info => "INFO"
  | warning => "WARN"

/-- One line of the log. -/
structure LogLine where
  level : LogLevel
  text : String
deriving DecidableEq, Repr

/-- The line with its level in front. -/
def LogLine.render (l : LogLine) : String := s!"{l.level.label} {l.text}"

/-- A value with the lines noted while it was computed. -/
structure Logged (α : Type) where
  value : α
  lines : List LogLine := []

namespace Logged

variable {α β : Type}

instance : Monad Logged where
  pure a := ⟨a, []⟩
  bind x f := ⟨(f x.value).value, x.lines ++ (f x.value).lines⟩

@[simp] theorem value_pure (a : α) : (pure a : Logged α).value = a := rfl

@[simp] theorem value_bind (x : Logged α) (f : α → Logged β) :
    (x >>= f).value = (f x.value).value := rfl

@[simp] theorem value_map (f : α → β) (x : Logged α) : (f <$> x).value = f x.value := rfl

@[simp] theorem lines_pure (a : α) : (pure a : Logged α).lines = [] := rfl

@[simp] theorem lines_bind (x : Logged α) (f : α → Logged β) :
    (x >>= f).lines = x.lines ++ (f x.value).lines := rfl

/-- Note one line. -/
def note (level : LogLevel) (text : String) : Logged Unit := ⟨(), [⟨level, text⟩]⟩

/-- Note several lines of one level. -/
def noteAll (level : LogLevel) (texts : List String) : Logged Unit :=
  ⟨(), texts.map (LogLine.mk level)⟩

/-- The results that are present, with the lines of all. -/
def filterMap (f : α → Logged (Option β)) : List α → Logged (List β)
  | [] => pure []
  | a :: as => do
      let first ← f a
      let others ← filterMap f as
      pure (first.toList ++ others)

/-- The results one after another, with the lines of all. -/
def flatMap (f : α → Logged (List β)) : List α → Logged (List β)
  | [] => pure []
  | a :: as => do
      let first ← f a
      let others ← flatMap f as
      pure (first ++ others)

/-- The values of some results, with the lines of all. -/
def sequence (results : List (Logged α)) : Logged (List α) :=
  ⟨results.map value, results.flatMap lines⟩

@[simp] theorem value_filterMap (f : α → Logged (Option β)) (as : List α) :
    (filterMap f as).value = as.filterMap fun a => (f a).value := by
  induction as with
  | nil => rfl
  | cons a as ih =>
      cases h : (f a).value <;> simp [filterMap, ih, h]

@[simp] theorem value_flatMap (f : α → Logged (List β)) (as : List α) :
    (flatMap f as).value = as.flatMap fun a => (f a).value := by
  induction as with
  | nil => rfl
  | cons a as ih => simp [flatMap, ih]

/-- A step that notes nothing only passes its value on. -/
theorem bind_of_lines_eq_nil {x : Logged α} (h : x.lines = []) (f : α → Logged β) :
    x >>= f = f x.value := by
  cases hf : f x.value with
  | mk value lines => simp [Bind.bind, h, hf]

/-- One result with its lines. -/
theorem flatMap_singleton (f : α → Logged (List β)) (a : α) : flatMap f [a] = f a := by
  cases hf : f a with
  | mk value lines => simp [flatMap, Bind.bind, Pure.pure, hf]

/-- Where no step notes anything, nothing is noted. -/
theorem lines_filterMap_eq_nil {f : α → Logged (Option β)} {as : List α}
    (h : ∀ a ∈ as, (f a).lines = []) : (filterMap f as).lines = [] := by
  induction as with
  | nil => rfl
  | cons a as ih =>
      obtain ⟨hfirst, hothers⟩ := List.forall_mem_cons.mp h
      simp [filterMap, hfirst, ih hothers]

end Logged

end DeclLint
