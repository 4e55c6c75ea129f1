/-!
# TOML documents

A document is a sequence of statements: a key with a value, the header of a
table, or the header of one more element of an array of tables.  Building the
document follows them one by one; a key or table that is given twice is
refused.

* `Toml.ofStatements?` — the table that some statements build;
* `Toml.keys_extend` — a key is added only where it was missing.
-/

namespace DeclLint

/-- How a table came about, which decides what may still be added to it. -/
inductive TableForm where
  /-- Written between braces: nothing may be added. -/
  | inline
  /-- Named on the way to another table: its own header may still follow. -/
  | implied
  /-- Made by a dotted key: more dotted keys may follow. -/
  | dotted
  /-- Under its own header, or the document itself. -/
  | headed
deriving DecidableEq, Repr

/-- A value.  Numbers that have no use beyond being valid keep their spelling. -/
inductive Toml where
  | string (text : String)
  | integer (value : Int)
  | float (literal : String)
  | boolean (value : Bool)
  | datetime (literal : String)
  | array (items : List Toml)
  | table (form : TableForm) (entries : List (String × Toml))
  /-- An array of tables, each under a header of its own, last one first. -/
  | tables (elements : List Toml)
deriving Repr, Inhabited, BEq

/-- A statement of a document. -/
inductive TomlStatement where
  | keyValue (path : List String) (key : String) (value : Toml)
  | header (path : List String) (key : String)
  | elementHeader (path : List String) (key : String)
deriving Repr

namespace Toml

/-- The entries of a table. -/
abbrev Entries := List (String × Toml)

/-- The value of a key. -/
def lookup? (key : String) (entries : Entries) : Option Toml :=
  (entries.find? fun e => e.1 == key).map Prod.snd

/-- Give an existing key another value. -/
def replace (key : String) (value : Toml) (entries : Entries) : Entries :=
  entries.map fun e => if e.1 == key then (key, value) else e

/-- Change the table at the end of a path, making the tables on the way that
are missing.  A path of dotted keys makes dotted tables and does not enter a
table with a header; a path of a header enters the last element of an array of
tables.  No path enters an inline table or another value. -/
def changeAt (byKeys : Bool) (change : TableForm → Entries → Option (TableForm × Entries)) :
    List String → TableForm → Entries → Option (TableForm × Entries)
  | [], form, entries => change form entries
  | key :: path, form, entries =>
      match lookup? key entries with
      | none => do
          let (inner, added) ←
            changeAt byKeys change path (if byKeys then .dotted else .implied) []
          pure (form, entries ++ [(key, .table inner added)])
      | some (.table inner old) =>
          if inner = .inline ∨ (byKeys ∧ inner = .headed) then none
          else do
            let (inner, new) ← changeAt byKeys change path inner old
            pure (form, replace key (.table inner new) entries)
      | some (.tables (.table inner old :: others)) => do
          let (inner, new) ← changeAt byKeys change path inner old
          pure (form, replace key (.tables (.table inner new :: others)) entries)
      | some _ => none

/-- Add a key to a table reached by a path.  A table reached by keys has to be
dotted. -/
def extend (byPath : Bool) (key : String) (value : Toml) (form : TableForm)
    (entries : Entries) : Option (TableForm × Entries) :=
  if decide (form = .dotted) != byPath then none
  else match lookup? key entries with
    | some _ => none
    | none => some (form, entries ++ [(key, value)])

/-- A key is added only where it was missing. -/
theorem keys_extend {byPath : Bool} {key : String} {value : Toml} {form form' : TableForm}
    {entries entries' : Entries} (h : extend byPath key value form entries = some (form', entries')) :
    lookup? key entries = none ∧ entries' = entries ++ [(key, value)] := by
  unfold extend at h
  split at h
  · simp at h
  split at h
  · simp at h
  next hnone => exact ⟨hnone, by simpa using (Prod.mk.inj (Option.some.inj h)).2.symm⟩

/-- Put a table under its own header. -/
def openTable (key : String) (form : TableForm) (entries : Entries) :
    Option (TableForm × Entries) :=
  match lookup? key entries with
  | none => some (form, entries ++ [(key, .table .headed [])])
  | some (.table .implied inner) => some (form, replace key (.table .headed inner) entries)
  | some _ => none

/-- Begin one more element of an array of tables. -/
def openElement (key : String) (form : TableForm) (entries : Entries) :
    Option (TableForm × Entries) :=
  match lookup? key entries with
  | none => some (form, entries ++ [(key, .tables [.table .headed []])])
  | some (.tables elements) =>
      some (form, replace key (.tables (.table .headed [] :: elements)) entries)
  | some _ => none

/-- Add a value under a path of keys. -/
def addKey (path : List String) (key : String) (value : Toml) (form : TableForm)
    (entries : Entries) : Option (TableForm × Entries) :=
  changeAt true (extend (!path.isEmpty) key value) path form entries

/-- Follow some statements, given the path of the table they stand under. -/
def follow (current : List String) (document : Entries) : List TomlStatement → Option Entries
  | [] => some document
  | .keyValue path key value :: statements => do
      let (_, document) ← changeAt false (addKey path key value) current .headed document
      follow current document statements
  | .header path key :: statements => do
      let (_, document) ← changeAt false (openTable key) path .headed document
      follow (path ++ [key]) document statements
  | .elementHeader path key :: statements => do
      let (_, document) ← changeAt false (openElement key) path .headed document
      follow (path ++ [key]) document statements

/-- The entries of the document that some statements build. -/
def ofStatements? (statements : List TomlStatement) : Option Entries := follow [] [] statements

end Toml

end DeclLint
