import DeclLint.Proofs.Files.Machine
import Mathlib.Data.List.Basic

/-!
# The components of a path

A name is what an entry of a directory can be called.  A path inside a directory has the
components of the directory and then the name, however the directory is spelled.

* `Path.components_join`, `Path.components_foldl_join` — **the components of an entry**;
* `Path.fileName?_join` — an entry has its name;
* `Path.extension?_eq_some_iff` — an extension is what is behind the last dot, with
  something before it;
* `Machine.exists_fileName?_of_file` — a path that leads to a file ends with its name.
-/

namespace DeclLint

namespace Path

/-- What an entry of a directory can be called. -/
def IsName (name : String) : Prop :=
  name ≠ "" ∧ name ≠ "." ∧ name ≠ ".." ∧ '/' ∉ name.toList

section Pieces

variable {p name directory piece : String} {front : List String}

/-- A path is cut as lists are split. -/
theorem cutAtSlashes_eq_splitOn (cs : List Char) : cutAtSlashes cs = cs.splitOn '/' := by
  induction cs with
  | nil => rfl
  | cons c cs ih =>
      have hne := List.splitOn_ne_nil '/' cs
      rw [cutAtSlashes, ih, List.splitOn_cons_eq_if_modifyHead]
      cases hcut : cs.splitOn '/' with
      | nil => exact absurd hcut hne
      | cons piece more =>
          by_cases hc : c = '/'
          · simp [hc]
          · simp [hc]

/-- No piece of a path holds a slash. -/
theorem not_mem_of_mem_pieces (h : piece ∈ pieces p) : '/' ∉ piece.toList := by
  have hcut : ∀ cs, ∀ part ∈ cutAtSlashes cs, '/' ∉ part := by
    intro cs
    induction cs with
    | nil => simp [cutAtSlashes]
    | cons c cs ih =>
        rw [cutAtSlashes]
        cases hmore : cutAtSlashes cs with
        | nil => exact absurd hmore (cutAtSlashes_ne_nil cs)
        | cons first more =>
            rw [hmore] at ih
            obtain ⟨hfirst, hothers⟩ := List.forall_mem_cons.mp ih
            by_cases hc : c = '/'
            · simpa [hc] using ⟨hfirst, hothers⟩
            · simpa [hc, Ne.symm hc] using ⟨hfirst, hothers⟩
  obtain ⟨part, hpart, rfl⟩ := List.mem_map.mp h
  rw [String.toList_ofList]
  exact hcut _ part hpart

/-- A slash ends the pieces before it. -/
theorem pieces_append_slash (p q : String) : pieces (p ++ "/" ++ q) = pieces p ++ pieces q := by
  have hsplit : (p ++ "/" ++ q).toList = p.toList ++ '/' :: q.toList := by simp
  rw [pieces, hsplit, cutAtSlashes_eq_splitOn, List.splitOn_append_cons_self, List.map_append,
    ← cutAtSlashes_eq_splitOn, ← cutAtSlashes_eq_splitOn]
  rfl

theorem pieces_of_isName (h : IsName name) : pieces name = [name] := by
  rw [pieces, cutAtSlashes_eq_splitOn, List.splitOn_eq_singleton h.2.2.2]
  simp

theorem isVoid_of_isName (h : IsName name) : isVoid name = false := by
  simp [isVoid, h.1, h.2.1]

/-- The components that some pieces spell. -/
def componentsOf : List String → List String
  | [] => []
  | first :: more => (if first = "" then "/" else first) :: more.filter fun piece => !isVoid piece

/-- The components of a path are what its pieces between slashes amount to. -/
theorem components_eq (h : p ≠ "") : components p = componentsOf (pieces p) := by
  have hempty : p.isEmpty = false := by simpa using h
  unfold components
  cases pieces p with
  | nil => rfl
  | cons first more =>
      by_cases hfirst : first = ""
      · simp [componentsOf, hfirst, hempty]
      · simp [componentsOf, hfirst]

theorem componentsOf_concat (hne : front ≠ []) (piece : String) :
    componentsOf (front ++ [piece]) =
      componentsOf front ++ [piece].filter fun piece => !isVoid piece := by
  obtain ⟨first, more, rfl⟩ := List.exists_cons_of_ne_nil hne
  rw [List.cons_append, componentsOf, componentsOf, List.filter_append, List.cons_append]

/-- **The components of an entry** are those of its directory, then its name. -/
theorem components_join (h : IsName name) (directory : String) :
    components (join directory name) = components directory ++ [name] := by
  have hvoid := isVoid_of_isName h
  have hconcat : ∀ front : List String, front ≠ [] →
      componentsOf (front ++ [name]) = componentsOf front ++ [name] := by
    intro front hne
    rw [componentsOf_concat hne]
    simp [hvoid]
  unfold join
  by_cases hempty : directory = ""
  · rw [hempty, if_pos (by simp), String.empty_append, components_eq h.1, pieces_of_isName h]
    simp [componentsOf, h.1, components, pieces, cutAtSlashes]
  by_cases hslash : directory.toList.getLast? = some '/'
  · obtain ⟨cs, hcs⟩ := List.getLast?_eq_some_iff.mp hslash
    obtain rfl : directory = String.ofList cs ++ "/" := by
      rw [← String.toList_inj, hcs]
      simp
    have hpieces := pieces_append_slash (String.ofList cs) ""
    rw [String.append_empty] at hpieces
    have hends : (String.ofList cs ++ "/").isEmpty = false := by simp
    rw [if_pos (by simp), components_eq (by simp), components_eq hempty, pieces_append_slash,
      hpieces, pieces_of_isName h, hconcat _ (pieces_ne_nil _),
      show pieces "" = [""] from rfl, componentsOf_concat (pieces_ne_nil _)]
    simp [isVoid]
  · have hno : ¬((directory.isEmpty || directory.toList.getLast? == some '/') = true) := by
      simp [hempty, hslash]
    rw [if_neg hno, components_eq (by simp), pieces_append_slash, pieces_of_isName h,
      hconcat _ (pieces_ne_nil _), components_eq hempty]

/-- Joining names appends them as components. -/
theorem components_foldl_join {names : List String} (h : ∀ name ∈ names, IsName name)
    (directory : String) :
    components (names.foldl join directory) = components directory ++ names := by
  induction names generalizing directory with
  | nil => exact (List.append_nil _).symm
  | cons name names ih =>
      obtain ⟨hname, hnames⟩ := List.forall_mem_cons.mp h
      rw [List.foldl_cons, ih hnames, components_join hname, List.append_assoc,
        List.singleton_append]

/-- An entry has its name. -/
theorem fileName?_join (h : IsName name) (directory : String) :
    fileName? (join directory name) = some name := by
  have hslash : name ≠ "/" := by
    rintro rfl
    exact h.2.2.2 (by decide)
  rw [fileName?, components_join h, List.getLast?_concat, Option.filter_some]
  simp [hslash, h.2.1, h.2.2.1]

/-- **Extensions.**  An extension is what is behind the last dot, with something before it. -/
theorem extension?_eq_some_iff {extension : String} (h : fileName? p = some name)
    (hdot : '.' ∉ extension.toList) :
    extension? p = some extension ↔ ∃ stem, stem ≠ "" ∧ name = stem ++ "." ++ extension := by
  unfold extension?
  rw [h]
  simp only [Option.bind_eq_bind, Option.bind_some]
  constructor
  · intro hsome
    split at hsome
    next dot c more hdrop =>
      have hextension := Option.some.inj hsome
      have hsplit := List.takeWhile_append_dropWhile (p := fun c => decide (c ≠ '.'))
        (l := name.toList.reverse)
      have hhead : dot = '.' := by
        have hfalse := List.head?_dropWhile_not (fun c => decide (c ≠ '.')) name.toList.reverse
        rw [hdrop, List.head?_cons] at hfalse
        simpa using hfalse
      rw [hdrop, hhead] at hsplit
      refine ⟨String.ofList (c :: more).reverse, by simp, ?_⟩
      have hname := congrArg List.reverse hsplit
      rw [List.reverse_reverse] at hname
      rw [← String.toList_inj, ← hname, ← hextension]
      simp
    next => cases hsome
  · intro ⟨stem, hstem, hname⟩
    have hreverse : name.toList.reverse = extension.toList.reverse ++ '.' :: stem.toList.reverse := by
      rw [hname]
      simp
    have hkeep : ∀ c ∈ extension.toList.reverse, decide (c ≠ '.') = true := by
      intro c hc
      rw [decide_eq_true_iff]
      rintro rfl
      exact hdot (List.mem_reverse.mp hc)
    rw [hreverse, List.dropWhile_append_of_pos hkeep, List.takeWhile_append_of_pos hkeep]
    obtain ⟨c, more, hcons⟩ : ∃ c more, stem.toList.reverse = c :: more :=
      List.exists_cons_of_ne_nil (by simpa using hstem)
    simp [hcons]

end Pieces

end Path

namespace Machine

variable {machine : Machine} {path : String} {names : List String}

/-- A path that leads to a file ends with the file's name. -/
theorem exists_fileName?_of_file {contents : ByteArray} (hlocate : machine.locate path = .ok names)
    (hfile : machine.files.at? names = some (.file contents)) :
    ∃ front name, names = front ++ [name] ∧ Path.fileName? path = some name := by
  obtain ⟨hempty, place, hfollow, rfl⟩ := exists_of_locate hlocate
  obtain ⟨front, piece, hpieces⟩ :=
    (List.eq_nil_or_concat (Path.pieces path)).resolve_left (Path.pieces_ne_nil path)
  rw [List.concat_eq_append] at hpieces
  rw [hpieces] at hfollow
  obtain ⟨before, entries, -, hbefore, rfl⟩ := exists_of_follow_concat hfollow
  obtain ⟨hnotEmpty, hnotHere, hnotUp⟩ := advance_of_file hbefore hfile
  have hvoid : Path.isVoid piece = false := by simp [Path.isVoid, hnotEmpty, hnotHere]
  have hslash : piece ≠ "/" := by
    rintro rfl
    have hmem : "/" ∈ Path.pieces path := by simp [hpieces]
    exact Path.not_mem_of_mem_pieces hmem (by decide)
  refine ⟨before.reverse, piece, ?_, ?_⟩
  · simp [Path.advance, hvoid, hnotUp]
  · have hlast : (Path.components path).getLast? = some piece := by
      rw [Path.components_eq (by simpa using hempty), hpieces]
      cases front with
      | nil => simp [Path.componentsOf, hnotEmpty]
      | cons first more =>
          rw [Path.componentsOf_concat (List.cons_ne_nil first more)]
          simp [hvoid]
    rw [Path.fileName?, hlast, Option.filter_some]
    simp [hslash, hnotHere, hnotUp]

end Machine

end DeclLint
