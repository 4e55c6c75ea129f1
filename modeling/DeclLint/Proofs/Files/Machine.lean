import DeclLint.Files.Machine
import DeclLint.Proofs.Files.Tree
import DeclLint.Proofs.Text.Span

/-!
# Reading and overwriting files of a machine

A path that leads to a file can be written, and writing it only gives that file other
contents (`Machine.overwrite`).  The names on the machine stay, so every path leads where
it led before (`Machine.Alike`).  Two paths may lead to one file: `a.swift` and
`./a.swift` do.

* `Machine.target_of_file`, `Machine.change_of_file` — a file that can be read can be
  written;
* `Machine.Alike.locate_eq`, `Machine.Alike.contents_eq_error` — while only files get other
  contents, paths lead to the same places, and what could not be read still cannot be;
* `Machine.at?_overwrite_of_ne` — overwriting a file changes no other one.
-/

namespace DeclLint

namespace Path

/-- A slash at the end is followed by an empty piece. -/
theorem cutAtSlashes_concat (cs : List Char) :
    cutAtSlashes (cs ++ ['/']) = cutAtSlashes cs ++ [[]] := by
  induction cs with
  | nil => rfl
  | cons c cs ih =>
      rw [List.cons_append, cutAtSlashes, cutAtSlashes, ih]
      cases hcut : cutAtSlashes cs with
      | nil => exact absurd hcut (cutAtSlashes_ne_nil cs)
      | cons piece more =>
          by_cases hc : c = '/'
          · simp [hc]
          · simp [hc]

/-- The last piece of a path that ends with a slash is empty. -/
theorem getLast?_pieces {p : String} (h : p.toList.getLast? = some '/') :
    (pieces p).getLast? = some "" := by
  obtain ⟨front, hfront⟩ := List.getLast?_eq_some_iff.mp h
  rw [pieces, hfront, cutAtSlashes_concat]
  simp

end Path

namespace Machine

variable {machine : Machine} {path : String} {names : List String}

/-- Pieces are followed one behind another. -/
theorem follow_append (machine : Machine) (place front back : List String) :
    machine.follow place (front ++ back) =
      (machine.follow place front >>= fun before => machine.follow before back) := by
  induction front generalizing place with
  | nil => rfl
  | cons piece front ih =>
      rw [List.cons_append, follow, follow]
      cases machine.files.at? place.reverse with
      | none => rfl
      | some t =>
          cases t with
          | file contents => rfl
          | directory entries => exact ih _

/-- The last piece of a path leads on from a directory. -/
theorem exists_of_follow_concat {place front last : List String} {piece : String}
    (h : machine.follow place (front ++ [piece]) = .ok last) :
    ∃ before entries, machine.follow place front = .ok before ∧
      machine.files.at? before.reverse = some (.directory entries) ∧
        last = Path.advance before piece := by
  rw [follow_append] at h
  obtain ⟨before, hbefore, hlast⟩ := exists_of_bind_eq_ok h
  rw [follow] at hlast
  cases hat : machine.files.at? before.reverse with
  | none => simp [hat] at hlast
  | some t =>
      cases t with
      | file contents => simp [hat] at hlast
      | directory entries =>
          refine ⟨before, entries, hbefore, hat, ?_⟩
          simpa [hat, follow] using hlast.symm

/-- A path that leads to a file ends with its name. -/
theorem advance_of_file {before : List String} {piece : String} {contents : ByteArray}
    {entries : List (String × FileTree ByteArray)}
    (hbefore : machine.files.at? before.reverse = some (.directory entries))
    (hfile : machine.files.at? (Path.advance before piece).reverse = some (.file contents)) :
    piece ≠ "" ∧ piece ≠ "." ∧ piece ≠ ".." := by
  have hstay : Path.advance before piece ≠ before := by
    intro heq
    rw [heq, hbefore] at hfile
    cases hfile
  have hvoid : Path.isVoid piece = false := by
    refine Bool.eq_false_iff.mpr fun hvoid => hstay ?_
    rw [Path.advance, if_pos hvoid]
  have hnames : piece ≠ "" ∧ piece ≠ "." := by
    simpa [Path.isVoid] using hvoid
  refine ⟨hnames.1, hnames.2, ?_⟩
  rintro rfl
  have hup : Path.advance before ".." = before.tail := rfl
  cases before with
  | nil => exact hstay hup
  | cons name before =>
      rw [hup, List.tail_cons] at hfile
      rw [List.reverse_cons, FileTree.at?_append, hfile, Option.bind_some] at hbefore
      obtain ⟨_, _, hdirectory, -⟩ := FileTree.exists_of_at?_cons hbefore
      cases hdirectory

/-- A path has a location exactly if it is not empty and its pieces can be followed. -/
theorem exists_of_locate (h : machine.locate path = .ok names) :
    path.isEmpty = false ∧ ∃ place,
      machine.follow (machine.start path) (Path.pieces path) = .ok place ∧
        names = place.reverse := by
  unfold locate at h
  by_cases hempty : path.isEmpty = true
  · simp [hempty] at h
  · rw [if_neg hempty] at h
    refine ⟨Bool.eq_false_iff.mpr hempty, ?_⟩
    cases hfollow : machine.follow (machine.start path) (Path.pieces path) with
    | error e => simp [hfollow, Except.map] at h
    | ok place => exact ⟨place, rfl, by simpa [hfollow, Except.map] using h.symm⟩

/-- A path that leads to a file can be written to. -/
theorem target_of_file {contents : ByteArray} (hlocate : machine.locate path = .ok names)
    (hfile : machine.files.at? names = some (.file contents)) :
    machine.target path = .ok names := by
  obtain ⟨hempty, place, hfollow, rfl⟩ := exists_of_locate hlocate
  obtain ⟨front, piece, hpieces⟩ :=
    (List.eq_nil_or_concat (Path.pieces path)).resolve_left (Path.pieces_ne_nil path)
  rw [List.concat_eq_append] at hpieces
  rw [hpieces] at hfollow
  obtain ⟨before, entries, -, hbefore, rfl⟩ := exists_of_follow_concat hfollow
  obtain ⟨hnotEmpty, hnotHere, hnotUp⟩ := advance_of_file hbefore hfile
  have hslash : path.toList.getLast? ≠ some '/' := by
    intro hends
    have hlast := Path.getLast?_pieces hends
    rw [hpieces, List.getLast?_concat] at hlast
    exact hnotEmpty (Option.some.inj hlast)
  have hreverse : ((Path.pieces path).reverse.dropWhile (· = "")) = piece :: front.reverse := by
    rw [hpieces, List.reverse_append]
    simp [hnotEmpty]
  have hback : (piece :: front.reverse).reverse = front ++ [piece] := by
    rw [List.reverse_cons, List.reverse_reverse]
  unfold target
  rw [hempty, hreverse]
  simp only [hback, hfollow]
  simp [hslash, hnotHere, hnotUp, hfile, bind, Except.bind]

/-- What is at a path is what is where it leads. -/
theorem look_eq_ok_iff {t : FileTree ByteArray} :
    machine.look path = .ok t ↔
      ∃ names, machine.locate path = .ok names ∧ machine.files.at? names = some t := by
  unfold look
  constructor
  · intro h
    obtain ⟨names, hlocate, hat⟩ := exists_of_bind_eq_ok h
    refine ⟨names, hlocate, ?_⟩
    cases hfound : machine.files.at? names with
    | none => simp [hfound] at hat
    | some found => simpa [hfound] using hat
  · rintro ⟨names, hlocate, hat⟩
    simp [hlocate, hat, bind, Except.bind]

/-- What is read at a path is what the file holds that it leads to. -/
theorem contents_eq_ok_iff {contents : ByteArray} :
    machine.contents path = .ok contents ↔
      ∃ names, machine.locate path = .ok names ∧
        machine.files.at? names = some (.file contents) := by
  rw [← look_eq_ok_iff]
  unfold Machine.contents
  constructor
  · intro h
    obtain ⟨t, hlook, hread⟩ := exists_of_bind_eq_ok h
    cases t with
    | file old =>
        obtain rfl := Except.ok.inj hread
        exact hlook
    | directory entries => cases hread
  · intro hlook
    rw [hlook]
    rfl

/-- A machine on which one file has other contents. -/
def overwrite (machine : Machine) (names : List String) (contents : ByteArray) : Machine :=
  { machine with files := FileTree.put (.file contents) names machine.files }

/-- **What can be read can be written.** -/
theorem change_of_file {old : ByteArray} (hlocate : machine.locate path = .ok names)
    (hfile : machine.files.at? names = some (.file old)) (f : ByteArray → ByteArray) :
    machine.change path f = .ok (machine.overwrite names (f old)) := by
  unfold change
  rw [target_of_file hlocate hfile]
  simp [hfile, overwrite, bind, Except.bind]

/-- Two machines differ in the contents of files only. -/
structure Alike (machine other : Machine) : Prop where
  listing_eq : other.files.listing = machine.files.listing
  rest_eq : other = { machine with files := other.files }

namespace Alike

variable {other third : Machine}

theorem refl (machine : Machine) : machine.Alike machine := ⟨rfl, rfl⟩

theorem trans (h : machine.Alike other) (h' : other.Alike third) : machine.Alike third := by
  refine ⟨h'.listing_eq.trans h.listing_eq, ?_⟩
  have hrest := h.rest_eq
  rw [h'.rest_eq, hrest]

/-- Files and directories are where they were. -/
theorem at?_listing_eq (h : machine.Alike other) (names : List String) :
    (other.files.at? names).map FileTree.listing =
      (machine.files.at? names).map FileTree.listing := by
  rw [← FileTree.at?_listing, ← FileTree.at?_listing, h.listing_eq]

/-- Machines with the same listings lead to the same places. -/
theorem follow_eq (h : machine.Alike other) (place pieces : List String) :
    other.follow place pieces = machine.follow place pieces := by
  induction pieces generalizing place with
  | nil => rfl
  | cons piece pieces ih =>
      have hat := h.at?_listing_eq place.reverse
      rw [follow, follow, ih]
      cases hother : other.files.at? place.reverse with
      | none =>
          rw [hother, Option.map_none, eq_comm, Option.map_eq_none_iff] at hat
          rw [hat]
      | some t =>
          cases hmachine : machine.files.at? place.reverse with
          | none => simp [hother, hmachine] at hat
          | some t' => cases t <;> cases t' <;> simp_all [FileTree.listing]

/-- **Paths lead to the same places.** -/
theorem locate_eq (h : machine.Alike other) (path : String) :
    other.locate path = machine.locate path := by
  have hstart : other.start path = machine.start path := by
    rw [h.rest_eq]
    rfl
  unfold locate
  rw [hstart, h.follow_eq]

/-- What cannot be read still cannot be. -/
theorem contents_eq_error (h : machine.Alike other) {e : FileFault}
    (herror : machine.contents path = .error e) : other.contents path = .error e := by
  unfold Machine.contents look at herror ⊢
  rw [h.locate_eq]
  cases hlocate : machine.locate path with
  | error fault => simpa [hlocate, bind, Except.bind] using herror
  | ok names =>
      have hat := h.at?_listing_eq names
      simp only [hlocate, bind, Except.bind] at herror ⊢
      cases hmachine : machine.files.at? names with
      | none =>
          rw [hmachine, Option.map_none, Option.map_eq_none_iff] at hat
          simpa [hmachine, hat] using herror
      | some t =>
          cases hother : other.files.at? names with
          | none => simp [hmachine, hother] at hat
          | some t' => cases t <;> cases t' <;> simp_all [FileTree.listing]

end Alike

section Overwriting

variable {old : ByteArray}

theorem overwrite_alike (hfile : machine.files.at? names = some (.file old))
    (contents : ByteArray) : machine.Alike (machine.overwrite names contents) :=
  ⟨FileTree.listing_put contents hfile, rfl⟩

/-- A file that was overwritten holds what was written. -/
theorem at?_overwrite (machine : Machine) (names : List String) (contents : ByteArray) :
    (machine.overwrite names contents).files.at? names = some (.file contents) :=
  FileTree.at?_put _ names machine.files

/-- Another file holds what it held. -/
theorem at?_overwrite_of_ne {others : List String} {held : ByteArray}
    (hfile : machine.files.at? names = some (.file old)) (contents : ByteArray)
    (hheld : machine.files.at? others = some (.file held)) (hne : others ≠ names) :
    (machine.overwrite names contents).files.at? others = some (.file held) :=
  FileTree.at?_put_of_ne _ hfile hheld hne

end Overwriting

/-- The text of the file at a path. -/
def text (machine : Machine) (path : String) : Except FileFault String :=
  machine.contents path >>= textOf

theorem text_of_file {contents : ByteArray} (hlocate : machine.locate path = .ok names)
    (hfile : machine.files.at? names = some (.file contents)) :
    machine.text path = textOf contents := by
  rw [text, contents_eq_ok_iff.mpr ⟨names, hlocate, hfile⟩]
  rfl

/-- Two paths lead to one place. -/
def SamePlace (machine : Machine) (path other : String) : Prop :=
  ∃ names, machine.locate path = .ok names ∧ machine.locate other = .ok names

end Machine

/-- A text that was written is read. -/
theorem textOf_toUTF8 (s : String) : textOf s.toUTF8 = .ok s := by
  unfold textOf String.fromUTF8?
  rw [String.toUTF8_eq_toByteArray, dif_pos s.isValidUTF8]
  rfl

end DeclLint
