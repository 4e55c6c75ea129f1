import DeclLint.Files.Discovery
import DeclLint.Proofs.Files.Path
import Mathlib.Data.String.Basic
import Mathlib.Tactic.Choose

/-!
# Finding source files is exact

A file below a directory is given by the names that lead to it.  Lists of names are compared
name by name (`List.Lex`), which is the order of a walk that visits the entries of each
directory by name.  A pattern is held against the names of an entry and never against the
text of its path: the path of an entry has the components of the argument and then the
names.

* `FileTree.WellNamed` — the entries of a directory have names, and no name twice;
* `FilesBelow`, `exists_filesBelow` — what a search below a path gives, by recursion on the
  tree;
* `Finds` — what a search for one argument should give;
* `findSourceFiles_exact` — **it gives that.**
-/

namespace DeclLint

namespace FileTree

variable {α : Type}

/-- The entries of every directory have names, and no name twice. -/
inductive WellNamed : FileTree α → Prop
  | file (contents : α) : WellNamed (.file contents)
  | directory {entries : List (String × FileTree α)} (hdistinct : (entries.map Prod.fst).Nodup)
      (hnames : ∀ e ∈ entries, Path.IsName e.1) (h : ∀ e ∈ entries, WellNamed e.2) :
      WellNamed (.directory entries)

/-- Under distinct names every entry is found. -/
theorem lookup_eq_some_iff_mem {entries : List (String × FileTree α)}
    (hdistinct : (entries.map Prod.fst).Nodup) {name : String} {t : FileTree α} :
    entries.lookup name = some t ↔ (name, t) ∈ entries := by
  induction entries with
  | nil => simp
  | cons e entries ih =>
      obtain ⟨key, first⟩ := e
      rw [List.map_cons, List.nodup_cons] at hdistinct
      rw [List.lookup_cons, List.mem_cons]
      by_cases hkey : name = key
      · subst hkey
        have hnone : (name, t) ∉ entries := fun hmem =>
          hdistinct.1 (List.mem_map.mpr ⟨(name, t), hmem, rfl⟩)
        simp [hnone, eq_comm]
      · have hne : (name == key) = false := beq_eq_false_iff_ne.mpr hkey
        simp [hne, hkey, ih hdistinct.2]

/-- A listing has the names of the tree. -/
theorem WellNamed.listing {t : FileTree α} (h : t.WellNamed) : t.listing.WellNamed := by
  induction h with
  | file contents => exact .file ()
  | @directory entries hdistinct hnames h ih =>
      rw [FileTree.listing, listings_eq_map]
      refine .directory ?_ (List.forall_mem_map.mpr hnames) (List.forall_mem_map.mpr ih)
      rw [List.map_map]
      exact hdistinct

/-- What is in a well named tree is well named, and so is the way to it. -/
theorem WellNamed.at? {t found : FileTree α} (h : t.WellNamed) {names : List String}
    (hat : t.at? names = some found) : found.WellNamed ∧ ∀ name ∈ names, Path.IsName name := by
  induction names generalizing t with
  | nil =>
      obtain rfl := Option.some.inj hat
      exact ⟨h, fun _ hname => absurd hname List.not_mem_nil⟩
  | cons name names ih =>
      obtain ⟨entries, inner, rfl, hlookup, hinner⟩ := exists_of_at?_cons hat
      cases h with
      | directory hdistinct hnames hbelow =>
          have hmem := (lookup_eq_some_iff_mem hdistinct).mp hlookup
          obtain ⟨hfound, hothers⟩ := ih (hbelow _ hmem) hinner
          exact ⟨hfound, List.forall_mem_cons.mpr ⟨hnames _ hmem, hothers⟩⟩

end FileTree

section Sorting

variable {α β : Type} {entries : List (String × α)}

theorem perm_sortByName (entries : List (String × α)) : (sortByName entries).Perm entries :=
  List.mergeSort_perm _ _

theorem map_sortByName (g : String × α → β) (entries : List (String × α)) :
    sortByName (entries.map fun e => (e.1, g e)) =
      (sortByName entries).map fun e => (e.1, g e) := by
  rw [sortByName, sortByName, List.map_mergeSort]
  intro a _ b _
  rfl

/-- **Siblings are sorted by name**, each name once. -/
theorem pairwise_sortByName (hdistinct : (entries.map Prod.fst).Nodup) :
    (sortByName entries).Pairwise fun a b => a.1 < b.1 := by
  have hsorted : (sortByName entries).Pairwise fun a b => a.1 ≤ b.1 := by
    have h : (sortByName entries).Pairwise fun a b => decide (a.1 ≤ b.1) = true := by
      refine List.pairwise_mergeSort (fun a b c hab hbc => ?_) (fun a b => ?_) entries
      · rw [decide_eq_true_iff] at hab hbc ⊢
        exact String.le_trans hab hbc
      · rw [Bool.or_eq_true, decide_eq_true_iff, decide_eq_true_iff]
        exact String.le_total a.1 b.1
    exact h.imp of_decide_eq_true
  have hne : (sortByName entries).Pairwise fun a b => a.1 ≠ b.1 := by
    rw [← List.pairwise_map (f := Prod.fst) (R := (· ≠ ·))]
    exact ((perm_sortByName entries).map Prod.fst).nodup_iff.mpr hdistinct
  refine (hsorted.and hne).imp fun h => ?_
  exact lt_of_le_of_ne h.1 h.2

end Sorting

section Places

variable {patterns : List String} {path name : String}

/-- A file whose name is a source file's: something, then `.swift`. -/
def IsSourceName (name : String) : Prop := ∃ stem, stem ≠ "" ∧ name = stem ++ ".swift"

/-- Whether a pattern excludes the entry with a name in a directory.  A pattern without a
slash is the name; one with a slash is the end of the entry's components. -/
def Excludes (pattern : String) (directory : List String) (name : String) : Prop :=
  ('/' ∉ pattern.toList ∧ name = pattern) ∨
    ('/' ∈ pattern.toList ∧ Path.components pattern <:+ directory ++ [name])

theorem isSourcePath_iff (h : Path.fileName? path = some name) :
    isSourcePath path = true ↔ IsSourceName name := by
  have hdot : '.' ∉ "swift".toList := by decide
  rw [isSourcePath, beq_iff_eq, Path.extension?_eq_some_iff h hdot, IsSourceName]
  simp only [String.append_assoc]
  rfl

/-- Whether an entry is excluded is told by its name and the components of its directory. -/
theorem isExcluded_join_iff (h : Path.IsName name) (directory : String) :
    isExcluded patterns (Path.join directory name) = true ↔
      ∃ pattern ∈ patterns, Excludes pattern (Path.components directory) name := by
  rw [isExcluded, List.any_eq_true]
  refine exists_congr fun pattern => and_congr_right fun _ => ?_
  rw [matchesPattern, Path.fileName?_join h, Excludes]
  by_cases hslash : '/' ∈ pattern.toList
  · simp [hslash, Path.endsWith, Path.components_join h]
  · simp [hslash]

/-- What a search below a path gives, as the names that lead there. -/
structure FilesBelow (patterns : List String) (path : String) (t : Listing)
    (places : List (List String)) : Prop where
  /-- The paths that are found. -/
  found_eq : sourceFilesBelow patterns path t = places.map fun names => names.foldl Path.join path
  sorted : places.Pairwise (· < ·)
  /-- The source files that no excluded entry leads to. -/
  mem_iff : ∀ names, names ∈ places ↔ t.at? names = some (.file ()) ∧
    isSourcePath (names.foldl Path.join path) = true ∧
      ∀ front, front ≠ [] → front <+: names →
        isExcluded patterns (front.foldl Path.join path) = false

/-- The prefixes of a path are its first name and the prefixes below it. -/
theorem forall_prefix_cons_iff {P : List String → Prop} {names : List String} :
    (∀ front, front ≠ [] → front <+: name :: names → P front) ↔
      P [name] ∧ ∀ front, front ≠ [] → front <+: names → P (name :: front) := by
  constructor
  · intro h
    refine ⟨h [name] (List.cons_ne_nil _ _) (by simp), fun front _ hfront => ?_⟩
    exact h (name :: front) (List.cons_ne_nil _ _) (List.cons_prefix_cons.mpr ⟨rfl, hfront⟩)
  · intro ⟨hfirst, hothers⟩ front hne hfront
    obtain ⟨first, front, rfl⟩ := List.exists_cons_of_ne_nil hne
    obtain ⟨rfl, hrest⟩ := List.cons_prefix_cons.mp hfront
    by_cases hnil : front = []
    · rw [hnil]
      exact hfirst
    · exact hothers front hnil hrest

/-- A file is found at the path itself. -/
theorem filesBelow_file (patterns : List String) (path : String) :
    FilesBelow patterns path (.file ()) (if isSourcePath path = true then [[]] else []) where
  found_eq := by
    rw [sourceFilesBelow]
    split <;> rfl
  sorted := by
    split
    · exact List.pairwise_singleton _ _
    · exact List.Pairwise.nil
  mem_iff := by
    intro names
    cases names with
    | nil =>
        have hat : FileTree.at? [] (.file () : Listing) = some (.file ()) := rfl
        have hnone : ∀ front : List String, front ≠ [] → front <+: [] →
            isExcluded patterns (front.foldl Path.join path) = false :=
          fun front hne hbegins => absurd (List.prefix_nil.mp hbegins) hne
        by_cases h : isSourcePath path = true
        · rw [if_pos h]
          exact iff_of_true List.mem_cons_self ⟨hat, h, hnone⟩
        · simp [h]
    | cons name names =>
        have hat : FileTree.at? (name :: names) (.file () : Listing) = none := rfl
        by_cases h : isSourcePath path = true
        · simp [h, hat]
        · simp [h, hat]

/-- Entries are excluded one by one, and each of the others is searched on its own. -/
theorem sourceFilesIn_eq (patterns : List String) (directory : String)
    (entries : List (String × Listing)) :
    sourceFilesIn patterns directory entries =
      (entries.filter fun e => !isExcluded patterns (Path.join directory e.1)).map fun e =>
        (e.1, sourceFilesBelow patterns (Path.join directory e.1) e.2) := by
  induction entries with
  | nil => simp [sourceFilesIn]
  | cons e entries ih =>
      obtain ⟨name, below⟩ := e
      rw [sourceFilesIn]
      by_cases h : isExcluded patterns (Path.join directory name) = true
      · simp [h, ih]
      · simp [h, ih]

/-- **One directory.**  What is found in it is what is found below its entries, entry by entry
in the order of the names, without the entries that are excluded. -/
theorem filesBelow_directory {entries : List (String × Listing)}
    (hdistinct : (entries.map Prod.fst).Nodup) {places : String × Listing → List (List String)}
    (h : ∀ e ∈ entries, FilesBelow patterns (Path.join path e.1) e.2 (places e)) :
    FilesBelow patterns path (.directory entries)
      ((sortByName (entries.filter fun e => !isExcluded patterns (Path.join path e.1))).flatMap
        fun e => (places e).map (e.1 :: ·)) := by
  have hmem : ∀ e, e ∈ sortByName (entries.filter fun e =>
      !isExcluded patterns (Path.join path e.1)) ↔
        e ∈ entries ∧ isExcluded patterns (Path.join path e.1) = false := by
    intro e
    rw [(perm_sortByName _).mem_iff, List.mem_filter, Bool.not_eq_true']
  constructor
  · rw [sourceFilesBelow, sourceFilesIn_eq, map_sortByName, List.flatMap_map, List.map_flatMap]
    refine List.flatMap_congr fun e he => ?_
    rw [(h e ((hmem e).mp he).1).found_eq, List.map_map]
    rfl
  · have hkept := hdistinct.sublist
      (List.filter_sublist (p := fun e => !isExcluded patterns (Path.join path e.1)).map Prod.fst)
    rw [List.pairwise_flatMap]
    refine ⟨fun e he => ?_, (pairwise_sortByName hkept).imp fun hlt names hnames other hother => ?_⟩
    · rw [List.pairwise_map]
      exact (h e ((hmem e).mp he).1).sorted.imp fun hlt =>
        List.cons_lt_cons_iff.mpr (.inr ⟨rfl, hlt⟩)
    · obtain ⟨rest, -, rfl⟩ := List.mem_map.mp hnames
      obtain ⟨rest', -, rfl⟩ := List.mem_map.mp hother
      exact List.cons_lt_cons_iff.mpr (.inl hlt)
  · intro names
    rw [List.mem_flatMap]
    cases names with
    | nil => simp [FileTree.at?]
    | cons name names =>
        rw [forall_prefix_cons_iff, List.foldl_cons]
        constructor
        · intro hfound
          obtain ⟨e, he, hplace⟩ := hfound
          obtain ⟨rest, hrest, heq⟩ := List.mem_map.mp hplace
          obtain ⟨rfl, rfl⟩ := List.cons.inj heq
          obtain ⟨hentry, hkeep⟩ := (hmem e).mp he
          obtain ⟨hat, hsource, hfront⟩ := ((h e hentry).mem_iff rest).mp hrest
          have hlookup := (FileTree.lookup_eq_some_iff_mem hdistinct).mpr hentry
          refine ⟨?_, hsource, hkeep, hfront⟩
          rw [FileTree.at?, FileTree.entries, hlookup, Option.bind_some, hat]
        · intro hreached
          obtain ⟨hat, hsource, hkeep, hfront⟩ := hreached
          obtain ⟨_, inner, hsame, hlookup, hinner⟩ := FileTree.exists_of_at?_cons hat
          obtain rfl := FileTree.directory.inj hsame
          have hentry := (FileTree.lookup_eq_some_iff_mem hdistinct).mp hlookup
          refine ⟨(name, inner), (hmem _).mpr ⟨hentry, hkeep⟩, ?_⟩
          exact List.mem_map_of_mem (((h _ hentry).mem_iff names).mpr ⟨hinner, hsource, hfront⟩)

/-- **A whole tree.**  Something is found below every path, in order. -/
theorem exists_filesBelow {t : Listing} (h : t.WellNamed) (patterns : List String)
    (path : String) : ∃ places, FilesBelow patterns path t places := by
  induction h generalizing path with
  | file contents => exact ⟨_, filesBelow_file patterns path⟩
  | @directory entries hdistinct hnames h ih =>
      have hbelow : ∀ e : String × Listing, ∃ places, e ∈ entries →
          FilesBelow patterns (Path.join path e.1) e.2 places := by
        intro e
        by_cases he : e ∈ entries
        · obtain ⟨places, hplaces⟩ := ih e he (Path.join path e.1)
          exact ⟨places, fun _ => hplaces⟩
        · exact ⟨[], fun hmem => absurd hmem he⟩
      choose places hplaces using hbelow
      exact ⟨_, filesBelow_directory hdistinct hplaces⟩

end Places

/-- Whether a search below a path should list a file.  The file is a source file, and neither
the file nor a directory on the way to it is excluded; the path itself may be. -/
structure IsListed {α : Type} (patterns : List String) (path : String) (t : FileTree α)
    (names : List String) : Prop where
  isFile : ∃ contents, t.at? names = some (.file contents)
  isSource : ∃ front name, names = front ++ [name] ∧ IsSourceName name
  free : ∀ front name back, names = front ++ name :: back →
    ∀ pattern ∈ patterns, ¬Excludes pattern (Path.components path ++ front) name

section Listing

variable {α : Type} {patterns names front : List String} {path name : String} {t : FileTree α}
  {places : List (List String)}

theorem foldl_join_concat (front : List String) (name path : String) :
    (front ++ [name]).foldl Path.join path = Path.join (front.foldl Path.join path) name := by
  rw [List.foldl_append, List.foldl_cons, List.foldl_nil]

theorem isExcluded_foldl_iff (h : ∀ part ∈ front ++ [name], Path.IsName part) :
    isExcluded patterns ((front ++ [name]).foldl Path.join path) = false ↔
      ∀ pattern ∈ patterns, ¬Excludes pattern (Path.components path ++ front) name := by
  obtain ⟨hfront, hname⟩ := List.forall_mem_append.mp h
  rw [foldl_join_concat, ← Bool.not_eq_true, isExcluded_join_iff (hname name List.mem_cons_self),
    Path.components_foldl_join hfront]
  simp only [not_exists, not_and]

theorem isSourcePath_foldl_iff (h : Path.IsName name) (front : List String) (path : String) :
    isSourcePath ((front ++ [name]).foldl Path.join path) = true ↔ IsSourceName name := by
  rw [foldl_join_concat]
  exact isSourcePath_iff (Path.fileName?_join h _)

theorem exists_file_of_listing (h : t.listing.at? names = some (.file ())) :
    ∃ contents, t.at? names = some (.file contents) := by
  rw [FileTree.at?_listing] at h
  obtain ⟨found, hfound, hlisting⟩ := Option.map_eq_some_iff.mp h
  cases found with
  | file contents => exact ⟨contents, hfound⟩
  | directory entries => cases hlisting

/-- **What is found below a directory is what should be listed.** -/
theorem FilesBelow.mem_iff_isListed (h : FilesBelow patterns path t.listing places)
    (hnamed : t.WellNamed) (hdirectory : t.isDirectory = true) :
    names ∈ places ↔ IsListed patterns path t names := by
  rw [h.mem_iff]
  constructor
  · intro ⟨hat, hsource, hfree⟩
    obtain ⟨contents, hfile⟩ := exists_file_of_listing hat
    have hnames := (hnamed.at? hfile).2
    have hne : names ≠ [] := by
      rintro rfl
      obtain rfl := Option.some.inj hfile
      cases hdirectory
    obtain ⟨front, name, heq⟩ := (List.eq_nil_or_concat names).resolve_left hne
    rw [List.concat_eq_append] at heq
    have hname : Path.IsName name := hnames name (by simp [heq])
    rw [heq, isSourcePath_foldl_iff hname] at hsource
    refine ⟨⟨contents, hfile⟩, ⟨front, name, heq, hsource⟩, ?_⟩
    intro before entry back hsplit
    have hbegins : before ++ [entry] <+: names := ⟨back, by simp [hsplit]⟩
    have hparts : ∀ part ∈ before ++ [entry], Path.IsName part :=
      fun part hpart => hnames part (hbegins.subset hpart)
    exact (isExcluded_foldl_iff hparts).mp (hfree _ (by simp) hbegins)
  · intro ⟨⟨contents, hfile⟩, ⟨front, name, heq, hsource⟩, hfree⟩
    have hnames := (hnamed.at? hfile).2
    have hname : Path.IsName name := hnames name (by simp [heq])
    refine ⟨?_, ?_, fun before hne hbegins => ?_⟩
    · rw [FileTree.at?_listing, hfile]
      rfl
    · rw [heq]
      exact (isSourcePath_foldl_iff hname front path).mpr hsource
    · have hparts : ∀ part ∈ before, Path.IsName part :=
        fun part hpart => hnames part (hbegins.subset hpart)
      obtain ⟨outer, entry, rfl⟩ := (List.eq_nil_or_concat before).resolve_left hne
      rw [List.concat_eq_append] at hparts hbegins ⊢
      obtain ⟨back, hback⟩ := hbegins
      exact (isExcluded_foldl_iff hparts).mpr
        (hfree outer entry back (by simp [← hback]))

/-- Different files are found at different paths. -/
theorem FilesBelow.nodup (h : FilesBelow patterns path t.listing places) (hnamed : t.WellNamed) :
    (places.map fun names => names.foldl Path.join path).Nodup := by
  have hnames : ∀ names ∈ places, ∀ name ∈ names, Path.IsName name := by
    intro names hmem
    obtain ⟨contents, hfile⟩ := exists_file_of_listing ((h.mem_iff names).mp hmem).1
    exact (hnamed.at? hfile).2
  rw [List.nodup_iff_pairwise_ne, List.pairwise_map]
  refine h.sorted.imp_of_mem fun {names others} hmem hmem' hlt heq => ?_
  have hcomponents := congrArg Path.components heq
  rw [Path.components_foldl_join (hnames _ hmem), Path.components_foldl_join (hnames _ hmem'),
    List.append_cancel_left_eq] at hcomponents
  rw [hcomponents] at hlt
  exact lt_irrefl _ hlt

end Listing

/-- **What a search for one argument gives.**  A file is listed if its name is a source
file's, whatever the patterns.  Below a directory every file that should be listed is listed
once, in the order of the names. -/
inductive Finds (machine : Machine) (patterns : List String) (path : String) :
    List String → Prop
  | nothing {fault : FileFault} (h : machine.look path = .error fault) :
      Finds machine patterns path []
  | source {front : List String} {name : String} {contents : ByteArray}
      (hlocate : machine.locate path = .ok (front ++ [name]))
      (hfile : machine.files.at? (front ++ [name]) = some (.file contents))
      (hname : IsSourceName name) : Finds machine patterns path [path]
  | other {front : List String} {name : String} {contents : ByteArray}
      (hlocate : machine.locate path = .ok (front ++ [name]))
      (hfile : machine.files.at? (front ++ [name]) = some (.file contents))
      (hname : ¬IsSourceName name) : Finds machine patterns path []
  | below {entries : List (String × FileTree ByteArray)} {places : List (List String)}
      (h : machine.look path = .ok (.directory entries))
      (hlisted : ∀ names, names ∈ places ↔ IsListed patterns path (.directory entries) names)
      (hsorted : places.Pairwise (· < ·))
      (honce : (places.map fun names => names.foldl Path.join path).Nodup) :
      Finds machine patterns path (places.map fun names => names.foldl Path.join path)

section Arguments

variable {machine : Machine}

/-- A search looks at the machine once, and leaves it as it is. -/
theorem findAt_eq (machine : Machine) (patterns : List String) (path : String) :
    (findAt patterns path : StateM Machine (Logged (List String))) machine =
      (match (machine.look path).toOption.map FileTree.listing with
        | some found => pure (sourceFilesBelow patterns path found)
        | none => do
            Logged.note .warning s!"{path}: no such file or directory"
            return [], machine) := by
  have hsurvey : (Host.survey path : StateM Machine (Option Listing)) machine =
      ((machine.look path).toOption.map FileTree.listing, machine) := rfl
  unfold findAt
  simp only [bind, StateT.bind, hsurvey]
  cases (machine.look path).toOption.map FileTree.listing <;> rfl

/-- **One argument.**  A search finds what it should, and leaves the machine as it was. -/
theorem exists_findAt (hnamed : machine.files.WellNamed) (patterns : List String)
    (path : String) :
    ∃ found, Finds machine patterns path found.value ∧
      (findAt patterns path : StateM Machine _) machine = (found, machine) := by
  refine ⟨_, ?_, findAt_eq machine patterns path⟩
  cases hlook : machine.look path with
  | error fault => exact .nothing hlook
  | ok t =>
      obtain ⟨names, hlocate, hat⟩ := Machine.look_eq_ok_iff.mp hlook
      have hfinds : Finds machine patterns path (sourceFilesBelow patterns path t.listing) := by
        cases t with
        | file contents =>
            obtain ⟨front, name, rfl, hname⟩ := Machine.exists_fileName?_of_file hlocate hat
            rw [FileTree.listing, sourceFilesBelow]
            by_cases h : isSourcePath path = true
            · rw [if_pos h]
              exact .source hlocate hat ((isSourcePath_iff hname).mp h)
            · rw [if_neg h]
              exact .other hlocate hat fun hsource => h ((isSourcePath_iff hname).mpr hsource)
        | directory entries =>
            have hwell := (hnamed.at? hat).1
            obtain ⟨places, hplaces⟩ := exists_filesBelow hwell.listing patterns path
            rw [hplaces.found_eq]
            exact .below hlook (fun names => hplaces.mem_iff_isListed hwell rfl) hplaces.sorted
              (hplaces.nodup hwell)
      exact hfinds

/-- **Several arguments.**  Each is searched on the same machine. -/
theorem exists_mapM_findAt (hnamed : machine.files.WellNamed) (patterns paths : List String) :
    ∃ found : List (Logged (List String)),
      List.Forall₂ (Finds machine patterns) paths (found.map Logged.value) ∧
        (paths.mapM (findAt patterns) : StateM Machine _) machine = (found, machine) := by
  induction paths with
  | nil => exact ⟨[], .nil, rfl⟩
  | cons path paths ih =>
      obtain ⟨first, hfirst, hrun⟩ := exists_findAt hnamed patterns path
      obtain ⟨others, hothers, hruns⟩ := ih
      refine ⟨first :: others, .cons hfirst hothers, ?_⟩
      rw [List.mapM_cons]
      simp only [bind, StateT.bind, hrun, hruns]
      rfl

end Arguments

/-- **Discovery is exact.**  What is found at several paths is what is found at each, in the
order of the paths: nothing where nothing is, a file that is named if it is a source file, and
below a directory every source file that is not excluded, once and in order.  The machine
stays as it was. -/
theorem findSourceFiles_exact {machine : Machine} (hnamed : machine.files.WellNamed)
    (patterns paths : List String) :
    ∃ found : List (List String), List.Forall₂ (Finds machine patterns) paths found ∧
      ((findSourceFiles patterns paths : StateM Machine _) machine).1.value = found.flatten ∧
      ((findSourceFiles patterns paths : StateM Machine _) machine).2 = machine := by
  obtain ⟨results, hfinds, hrun⟩ := exists_mapM_findAt hnamed patterns paths
  refine ⟨results.map Logged.value, hfinds, ?_⟩
  unfold findSourceFiles
  simp only [bind, StateT.bind, hrun]
  exact ⟨rfl, rfl⟩

/-- A machine with two sources and a directory to be passed over. -/
def sourcesMachine : Machine :=
  { files := .directory [
      ("b.swift", .file .empty),
      ("Pods", .directory [("v.swift", .file .empty)]),
      ("a.swift", .file .empty)] }

/-- The names of the example are names of files. -/
theorem wellNamed_sourcesMachine : sourcesMachine.files.WellNamed := by
  have hname : ∀ name ∈ ["b.swift", "Pods", "v.swift", "a.swift"], Path.IsName name := by
    simp [Path.IsName]
  have hpods : (FileTree.directory [("v.swift", FileTree.file ByteArray.empty)]).WellNamed := by
    refine .directory (by simp) ?_ ?_
    · exact List.forall_mem_singleton.mpr (hname _ (by simp))
    · exact List.forall_mem_singleton.mpr (.file _)
  refine .directory (by decide) ?_ ?_
  · simp only [List.forall_mem_cons]
    exact ⟨hname _ (by simp), hname _ (by simp), hname _ (by simp),
      fun _ h => absurd h List.not_mem_nil⟩
  · simp only [List.forall_mem_cons]
    exact ⟨.file _, hpods, .file _, fun _ h => absurd h List.not_mem_nil⟩

/-- A directory, an excluded file and a missing one, in one call. -/
theorem findSourceFiles_exact_sources :
    sourcesMachine.files.WellNamed ∧ ∃ found : List (List String),
      List.Forall₂ (Finds sourcesMachine ["Pods"]) ["/", "/Pods/v.swift", "/none"] found ∧
      ((findSourceFiles ["Pods"] ["/", "/Pods/v.swift", "/none"] :
        StateM Machine _) sourcesMachine).1.value = found.flatten ∧
      ((findSourceFiles ["Pods"] ["/", "/Pods/v.swift", "/none"] :
        StateM Machine _) sourcesMachine).2 = sourcesMachine :=
  ⟨wellNamed_sourcesMachine, findSourceFiles_exact wellNamed_sourcesMachine _ _⟩

end DeclLint
