import DeclLint.Files.Tree

/-!
# Files that get other contents

A file that gets other contents leaves everything else of its tree as it was: the names
that there are (`FileTree.listing`), and what the other files hold.

* `FileTree.at?_listing` — a listing has what the tree has, at every path;
* `FileTree.listing_put` — with other contents in a file the listing stays;
* `FileTree.at?_put_of_ne` — and so does every other file.
-/

namespace DeclLint

namespace FileTree

variable {α : Type}

theorem listings_eq_map (entries : List (String × FileTree α)) :
    listings entries = entries.map fun e => (e.1, e.2.listing) := by
  induction entries with
  | nil => rfl
  | cons e entries ih =>
      obtain ⟨name, t⟩ := e
      rw [listings, ih, List.map_cons]

/-- A listing has the names of the tree, each with what stands there. -/
theorem lookup_listings (name : String) (entries : List (String × FileTree α)) :
    (listings entries).lookup name = (entries.lookup name).map listing := by
  rw [listings_eq_map]
  induction entries with
  | nil => rfl
  | cons e entries ih =>
      obtain ⟨key, t⟩ := e
      by_cases h : (name == key) = true
      · simp [List.lookup_cons, h]
      · simp [List.lookup_cons, h, ih]

theorem entries_listing (t : FileTree α) : t.listing.entries = listings t.entries := by
  cases t <;> rfl

/-- A listing has what the tree has. -/
theorem at?_listing (names : List String) (t : FileTree α) :
    at? names t.listing = (at? names t).map listing := by
  induction names generalizing t with
  | nil => rfl
  | cons name names ih =>
      rw [at?, at?, entries_listing, lookup_listings]
      cases t.entries.lookup name with
      | none => rfl
      | some inner => exact ih inner

/-- Only a directory has something below it. -/
theorem exists_of_at?_cons {name : String} {names : List String} {t found : FileTree α}
    (h : at? (name :: names) t = some found) :
    ∃ entries inner, t = directory entries ∧ entries.lookup name = some inner ∧
      at? names inner = some found := by
  obtain ⟨inner, hlookup, hinner⟩ := Option.bind_eq_some_iff.mp h
  cases t with
  | file contents => simp [entries] at hlookup
  | directory entries => exact ⟨entries, inner, rfl, hlookup, hinner⟩

/-- Behind a path is what is behind a part of it. -/
theorem at?_append (front back : List String) (t : FileTree α) :
    at? (front ++ back) t = (at? front t).bind (at? back) := by
  induction front generalizing t with
  | nil => rfl
  | cons name front ih =>
      rw [List.cons_append, at?, at?, Option.bind_assoc]
      exact congrArg _ (funext ih)

/-- A file that is replaced by a file leaves the listing as it is. -/
theorem listings_setEntry {name : String} {old new : FileTree α}
    {entries : List (String × FileTree α)} (h : entries.lookup name = some old)
    (hlisting : new.listing = old.listing) :
    listings (setEntry name new entries) = listings entries := by
  induction entries with
  | nil => simp at h
  | cons e entries ih =>
      obtain ⟨key, t⟩ := e
      rw [List.lookup_cons] at h
      unfold setEntry
      by_cases hkey : (name == key) = true
      · obtain rfl : t = old := by simpa [hkey] using h
        rw [if_pos hkey, listings, listings, hlisting, eq_of_beq hkey]
      · rw [if_neg hkey, listings, listings, ih (by simpa [hkey] using h)]

/-- Entries with other names stay. -/
theorem lookup_setEntry_of_ne {name other : String} (hne : other ≠ name) (new : FileTree α)
    (entries : List (String × FileTree α)) :
    (setEntry name new entries).lookup other = entries.lookup other := by
  have hnew : (other == name) = false := beq_eq_false_iff_ne.mpr hne
  induction entries with
  | nil => simp [setEntry, List.lookup_cons, hnew]
  | cons e entries ih =>
      obtain ⟨key, t⟩ := e
      unfold setEntry
      by_cases hkey : (name == key) = true
      · obtain rfl := eq_of_beq hkey
        simp [List.lookup_cons, hnew]
      · rw [if_neg hkey, List.lookup_cons, List.lookup_cons, ih]

/-- **The listing stays.**  A file with other contents is listed as before. -/
theorem listing_put {names : List String} {old : α} (new : α) {t : FileTree α}
    (h : at? names t = some (.file old)) : (put (.file new) names t).listing = t.listing := by
  induction names generalizing t with
  | nil =>
      obtain rfl := Option.some.inj h
      rfl
  | cons name names ih =>
      obtain ⟨entries, inner, rfl, hlookup, hinner⟩ := exists_of_at?_cons h
      have hentries : FileTree.entries (directory entries) = entries := rfl
      rw [put, hentries, hlookup, Option.getD_some, listing, listing,
        listings_setEntry hlookup (ih hinner)]

/-- **Other files stay.**  A file with other contents does not change what another one
holds. -/
theorem at?_put_of_ne {names other : List String} {old contents : α} (new : FileTree α)
    {t : FileTree α} (h : at? names t = some (.file old))
    (hother : at? other t = some (.file contents)) (hne : other ≠ names) :
    at? other (put new names t) = some (.file contents) := by
  induction names generalizing other t with
  | nil =>
      obtain rfl := Option.some.inj h
      cases other with
      | nil => exact absurd rfl hne
      | cons name other =>
          obtain ⟨entries, inner, hfile, -⟩ := exists_of_at?_cons hother
          cases hfile
  | cons name names ih =>
      obtain ⟨entries, inner, rfl, hlookup, hinner⟩ := exists_of_at?_cons h
      have hentries : FileTree.entries (directory entries) = entries := rfl
      cases other with
      | nil => cases hother
      | cons first other =>
          obtain ⟨_, inner', hsame, hlookup', hinner'⟩ := exists_of_at?_cons hother
          cases hsame
          rw [put, hentries, hlookup, Option.getD_some, at?]
          by_cases hfirst : first = name
          · subst hfirst
            obtain rfl := Option.some.inj (hlookup.symm.trans hlookup')
            have hrest : other ≠ names := fun heq => hne (heq ▸ rfl)
            exact (congrArg (Option.bind · (at? other)) (lookup_setEntry _ _ _)).trans
              (ih hinner hinner' hrest)
          · exact (congrArg (Option.bind · (at? other))
              ((lookup_setEntry_of_ne hfirst _ _).trans hlookup')).trans hinner'

end FileTree

end DeclLint
