import SchemaDoc.FileSystem.Access
import SchemaDoc.Proofs.Path.FileName

/-!
# Names of what stands where

What stands at a location is what is listed for it (`lookup?_eq_some_iff_mem`), and all that is
listed is led to by names. So a location is made of names if something stands there
(`isName_of_lookup?`), and so is the one at which a path has or would have its last name:
`isName_of_locateParent`.
-/

namespace SchemaDoc

namespace FileSystem

/-! ### What is listed -/

section Listed

variable {fs fs' : FileSystem} {place : Location} {entry : Entry}

theorem lookup_eq_some_iff_mem {entries : List (Location × Entry)}
    (h : (entries.map Prod.fst).Nodup) :
    entries.lookup place = some entry ↔ (place, entry) ∈ entries := by
  induction entries with
  | nil => simp
  | cons first entries ih =>
    obtain ⟨other, held⟩ := first
    obtain ⟨hother, hentries⟩ := List.nodup_cons.mp h
    have hnone (found : Entry) : (other, found) ∉ entries := fun hmem =>
      hother (List.mem_map.mpr ⟨_, hmem, rfl⟩)
    rw [List.lookup_cons, List.mem_cons]
    by_cases heq : place = other
    · simp [heq, hnone, eq_comm]
    · have hne : (place == other) = false := beq_eq_false_iff_ne.mpr heq
      simp [heq, hne, ih hentries]

/-- Below the root, what stands at a location is what is listed for it. -/
theorem lookup?_eq_some_iff_mem (hplace : place ≠ []) :
    fs.lookup? place = some entry ↔ (place, entry) ∈ fs.entries := by
  rw [lookup?, if_neg hplace]
  exact lookup_eq_some_iff_mem fs.nodup

/-- What stands where does not depend on the order in which it is listed. -/
theorem lookup?_eq_of_perm (h : fs'.entries.Perm fs.entries) (place : Location) :
    fs'.lookup? place = fs.lookup? place := by
  by_cases hplace : place = []
  · simp [lookup?, hplace]
  · refine Option.ext fun entry => ?_
    rw [lookup?_eq_some_iff_mem hplace, lookup?_eq_some_iff_mem hplace]
    exact h.mem_iff

end Listed

/-! ### What leads there -/

section Names

variable {fs : FileSystem} {place dir : Location} {name : Bytes} {p : Path}

/-- Whatever stands somewhere has names that lead to it. -/
theorem isName_of_lookup? (hentry : fs.lookup? place ≠ none) (hname : name ∈ place) :
    IsName name := by
  obtain ⟨entry, hentry⟩ := Option.ne_none_iff_exists'.mp hentry
  exact fs.named _ ((lookup?_eq_some_iff_mem (List.ne_nil_of_mem hname)).mp hentry) name hname

theorem ne_none_of_isDirectory (h : fs.isDirectory place) : fs.lookup? place ≠ none := by
  rw [beq_iff_eq.mp h]
  exact Option.some_ne_none _

/-- Something right below a directory is led to by names, if its last name is one. -/
theorem isName_concat (hdir : fs.isDirectory place) (hname : IsName name) :
    ∀ part ∈ place ++ [name], IsName part := by
  intro part hpart
  rcases List.mem_append.mp hpart with hpart | hpart
  · exact isName_of_lookup? (ne_none_of_isDirectory hdir) hpart
  · rwa [List.mem_singleton.mp hpart]

theorem checkPath_eq_ok_iff (p : Path) : checkPath p = .ok () ↔
    0 ∉ p.bytes ∧ p.bytes ≠ [] ∧ p.bytes.length ≤ maxPathLength := by
  unfold checkPath
  grind

/-- The parts of a path that can be followed are names, if they do not stand for directories and are
not too long. -/
theorem isName_of_mem_names (hnul : 0 ∉ p.bytes) (hname : name ∈ p.names) (hhere : name ≠ Path.here)
    (hup : name ≠ Path.up) (hlength : name.length ≤ maxNameLength) : IsName name := by
  obtain ⟨hpart, hnil⟩ := List.mem_filter.mp hname
  obtain ⟨hseparator, hsubset⟩ := Path.of_mem_splitParts hpart
  exact ⟨by simpa using hnil, hseparator, fun hmem => hnul (hsubset hmem), hhere, hup, hlength⟩

/-- When a path has a last name in a directory. -/
theorem locateParent_eq_ok_iff : fs.locateParent p = .ok (dir, name) ↔
    (checkPath p = .ok () ∧ p.names.getLast? = some name ∧ name ≠ Path.here ∧ name ≠ Path.up ∧
      p.endsInSeparator = false ∧ name.length ≤ maxNameLength) ∧
    fs.walk (fs.start p) p.names.dropLast = .ok dir ∧ fs.isDirectory dir := by
  unfold locateParent
  cases checkPath p with
  | error fault => simp [bind, Except.bind]
  | ok =>
    cases p.names.getLast? with
    | none => simp [bind, Except.bind]
    | some last =>
      by_cases hname : last = Path.here ∨ last = Path.up
      · cases fs.walk (fs.start p) p.names <;> simp [bind, Except.bind, hname] <;> grind
      · cases fs.walk (fs.start p) p.names.dropLast with
        | error fault => simp [bind, Except.bind, hname]
        | ok place =>
          simp only [bind, Except.bind, hname, if_false]
          split
          · grind
          · split
            · grind
            · split <;> grind

theorem isName_of_locateParent (h : fs.locateParent p = .ok (dir, name)) :
    ∀ part ∈ dir ++ [name], IsName part := by
  obtain ⟨⟨hcheck, hlast, hhere, hup, -, hlength⟩, -, hdir⟩ := locateParent_eq_ok_iff.mp h
  have hnul := ((checkPath_eq_ok_iff p).mp hcheck).1
  exact isName_concat hdir
    (isName_of_mem_names hnul (List.mem_of_getLast? hlast) hhere hup hlength)

end Names

end FileSystem

end SchemaDoc
