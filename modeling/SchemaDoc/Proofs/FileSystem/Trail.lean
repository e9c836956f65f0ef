import SchemaDoc.FileSystem.Access

/-!
# What following a path looks at

Following a path looks at some locations, its `trail`, and at no others. So two file systems that
agree there, and on where relative paths start, lead the path to the same place (`locate_congr`),
and what is opened there for reading delivers the same: `openRead_congr`.
-/

namespace SchemaDoc

namespace FileSystem

variable (fs : FileSystem) {fs' : FileSystem}

/-- The locations that are looked at when names are followed from a location. -/
def trailFrom (place : Location) : List Bytes → List Location
  | [] => [place]
  | name :: names =>
    place ::
      match fs.enter place name with
      | .ok next => trailFrom next names
      | .error .notFound => [place ++ [name]]
      | .error _ => []

/-- The locations that are looked at when a path is followed. -/
def trail (p : Path) : List Location :=
  match checkPath p with
  | .ok () => fs.trailFrom (fs.start p) p.names
  | .error _ => []

theorem walk_cons (place : Location) (name : Bytes) (names : List Bytes) :
    fs.walk place (name :: names) = (fs.enter place name).bind (fs.walk · names) :=
  List.foldlM_cons

theorem mem_trailFrom_self (place : Location) (names : List Bytes) :
    place ∈ fs.trailFrom place names := by
  cases names <;> simp [trailFrom]

variable {fs} {place next : Location} {name : Bytes} {names : List Bytes} {p : Path}

/-- Names lead on from directories only. -/
theorem isDirectory_of_enter (h : fs.enter place name = .ok next) : fs.isDirectory place := by
  unfold enter at h
  grind

/-- What lies behind a name depends on what stands at the location and, if it comes to that, behind
the name. -/
theorem enter_congr (hplace : fs'.lookup? place = fs.lookup? place)
    (hnext : fs.enter place name = .error .notFound ∨ fs.enter place name = .ok (place ++ [name]) →
      fs'.lookup? (place ++ [name]) = fs.lookup? (place ++ [name])) :
    fs'.enter place name = fs.enter place name := by
  unfold enter isDirectory at *
  rw [hplace]
  grind

/-- Names are followed alike where the two file systems agree on all that is looked at. -/
theorem walk_congr (h : ∀ other ∈ fs.trailFrom place names, fs'.lookup? other = fs.lookup? other) :
    fs'.walk place names = fs.walk place names ∧
      fs'.trailFrom place names = fs.trailFrom place names := by
  induction names generalizing place with
  | nil => exact ⟨rfl, rfl⟩
  | cons name names ih =>
    simp only [trailFrom, List.mem_cons, forall_eq_or_imp] at h
    obtain ⟨hplace, hrest⟩ := h
    have henter : fs'.enter place name = fs.enter place name := by
      refine enter_congr hplace ?_
      rintro (hnone | hnext)
      · exact hrest _ (by simp [hnone])
      · exact hrest _ (by simpa [hnext] using fs.mem_trailFrom_self _ _)
    rw [walk_cons, walk_cons, trailFrom, trailFrom, henter]
    cases hnext : fs.enter place name with
    | error fault => cases fault <;> exact ⟨rfl, rfl⟩
    | ok next =>
      have hrest' : ∀ other ∈ fs.trailFrom next names, fs'.lookup? other = fs.lookup? other := by
        simpa [hnext] using hrest
      obtain ⟨hwalk, htrail⟩ := ih hrest'
      exact ⟨hwalk, congrArg (place :: ·) htrail⟩

theorem mem_trailFrom_of_walk (h : fs.walk place names = .ok next) :
    next ∈ fs.trailFrom place names := by
  induction names generalizing place with
  | nil =>
    obtain rfl : place = next := Except.ok.inj h
    exact fs.mem_trailFrom_self _ _
  | cons name names ih =>
    rw [walk_cons] at h
    cases hname : fs.enter place name with
    | error fault => simp [hname, Except.bind] at h
    | ok middle =>
      rw [trailFrom, hname]
      exact List.mem_cons_of_mem _ (ih (by simpa [hname, Except.bind] using h))

/-- A path leads to a place if its names do, and a separator at its end stands behind a
directory. -/
theorem locate_eq_ok_iff : fs.locate p = .ok place ↔
    checkPath p = .ok () ∧ fs.walk (fs.start p) p.names = .ok place ∧
      (p.endsInSeparator → fs.isDirectory place) := by
  unfold locate
  cases checkPath p with
  | error fault => simp [bind, Except.bind]
  | ok =>
    cases fs.walk (fs.start p) p.names with
    | error fault => simp [bind, Except.bind]
    | ok other =>
      simp only [bind, Except.bind, Bool.and_eq_true, Bool.not_eq_true']
      split <;> grind

/-- The place that a path leads to is looked at. -/
theorem mem_trail_of_locate (h : fs.locate p = .ok place) : place ∈ fs.trail p := by
  obtain ⟨hcheck, hwalk, -⟩ := locate_eq_ok_iff.mp h
  rw [trail, hcheck]
  exact mem_trailFrom_of_walk hwalk

section Agreement

variable (hstart : fs'.workingDirectory = fs.workingDirectory)
  (h : ∀ other ∈ fs.trail p, fs'.lookup? other = fs.lookup? other)

include hstart h

/-- A path leads to the same place, and looks at the same locations on the way. -/
theorem locate_congr : fs'.locate p = fs.locate p ∧ fs'.trail p = fs.trail p := by
  have hfrom : fs'.start p = fs.start p := by rw [start, start, hstart]
  cases hcheck : checkPath p with
  | error fault => simp [locate, trail, hcheck, bind, Except.bind]
  | ok =>
    simp only [trail, hcheck] at h ⊢
    obtain ⟨hwalk, htrail⟩ := walk_congr h
    refine ⟨?_, by rw [hfrom, htrail]⟩
    simp only [locate, hcheck, hfrom, hwalk, bind, Except.bind]
    cases hplace : fs.walk (fs.start p) p.names with
    | error fault => rfl
    | ok place =>
      have hdir : fs'.isDirectory place = fs.isDirectory place := by
        rw [isDirectory, isDirectory, h place (mem_trailFrom_of_walk hplace)]
      simp only [hdir]

/-- **What a path opens for reading** depends on its trail only. -/
theorem openRead_congr : fs'.openRead p = fs.openRead p := by
  obtain ⟨hlocate, -⟩ := locate_congr hstart h
  unfold openRead
  rw [hlocate]
  cases hplace : fs.locate p with
  | error fault => rfl
  | ok place => simp only [bind, Except.bind, h place (mem_trail_of_locate hplace)]

end Agreement

end FileSystem

end SchemaDoc
