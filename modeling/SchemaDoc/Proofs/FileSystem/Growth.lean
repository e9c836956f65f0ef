import SchemaDoc.Proofs.FileSystem.Names
import SchemaDoc.Proofs.FileSystem.Trail

/-!
# File systems that grow

Opening a file for appending may create it, and appending makes it longer. `Grown` says that a file
system went through nothing else, and that only at given locations. It composes (`Grown.trans`), and
it leaves every directory a directory. So a path that looks at none of the locations finds what it
found before (`Grown.openRead_eq`), and so does one that does not lead to any of them in the end
(`Grown.entry?_eq`). A path by which a file can be opened for appending goes on leading to the same
place, also to a file that has come into being: `Grown.appendPlace?_eq`.
-/

namespace SchemaDoc

/-- What appending can make of what stands at a location. -/
inductive Entry.Grows : Option Entry → Option Entry → Prop
  /-- Nothing happened. -/
  | same (entry : Option Entry) : Grows entry entry
  /-- A file was created. -/
  | created (id : Nat) (data : FileData) : Grows none (some (.file id data))
  /-- A file got longer. -/
  | extended {id : Nat} {data data' : FileData} (h : data.content <+: data'.content) :
    Grows (some (.file id data)) (some (.file id data'))

theorem Entry.Grows.trans {e e' e'' : Option Entry} (h : Grows e e') (h' : Grows e' e'') :
    Grows e e'' := by
  cases h with
  | same => exact h'
  | created id data =>
    cases h' with
    | same => exact .created id data
    | extended => exact .created id _
  | extended h =>
    cases h' with
    | same => exact .extended h
    | extended h' => exact .extended (h.trans h')

theorem Entry.Grows.eq_directory_iff {e e' : Option Entry} (h : Grows e e') :
    e' = some .directory ↔ e = some .directory := by
  cases h <;> simp

theorem Entry.Grows.eq_fullDevice_iff {e e' : Option Entry} (h : Grows e e') :
    e' = some .fullDevice ↔ e = some .fullDevice := by
  cases h <;> simp

theorem Entry.Grows.ne_none {e e' : Option Entry} (h : Grows e e') (he : e ≠ none) :
    e' ≠ none := by
  cases h with
  | same => exact he
  | created => exact Option.some_ne_none _
  | extended => exact Option.some_ne_none _

/-- A file stays the same file, with more at its end. -/
theorem Entry.Grows.exists_file {id : Nat} {data : FileData} {e' : Option Entry}
    (h : Grows (some (.file id data)) e') :
    ∃ data', e' = some (.file id data') ∧ data.content <+: data'.content := by
  cases h with
  | same => exact ⟨data, rfl, List.prefix_rfl⟩
  | extended h => exact ⟨_, rfl, h⟩

/-- The location at which data for an opened file arrives. -/
def Handle.place? : Handle → Option Location
  | .file place _ => some place
  | .fullDevice => none

namespace FileSystem

/-- The file system grew at some of the given locations and is otherwise the same. -/
structure Grown (places : List Location) (fs fs' : FileSystem) : Prop where
  /-- Relative paths start where they did. -/
  workingDirectory_eq : fs'.workingDirectory = fs.workingDirectory
  /-- What stands at a location can only have grown. -/
  grows : ∀ place, Entry.Grows (fs.lookup? place) (fs'.lookup? place)
  /-- Elsewhere, nothing changed. -/
  lookup?_eq : ∀ place ∉ places, fs'.lookup? place = fs.lookup? place

namespace Grown

variable {places others : List Location} {fs fs' fs'' : FileSystem} {p : Path}

theorem refl (places : List Location) (fs : FileSystem) : Grown places fs fs :=
  ⟨rfl, fun _ => .same _, fun _ _ => rfl⟩

theorem trans (h : Grown places fs fs') (h' : Grown places fs' fs'') : Grown places fs fs'' where
  workingDirectory_eq := h'.workingDirectory_eq.trans h.workingDirectory_eq
  grows place := (h.grows place).trans (h'.grows place)
  lookup?_eq place hplace := (h'.lookup?_eq place hplace).trans (h.lookup?_eq place hplace)

theorem mono (h : Grown places fs fs') (hsub : places ⊆ others) : Grown others fs fs' where
  workingDirectory_eq := h.workingDirectory_eq
  grows := h.grows
  lookup?_eq place hplace := h.lookup?_eq place fun hmem => hplace (hsub hmem)

theorem start_eq (h : Grown places fs fs') (p : Path) : fs'.start p = fs.start p := by
  rw [start, start, h.workingDirectory_eq]

theorem isDirectory_eq (h : Grown places fs fs') (place : Location) :
    fs'.isDirectory place = fs.isDirectory place := by
  rw [Bool.eq_iff_iff, isDirectory, isDirectory, beq_iff_eq, beq_iff_eq]
  exact (h.grows place).eq_directory_iff

/-- What a path opens for reading where it keeps clear of the growth. -/
theorem openRead_eq (h : Grown places fs fs') (hoff : ∀ place ∈ places, place ∉ fs.trail p) :
    fs'.openRead p = fs.openRead p :=
  openRead_congr h.workingDirectory_eq fun place hplace =>
    h.lookup?_eq place fun hmem => hoff place hmem hplace

theorem trail_eq (h : Grown places fs fs') (hoff : ∀ place ∈ places, place ∉ fs.trail p) :
    fs'.trail p = fs.trail p :=
  (locate_congr h.workingDirectory_eq fun place hplace =>
    h.lookup?_eq place fun hmem => hoff place hmem hplace).2

end Grown

/-! ### Creating and appending -/

section Changes

variable {fs fs' : FileSystem} {place : Location}

theorem grown_put {entry : Entry} (h : Entry.Grows (fs.lookup? place) (some entry)) :
    Grown [place] fs (fs.put place entry) := by
  by_cases hnames : ∀ name ∈ place, IsName name
  · have hstart : (fs.put place entry).workingDirectory = fs.workingDirectory := by
      rw [put, dif_pos hnames]
      rfl
    refine ⟨hstart, fun other => ?_, fun other hother => ?_⟩
    · by_cases hother : other = place
      · subst hother
        by_cases hroot : other = []
        · subst hroot
          exact .same _
        · rwa [lookup?_put_self fs hroot hnames]
      · rw [lookup?_put_of_ne fs hother]
        exact .same _
    · exact lookup?_put_of_ne fs (by simpa using hother) entry
  · rw [put, dif_neg hnames]
    exact .refl _ _

theorem grown_openAppendAt {handle : Handle} (h : fs.openAppendAt place = .ok (fs', handle)) :
    Grown handle.place?.toList fs fs' := by
  unfold openAppendAt at h
  split at h
  · cases h
  · cases h
    exact .refl _ _
  · cases h
    exact .refl _ _
  · next hnone =>
    cases h
    have hput : Grown [place] fs (fs.put place (.file fs.nextId ⟨[]⟩)) :=
      grown_put (hnone ▸ .created _ _)
    exact ⟨hput.workingDirectory_eq, hput.grows, hput.lookup?_eq⟩

/-- Opening for appending creates a file at most, and the one that is opened. -/
theorem grown_openAppend {p : Path} {handle : Handle} (h : fs.openAppend p = .ok (fs', handle)) :
    Grown handle.place?.toList fs fs' := by
  unfold openAppend at h
  cases hparent : fs.locateParent p with
  | error fault => simp [hparent, bind, Except.bind] at h
  | ok parent =>
    simp only [hparent, bind, Except.bind] at h
    exact grown_openAppendAt h

/-- Appending makes the opened file longer, or does nothing. -/
theorem grown_append {handle : Handle} {bs : Bytes} (h : fs.append handle bs = .ok fs') :
    Grown handle.place?.toList fs fs' := by
  unfold append at h
  split at h
  · split at h
    · cases h
      exact .refl _ _
    · cases h
  · split at h
    · next hfile =>
      split at h
      · next heq =>
        cases h
        subst heq
        exact grown_put (hfile ▸ .extended (by simp))
      · cases h
        exact .refl _ _
    · cases h
      exact .refl _ _

end Changes

/-! ### Where paths lead -/

section Paths

variable {fs fs' : FileSystem} {p : Path} {place last : Location} {name : Bytes}
  {names : List Bytes} {places : List Location}

theorem isDirectory_of_walk_cons (h : fs.walk place (name :: names) = .ok last) :
    fs.isDirectory place := by
  rw [walk_cons] at h
  cases hname : fs.enter place name with
  | error fault => simp [hname, Except.bind] at h
  | ok next => exact isDirectory_of_enter hname

/-- The way to a place leads through directories, so where these stay it stays, as long as there is
still something at its end. -/
theorem walk_of_isDirectory_eq (heq : ∀ place, fs'.isDirectory place = fs.isDirectory place)
    (h : fs.walk place names = .ok last)
    (hlast : fs.lookup? last ≠ none → fs'.lookup? last ≠ none) :
    fs'.walk place names = .ok last := by
  induction names generalizing place with
  | nil => exact h
  | cons name names ih =>
    rw [walk_cons] at h ⊢
    cases hname : fs.enter place name with
    | error fault => simp [hname, Except.bind] at h
    | ok next =>
      replace h : fs.walk next names = .ok last := by simpa [hname, Except.bind] using h
      have hnext : fs.lookup? next ≠ none → fs'.lookup? next ≠ none := by
        cases names with
        | nil =>
          obtain rfl : next = last := Except.ok.inj h
          exact hlast
        | cons =>
          intro _
          refine ne_none_of_isDirectory ?_
          rw [heq]
          exact isDirectory_of_walk_cons h
      have hname' : fs'.enter place name = .ok next := by
        unfold enter at hname ⊢
        rw [heq]
        grind
      rw [hname']
      exact ih h

theorem locate_of_isDirectory_eq (hstart : fs'.start p = fs.start p)
    (heq : ∀ place, fs'.isDirectory place = fs.isDirectory place)
    (h : fs.locate p = .ok place) (hplace : fs.lookup? place ≠ none → fs'.lookup? place ≠ none) :
    fs'.locate p = .ok place := by
  obtain ⟨hcheck, hwalk, hdir⟩ := locate_eq_ok_iff.mp h
  refine locate_eq_ok_iff.mpr ⟨hcheck, ?_, by rwa [heq]⟩
  rw [hstart]
  exact walk_of_isDirectory_eq heq hwalk hplace

/-- A path goes on leading where it led. -/
theorem Grown.locate_eq_ok (h : Grown places fs fs') (hp : fs.locate p = .ok place) :
    fs'.locate p = .ok place :=
  locate_of_isDirectory_eq (h.start_eq p) h.isDirectory_eq hp (h.grows place).ne_none

/-- **What stands at a path** is the same as before unless the path leads to where files grew. -/
theorem Grown.entry?_eq (h : Grown places fs fs')
    (hoff : ∀ place ∈ places, fs'.locate p ≠ .ok place) : fs'.entry? p = fs.entry? p := by
  unfold entry?
  cases hlocate : fs'.locate p with
  | ok place =>
    have hplace : place ∉ places := fun hmem => hoff place hmem hlocate
    have hlocate' : fs.locate p = .ok place := by
      refine locate_of_isDirectory_eq (h.start_eq p).symm (fun _ => (h.isDirectory_eq _).symm)
        hlocate ?_
      rw [h.lookup?_eq place hplace]
      exact id
    rw [hlocate']
    exact h.lookup?_eq place hplace
  | error fault =>
    cases hlocate' : fs.locate p with
    | ok place => simp [h.locate_eq_ok hlocate'] at hlocate
    | error fault' => rfl

/-- **The content of a file** stays at the beginning of what its path leads to. -/
theorem Grown.content?_isPrefix (h : Grown places fs fs') {old : Bytes}
    (hold : fs.content? p = some old) : ∃ new, fs'.content? p = some new ∧ old <+: new := by
  unfold content? entry? at hold ⊢
  cases hlocate : fs.locate p with
  | error fault => simp [hlocate, Except.toOption] at hold
  | ok place =>
    have hgrows := h.grows place
    simp only [hlocate, Except.toOption, Option.bind_some] at hold
    simp only [h.locate_eq_ok hlocate, Except.toOption, Option.bind_some]
    split at hold
    · next hentry =>
      rw [hentry] at hgrows
      obtain ⟨data', hentry', hprefix⟩ := hgrows.exists_file
      rw [hentry']
      exact ⟨data'.content, rfl, Option.some.inj hold ▸ hprefix⟩
    · cases hold

end Paths

/-! ### Where appended data goes -/

/-- The location of the regular file that is opened, or created, for appending under a path. -/
def appendPlace? (fs : FileSystem) (p : Path) : Option Location :=
  match fs.openAppend p with
  | .ok (_, handle) => handle.place?
  | .error _ => none

section AppendPlace

variable {fs fs' : FileSystem} {p : Path} {place dir : Location} {name : Bytes}

/-- The location in which a path has its last name is the same where the directories are. -/
theorem locateParent_of_isDirectory_eq (hstart : fs'.start p = fs.start p)
    (heq : ∀ place, fs'.isDirectory place = fs.isDirectory place)
    (h : fs.locateParent p = .ok (dir, name)) : fs'.locateParent p = .ok (dir, name) := by
  obtain ⟨hpath, hwalk, hdir⟩ := locateParent_eq_ok_iff.mp h
  have hdir' : fs'.isDirectory dir := by rwa [heq]
  refine locateParent_eq_ok_iff.mpr ⟨hpath, ?_, hdir'⟩
  rw [hstart]
  exact walk_of_isDirectory_eq heq hwalk fun _ => ne_none_of_isDirectory hdir'

/-- A path opens a regular file for appending unless something else stands where it leads. -/
theorem appendPlace?_eq_some_iff : fs.appendPlace? p = some place ↔
    ∃ dir name, fs.locateParent p = .ok (dir, name) ∧ place = dir ++ [name] ∧
      fs.lookup? place ≠ some .directory ∧ fs.lookup? place ≠ some .fullDevice := by
  unfold appendPlace? openAppend
  cases fs.locateParent p with
  | error fault => simp [bind, Except.bind]
  | ok parent =>
    obtain ⟨dir, name⟩ := parent
    simp only [bind, Except.bind, openAppendAt]
    cases hentry : fs.lookup? (dir ++ [name]) with
    | none => simp [Handle.place?]; grind
    | some entry => cases entry <;> simp [Handle.place?] <;> grind

theorem Grown.appendPlace?_eq {places : List Location} (h : Grown places fs fs') (p : Path) :
    fs'.appendPlace? p = fs.appendPlace? p := by
  have hparent (dir : Location) (name : Bytes) :
      fs'.locateParent p = .ok (dir, name) ↔ fs.locateParent p = .ok (dir, name) :=
    ⟨locateParent_of_isDirectory_eq (h.start_eq p).symm fun place => (h.isDirectory_eq place).symm,
      locateParent_of_isDirectory_eq (h.start_eq p) h.isDirectory_eq⟩
  refine Option.ext fun place => ?_
  simp only [appendPlace?_eq_some_iff, hparent, ne_eq, (h.grows place).eq_directory_iff,
    (h.grows place).eq_fullDevice_iff]

/-- The bytes of the regular file at a location, or none where no such file stands. -/
def bytesAt (fs : FileSystem) (place : Location) : Bytes :=
  match fs.lookup? place with
  | some (.file _ data) => data.content
  | _ => []

/-- Under a path by which a file can be opened for appending, that file is found. -/
theorem content?_of_appendPlace? (h : fs.appendPlace? p = some place) :
    (fs.content? p).getD [] = fs.bytesAt place := by
  obtain ⟨dir, name, hparent, rfl, -⟩ := appendPlace?_eq_some_iff.mp h
  obtain ⟨⟨hcheck, hlast, hhere, hup, hsep, hlong⟩, hwalk, hdir⟩ :=
    locateParent_eq_ok_iff.mp hparent
  obtain ⟨front, hnames⟩ := List.getLast?_eq_some_iff.mp hlast
  have henter : fs.enter dir name =
      if fs.lookup? (dir ++ [name]) = none then .error .notFound else .ok (dir ++ [name]) := by
    simp [enter, hdir, hhere, hup, Nat.not_lt.mpr hlong]
  have hwalk' : fs.walk (fs.start p) p.names = fs.enter dir name := by
    rw [hnames, List.dropLast_concat, walk] at hwalk
    rw [hnames, walk, List.foldlM_append, hwalk]
    exact bind_pure (fs.enter dir name)
  have hlocate : fs.locate p = fs.enter dir name := by
    simp only [locate, hcheck, hwalk', hsep, bind, Except.bind, Bool.false_and, Bool.false_eq_true,
      if_false]
    cases fs.enter dir name <;> rfl
  unfold content? entry? bytesAt
  rw [hlocate, henter]
  cases hentry : fs.lookup? (dir ++ [name]) with
  | none => rfl
  | some entry => cases entry <;> simp [Except.toOption, hentry]

theorem bytesAt_of_lookup? {id : Nat} {data : FileData}
    (h : fs.lookup? place = some (.file id data)) : fs.bytesAt place = data.content := by
  rw [bytesAt, h]

/-- Opening a file for appending leaves its bytes alone; a file that is created has none. -/
theorem openAppend_of_appendPlace? (h : fs.appendPlace? p = some place) :
    ∃ fs' id data, fs.openAppend p = .ok (fs', .file place id) ∧
      fs'.lookup? place = some (.file id data) ∧ data.content = fs.bytesAt place := by
  obtain ⟨dir, name, hparent, rfl, hdir, hdevice⟩ := appendPlace?_eq_some_iff.mp h
  have hopen : fs.openAppend p = fs.openAppendAt (dir ++ [name]) := by
    rw [openAppend, hparent]
    rfl
  rw [hopen, openAppendAt, bytesAt]
  cases hentry : fs.lookup? (dir ++ [name]) with
  | none =>
    refine ⟨_, _, ⟨[]⟩, rfl, ?_, rfl⟩
    exact lookup?_put_self fs (by simp) (isName_of_locateParent hparent) _
  | some entry =>
    cases entry with
    | file id data => exact ⟨fs, id, data, rfl, hentry, rfl⟩
    | directory => exact absurd hentry hdir
    | fullDevice => exact absurd hentry hdevice

/-- An open file that still stands at its place takes all data at its end. -/
theorem append_of_lookup? {id : Nat} {data : FileData}
    (h : fs.lookup? place = some (.file id data)) (bs : Bytes) :
    ∃ fs' data', fs.append (.file place id) bs = .ok fs' ∧
      fs'.lookup? place = some (.file id data') ∧ data'.content = data.content ++ bs := by
  have hroot : place ≠ [] := by
    rintro rfl
    simp [lookup?] at h
  refine ⟨fs.put place (.file id (data.append bs)), data.append bs, ?_, ?_, data.content_append bs⟩
  · simp only [append, h, if_true]
  · exact lookup?_put_self fs hroot (fun name => isName_of_lookup? (h ▸ Option.some_ne_none _)) _

end AppendPlace

end FileSystem

end SchemaDoc
