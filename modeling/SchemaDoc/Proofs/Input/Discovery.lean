import SchemaDoc.Input.Discovery
import SchemaDoc.Proofs.FileSystem.Names
import SchemaDoc.Proofs.FileSystem.Trail
import SchemaDoc.Proofs.Input.Classification

/-!
# The schemas of a directory

What is discovered in a directory is told by what stands at the locations right below it. The path
of an entry has the components of the directory and the name of the entry as one more
(`Path.components_join`), so that sorting these paths comes to sorting the names by their bytes, and
the path leads to the entry unless it is too long: `FileSystem.locate_join`.

So the paths that are discovered are those of some names in ascending order,
`Classifier.discover_eq`, which are the names of all regular files that are schemas and whose path
is not too long: `Classifier.mem_schemaNames_iff`. The order of the listing does not matter,
`Classifier.discover_eq_of_perm`.
-/

namespace SchemaDoc

open FileSystem (IsName)

/-! ### Paths of entries -/

namespace Path

variable {dir : Path} {name : Bytes}

theorem names_append (as bs : Bytes) :
    names ⟨as ++ separator :: bs⟩ = names ⟨as⟩ ++ names ⟨bs⟩ := by
  simp only [names, splitParts_append, List.filter_append]

/-- A directory may be written with a separator behind it or not. -/
theorem exists_join_eq (dir : Path) (name : Bytes) : ∃ as : Bytes,
    dir.join name = ⟨as ++ separator :: name⟩ ∧ dir.names = names ⟨as⟩ := by
  unfold join
  split
  · next hends =>
    obtain ⟨as, has⟩ := List.getLast?_eq_some_iff.mp (beq_iff_eq.mp hends)
    refine ⟨as, by rw [has, List.append_assoc]; rfl, ?_⟩
    have hnames := names_append as []
    rw [← has] at hnames
    exact hnames.trans (List.append_nil _)
  · exact ⟨dir.bytes, rfl, rfl⟩

theorem names_join (h : IsName name) : (dir.join name).names = dir.names ++ [name] := by
  obtain ⟨as, hjoin, hnames⟩ := exists_join_eq dir name
  have hname : names ⟨name⟩ = [name] := by
    simp [names, splitParts_of_notMem h.separator_notMem, h.ne_nil]
  rw [hjoin, names_append, hname, hnames]

theorem isAbsolute_join (hdir : dir.bytes ≠ []) (name : Bytes) :
    (dir.join name).isAbsolute = dir.isAbsolute := by
  unfold join isAbsolute
  split <;> rw [List.head?_append_of_ne_nil _ hdir]

/-- A path that does not start at the root has a name, unless there is nothing to it. -/
theorem names_ne_nil (hdir : dir.bytes ≠ []) (hrelative : dir.isAbsolute = false) :
    dir.names ≠ [] := by
  obtain ⟨b, bs, hbytes⟩ := List.exists_cons_of_ne_nil hdir
  have hb : b ≠ separator := by simpa [isAbsolute, hbytes] using hrelative
  obtain ⟨part, parts, -, hparts⟩ := splitParts_cons_of_ne hb bs
  simp [names, hbytes, hparts]

theorem components_join (hdir : dir.bytes ≠ []) (h : IsName name) :
    (dir.join name).components = dir.components ++ [.name name] := by
  have hpart : Component.ofPart name = .name name := if_neg h.ne_up
  unfold components
  rw [isAbsolute_join hdir, names_join h]
  simp only [List.filter_append, List.map_append, bne_iff_ne, ne_eq, h.ne_here, not_false_eq_true,
    List.filter_cons_of_pos, List.filter_nil, List.map_cons, List.map_nil, hpart]
  cases hrelative : dir.isAbsolute with
  | true => simp
  | false =>
    rw [List.head?_append_of_ne_nil _ (names_ne_nil hdir hrelative)]
    by_cases hhere : dir.names.head? = some here <;> simp [hhere]

theorem fileName?_of_isName (h : IsName name) : fileName? ⟨name⟩ = some name := by
  have hlandmarks : landmarks name = [name] := by
    rw [landmarks_of_notMem h.separator_notMem, if_neg (not_or.mpr ⟨h.ne_nil, h.ne_here⟩)]
  rw [fileName?_eq, hlandmarks]
  exact if_neg h.ne_up

theorem fileName?_join (dir : Path) (h : IsName name) : (dir.join name).fileName? = some name := by
  obtain ⟨as, hjoin, -⟩ := exists_join_eq dir name
  have hname := fileName?_of_isName h
  rw [hjoin, fileName?_append (by simp [hname]), hname]

/-- **Sorting entries of a directory** by their paths is sorting them by their names. -/
theorem precedes_join {other : Bytes} (hdir : dir.bytes ≠ []) (h : IsName name)
    (hother : IsName other) :
    (dir.join name).precedes (dir.join other) = decide (name ≤ other) := by
  have hkeys (keys : List Bytes) : keys ++ [3 :: name] ≤ keys ++ [3 :: other] ↔ name ≤ other := by
    induction keys with
    | nil => simp [List.cons_lt_cons_iff, Std.le_iff_lt_or_eq]
    | cons key keys ih => simp [List.cons_le_cons_iff, ih, Std.lt_irrefl]
  simp only [precedes, components_join hdir h, components_join hdir hother, List.map_append,
    List.map_singleton, Component.key, hkeys]

theorem endsInSeparator_join (h : IsName name) : (dir.join name).endsInSeparator = false := by
  obtain ⟨as, hjoin, -⟩ := exists_join_eq dir name
  obtain ⟨front, last, hlast⟩ := List.eq_nil_or_concat' name |>.resolve_left h.ne_nil
  have hne : last ≠ separator := by
    rintro rfl
    exact h.separator_notMem (by simp [hlast])
  rw [hjoin, endsInSeparator, hlast, ← List.cons_append, ← List.append_assoc, List.getLast?_concat]
  simpa using hne

end Path

/-! ### Entries of a directory -/

namespace FileSystem

variable {fs : FileSystem} {dir : Path} {place : Location} {name : Bytes}

/-- A location right below another is told by its last name. -/
theorem child_eq_some_iff {other : Location} :
    (other.getLast?.bind fun last => if other = place ++ [last] then some last else none) =
      some name ↔ other = place ++ [name] := by
  constructor
  · intro h
    obtain ⟨last, -, hlast⟩ := Option.bind_eq_some_iff.mp h
    split at hlast
    · next hother => exact Option.some.inj hlast ▸ hother
    · cases hlast
  · rintro rfl
    simp

theorem mem_children_iff : name ∈ fs.children place ↔ fs.lookup? (place ++ [name]) ≠ none := by
  have hne : place ++ [name] ≠ [] := List.append_ne_nil_of_right_ne_nil _ (List.cons_ne_nil _ _)
  simp only [Option.ne_none_iff_exists', lookup?_eq_some_iff_mem hne, children, List.mem_filterMap,
    child_eq_some_iff, Prod.exists]
  constructor
  · rintro ⟨_, entry, hmem, rfl⟩
    exact ⟨entry, hmem⟩
  · rintro ⟨entry, hmem⟩
    exact ⟨_, entry, hmem, rfl⟩

theorem nodup_children (fs : FileSystem) (place : Location) : (fs.children place).Nodup := by
  have hentries : fs.entries.Pairwise fun e e' => e.1 ≠ e'.1 := List.pairwise_map.mp fs.nodup
  refine hentries.filterMap _ fun e e' hne name hname name' hname' heq => hne ?_
  rw [child_eq_some_iff.mp hname, child_eq_some_iff.mp hname', heq]

theorem locateDirectory_eq_ok_iff :
    fs.locateDirectory dir = .ok place ↔ fs.locate dir = .ok place ∧ fs.isDirectory place := by
  unfold locateDirectory
  cases fs.locate dir with
  | error fault => simp [bind, Except.bind]
  | ok other =>
    simp only [bind, Except.bind, Except.ok.injEq]
    split
    · next hother =>
      simp only [Except.ok.injEq]
      constructor
      · rintro rfl
        exact ⟨rfl, hother⟩
      · exact And.left
    · next hother =>
      simp only [reduceCtorEq, false_iff, not_and]
      rintro rfl
      exact hother

theorem bytes_ne_nil_of_locate (h : fs.locate dir = .ok place) : dir.bytes ≠ [] :=
  ((checkPath_eq_ok_iff dir).mp (locate_eq_ok_iff.mp h).1).2.1

theorem walk_concat (start : Location) (names : List Bytes) (name : Bytes) :
    fs.walk start (names ++ [name]) = (fs.walk start names).bind (fs.enter · name) := by
  rw [walk, List.foldlM_append]
  simp only [List.foldlM_cons, List.foldlM_nil, bind_pure]
  rfl

theorem enter_of_isName (hplace : fs.isDirectory place) (h : IsName name) :
    fs.enter place name =
      if fs.lookup? (place ++ [name]) = none then .error .notFound else .ok (place ++ [name]) := by
  simp [enter, hplace, h.ne_here, h.ne_up, Nat.not_lt.mpr h.length_le]

theorem checkPath_join (hdir : checkPath dir = .ok ()) (h : IsName name) :
    checkPath (dir.join name) = .ok () ↔ (dir.join name).bytes.length ≤ maxPathLength := by
  obtain ⟨hnul, -, -⟩ := (checkPath_eq_ok_iff dir).mp hdir
  have hbytes : 0 ∉ (dir.join name).bytes ∧ (dir.join name).bytes ≠ [] := by
    unfold Path.join
    split <;> simp [hnul, h.nul_notMem, h.ne_nil, Path.separator]
  rw [checkPath_eq_ok_iff]
  exact ⟨fun h => h.2.2, fun h => ⟨hbytes.1, hbytes.2, h⟩⟩

/-- **The path of an entry** leads to it if it is not too long, and nowhere otherwise. -/
theorem locate_join (hdir : fs.locateDirectory dir = .ok place) (h : IsName name) :
    (fs.locate (dir.join name)).toOption =
      if fs.lookup? (place ++ [name]) ≠ none ∧ (dir.join name).bytes.length ≤ maxPathLength then
        some (place ++ [name])
      else none := by
  obtain ⟨hlocate, hplace⟩ := locateDirectory_eq_ok_iff.mp hdir
  obtain ⟨hcheck, hwalk, -⟩ := locate_eq_ok_iff.mp hlocate
  have hcheck' := checkPath_join hcheck h
  have hstart : fs.start (dir.join name) = fs.start dir := by
    rw [start, start, Path.isAbsolute_join (bytes_ne_nil_of_locate hlocate)]
  have hwalk' : fs.walk (fs.start (dir.join name)) (dir.join name).names =
      if fs.lookup? (place ++ [name]) = none then .error .notFound else .ok (place ++ [name]) := by
    rw [hstart, Path.names_join h, walk_concat, hwalk]
    exact enter_of_isName hplace h
  unfold locate
  rw [Path.endsInSeparator_join h, hwalk']
  cases hcase : checkPath (dir.join name) with
  | ok =>
    by_cases hentry : fs.lookup? (place ++ [name]) = none <;>
      simp [hentry, hcheck'.mp hcase, bind, Except.bind, Except.toOption]
  | error fault =>
    have hlength : ¬ (dir.join name).bytes.length ≤ maxPathLength := by
      intro hlength
      cases hcase.symm.trans (hcheck'.mpr hlength)
    simp [hlength, bind, Except.bind, Except.toOption]

/-- A regular file is found under its path if that is not too long. -/
theorem isFile_join (hdir : fs.locateDirectory dir = .ok place) (h : IsName name) :
    fs.isFile (dir.join name) ↔
      (∃ id data, fs.lookup? (place ++ [name]) = some (.file id data)) ∧
        (dir.join name).bytes.length ≤ maxPathLength := by
  unfold isFile entry?
  rw [locate_join hdir h]
  by_cases hlength : (dir.join name).bytes.length ≤ maxPathLength
  · cases hentry : fs.lookup? (place ++ [name]) with
    | none => simp
    | some entry => cases entry <;> simp [hentry, hlength]
  · simp [hlength]

end FileSystem

/-! ### Discovery -/

namespace Classifier

variable {c : Classifier} {files files' : FileSystem} {dir : Path} {place : Location} {name : Bytes}

/-- A regular file stands right below a location, and its name is that of a schema. -/
def IsSchema (c : Classifier) (files : FileSystem) (place : Location) (name : Bytes) : Prop :=
  (∃ id data, files.lookup? (place ++ [name]) = some (.file id data)) ∧
    c.classify ⟨name⟩ = .schema

/-- The names of the schemas in a directory, in the order in which they are discovered. -/
def schemaNames (c : Classifier) (files : FileSystem) (dir : Path) (place : Location) :
    List Bytes :=
  ((files.children place).filter fun name => c.selects files (dir.join name)).mergeSort
    fun a b => decide (a ≤ b)

theorem classify_join (c : Classifier) (dir : Path) (h : FileSystem.IsName name) :
    c.classify (dir.join name) = c.classify ⟨name⟩ :=
  classify_congr ((Path.fileName?_join dir h).trans (Path.fileName?_of_isName h).symm)

/-- The tool's own file is no schema. -/
theorem IsSchema.selfName_ne (h : c.IsSchema files place name) (hname : FileSystem.IsName name) :
    c.selfName ≠ some name := by
  obtain ⟨own, hown, hself, -⟩ := (c.classify_eq_iff ⟨name⟩ .schema).mp h.2
  rwa [Option.some.inj ((Path.fileName?_of_isName hname).symm.trans hown)]

theorem selects_join (hdir : files.locateDirectory dir = .ok place)
    (h : FileSystem.IsName name) :
    c.selects files (dir.join name) ↔ c.IsSchema files place name ∧
      (dir.join name).bytes.length ≤ FileSystem.maxPathLength := by
  rw [selects, Bool.and_eq_true, decide_eq_true_iff, FileSystem.isFile_join hdir h,
    c.classify_join dir h, IsSchema]
  tauto

/-- The paths that are discovered are those of the names, in the order of the names. -/
theorem discover_eq (hdir : files.locateDirectory dir = .ok place) :
    c.discover files dir = .ok ((c.schemaNames files dir place).map dir.join) := by
  have hbytes := FileSystem.bytes_ne_nil_of_locate (FileSystem.locateDirectory_eq_ok_iff.mp hdir).1
  have hlist : files.list dir = .ok (files.children place) := by
    rw [FileSystem.list, hdir]
    rfl
  have hname (name : Bytes) (h : name ∈ (files.children place).filter
      fun name => c.selects files (dir.join name)) : FileSystem.IsName name :=
    FileSystem.isName_of_lookup? (FileSystem.mem_children_iff.mp (List.mem_of_mem_filter h))
      (by simp)
  -- sorting the paths and sorting the names is the same, as all of them are in one directory
  rw [discover, hlist, schemaNames, List.map_mergeSort fun a ha b hb =>
    (Path.precedes_join hbytes (hname a ha) (hname b hb)).symm]
  simp only [bind, Except.bind, pure, Except.pure, List.filter_map]
  rfl

theorem mem_schemaNames_iff (hdir : files.locateDirectory dir = .ok place) :
    name ∈ c.schemaNames files dir place ↔ c.IsSchema files place name ∧
      (dir.join name).bytes.length ≤ FileSystem.maxPathLength := by
  rw [schemaNames, List.mem_mergeSort, List.mem_filter, FileSystem.mem_children_iff]
  constructor
  · rintro ⟨hentry, hselects⟩
    exact (selects_join hdir (FileSystem.isName_of_lookup? hentry (by simp))).mp hselects
  · intro h
    obtain ⟨id, data, hfile⟩ := h.1.1
    have hentry : files.lookup? (place ++ [name]) ≠ none := by simp [hfile]
    exact ⟨hentry, (selects_join hdir (FileSystem.isName_of_lookup? hentry (by simp))).mpr h⟩

/-- What is discovered has a name, is classified as a schema, and its path leads to it. -/
theorem of_mem_schemaNames (hdir : files.locateDirectory dir = .ok place)
    (h : name ∈ c.schemaNames files dir place) :
    FileSystem.IsName name ∧ c.classify (dir.join name) = .schema ∧
      files.locate (dir.join name) = .ok (place ++ [name]) := by
  obtain ⟨⟨⟨id, data, hfile⟩, hkind⟩, hlength⟩ := (mem_schemaNames_iff hdir).mp h
  have hentry : files.lookup? (place ++ [name]) ≠ none := by simp [hfile]
  have hname : FileSystem.IsName name := FileSystem.isName_of_lookup? hentry (by simp)
  have hlocate := FileSystem.locate_join hdir hname
  rw [if_pos ⟨hentry, hlength⟩] at hlocate
  refine ⟨hname, (c.classify_join dir hname).trans hkind, ?_⟩
  cases hcase : files.locate (dir.join name) with
  | error fault => simp [hcase, Except.toOption] at hlocate
  | ok other =>
    rw [hcase] at hlocate
    exact congrArg Except.ok (Option.some.inj hlocate)

theorem nodup_schemaNames (c : Classifier) (files : FileSystem) (dir : Path) (place : Location) :
    (c.schemaNames files dir place).Nodup :=
  (List.mergeSort_perm _ _).nodup_iff.mpr ((files.nodup_children place).filter _)

/-- The names come in ascending order, and none of them twice. -/
theorem pairwise_schemaNames (c : Classifier) (files : FileSystem) (dir : Path)
    (place : Location) : (c.schemaNames files dir place).Pairwise (· < ·) := by
  have htrans (a b c : Bytes) (hab : decide (a ≤ b)) (hbc : decide (b ≤ c)) : decide (a ≤ c) :=
    decide_eq_true (List.le_trans (of_decide_eq_true hab) (of_decide_eq_true hbc))
  have htotal (a b : Bytes) : (decide (a ≤ b) || decide (b ≤ a)) = true := by
    simpa using List.le_total a b
  have hsorted : (c.schemaNames files dir place).Pairwise fun a b => decide (a ≤ b) :=
    List.pairwise_mergeSort htrans htotal _
  refine hsorted.imp₂ (fun a b hle hne => ?_) (c.nodup_schemaNames files dir place)
  exact Std.lt_of_le_of_ne (of_decide_eq_true hle) hne

/-- **The order of the listing** does not matter. -/
theorem discover_eq_of_perm (hentries : files'.entries.Perm files.entries)
    (hstart : files'.workingDirectory = files.workingDirectory) :
    c.discover files' dir = c.discover files dir := by
  have hlookup := FileSystem.lookup?_eq_of_perm hentries
  have hdirs (place : Location) : files'.isDirectory place = files.isDirectory place := by
    rw [FileSystem.isDirectory, FileSystem.isDirectory, hlookup]
  have hlocate : files'.locateDirectory dir = files.locateDirectory dir := by
    rw [FileSystem.locateDirectory, FileSystem.locateDirectory,
      (FileSystem.locate_congr hstart fun place _ => hlookup place).1]
    simp only [hdirs]
  cases hdir : files.locateDirectory dir with
  | error fault =>
    simp only [discover, FileSystem.list, hlocate, hdir]
    rfl
  | ok place =>
    have hdir' := hlocate.trans hdir
    have hnames : c.schemaNames files' dir place = c.schemaNames files dir place := by
      refine List.Perm.eq_of_pairwise (fun a b _ _ hab hba => absurd hba (List.lt_asymm hab))
        (c.pairwise_schemaNames files' dir place) (c.pairwise_schemaNames files dir place) ?_
      refine (List.perm_ext_iff_of_nodup (c.nodup_schemaNames files' dir place)
        (c.nodup_schemaNames files dir place)).mpr fun name => ?_
      rw [mem_schemaNames_iff hdir', mem_schemaNames_iff hdir, IsSchema, IsSchema, hlookup]
    rw [discover_eq hdir', discover_eq hdir, hnames]

end Classifier

end SchemaDoc
