import SchemaDoc.Path

/-!
# File systems

A file system knows what stands at which location: directories, regular files, and the device that
refuses all data. A regular file has an identity, which it keeps while its data changes and which
another file in its place does not share.

The names that lead to an entry are not arbitrary bytes: a path must be able to say them one by one,
which is what `FileSystem.IsName` asks for. Nothing can be put where other names would lead.

`lookup?_put_self` and `lookup?_put_of_ne` say what changes when something is put at a location:
that location and no other.
-/

namespace SchemaDoc

/-- The data of a regular file: the pieces in which it was written, the latest first. -/
structure FileData where
  /-- The pieces, the latest first. -/
  pieces : List Bytes
  deriving DecidableEq, Repr

namespace FileData

/-- The bytes of the file. -/
def content (d : FileData) : Bytes := d.pieces.reverse.flatten

/-- The data with exactly the bytes `bs`. -/
def ofBytes (bs : Bytes) : FileData := ⟨[bs]⟩

/-- Adds bytes at the end. -/
def append (d : FileData) (bs : Bytes) : FileData := ⟨bs :: d.pieces⟩

@[simp]
theorem content_ofBytes (bs : Bytes) : (ofBytes bs).content = bs := by
  simp [content, ofBytes]

@[simp]
theorem content_append (d : FileData) (bs : Bytes) :
    (d.append bs).content = d.content ++ bs := by
  simp [content, append]

end FileData

/-- Where something stands: the names that lead to it from the root. -/
abbrev Location := List Bytes

/-- What stands at a location. -/
inductive Entry where
  /-- A directory. -/
  | directory
  /-- A regular file, by its identity and its data. -/
  | file (id : Nat) (data : FileData)
  /-- The device that refuses all data. -/
  | fullDevice
  deriving DecidableEq, Repr

namespace FileSystem

/-- The length of the longest name that is allowed. -/
def maxNameLength : Nat := 255

/-- A name that an entry of a directory can have. -/
structure IsName (name : Bytes) : Prop where
  ne_nil : name ≠ []
  separator_notMem : Path.separator ∉ name
  nul_notMem : 0 ∉ name
  ne_here : name ≠ Path.here
  ne_up : name ≠ Path.up
  length_le : name.length ≤ maxNameLength

instance (name : Bytes) : Decidable (IsName name) :=
  decidable_of_iff
    (name ≠ [] ∧ Path.separator ∉ name ∧ 0 ∉ name ∧ name ≠ Path.here ∧ name ≠ Path.up ∧
      name.length ≤ maxNameLength)
    ⟨fun ⟨hnil, hsep, hnul, hhere, hup, hlength⟩ => ⟨hnil, hsep, hnul, hhere, hup, hlength⟩,
      fun ⟨hnil, hsep, hnul, hhere, hup, hlength⟩ => ⟨hnil, hsep, hnul, hhere, hup, hlength⟩⟩

end FileSystem

/-- Files and directories. -/
structure FileSystem where
  /-- What stands where; the root is a directory and not listed. -/
  entries : List (Location × Entry)
  /-- Where relative paths start. -/
  workingDirectory : Location
  /-- The identity of the next file that is created. -/
  nextId : Nat
  /-- No location is listed twice. -/
  nodup : (entries.map Prod.fst).Nodup
  /-- All locations are made of names. -/
  named : ∀ entry ∈ entries, ∀ name ∈ entry.1, FileSystem.IsName name
  deriving DecidableEq, Repr

namespace FileSystem

variable (fs : FileSystem)

private theorem nodup_map_filter {es : List (Location × Entry)} (h : (es.map Prod.fst).Nodup)
    (p : Location × Entry → Bool) : ((es.filter p).map Prod.fst).Nodup :=
  h.sublist (List.filter_sublist.map Prod.fst)

/-- What stands at a location. -/
def lookup? (place : Location) : Option Entry :=
  if place = [] then some .directory else fs.entries.lookup place

/-- Whether a directory stands at a location. -/
def isDirectory (place : Location) : Bool := fs.lookup? place == some .directory

/-- Takes away what stands at a location. -/
def erase (place : Location) : FileSystem :=
  { fs with
    entries := fs.entries.filter fun e => !e.1 == place
    nodup := nodup_map_filter fs.nodup _
    named := fun entry h => fs.named entry (List.mem_filter.1 h).1 }

/-- Puts something at a location, if it is names that lead there. -/
def put (place : Location) (entry : Entry) : FileSystem :=
  if h : ∀ name ∈ place, IsName name then
    { fs.erase place with
      entries := (place, entry) :: (fs.erase place).entries
      nodup := List.nodup_cons.2
        ⟨by simp only [erase, List.mem_map, List.mem_filter]; grind, (fs.erase place).nodup⟩
      named := List.forall_mem_cons.2 ⟨h, (fs.erase place).named⟩ }
  else fs

/-- Puts a new regular file at a location, if it is names that lead there. -/
def create (place : Location) (data : FileData) : FileSystem :=
  { fs.put place (.file fs.nextId data) with nextId := fs.nextId + 1 }

/-! ### What a change changes -/

private theorem lookup_filter_ne {place other : Location} (h : other ≠ place)
    (es : List (Location × Entry)) :
    (es.filter fun e => !e.1 == place).lookup other = es.lookup other := by
  induction es with
  | nil => rfl
  | cons e es ih =>
    by_cases he : e.1 = place
    · have hne : (other == e.1) = false := by simpa [he] using h
      rw [List.filter_cons_of_neg (by simpa using he), ih, List.lookup_cons, hne]
    · rw [List.filter_cons_of_pos (by simpa using he), List.lookup_cons, List.lookup_cons, ih]

theorem lookup?_erase_of_ne {place other : Location} (h : other ≠ place) :
    (fs.erase place).lookup? other = fs.lookup? other := by
  simp only [lookup?, erase, lookup_filter_ne h]

theorem lookup?_put_self {place : Location} (h : place ≠ []) (hnames : ∀ name ∈ place, IsName name)
    (entry : Entry) : (fs.put place entry).lookup? place = some entry := by
  simp [lookup?, put, h, dif_pos hnames]

theorem lookup?_put_of_ne {place other : Location} (h : other ≠ place) (entry : Entry) :
    (fs.put place entry).lookup? other = fs.lookup? other := by
  have hne : (other == place) = false := by simpa using h
  unfold put
  split
  · rw [← lookup?_erase_of_ne fs h]
    simp [lookup?, List.lookup_cons, hne]
  · rfl

end FileSystem

end SchemaDoc
