import SchemaDoc.Proofs.Log.Arrival

/-!
# The course of a log

A log is opened when it gets its first line, and is written to with each line. It is given up as
soon as one of these is in vain, and a warning tells of it.

What acts there can be from one state to another is the `Course` of a log: an act that opens it
comes first or never, an act in vain comes last, and behind it there is none. Whatever lines are
written, a log keeps to such a course: `LogFile.course_writeLine` for one line, and `Course.trans`
for the next.

A log is `Settled` if its lines arrive in the file that it goes to, if it goes to one. Then a line
arrives there, or else the log is given up with it: `Settled.writeLine`.
-/

namespace SchemaDoc

namespace LogFile

namespace Act

/-- Whether the file is opened, or tried to be. -/
def isOpening : Act → Bool
  | opening _ => true
  | writing _ _ => false

/-- The fault that is met. -/
def fault? : Act → Option Fault
  | opening fault => fault
  | writing _ fault => fault

/-- Whether the act is in vain. -/
def isVain (act : Act) : Bool := act.fault?.isSome

/-- The bytes that get through to the file. -/
def written : Act → Bytes
  | writing bs none => bs
  | _ => []

/-- The acts in vain are those that are warned of. -/
theorem isSome_warning? (act : Act) (path : Path) : (act.warning? path).isSome = act.isVain := by
  cases act <;> exact Option.isSome_map

end Act

variable (log : LogFile) (files : FileSystem) (line : Text)

/-! ### Paths and acts -/

@[simp]
theorem path_prepare : (log.prepare files).log.path = log.path := by
  unfold prepare
  split
  · split <;> rfl
  · rfl

@[simp]
theorem path_append : (log.append files line).log.path = log.path := by
  unfold append
  split
  · split <;> rfl
  · rfl

@[simp]
theorem path_writeLine : (log.writeLine files line).log.path = log.path := by
  simp [writeLine]

/-- **A line** is dealt with by the acts that open the log and those that append to it. -/
theorem acts_writeLine :
    (log.writeLine files line).acts = (log.prepare files).acts ++
      ((log.prepare files).log.append (log.prepare files).files line).acts := rfl

/-! ### From state to state -/

/-- The acts that lead a log from one state to another. -/
inductive Course : LogState → List Act → LogState → Prop
  /-- There is nothing to do. -/
  | idle (s : LogState) : Course s [] s
  /-- The log is opened first. -/
  | opened {handle : Handle} {acts : List Act} {s : LogState}
    (h : Course (.opened handle) acts s) : Course .closed (.opening none :: acts) s
  /-- The log cannot be opened, and is given up. -/
  | unopened (fault : Fault) : Course .closed [.opening (some fault)] .disabled
  /-- The log is written to. -/
  | written {handle : Handle} {acts : List Act} {s : LogState} (bs : Bytes)
    (h : Course (.opened handle) acts s) : Course (.opened handle) (.writing bs none :: acts) s
  /-- The log cannot be written to, and is given up. -/
  | unwritten (handle : Handle) (bs : Bytes) (fault : Fault) :
    Course (.opened handle) [.writing bs (some fault)] .disabled

namespace Course

variable {s s' s'' : LogState} {acts acts' : List Act}

/-- A log that was given up does nothing any more, and stays so. -/
theorem of_disabled (h : Course .disabled acts s) : acts = [] ∧ s = .disabled := by
  cases h
  exact ⟨rfl, rfl⟩

theorem trans (h : Course s acts s') (h' : Course s' acts' s'') : Course s (acts ++ acts') s'' := by
  induction h with
  | idle s => exact h'
  | opened h ih => exact .opened (ih h')
  | written bs h ih => exact .written bs (ih h')
  -- behind an act in vain, nothing follows
  | unopened fault =>
    obtain ⟨rfl, rfl⟩ := h'.of_disabled
    exact .unopened fault
  | unwritten handle bs fault =>
    obtain ⟨rfl, rfl⟩ := h'.of_disabled
    exact .unwritten handle bs fault

theorem countP_isOpening_eq_zero (h : Course s acts s') (hs : s ≠ .closed) :
    acts.countP Act.isOpening = 0 := by
  induction h with
  | idle s => rfl
  | opened h ih => exact absurd rfl hs
  | unopened fault => exact absurd rfl hs
  | written bs h ih => exact ih LogState.noConfusion
  | unwritten handle bs fault => rfl

/-- **A log is opened once at most**, or tried to be. -/
theorem countP_isOpening_le_one (h : Course s acts s') : acts.countP Act.isOpening ≤ 1 := by
  by_cases hs : s = .closed
  · subst hs
    cases h with
    | idle => exact Nat.zero_le 1
    | unopened fault => exact Nat.le_refl 1
    | opened h =>
      have hrest := h.countP_isOpening_eq_zero LogState.noConfusion
      simp [List.countP_cons, hrest, Act.isOpening]
  · simp [h.countP_isOpening_eq_zero hs]

/-- **One act at most is in vain.** -/
theorem countP_isVain_le_one (h : Course s acts s') : acts.countP Act.isVain ≤ 1 := by
  induction h with
  | idle s => exact Nat.zero_le 1
  | opened h ih => exact ih
  | unopened fault => exact Nat.le_refl 1
  | written bs h ih => exact ih
  | unwritten handle bs fault => exact Nat.le_refl 1

end Course

/-- **One line**: the log keeps to its course. -/
theorem course_writeLine :
    Course log.state (log.writeLine files line).acts (log.writeLine files line).log.state := by
  have hprepare : Course log.state (log.prepare files).acts (log.prepare files).log.state := by
    unfold prepare
    cases hstate : log.state with
    | closed =>
      cases files.openAppend log.path with
      | ok opened => exact .opened (.idle _)
      | error fault => exact .unopened fault
    | opened handle => simpa [hstate] using Course.idle _
    | disabled => simpa [hstate] using Course.idle _
  have happend (log : LogFile) (files : FileSystem) :
      Course log.state (log.append files line).acts (log.append files line).log.state := by
    unfold append
    cases hstate : log.state with
    | closed => simpa [hstate] using Course.idle _
    | opened handle =>
      dsimp only
      cases files.append handle (lineBytes line) with
      | ok grown => simpa [hstate] using Course.written (lineBytes line) (.idle _)
      | error fault => exact Course.unwritten handle (lineBytes line) fault
    | disabled => simpa [hstate] using Course.idle _
  exact hprepare.trans (happend _ _)

/-! ### Lines that arrive -/

/-- If the log goes to a regular file, its lines arrive there. -/
def Settled (log : LogFile) (files : FileSystem) : Prop :=
  ∀ place, log.place? files = some place → log.Attached files place

section Settled

variable {log : LogFile} {files files' : FileSystem} {place : Location}

theorem Attached.place?_eq (h : log.Attached files place) : log.place? files = some place := by
  cases h with
  | closed hstate hplace => rw [place?, hstate, hplace]
  | opened hstate hfile =>
    rw [place?, hstate]
    rfl

theorem Attached.ne_disabled (h : log.Attached files place) : log.state ≠ .disabled := by
  cases h with
  | closed hstate hplace => simp [hstate]
  | opened hstate hfile => simp [hstate]

/-- A log that is not opened yet is settled. -/
theorem settled_of_closed (h : log.state = .closed) : log.Settled files := by
  intro place hplace
  rw [place?, h] at hplace
  exact .closed h hplace

theorem Settled.of_grown {places : List Location} (h : log.Settled files)
    (hgrown : FileSystem.Grown places files files') : log.Settled files' := by
  intro place hplace
  rw [place?_eq_of_grown hgrown] at hplace
  exact (h place hplace).of_grown hgrown

/-- Opening brings no bytes to the file. -/
theorem written_prepare (log : LogFile) (files : FileSystem) :
    (log.prepare files).acts.flatMap Act.written = [] := by
  unfold prepare
  cases log.state with
  | closed => cases files.openAppend log.path <;> rfl
  | opened handle => rfl
  | disabled => rfl

/-- What gets through of a line is what appending it brings to the file. -/
theorem written_writeLine (log : LogFile) (files : FileSystem) (line : Text) :
    (log.writeLine files line).acts.flatMap Act.written =
      ((log.prepare files).log.append (log.prepare files).files line).acts.flatMap Act.written := by
  rw [acts_writeLine, List.flatMap_append, written_prepare, List.nil_append]

theorem lineBytes_ne_nil (line : Text) : lineBytes line ≠ [] := by
  simp [lineBytes]

/-- The bytes of a line get through to the file that an attached log goes to. -/
theorem Attached.written_acts (h : log.Attached files place) (line : Text) :
    (log.writeLine files line).acts.flatMap Act.written = lineBytes line := by
  obtain ⟨id, data, hstate, hfile, -⟩ := h.prepare
  obtain ⟨grown, data', happend, -, -⟩ := FileSystem.append_of_lookup? hfile (lineBytes line)
  rw [written_writeLine]
  simp only [append, hstate, happend]
  simp [Act.written]

/-- **A log that goes to no file** is given up with its first line, and nothing gets through. -/
theorem disabled_of_place?_eq_none (h : log.place? files = none) (line : Text) :
    (log.writeLine files line).log.state = .disabled ∧
      (log.writeLine files line).acts.flatMap Act.written = [] := by
  have hdevice (log : LogFile) (files : FileSystem) (hstate : log.state = .opened .fullDevice) :
      (log.append files line).log.state = .disabled ∧
        (log.append files line).acts.flatMap Act.written = [] := by
    simp only [append, hstate, FileSystem.append, lineBytes_ne_nil, if_false]
    exact ⟨trivial, rfl⟩
  have hdisabled (log : LogFile) (files : FileSystem) (hstate : log.state = .disabled) :
      (log.append files line).log.state = .disabled ∧
        (log.append files line).acts.flatMap Act.written = [] := by
    simp [append, hstate]
  rw [written_writeLine]
  have hready : (log.prepare files).log.state = .opened .fullDevice ∨
      (log.prepare files).log.state = .disabled := by
    unfold place? at h
    unfold prepare
    cases hstate : log.state with
    | closed =>
      simp only [hstate, FileSystem.appendPlace?] at h
      cases hopen : files.openAppend log.path with
      | error fault => exact .inr rfl
      | ok opened =>
        obtain ⟨grown, handle⟩ := opened
        cases handle with
        | file place id => simp [hopen, Handle.place?] at h
        | fullDevice => exact .inl rfl
    | opened handle =>
      cases handle with
      | file place id => simp [hstate, Handle.place?] at h
      | fullDevice => exact .inl hstate
    | disabled => exact .inr hstate
  rcases hready with hready | hready
  · exact hdevice _ _ hready
  · exact hdisabled _ _ hready

/-- What a line does to a settled log and to the files around it. -/
structure Outcome.Settles (log : LogFile) (files : FileSystem) (line : Text) (done : Outcome) :
    Prop where
  /-- The log stays settled. -/
  settled : done.log.Settled done.files
  /-- It goes to the same file as before, or to none as before. -/
  place?_eq : done.log.place? done.files = log.place? files
  /-- It is given up if it goes to none. -/
  disabled_iff : done.log.state = .disabled ↔ log.place? files = none
  /-- Otherwise the line gets through. -/
  written_eq : done.acts.flatMap Act.written =
    if (log.place? files).isSome then lineBytes line else []
  /-- What gets through stands at the end of the file of the log, and no other file is touched. -/
  bytesAt_eq : ∀ place, done.files.bytesAt place = files.bytesAt place ++
    if log.place? files = some place then done.acts.flatMap Act.written else []

/-- **A line of a settled log** arrives in the file that the log goes to. Where it goes to none, the
log is given up and nothing is written. -/
theorem Settled.writeLine (h : log.Settled files) (line : Text) :
    (log.writeLine files line).Settles log files line := by
  have hdone := writeLine_within log files line
  -- a place that the log does not go to is not touched
  have hoff (place : Location) (hne : log.place? files ≠ some place) :
      (log.writeLine files line).files.bytesAt place = files.bytesAt place := by
    have hlookup := hdone.grown.lookup?_eq place (by simpa using hne)
    rw [FileSystem.bytesAt, hlookup, FileSystem.bytesAt]
  cases hplace : log.place? files with
  | none =>
    obtain ⟨hstate, hwritten⟩ := disabled_of_place?_eq_none hplace line
    have hnone : (log.writeLine files line).log.place? (log.writeLine files line).files = none := by
      rw [place?, hstate]
    refine ⟨?_, hnone.trans hplace.symm, ?_, ?_, fun place => ?_⟩
    · intro place hsome
      rw [hnone] at hsome
      cases hsome
    · simp [hstate, hplace]
    · simp [hwritten, hplace]
    · rw [hoff place (by simp [hplace]), hplace]
      simp
  | some place =>
    obtain ⟨hattached, hbytes⟩ := (h place hplace).writeLine line
    have hwritten := (h place hplace).written_acts line
    refine ⟨?_, hattached.place?_eq.trans hplace.symm, ?_, ?_, fun other => ?_⟩
    · intro other hother
      rw [hattached.place?_eq] at hother
      exact Option.some.inj hother ▸ hattached
    · simp [hattached.ne_disabled, hplace]
    · simp [hwritten, hplace]
    · by_cases hother : place = other
      · subst hother
        rw [hbytes, if_pos hplace, hwritten]
      · have hne : log.place? files ≠ some other := by simpa [hplace] using hother
        rw [hoff other hne, if_neg hne, List.append_nil]

end Settled

end LogFile

end SchemaDoc
