import SchemaDoc.Input.File
import SchemaDoc.Proofs.Stream.LineCount

/-!
# What an input delivers to a sink

A path delivers bytes, or it cannot be opened or read: `FileSystem.read`. Where it delivers, both
ways to process it write an output that is known beforehand, as far as there is room, and flush the
sink behind it (`Sink.delivery`): a run writes what it writes where nothing fails
(`Run.ofSource_delivery`), and a copy writes the very bytes (`Copy.ofFile_of_read_eq_ok`). Where it
does not, the sink is left as it was.
-/

namespace SchemaDoc

/-! ### Reading an input -/

namespace FileSystem

/-- The bytes that a path delivers, or why it cannot be opened or read. -/
def read (fs : FileSystem) (p : Path) : Except StreamError Bytes :=
  match fs.openRead p with
  | .error fault => .error (.cannotOpen p fault)
  | .ok source =>
    match source.fault with
    | some fault => .error (.read fault)
    | none => .ok source.content

variable {fs : FileSystem} {p : Path}

theorem openRead_of_read_eq_ok {content : Bytes} (h : fs.read p = .ok content) :
    fs.openRead p = .ok { content } := by
  unfold read at h
  split at h
  · cases h
  · next source hsource =>
    split at h
    · cases h
    · next hfault =>
      cases h
      rw [hsource, ← hfault]

/-- What opens and breaks when it is read delivers nothing before. -/
theorem content_eq_nil_of_fault {source : Source} {fault : Fault} (h : fs.openRead p = .ok source)
    (hfault : source.fault = some fault) : source.content = [] := by
  unfold openRead at h
  cases hplace : fs.locate p with
  | error fault => simp [hplace, bind, Except.bind] at h
  | ok place =>
    simp only [hplace, bind, Except.bind] at h
    split at h <;> cases h <;> simp_all

theorem openRead_of_read_eq_error {error : StreamError} (h : fs.read p = .error error) :
    (∃ fault, error = .cannotOpen p fault ∧ fs.openRead p = .error fault) ∨
    ∃ fault, error = .read fault ∧ fs.openRead p = .ok { content := [], fault := some fault } := by
  unfold read at h
  split at h
  · next fault hopen =>
    cases h
    exact Or.inl ⟨fault, rfl, hopen⟩
  · next source hsource =>
    split at h
    · next fault hfault =>
      cases h
      refine Or.inr ⟨fault, rfl, ?_⟩
      rw [hsource, ← hfault, ← content_eq_nil_of_fault hsource hfault]
    · cases h

/-- The output is never to blame for an input that cannot be read. -/
theorem isWrite_of_read_eq_error {error : StreamError} (h : fs.read p = .error error) :
    error.isWrite = false := by
  obtain ⟨fault, rfl, -⟩ | ⟨fault, rfl, -⟩ := openRead_of_read_eq_error h <;> rfl

end FileSystem

/-! ### Output that is flushed at its end -/

/-- Why a sink refuses some output or the flush behind it, if it does. -/
def Sink.refusal? (s : Sink) (out : Bytes) : Option Fault :=
  (s.write out).fault.or (s.write out).sink.flush

/-- The result of writing all of an output and flushing the sink, when `value` is what comes of it
unless the sink refuses. -/
def Sink.delivery {α : Type} (s : Sink) (out : Bytes) (value : α) : Except StreamError α :=
  match s.refusal? out with
  | some fault => .error (.write fault)
  | none => .ok value

/-- A copy writes its lines one after the other and flushes the sink behind them. -/
theorem Copy.ofLines_eq (sink : Sink) (count : Nat) (lines : List Bytes) :
    Copy.ofLines sink count none lines =
      { written := (sink.write lines.flatten).accepted
        sink := (sink.write lines.flatten).sink
        result := sink.delivery lines.flatten (count + lines.length) } := by
  induction lines generalizing sink count with
  | nil =>
    simp only [ofLines, List.flatten_nil, Sink.write_nil, Sink.delivery, Sink.refusal?]
    cases sink.flush <;> rfl
  | cons raw lines ih =>
    rw [List.flatten_cons, ofLines]
    cases hfault : (sink.write raw).fault with
    | some refusal =>
      simp [hfault, Sink.delivery, Sink.refusal?, sink.write_append_of_fault hfault]
    | none =>
      have hcount : count + 1 + lines.length = count + (lines.length + 1) := by omega
      simp only [ih, Sink.delivery, Sink.refusal?, sink.write_append hfault, List.length_cons,
        hcount]

namespace Run

/-- A run over a content that can be read writes what it writes where nothing fails, and flushes the
sink behind it. -/
theorem ofSource_delivery (content : Bytes) (sink : Sink) :
    let run := ofSource { content } sink
    let out := (ofBytes content).written
    run.written = (sink.write out).accepted ∧ run.sink = (sink.write out).sink ∧
      run.result.map (·.linesWritten) = sink.delivery out (outputLines content).length := by
  intro run out
  have hout : out = (Line.recastAll .outside ((splitLines content).map Line.ofBytes)).flatMap
      Recast.bytes := ofLines_written rfl _
  have hrun := ofLines_writes sink .outside {} none (splitLines content)
  rw [← hout] at hrun
  refine ⟨hrun.written_eq, hrun.sink_eq, ?_⟩
  have hresult : run.result = _ := hrun.result_eq
  rw [hresult, Sink.delivery, Sink.refusal?]
  cases (sink.write out).fault with
  | some refusal => rfl
  | none =>
    simp only [ending, Option.none_or]
    cases (sink.write out).sink.flush with
    | some fault => rfl
    | none => simp [Except.map, Stats.total_eq, outputLines]

/-- What opens for reading is run over like its content. -/
theorem ofFile_of_read_eq_ok {files : FileSystem} {path : Path} {content : Bytes}
    (h : files.read path = .ok content) (sink : Sink) :
    ofFile files path sink = ofSource { content } sink := by
  rw [ofFile, FileSystem.openRead_of_read_eq_ok h]

/-- What cannot be read leaves the sink as it was. A run may have started before this is found. -/
theorem ofFile_of_read_eq_error {files : FileSystem} {path : Path} {error : StreamError}
    (h : files.read path = .error error) (sink : Sink) :
    ∃ events, events ⊆ [Event.started] ∧ ofFile files path sink =
      { written := [], events, sink, result := .error error } := by
  obtain ⟨fault, rfl, hopen⟩ | ⟨fault, rfl, hopen⟩ := FileSystem.openRead_of_read_eq_error h
  · exact ⟨[], by simp, by rw [ofFile, hopen]⟩
  · exact ⟨[.started], List.Subset.refl _, by rw [ofFile, hopen]; rfl⟩

end Run

namespace Copy

variable {files : FileSystem} {path : Path}

/-- What opens for reading is copied byte by byte, and the sink is flushed behind it. -/
theorem ofFile_of_read_eq_ok {content : Bytes} (h : files.read path = .ok content) (sink : Sink) :
    ofFile files path sink =
      { written := (sink.write content).accepted
        sink := (sink.write content).sink
        result := sink.delivery content (splitLines content).length } := by
  have hlines : ({ content } : Source).lines = splitLines content := rfl
  rw [ofFile, FileSystem.openRead_of_read_eq_ok h]
  simp only [ofSource, hlines, ofLines_eq, flatten_splitLines, Nat.zero_add]

theorem ofFile_of_read_eq_error {error : StreamError} (h : files.read path = .error error)
    (sink : Sink) : ofFile files path sink = { written := [], sink, result := .error error } := by
  obtain ⟨fault, rfl, hopen⟩ | ⟨fault, rfl, hopen⟩ := FileSystem.openRead_of_read_eq_error h
  · rw [ofFile, hopen]
  · rw [ofFile, hopen]
    rfl

end Copy

end SchemaDoc
