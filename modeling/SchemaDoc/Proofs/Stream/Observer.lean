import SchemaDoc.Proofs.Stream.Lines
import SchemaDoc.Stream.Driver
import Mathlib.Data.List.Forall2

/-!
# What an observer is told

A run tells its observer that it starts, then of its lines in their order, numbered without a gap,
and of its totals if it comes to its end. An event comes before the output that it announces is
written. So the output can be made out from the events (`Run.replay`): it is what they announce, but
for the last of them where the sink refuses something.

`runAll_observed` says this of every run that a driver carries out, that the run comes to its end
unless the source or the sink fails, and that it does not depend on the runs before it.
-/

namespace SchemaDoc

/-- The lines of a source and what becomes of them. -/
def Source.outcomes (source : Source) : List (Text × Recast) :=
  let lines := source.lines.map Line.ofBytes
  lines.zip (Line.recastAll .outside lines)

theorem Source.map_snd_outcomes (source : Source) :
    source.outcomes.map Prod.snd = Line.recastAll .outside (source.lines.map Line.ofBytes) :=
  List.map_snd_zip (Nat.le_of_eq (Line.length_recastAll _ _))

namespace Run

/-- The events of lines that came in and went out as `entries`, behind line number `n`. -/
def lineEvents (n : Nat) (entries : List (Text × Recast)) : List Event :=
  entries.mapIdx fun i (before, after) => .line (n + i + 1) before after

/-- The last event of a run with the given result. -/
def closing : Except StreamError Stats → List Event
  | .ok stats => [.finished stats]
  | .error _ => []

/-- The output that lines with the given outcomes announce: the text of each and a line feed. -/
def replay (entries : List (Text × Recast)) : Bytes :=
  entries.flatMap fun (_, after) => Utf8.encode (after.text ++ ['\n'])

/-- The run has taken `entries` of the given lines, and its output is what these announce. Only when
the output is refused, lines may be left over and part of the last outcome be missing. -/
def Replays (n : Nat) (lines entries : List (Text × Recast)) (run : Run) : Prop :=
  match run.result with
  | .ok stats => entries = lines ∧ stats.linesRead = n + entries.length ∧
      run.written = replay entries
  | .error (.read _) => entries = lines ∧ run.written = replay entries
  | .error (.write _) => entries <+: lines ∧ replay entries.dropLast <+: run.written ∧
      run.written <+: replay entries
  | .error _ => False

@[simp]
theorem lineEvents_nil (n : Nat) : lineEvents n [] = [] := rfl

theorem lineEvents_cons (n : Nat) (before : Text) (after : Recast)
    (entries : List (Text × Recast)) :
    lineEvents n ((before, after) :: entries) =
      .line (n + 1) before after :: lineEvents (n + 1) entries := by
  simp only [lineEvents, List.mapIdx_cons, Nat.add_zero]
  congr 3
  funext i entry
  rw [Nat.add_right_comm n 1 i, ← Nat.add_assoc n i 1]

@[simp]
theorem replay_nil : replay [] = [] := rfl

/-- An event announces just the bytes that are written for its line. -/
theorem replay_cons (before : Text) (after : Recast) (entries : List (Text × Recast)) :
    replay ((before, after) :: entries) = after.bytes ++ replay entries := by
  have htext : Text.unlines after.lines = after.text ++ ['\n'] := by
    cases h : after.hoisted <;> simp [Recast.lines, Recast.text, h]
  rw [Recast.bytes_eq_encode, htext]
  rfl

/-- The lines of a source announce the bytes in which their outcomes are written. -/
theorem replay_outcomes (source : Source) :
    replay source.outcomes =
      (Line.recastAll .outside (source.lines.map Line.ofBytes)).flatMap Recast.bytes := by
  have hreplay (entries : List (Text × Recast)) :
      replay entries = (entries.map Prod.snd).flatMap Recast.bytes := by
    induction entries with
    | nil => rfl
    | cons entry entries ih =>
      rw [replay_cons, ih, List.map_cons, List.flatMap_cons]
  rw [hreplay, source.map_snd_outcomes]

/-- The source does not break, and the sink takes what the lines of the source announce and the
flush behind it. -/
structure NothingFails (source : Source) (sink : Sink) : Prop where
  /-- The source ends. -/
  read : source.fault = none
  /-- All of the output is taken. -/
  written : (sink.write (replay source.outcomes)).fault = none
  /-- The flush is taken. -/
  flushed : (sink.write (replay source.outcomes)).sink.flush = none

/-- **When a run comes to its end**: if and only if nothing fails. -/
theorem ofSource_isOk_iff (source : Source) (sink : Sink) :
    (∃ stats, (ofSource source sink).result = .ok stats) ↔ NothingFails source sink := by
  have hresult := (ofLines_writes sink .outside {} source.fault source.lines).result_eq
  rw [← replay_outcomes] at hresult
  have hsource : (ofSource source sink).result =
      (ofLines sink .outside {} source.fault source.lines).result := rfl
  rw [hsource, hresult]
  constructor
  · rintro ⟨stats, h⟩
    split at h
    · cases h
    · next hwritten =>
      unfold ending at h
      split at h
      · cases h
      · cases h
      · next hread hflushed => exact ⟨hread, hwritten, hflushed⟩
  · rintro ⟨hread, hwritten, hflushed⟩
    simp [hwritten, ending, hread, hflushed]

section Steps

variable {sink : Sink} {s : Scope} {stats : Stats} {lines entries : List (Text × Recast)}

/-- **One more line** in front of a run. -/
theorem Replays.cons {n : Nat} {run : Run} (h : Replays (n + 1) lines entries run) (before : Text)
    (after : Recast) (events : List Event) :
    Replays n ((before, after) :: lines) ((before, after) :: entries)
      { run with written := after.bytes ++ run.written, events := events } := by
  unfold Replays at h ⊢
  dsimp only
  cases hresult : run.result with
  | ok total =>
    simp only [hresult] at h ⊢
    obtain ⟨rfl, hread, hwritten⟩ := h
    refine ⟨rfl, ?_, by rw [hwritten, replay_cons]⟩
    rw [hread, List.length_cons]
    omega
  | error error =>
    cases error with
    | read fault =>
      simp only [hresult] at h ⊢
      obtain ⟨rfl, hwritten⟩ := h
      exact ⟨rfl, by rw [hwritten, replay_cons]⟩
    | write fault =>
      simp only [hresult] at h ⊢
      obtain ⟨hlines, hfront, hback⟩ := h
      refine ⟨List.cons_prefix_cons.mpr ⟨rfl, hlines⟩, ?_, ?_⟩
      -- with nothing told behind it, the new line is itself the last, and may be missing
      · cases entries with
        | nil => exact List.nil_prefix
        | cons entry entries =>
          rw [List.dropLast_cons_cons, replay_cons]
          exact (List.prefix_append_right_inj _).mpr hfront
      · rw [replay_cons]
        exact (List.prefix_append_right_inj _).mpr hback
    | cannotOpen path fault => simp only [hresult] at h
    | endless => simp only [hresult] at h

/-- **A run told to its observer**: of the given lines numbered events, then the totals if it comes
to its end. -/
def Observed (n : Nat) (lines : List (Text × Recast)) (run : Run) : Prop :=
  ∃ entries, run.events = lineEvents n entries ++ closing run.result ∧
    Replays n lines entries run

theorem finish_observed (sink : Sink) (s : Scope) (stats : Stats) (fault : Option Fault) :
    Observed stats.linesRead [] (finish sink s stats fault) := by
  refine ⟨[], ?_⟩
  unfold finish
  split
  · simp [closing, Replays]
  · split <;> simp [closing, Replays]

/-- **One line** is told of before it is written. -/
theorem ofLine_observed {after : Recast} {next : Scope} {raw : Bytes}
    (hrecast : Line.recast s (Line.ofBytes raw) = (after, next))
    {rest : Event → Sink → Scope → Stats → Run}
    (h : ∀ event sink, Observed (stats.linesRead + 1) lines
      (rest event sink next (stats.addLine after))) :
    Observed stats.linesRead ((Line.ofBytes raw, after) :: lines)
      (ofLine sink s stats raw rest) := by
  obtain ⟨refusal, hfault, hline⟩ | ⟨hfault, hline⟩ := ofLine_cases hrecast rest
  -- the line was told of although it is not written to its end
  · rw [hline]
    refine ⟨[(Line.ofBytes raw, after)], by simp [lineEvents_cons, closing], ?_⟩
    have haccepted := sink.accepted_write_isPrefix after.bytes
    exact ⟨by simp, by simp, by simpa [replay_cons] using haccepted⟩
  · rw [hline]
    obtain ⟨entries, hevents, hreplays⟩ := h
      (.line (stats.linesRead + 1) (Line.ofBytes raw) after) (sink.write after.bytes).sink
    have haccepted : (sink.write after.bytes).accepted = after.bytes := by
      rw [sink.write_of_fits (sink.write_fault_eq_none_iff.mp hfault)]
    refine ⟨(Line.ofBytes raw, after) :: entries, ?_, ?_⟩
    · dsimp only
      rw [lineEvents_cons, hevents, List.cons_append]
    · rw [haccepted]
      exact hreplays.cons _ _ _

/-- **The lines of a run**, each told of before it is written. -/
theorem ofLines_observed (sink : Sink) (s : Scope) (stats : Stats) (fault : Option Fault)
    (raws : List Bytes) :
    Observed stats.linesRead
      ((raws.map Line.ofBytes).zip (Line.recastAll s (raws.map Line.ofBytes)))
      (ofLines sink s stats fault raws) := by
  induction raws generalizing sink s stats with
  | nil => exact finish_observed sink s stats fault
  | cons raw raws ih => exact ofLine_observed rfl fun _ sink => ih sink _ _

end Steps

end Run

/-! ### One driver, many runs -/

namespace Driver

variable {σ : Type}

/-- A driver that has nothing behind it tells its observer just the events of the run. -/
theorem observer_recording_run (source : Source) (sink : Sink) :
    (recording.run source sink).2.observer = (recording.run source sink).1.events := by
  have hfoldl (told events : List Event) :
      events.foldl recording.observe told = told ++ events := by
    induction events generalizing told with
    | nil => simp
    | cons event events ih =>
      rw [List.foldl_cons, ih]
      simp [recording]
  exact hfoldl [] _

/-- The observer of a driver is told of all runs in their order. -/
theorem observer_runAll (d : Driver σ) (inputs : List (Source × Sink)) :
    (d.runAll inputs).2.observer =
      ((d.runAll inputs).1.flatMap Run.events).foldl d.observe d.observer := by
  induction inputs generalizing d with
  | nil => rfl
  | cons input inputs ih =>
    simp only [runAll, List.flatMap_cons, List.foldl_append]
    exact ih _

/-- What a driver has behind it is nothing to the next run. -/
theorem runs_runAll (d : Driver σ) (inputs : List (Source × Sink)) :
    (d.runAll inputs).1 = inputs.map fun (source, sink) => (recording.run source sink).1 := by
  induction inputs generalizing d with
  | nil => rfl
  | cons input inputs ih =>
    simp only [runAll, List.map_cons, ih]
    rfl

/-- **The observer protocol.** Whatever inputs a driver is given, its observer is told of one run
after the other: that it starts, of lines numbered from one on, and of the totals that it returns if
it returns any. What each run writes is what its events announce, up to the refusal of the last, and
a driver that has nothing behind it carries out the same run with the same events. -/
theorem runAll_observed (d : Driver σ) (inputs : List (Source × Sink)) :
    (d.runAll inputs).2.observer =
      ((d.runAll inputs).1.flatMap Run.events).foldl d.observe d.observer ∧
    List.Forall₂ (fun (input : Source × Sink) run =>
        (∃ entries, run.events = .started :: Run.lineEvents 0 entries ++ Run.closing run.result ∧
          Run.Replays 0 input.1.outcomes entries run) ∧
        ((∃ stats, run.result = .ok stats) ↔ Run.NothingFails input.1 input.2) ∧
        (recording.run input.1 input.2).1 = run ∧
        (recording.run input.1 input.2).2.observer = run.events)
      inputs (d.runAll inputs).1 := by
  refine ⟨observer_runAll d inputs, ?_⟩
  rw [runs_runAll, List.forall₂_map_right_iff, List.forall₂_same]
  rintro ⟨source, sink⟩ -
  refine ⟨?_, Run.ofSource_isOk_iff source sink, rfl, observer_recording_run source sink⟩
  obtain ⟨entries, hevents, hreplays⟩ := Run.ofLines_observed sink .outside {} source.fault
    source.lines
  exact ⟨entries, congrArg (Event.started :: ·) hevents, hreplays⟩

end Driver

end SchemaDoc
