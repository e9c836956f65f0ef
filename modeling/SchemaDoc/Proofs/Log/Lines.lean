import SchemaDoc.Log.Recorder
import SchemaDoc.Proofs.Input.Delivery
import SchemaDoc.Proofs.Stream.Observer

/-!
# What the log of every line says

The log of every line has five kinds of lines, and which of them stand there is known from the
content of the schemas alone: `LogLine.ofSchema`. `Run.eventLines_ofSource` says that a run which
comes to its end is recorded in just these lines, and `LogLine.ofContent_output` that the output can
be read off them.
-/

namespace SchemaDoc

/-- A line of the log of every line. -/
inductive LogLine where
  /-- The lines of an input follow. -/
  | banner (path : Path)
  /-- A line came in. -/
  | before (path : Path) (number : Nat) (line : Text)
  /-- A line went out for the one that came in with that number. -/
  | after (path : Path) (number : Nat) (line : Text)
  /-- The input came to its end. -/
  | totals (path : Path) (stats : Stats)
  /-- The input ended in the body of an enum. -/
  | unfinished (path : Path)
  deriving DecidableEq, Repr

/-- The totals of a run over `content`. -/
def Run.totals (content : Bytes) : Stats :=
  let lines := (splitLines content).map Line.ofBytes
  { linesRead := lines.length
    linesWritten := (outputLines content).length
    hoistedComments := (Line.recastAll .outside lines).countP (·.hoisted.isSome)
    endedInsideEnum := (Scope.outside.after lines).isInside }

namespace LogLine

/-- The line as it is written. -/
def text : LogLine → Text
  | banner path => "=== ".toList ++ path.display ++ " ===".toList
  | before path number line =>
    path.display ++ ':' :: Text.ofNat number ++ ": < ".toList ++ line
  | after path number line =>
    path.display ++ ':' :: Text.ofNat number ++ ": > ".toList ++ line
  | totals path stats =>
    path.display ++ ": ".toList ++ Text.ofNat stats.linesRead ++ " lines in, ".toList ++
      Text.ofNat stats.linesWritten ++ " lines out, ".toList ++
      Text.ofNat stats.hoistedComments ++ " comments hoisted".toList
  | unfinished path => path.display ++ ": input ended inside an enum body".toList

/-- The line that went out, if that is what the log says. -/
def output? : LogLine → Option Text
  | after _ _ line => some line
  | _ => none

/-- What is said of lines with the given outcomes, behind line number `n`. -/
def ofOutcomes (path : Path) (n : Nat) : List (Text × Recast) → List LogLine
  | [] => []
  | (line, r) :: outcomes =>
    before path (n + 1) line :: r.lines.map (after path (n + 1)) ++ ofOutcomes path (n + 1) outcomes

/-- What is said at the end of an input. -/
def ofStats (path : Path) (stats : Stats) : List LogLine :=
  totals path stats :: if stats.endedInsideEnum then [unfinished path] else []

/-- What is said of a schema with the given content. -/
def ofContent (path : Path) (content : Bytes) : List LogLine :=
  ofOutcomes path 0 (Source.outcomes { content }) ++ ofStats path (Run.totals content)

/-- What is said of a schema that delivers the given content or cannot be read. -/
def ofSchema (path : Path) : Except StreamError Bytes → List LogLine
  | .ok content => banner path :: ofContent path content
  | .error _ => [banner path]

/-! ### From the events to the lines -/

theorem eventLines_lineEvents (path : Path) (n : Nat) (outcomes : List (Text × Recast)) :
    (Run.lineEvents n outcomes).flatMap (Journal.eventLines path.display) =
      (ofOutcomes path n outcomes).map text := by
  induction outcomes generalizing n with
  | nil => rfl
  | cons outcome outcomes ih =>
    obtain ⟨line, r⟩ := outcome
    have hline : Journal.eventLines path.display (.line (n + 1) line r) =
        (before path (n + 1) line :: r.lines.map (after path (n + 1))).map text := by
      rw [Journal.eventLines, List.map_cons, List.map_map]
      rfl
    rw [Run.lineEvents_cons, List.flatMap_cons, ih, hline, ofOutcomes, List.map_append]

theorem eventLines_finished (path : Path) (stats : Stats) :
    Journal.eventLines path.display (.finished stats) = (ofStats path stats).map text := by
  cases h : stats.endedInsideEnum with
  | true =>
    simp only [Journal.eventLines, ofStats, h, if_true]
    rfl
  | false =>
    simp only [Journal.eventLines, ofStats, h, if_false, Bool.false_eq_true]
    rfl

/-! ### The output in the log -/

theorem filterMap_output?_ofOutcomes (path : Path) (n : Nat) (outcomes : List (Text × Recast)) :
    (ofOutcomes path n outcomes).filterMap output? = Recast.output (outcomes.map Prod.snd) := by
  induction outcomes generalizing n with
  | nil => rfl
  | cons outcome outcomes ih =>
    obtain ⟨line, r⟩ := outcome
    have hlines : (r.lines.map (after path (n + 1))).filterMap output? = r.lines := by
      rw [List.filterMap_map]
      exact List.filterMap_some
    have hbefore : output? (before path (n + 1) line) = none := rfl
    rw [ofOutcomes, List.filterMap_append, List.filterMap_cons_none hbefore, hlines, ih,
      List.map_cons, Recast.output_cons]

/-- **The log holds the output**: the lines that it says went out are those that were written. -/
theorem ofContent_output (path : Path) (content : Bytes) :
    ((ofContent path content).filterMap output?).flatMap LogFile.lineBytes =
      (Run.ofBytes content).written := by
  have hstats : (ofStats path (Run.totals content)).filterMap output? = [] := by
    cases h : (Run.totals content).endedInsideEnum <;> simp [ofStats, h, output?]
  have houtcomes : (Source.outcomes { content }).map Prod.snd =
      Line.recastAll .outside ((splitLines content).map Line.ofBytes) :=
    Source.map_snd_outcomes { content }
  rw [ofContent, List.filterMap_append, hstats, List.append_nil, filterMap_output?_ofOutcomes,
    houtcomes, Recast.output, List.flatMap_assoc]
  exact (Run.ofLines_written rfl (splitLines content)).symm

end LogLine

/-- **A run that comes to its end** is recorded in the lines that the content stands for. -/
theorem Run.eventLines_ofSource {content : Bytes} {sink : Sink} {stats : Stats} (path : Path)
    (h : (ofSource { content } sink).result = .ok stats) :
    (ofSource { content } sink).events.flatMap (Journal.eventLines path.display) =
      (LogLine.ofContent path content).map LogLine.text := by
  obtain ⟨outcomes, hevents, hreplays⟩ :=
    ofLines_observed sink .outside {} none (splitLines content)
  have hresult : (ofLines sink .outside {} none (splitLines content)).result = .ok stats := h
  have hstats : stats = totals content := by
    rw [ofLines_result_eq hresult, Stats.total_eq]
    simp [totals, outputLines]
  rw [hresult, closing, hstats] at hevents
  rw [Replays, hresult] at hreplays
  have houtcomes : outcomes = Source.outcomes { content } := hreplays.1
  have hall : (ofSource { content } sink).events =
      .started :: lineEvents 0 (Source.outcomes { content }) ++ [.finished (totals content)] := by
    rw [← houtcomes]
    exact congrArg (Event.started :: ·) hevents
  rw [hall, List.flatMap_append, List.flatMap_cons, LogLine.eventLines_lineEvents,
    List.flatMap_singleton, LogLine.eventLines_finished, LogLine.ofContent, List.map_append]
  rfl

end SchemaDoc
