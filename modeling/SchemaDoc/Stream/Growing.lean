import SchemaDoc.Stream.Run

/-!
# Runs over an input that grows

The lines of a run may be logged to the very file that it reads. Then every event of the run adds
lines to its input, which come in again. Such a run has no end of its own. It ends when the sink
refuses the output, and a sink with a limit does so in time, because no line goes out without a
byte: `ofGrowing_result_ne_endless`. With a sink that takes everything the run is given up before it
starts.
-/

namespace SchemaDoc

namespace Run

/-- A run over lines to which every event adds those of `growth`, given up after so many lines. -/
def ofGrowingLines (growth : Event → List Bytes) : Nat → Sink → Scope → Stats → List Bytes → Run
  | 0, sink, _, _, _ => { written := [], events := [], sink, result := .error .endless }
  | _ + 1, sink, s, stats, [] => finish sink s stats none
  | n + 1, sink, s, stats, raw :: lines =>
    ofLine sink s stats raw fun event sink s stats =>
      ofGrowingLines growth n sink s stats (lines ++ growth event)

/-- A run from `source`, to which every event adds the lines of `growth`, to `sink`. -/
def ofGrowing (source : Source) (growth : Event → List Bytes) (sink : Sink) : Run :=
  match sink.limit with
  | none => { written := [], events := [], sink, result := .error .endless }
  | some limit =>
    let lines := source.lines ++ growth .started
    let run := ofGrowingLines growth (limit - sink.held + 1) sink .outside {} lines
    { run with events := .started :: run.events }

/-! ### Runs into a sink with a limit end -/

theorem finish_result_ne_endless (sink : Sink) (s : Scope) (stats : Stats) (fault : Option Fault) :
    (finish sink s stats fault).result ≠ .error .endless := by
  unfold finish
  split
  · simp
  · split <;> simp

/-- A line and what follows it are given up only where what follows is. -/
theorem ofLine_result_ne_endless {sink : Sink} {s : Scope} {stats : Stats} {raw : Bytes}
    {rest : Event → Sink → Scope → Stats → Run}
    (h : ∀ event next s stats, next.limit = sink.limit →
      (∀ limit, sink.limit = some limit → sink.held < next.held ∧ next.held ≤ limit) →
      (rest event next s stats).result ≠ .error .endless) :
    (ofLine sink s stats raw rest).result ≠ .error .endless := by
  unfold ofLine
  dsimp only
  split
  · simp
  · next hfault =>
    refine h _ _ _ _ rfl fun limit hlimit => ?_
    have hpos := Recast.bytes_length_pos (Line.recast s (Line.ofBytes raw)).1
    simp only [Sink.write, Sink.accept, hlimit, List.length_take] at hfault ⊢
    split at hfault
    · omega
    · simp at hfault

theorem ofGrowingLines_result_ne_endless (growth : Event → List Bytes) {limit n : Nat} {sink : Sink}
    {s : Scope} {stats : Stats} {lines : List Bytes} (hlimit : sink.limit = some limit)
    (hn : limit - sink.held < n) :
    (ofGrowingLines growth n sink s stats lines).result ≠ .error .endless := by
  induction n generalizing sink s stats lines with
  | zero => omega
  | succ n ih =>
    cases lines with
    | nil => exact finish_result_ne_endless _ _ _ _
    | cons raw lines =>
      refine ofLine_result_ne_endless fun event next s stats hnext hheld => ?_
      have := hheld limit hlimit
      exact ih (hnext.trans hlimit) (by omega)

/-- A run into a sink with a limit is not given up. -/
theorem ofGrowing_result_ne_endless (source : Source) (growth : Event → List Bytes) {sink : Sink}
    {limit : Nat} (h : sink.limit = some limit) :
    (ofGrowing source growth sink).result ≠ .error .endless := by
  simp only [ofGrowing, h]
  exact ofGrowingLines_result_ne_endless growth h (by omega)

end Run

end SchemaDoc
