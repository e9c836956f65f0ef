import SchemaDoc.Stream.Run
import SchemaDoc.Proofs.Line.Sequence

/-!
# What a run writes and counts

A run knows its input only through the lines as decoded (`ofLines_congr`). What it writes is what
the sink accepts of the outcomes of these lines, as if they were written at once: `ofLines_writes`.
So into a sink without a limit it writes the outcomes and nothing else, `ofLines_written`, and where
it comes to its end, whatever the sink, its totals are those of the outcomes: `ofLines_result_eq`.
-/

namespace SchemaDoc

/-- The totals behind `stats` when the lines came out as `rs` and left the scope `s`. -/
def Stats.total (stats : Stats) (rs : List Recast) (s : Scope) : Stats :=
  { rs.foldl Stats.addLine stats with endedInsideEnum := s.isInside }

/-! ### Writing piece by piece -/

namespace Sink

variable (s : Sink) {xs : Bytes}

theorem write_fault_eq_none_iff :
    (s.write xs).fault = none ↔ ∀ limit ∈ s.limit, xs.length ≤ limit - s.held := by
  cases hlimit : s.limit with
  | none => simp [write, accept, hlimit]
  | some limit =>
    simp only [write, accept, hlimit, List.length_take, Option.mem_some_iff, forall_eq']
    split <;> simp <;> omega

/-- Data that the sink has room for is accepted. -/
theorem write_of_fits (h : ∀ limit ∈ s.limit, xs.length ≤ limit - s.held) :
    s.write xs = ⟨xs, { s with held := s.held + xs.length }, none⟩ := by
  have haccept : s.accept xs = xs := by
    unfold accept
    split
    · rfl
    · next limit hlimit => exact List.take_of_length_le (h limit hlimit)
  simp [write, haccept]

/-- What is accepted is the beginning of what is written. -/
theorem accepted_write_isPrefix (xs : Bytes) : (s.write xs).accepted <+: xs := by
  simp only [write, accept]
  split
  · exact List.prefix_rfl
  · exact List.take_prefix _ _

@[simp]
theorem write_nil : s.write [] = ⟨[], s, none⟩ :=
  s.write_of_fits fun _ _ => Nat.zero_le _

/-- Behind data that was accepted, the sink goes on. -/
theorem write_append (h : (s.write xs).fault = none) (ys : Bytes) :
    s.write (xs ++ ys) =
      { (s.write xs).sink.write ys with
        accepted := (s.write xs).accepted ++ ((s.write xs).sink.write ys).accepted } := by
  rw [write_fault_eq_none_iff] at h
  rw [s.write_of_fits h]
  cases hlimit : s.limit with
  | none => simp [write, accept, hlimit, Nat.add_assoc]
  | some limit =>
    have hroom := h limit hlimit
    have hrest : limit - (s.held + xs.length) = limit - s.held - xs.length := by omega
    simp [write, accept, hlimit, List.take_append, List.take_of_length_le hroom, hrest,
      Nat.add_assoc]

/-- Behind data that was refused, nothing is accepted. -/
theorem write_append_of_fault {fault : Fault} (h : (s.write xs).fault = some fault) (ys : Bytes) :
    s.write (xs ++ ys) = s.write xs := by
  cases hlimit : s.limit with
  | none => simp [write, accept, hlimit] at h
  | some limit =>
    have hfull : limit - s.held < xs.length := by
      refine Nat.lt_of_not_le fun hroom => ?_
      have hnone : (s.write xs).fault = none :=
        s.write_fault_eq_none_iff.mpr (by simpa [hlimit] using hroom)
      simp [hnone] at h
    have hnone : limit - s.held - xs.length = 0 := by omega
    have hmin : min (limit - s.held) xs.length ≠ xs.length + ys.length := by omega
    have hmin' : min (limit - s.held) xs.length ≠ xs.length := by omega
    simp [write, accept, hlimit, List.take_append, hnone, hmin, hmin']

end Sink

namespace Run

variable {sink : Sink} {s : Scope} {stats : Stats} {fault : Option Fault}

theorem ofLines_congr {raws raws' : List Bytes}
    (h : raws.map Line.ofBytes = raws'.map Line.ofBytes) :
    ofLines sink s stats fault raws = ofLines sink s stats fault raws' := by
  induction raws generalizing raws' sink s stats with
  | nil =>
    obtain rfl : raws' = [] := by simpa using h.symm
    rfl
  | cons raw raws ih =>
    cases raws' with
    | nil => simp at h
    | cons raw' raws' =>
      obtain ⟨hraw, hraws⟩ : Line.ofBytes raw = Line.ofBytes raw' ∧ _ := by simpa using h
      have hrest (sink : Sink) (s : Scope) (stats : Stats) :
          ofLines sink s stats fault raws = ofLines sink s stats fault raws' := ih hraws
      simp only [ofLines, ofLine, hraw, hrest]

/-- Inputs with the same lines are run alike, whatever the sink. -/
theorem ofSource_congr {bs bs' : Bytes}
    (h : (splitLines bs).map Line.ofBytes = (splitLines bs').map Line.ofBytes) (sink : Sink) :
    ofSource { content := bs } sink = ofSource { content := bs' } sink := by
  have hlines : ofLines sink .outside {} none (splitLines bs) =
      ofLines sink .outside {} none (splitLines bs') := ofLines_congr h
  exact congrArg (fun run => { run with events := .started :: run.events }) hlines

/-! ### Lines into a sink -/

/-- The run writes `out` as far as there is room and, where there is room for all of it, ends as
`last` says. -/
structure Writes (sink : Sink) (out : Bytes) (last : Sink → Except StreamError Stats) (run : Run) :
    Prop where
  /-- What the sink accepts is what it accepts of `out`. -/
  written_eq : run.written = (sink.write out).accepted
  /-- The sink is as `out` leaves it. -/
  sink_eq : run.sink = (sink.write out).sink
  /-- A refusal comes before everything else that may end the run. -/
  result_eq : run.result = match (sink.write out).fault with
    | some refusal => .error (.write refusal)
    | none => last (sink.write out).sink

/-- What a line does to a run: its output is refused, or the run goes on behind it. -/
theorem ofLine_cases {after : Recast} {next : Scope} {raw : Bytes}
    (hrecast : Line.recast s (Line.ofBytes raw) = (after, next))
    (rest : Event → Sink → Scope → Stats → Run) :
    let event := Event.line (stats.linesRead + 1) (Line.ofBytes raw) after
    let output := sink.write after.bytes
    let run := rest event output.sink next (stats.addLine after)
    (∃ refusal, output.fault = some refusal ∧ ofLine sink s stats raw rest =
      { written := output.accepted, events := [event], sink := output.sink
        result := .error (.write refusal) }) ∨
    (output.fault = none ∧ ofLine sink s stats raw rest =
      { run with written := output.accepted ++ run.written, events := event :: run.events }) := by
  simp only [ofLine, hrecast]
  cases (sink.write after.bytes).fault with
  | some refusal => exact Or.inl ⟨refusal, rfl, rfl⟩
  | none => exact Or.inr ⟨rfl, rfl⟩

/-- **One line** is written in front of what follows it. -/
theorem ofLine_writes {after : Recast} {next : Scope} {raw out : Bytes}
    (hrecast : Line.recast s (Line.ofBytes raw) = (after, next))
    {rest : Event → Sink → Scope → Stats → Run} {last : Sink → Except StreamError Stats}
    (h : ∀ event sink, Writes sink out last (rest event sink next (stats.addLine after))) :
    Writes sink (after.bytes ++ out) last (ofLine sink s stats raw rest) := by
  obtain ⟨refusal, hfault, hline⟩ | ⟨hfault, hline⟩ := ofLine_cases hrecast rest
  · rw [hline]
    have hwrite := sink.write_append_of_fault hfault out
    exact ⟨by rw [hwrite], by rw [hwrite], by rw [hwrite, hfault]⟩
  · rw [hline]
    have hrest := h (.line (stats.linesRead + 1) (Line.ofBytes raw) after)
      (sink.write after.bytes).sink
    have hwrite := sink.write_append hfault out
    exact ⟨by rw [hwrite, hrest.written_eq], by rw [hwrite, hrest.sink_eq],
      by rw [hwrite, hrest.result_eq]⟩

/-- How a run with the totals `stats` ends when there was room for all that it writes. -/
def ending (fault : Option Fault) (stats : Stats) (sink : Sink) : Except StreamError Stats :=
  match fault, sink.flush with
  | some fault, _ => .error (.read fault)
  | none, some fault => .error (.write fault)
  | none, none => .ok stats

theorem finish_writes (sink : Sink) (s : Scope) (stats : Stats) (fault : Option Fault) :
    Writes sink [] (ending fault { stats with endedInsideEnum := s.isInside })
      (finish sink s stats fault) := by
  unfold finish
  cases fault with
  | some fault => exact ⟨by simp, by simp, by simp [ending]⟩
  | none =>
    cases hflush : sink.flush with
    | some fault => exact ⟨by simp, by simp, by simp [ending, hflush]⟩
    | none => exact ⟨by simp, by simp, by simp [ending, hflush]⟩

/-- **The lines of a run** are written one after the other; its end comes behind them all. -/
theorem ofLines_writes (sink : Sink) (s : Scope) (stats : Stats) (fault : Option Fault)
    (raws : List Bytes) :
    Writes sink ((Line.recastAll s (raws.map Line.ofBytes)).flatMap Recast.bytes)
      (ending fault (stats.total (Line.recastAll s (raws.map Line.ofBytes))
        (s.after (raws.map Line.ofBytes))))
      (ofLines sink s stats fault raws) := by
  induction raws generalizing sink s stats with
  | nil => exact finish_writes sink s stats fault
  | cons raw raws ih => exact ofLine_writes rfl fun _ sink => ih sink _ _

/-- **A run writes the outcomes of its lines** where the sink has room. -/
theorem ofLines_written (h : sink.limit = none) (raws : List Bytes) :
    (ofLines sink s stats fault raws).written =
      (Line.recastAll s (raws.map Line.ofBytes)).flatMap Recast.bytes := by
  rw [(ofLines_writes sink s stats fault raws).written_eq, sink.write_of_fits (by simp [h])]

/-- A run comes to its end where the sink has room and the source and the flush do not fail. -/
theorem ofLines_result (h : sink.limit = none) (hflush : sink.flushing = .succeeds)
    (raws : List Bytes) :
    (ofLines sink s stats none raws).result =
      .ok (stats.total (Line.recastAll s (raws.map Line.ofBytes))
        (s.after (raws.map Line.ofBytes))) := by
  rw [(ofLines_writes sink s stats none raws).result_eq, sink.write_of_fits (by simp [h])]
  simp [ending, Sink.flush, hflush]

theorem ending_eq_ok {total : Stats} (h : ending fault stats sink = .ok total) : total = stats := by
  unfold ending at h
  split at h
  · cases h
  · cases h
  · exact (Except.ok.inj h).symm

/-- The totals of a run that comes to its end are those of its lines, whatever the sink. -/
theorem ofLines_result_eq {raws : List Bytes} {total : Stats}
    (h : (ofLines sink s stats fault raws).result = .ok total) :
    total = stats.total (Line.recastAll s (raws.map Line.ofBytes))
      (s.after (raws.map Line.ofBytes)) := by
  rw [(ofLines_writes sink s stats fault raws).result_eq] at h
  split at h
  · cases h
  · exact ending_eq_ok h

/-- And it has written all their outcomes. -/
theorem ofLines_written_eq {raws : List Bytes} {total : Stats}
    (h : (ofLines sink s stats fault raws).result = .ok total) :
    (ofLines sink s stats fault raws).written =
      (Line.recastAll s (raws.map Line.ofBytes)).flatMap Recast.bytes := by
  have hwrites := ofLines_writes sink s stats fault raws
  rw [hwrites.result_eq] at h
  split at h
  · cases h
  · next hfault =>
    rw [hwrites.written_eq, sink.write_of_fits (sink.write_fault_eq_none_iff.mp hfault)]

end Run

end SchemaDoc
