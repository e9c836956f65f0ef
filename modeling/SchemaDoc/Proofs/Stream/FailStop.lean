import SchemaDoc.Proofs.Stream.Lines
import Mathlib.Data.List.DropRight

/-!
# Runs that fail

A run may be stopped from two sides: the source breaks at some byte, or the sink has room for no
more. What is read up to the break are the lines that are complete (`Source.lines_breaking`), and
what the sink holds is the beginning of what a run over these lines writes when nothing fails. The
sink is to blame if there is more to write than there is room for, wherever the source breaks:
`ofSource_failStop`.
-/

namespace SchemaDoc

/-! ### What is read of a source that breaks -/

/-- What of `bs` stands up to and including its last line feed. -/
def Bytes.terminated (bs : Bytes) : Bytes := bs.rdropWhile (· != newline)

theorem Bytes.terminated_of_notMem {l : Bytes} (h : newline ∉ l) : Bytes.terminated l = [] := by
  rw [Bytes.terminated, List.rdropWhile_eq_nil_iff]
  intro b hb
  simpa using fun heq : b = newline => h (heq ▸ hb)

theorem Bytes.terminated_append_newline (l rest : Bytes) :
    Bytes.terminated (l ++ newline :: rest) = l ++ newline :: Bytes.terminated rest := by
  induction rest using List.reverseRecOn with
  | nil => simp [Bytes.terminated]
  | append_singleton rest b ih =>
    rw [← List.cons_append, ← List.append_assoc]
    unfold Bytes.terminated at ih ⊢
    rw [List.rdropWhile_concat, List.rdropWhile_concat]
    split
    · exact ih
    · simp

/-- The lines that a line feed ends are those of what stands up to the last line feed. -/
theorem filter_splitLines (bs : Bytes) :
    ((splitLines bs).filter fun line => line.getLast? == some newline) =
      splitLines (Bytes.terminated bs) := by
  induction bs using Bytes.line_induction with
  | nil => rfl
  | last l hne h =>
    have hlast : l.getLast? ≠ some newline := fun hlast => h (List.mem_of_getLast? hlast)
    rw [splitLines_of_notMem h hne, Bytes.terminated_of_notMem h]
    simpa [splitLines] using hlast
  | line l rest h ih =>
    rw [splitLines_append_newline h, Bytes.terminated_append_newline,
      splitLines_append_newline h, List.filter_cons_of_pos (by simp), ih]

section LastLine

variable {front last : Bytes}

theorem splitLines_append_last (hfront : front = [] ∨ front.getLast? = some newline)
    (hlast : newline ∉ last) (hne : last ≠ []) :
    splitLines (front ++ last) = splitLines front ++ [last] := by
  rw [splitLines_append_of_getLast? hfront, splitLines_of_notMem hlast hne]

theorem Bytes.terminated_append_last (hfront : front = [] ∨ front.getLast? = some newline)
    (hlast : newline ∉ last) : Bytes.terminated (front ++ last) = front := by
  obtain rfl | hnewline := hfront
  · exact Bytes.terminated_of_notMem hlast
  · obtain ⟨lines, rfl⟩ := List.getLast?_eq_some_iff.mp hnewline
    rw [List.append_assoc, List.singleton_append, Bytes.terminated_append_newline,
      Bytes.terminated_of_notMem hlast]

end LastLine

namespace Source

/-- The source of `input` that breaks at an offset if one is given. -/
def breaking (input : Bytes) : Option (Nat × Fault) → Source
  | none => { content := input }
  | some (n, fault) => failingAt input n fault

/-- What is read of `input` when the source breaks at an offset, if one is given: everything where
the offset is not reached, or else what is complete in front of it. -/
def readable (input : Bytes) : Option (Nat × Fault) → Bytes
  | none => input
  | some (n, _) => if n ≤ input.length then Bytes.terminated (input.take n) else input

/-- The fault that is met behind what is read of `input`. -/
def met (input : Bytes) (failure : Option (Nat × Fault)) : Option Fault :=
  failure.bind fun (n, fault) => if n ≤ input.length then some fault else none

theorem fault_breaking (input : Bytes) (failure : Option (Nat × Fault)) :
    (breaking input failure).fault = met input failure := by
  cases failure with
  | none => rfl
  | some failure =>
    simp only [breaking, failingAt, met, Option.bind_some]
    split <;> rfl

/-- The lines that are read are the lines of what is read. -/
theorem lines_breaking (input : Bytes) (failure : Option (Nat × Fault)) :
    (breaking input failure).lines = splitLines (readable input failure) := by
  cases failure with
  | none => rfl
  | some failure =>
    simp only [breaking, failingAt, readable, lines]
    split
    · exact filter_splitLines _
    · rfl

variable {front last : Bytes}

theorem readable_of_length (hfront : front = [] ∨ front.getLast? = some newline)
    (hlast : newline ∉ last) (fault : Fault) :
    readable (front ++ last) (some ((front ++ last).length, fault)) = front := by
  rw [readable, if_pos (Nat.le_refl _), List.take_length, Bytes.terminated_append_last hfront hlast]

/-- **The last line**, when no line feed ends it, is read if no fault is met. -/
theorem mem_lines_breaking_iff (hfront : front = [] ∨ front.getLast? = some newline)
    (hlast : newline ∉ last) (hne : last ≠ []) (failure : Option (Nat × Fault)) :
    last ∈ (breaking (front ++ last) failure).lines ↔ met (front ++ last) failure = none := by
  rw [lines_breaking]
  have hwhole : last ∈ splitLines (front ++ last) := by
    simp [splitLines_append_last hfront hlast hne]
  -- behind a fault every line that was read ends in a line feed
  have hcut (bs : Bytes) : last ∉ splitLines (Bytes.terminated bs) := by
    rw [← filter_splitLines]
    intro hmem
    exact hlast (List.mem_of_getLast? (by simpa using (List.mem_filter.mp hmem).2))
  cases failure with
  | none => exact iff_of_true hwhole rfl
  | some failure =>
    simp only [readable, met, Option.bind_some]
    split
    · exact iff_of_false (hcut _) (by simp)
    · exact iff_of_true hwhole rfl

end Source

/-! ### What is written and how a run ends -/

namespace Run

/-- **A source that breaks, into any sink.** The run writes what a run over the readable part writes
when nothing fails; behind that come the fault of the source, the flush and the totals. -/
theorem ofSource_breaking_writes (input : Bytes) (failure : Option (Nat × Fault)) (sink : Sink) :
    ∃ stats, (ofBytes (Source.readable input failure)).result = .ok stats ∧
      Writes sink (ofBytes (Source.readable input failure)).written
        (ending (Source.met input failure) stats)
        (ofSource (Source.breaking input failure) sink) := by
  have hsource : ofSource (Source.breaking input failure) sink =
      { ofLines sink .outside {} (Source.met input failure)
          (splitLines (Source.readable input failure)) with
        events := .started :: (ofLines sink .outside {} (Source.met input failure)
          (splitLines (Source.readable input failure))).events } := by
    rw [ofSource, Source.fault_breaking, Source.lines_breaking]
  rw [hsource]
  generalize Source.readable input failure = read
  have hwritten : (ofBytes read).written =
      (Line.recastAll .outside ((splitLines read).map Line.ofBytes)).flatMap Recast.bytes :=
    ofLines_written rfl _
  have hresult : (ofBytes read).result =
      .ok (Stats.total {} (Line.recastAll .outside ((splitLines read).map Line.ofBytes))
        (Scope.outside.after ((splitLines read).map Line.ofBytes))) :=
    ofLines_result rfl rfl _
  have hrun := ofLines_writes sink .outside {} (Source.met input failure) (splitLines read)
  refine ⟨_, hresult, ?_⟩
  rw [hwritten]
  exact ⟨hrun.written_eq, hrun.sink_eq, hrun.result_eq⟩

/-- A sink that holds nothing yet takes what comes first, up to its limit. -/
theorem write_of_held_eq_zero (limit : Option Nat) (refusal : Fault) (bs : Bytes) :
    ({ limit, refusal } : Sink).write bs =
      { accepted := bs.take (min (limit.getD bs.length) bs.length)
        sink := { limit, refusal, held := min (limit.getD bs.length) bs.length }
        fault := if limit.any (· < bs.length) then some refusal else none } := by
  cases limit with
  | none =>
    rw [Sink.write_of_fits _ (by simp)]
    simp
  | some limit =>
    have hfault : (if min limit bs.length = bs.length then none else some refusal) =
        if limit < bs.length then some refusal else none := by
      split <;> split <;> first | rfl | omega
    have htake : bs.take (min limit bs.length) = bs.take limit :=
      List.take_eq_take_iff.mpr (by omega)
    simp only [Sink.write, Sink.accept, Nat.sub_zero, Nat.zero_add, Option.getD_some,
      Option.any_some, decide_eq_true_eq, List.length_take, htake, hfault]

/-- **Fail-stop.** Let a source break at some offset or nowhere, and a sink have room for `limit`
bytes or for any number. The sink ends up with the beginning, as far as there is room, of what a run
over the readable part of the input writes when nothing fails. Not enough room is what the run
reports, or else the fault of the source, or else the totals of that run. A last line that no line
feed ends is lost if and only if the source breaks before it ends. -/
theorem ofSource_failStop (input : Bytes) (failure : Option (Nat × Fault)) (limit : Option Nat)
    (refusal : Fault) :
    let source := Source.breaking input failure
    let full := ofBytes (Source.readable input failure)
    let run := ofSource source { limit, refusal }
    run.written = full.written.take (min (limit.getD full.written.length) full.written.length) ∧
    run.sink.held = run.written.length ∧
    (∃ stats, full.result = .ok stats ∧ run.result =
      if limit.any (· < full.written.length) then .error (.write refusal)
      else match Source.met input failure with
        | some fault => .error (.read fault)
        | none => .ok stats) ∧
    ∀ front last, input = front ++ last → (front = [] ∨ front.getLast? = some newline) →
      newline ∉ last → last ≠ [] → (last ∈ source.lines ↔ Source.met input failure = none) ∧
        ∀ fault, failure = some (input.length, fault) → source.lines = splitLines front := by
  intro source full run
  obtain ⟨stats, hfull, hrun⟩ := ofSource_breaking_writes input failure { limit, refusal }
  have hwrite := write_of_held_eq_zero limit refusal full.written
  refine ⟨?_, ?_, ⟨stats, hfull, ?_⟩, ?_⟩
  · rw [hrun.written_eq, hwrite]
  · rw [hrun.sink_eq, hrun.written_eq, hwrite]
    simp
  · rw [hrun.result_eq, hwrite]
    by_cases hroom : limit.any (· < full.written.length) = true
    · simp only [hroom, if_true]
    · simp only [hroom]
      cases Source.met input failure <;> rfl
  · rintro front last rfl hfront hlast hne
    refine ⟨Source.mem_lines_breaking_iff hfront hlast hne failure, ?_⟩
    rintro fault rfl
    rw [Source.lines_breaking, Source.readable_of_length hfront hlast]

/-- The sink is full in the middle of a character, and the source breaks where it should end. -/
theorem ofSource_failStop_in_character :
    let front := Utf8.encode "enum E \x7b\n A;//é\n".toList
    let source := Source.breaking (front ++ [0x42]) (some ((front ++ [0x42]).length, .isDirectory))
    let run := ofSource source { limit := some 13, refusal := .noSpace }
    front.getLast? = some newline ∧ newline ∉ [(0x42 : UInt8)] ∧
    run.written = Utf8.encode "enum E \x7b\n///".toList ++ [0xC3] ∧ run.sink.held = 13 ∧
    run.result = .error (.write .noSpace) ∧ [0x42] ∉ source.lines ∧
    source.lines = splitLines front := by
  intro front source run
  obtain ⟨hwritten, hheld, ⟨stats, -, hresult⟩, hlast⟩ := ofSource_failStop (front ++ [0x42])
    (some ((front ++ [0x42]).length, .isDirectory)) (some 13) .noSpace
  have hfront : front.getLast? = some newline := by decide
  obtain ⟨hmem, hlines⟩ := hlast front [0x42] rfl (Or.inr hfront) (by decide) (by decide)
  have hbytes := hwritten.trans
    (show _ = Utf8.encode "enum E \x7b\n///".toList ++ [0xC3] by decide)
  exact ⟨hfront, by decide, hbytes, hheld.trans (by rw [hbytes]; decide),
    hresult.trans (if_pos (by decide)), mt hmem.mp (by decide), hlines _ rfl⟩

end Run

end SchemaDoc
