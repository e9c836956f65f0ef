import SchemaDoc.Proofs.Line.Code
import SchemaDoc.Proofs.Stream.Lines

/-!
# Line endings do not matter

A line may end in a line feed, in a carriage return and a line feed, or with the input: its text is
the same. So a line feed that is missing at the end of an input can be added, and every line feed
can get a carriage return before it, and a run does not tell the difference. The carriage returns
that come out are those that do not belong to the end of a line. All three are
`ofSource_lineEndings`.
-/

namespace SchemaDoc

/-! ### A last line feed -/

/-- A last line is the same whether or not a line feed ends it. -/
theorem map_ofBytes_splitLines_append_newline {bs : Bytes} (hne : bs ≠ [])
    (hlast : bs.getLast? ≠ some newline) :
    (splitLines (bs ++ [newline])).map Line.ofBytes = (splitLines bs).map Line.ofBytes := by
  induction bs using Bytes.line_induction with
  | nil => exact absurd rfl hne
  | last l _ hl =>
    rw [splitLines_append_newline hl, splitLines_of_notMem hl hne]
    simp [Line.ofBytes_append_newline, Line.ofBytes_of_notMem hl, splitLines]
  | line l rest hl ih =>
    have hrest : rest ≠ [] := by
      rintro rfl
      simp at hlast
    rw [List.getLast?_append_cons, List.getLast?_cons_of_ne_nil hrest] at hlast
    rw [List.append_assoc, List.cons_append, splitLines_append_newline hl,
      splitLines_append_newline hl, List.map_cons, List.map_cons, ih hrest hlast]

/-! ### Carriage returns before line feeds -/

/-- `bs` with a carriage return put in before every line feed. -/
def Bytes.withReturns (bs : Bytes) : Bytes :=
  bs.flatMap fun b => if b = newline then [carriageReturn, newline] else [b]

theorem Bytes.withReturns_of_notMem {l : Bytes} (h : newline ∉ l) : Bytes.withReturns l = l := by
  have hsingle : Bytes.withReturns l = l.flatMap fun b => [b] :=
    List.flatMap_congr fun b hb => if_neg (by rintro rfl; exact h hb)
  rw [hsingle, List.flatMap_singleton']

theorem Bytes.withReturns_append_newline {l : Bytes} (h : newline ∉ l) (rest : Bytes) :
    Bytes.withReturns (l ++ newline :: rest) =
      l ++ [carriageReturn] ++ newline :: Bytes.withReturns rest := by
  have hl := Bytes.withReturns_of_notMem h
  unfold Bytes.withReturns at hl ⊢
  rw [List.flatMap_append, hl, List.flatMap_cons, if_pos rfl]
  simp

/-- A line is the same whether or not a carriage return stands before its line feed. -/
theorem map_ofBytes_splitLines_withReturns {bs : Bytes}
    (h : ¬ [carriageReturn, newline] <:+: bs) :
    (splitLines (Bytes.withReturns bs)).map Line.ofBytes = (splitLines bs).map Line.ofBytes := by
  induction bs using Bytes.line_induction with
  | nil => rfl
  | last l _ hl => rw [Bytes.withReturns_of_notMem hl]
  | line l rest hl ih =>
    have hrest : ¬ [carriageReturn, newline] <:+: rest := fun hstands =>
      h (hstands.trans ⟨l ++ [newline], [], by simp⟩)
    have hreturn : l.getLast? ≠ some carriageReturn := by
      intro hlast
      obtain ⟨front, rfl⟩ := List.getLast?_eq_some_iff.mp hlast
      exact h ⟨front, rest, by simp⟩
    have hl' : newline ∉ l ++ [carriageReturn] := by
      have hne : newline ≠ carriageReturn := by decide
      simp [hl, hne]
    rw [Bytes.withReturns_append_newline hl, splitLines_append_newline hl',
      splitLines_append_newline hl, List.map_cons, List.map_cons, ih hrest,
      Line.ofBytes_append_newline, Line.ofBytes_append_newline,
      Line.body_append_carriageReturn, Line.body_of_getLast?_ne hreturn]

/-! ### Carriage returns that come out -/

/-- The number of carriage returns of `bs` that stand neither right before a line feed nor at the
end. -/
def Bytes.innerReturns (bs : Bytes) : Nat :=
  (List.range bs.length).countP fun i =>
    decide (bs[i]? = some carriageReturn ∧ bs[i + 1]? ≠ some newline ∧ i + 1 ≠ bs.length)

theorem Bytes.innerReturns_cons (b : UInt8) (bs : Bytes) :
    Bytes.innerReturns (b :: bs) =
      (if b = carriageReturn ∧ bs.head? ≠ some newline ∧ bs ≠ [] then 1 else 0) +
        Bytes.innerReturns bs := by
  have hhead : bs[0]? = bs.head? := List.head?_eq_getElem?.symm
  rw [Bytes.innerReturns, List.length_cons, List.range_succ_eq_map, List.countP_cons,
    List.countP_map, Nat.add_comm, Bytes.innerReturns]
  congr 1
  · simp [hhead]
  · refine List.countP_congr fun i _ => ?_
    simp

/-- The carriage returns in the text of a line. -/
theorem Line.count_return_body (l : Bytes) :
    (Line.body l).count '\r' =
      (if l.getLast? = some carriageReturn then l.dropLast else l).count carriageReturn :=
  Utf8.count_decode_ascii carriageReturn_lt _

/-- **One line**: the carriage returns in its text are those that have something else than its end
behind them. -/
theorem Bytes.innerReturns_append {l : Bytes} (hl : newline ∉ l) (tail : Bytes)
    (htail : ∀ b ∈ tail.head?, b = newline) :
    Bytes.innerReturns (l ++ tail) = (Line.body l).count '\r' + Bytes.innerReturns tail := by
  induction l with
  | nil => exact (Nat.zero_add _).symm
  | cons b l ih =>
    simp only [List.mem_cons, not_or] at hl
    rw [List.cons_append, Bytes.innerReturns_cons, ih hl.2, ← Nat.add_assoc]
    congr 1
    rw [Line.count_return_body, Line.count_return_body]
    cases l with
    | nil =>
      -- what follows is the end of the line
      have hend : ¬ (b = carriageReturn ∧ ([] ++ tail).head? ≠ some newline ∧ [] ++ tail ≠ []) := by
        rintro ⟨-, hhead, hne⟩
        cases tail with
        | nil => exact hne rfl
        | cons x tail => exact hhead (congrArg some (htail x rfl))
      rw [if_neg hend]
      by_cases hb : b = carriageReturn <;> simp [hb]
    | cons c l =>
      have hc : c ≠ newline := fun heq => hl.2 (by simp [heq])
      have hinner : (b = carriageReturn ∧ (c :: l ++ tail).head? ≠ some newline ∧
          c :: l ++ tail ≠ []) ↔ b = carriageReturn := by simp [hc]
      simp only [hinner, List.getLast?_cons_cons, List.dropLast_cons_cons]
      rw [← apply_ite (b :: ·), List.count_cons, Nat.add_comm]
      simp only [beq_iff_eq]

/-- The carriage returns in the lines of an input. -/
theorem Bytes.count_return_splitLines (bs : Bytes) :
    ((splitLines bs).map Line.ofBytes).flatten.count '\r' = Bytes.innerReturns bs := by
  induction bs using Bytes.line_induction with
  | nil => rfl
  | last l hne hl =>
    have hinner := Bytes.innerReturns_append hl [] (by simp)
    rw [splitLines_of_notMem hl hne, List.map_singleton, List.flatten_singleton,
      Line.ofBytes_of_notMem hl]
    simpa [Bytes.innerReturns] using hinner.symm
  | line l rest hl ih =>
    have hinner := Bytes.innerReturns_append hl (newline :: rest) (by simp)
    have hnewline : Bytes.innerReturns (newline :: rest) = Bytes.innerReturns rest := by
      have hne : newline ≠ carriageReturn := by decide
      simp [Bytes.innerReturns_cons, hne]
    rw [splitLines_append_newline hl, List.map_cons, List.flatten_cons, List.count_append, ih,
      Line.ofBytes_append_newline, hinner, hnewline]

/-- **A run of lines** gives out a character that no step touches as often as it takes it in. -/
theorem Line.count_recastAll {c : Char} (hc : c ∉ Line.touched) (s : Scope) (lines : List Text) :
    (Recast.output (Line.recastAll s lines)).flatten.count c = lines.flatten.count c := by
  induction lines generalizing s with
  | nil => rfl
  | cons line lines ih =>
    rw [Line.recastAll_cons, Recast.output_cons, List.flatten_append, List.count_append,
      Line.count_recast hc, ih, List.flatten_cons, List.count_append]

theorem Text.count_unlines {c : Char} (hc : c ≠ '\n') (lines : List Text) :
    (Text.unlines lines).count c = lines.flatten.count c := by
  induction lines with
  | nil => rfl
  | cons line lines ih =>
    rw [Text.unlines_cons, List.count_append, List.count_cons_of_ne hc.symm, ih, List.flatten_cons,
      List.count_append]

namespace Run

/-- The carriage returns that are written are those in the lines that are read. -/
theorem count_return_written (bs : Bytes) :
    (ofBytes bs).written.count carriageReturn = Bytes.innerReturns bs := by
  rw [ofBytes_written, Utf8.count_encode_ascii carriageReturn_lt, ← Bytes.count_return_splitLines,
    ← Line.count_recastAll (c := '\r') (by decide) .outside, ← Text.count_unlines (by decide)]
  rfl

/-- **Line endings do not matter.** A run over an input whose last line no line feed ends is the run
over that input with a line feed behind it, and a run over an input without a carriage return right
before a line feed is the run over that input with one before every line feed: the same bytes are
written, the same is told to the observer, the totals or the error are the same, whatever the sink.
And of any input the carriage returns that come out are those that stand neither right before a line
feed nor at the end. -/
theorem ofSource_lineEndings (bs : Bytes) :
    (bs ≠ [] → bs.getLast? ≠ some newline → ∀ sink,
      ofSource { content := bs ++ [newline] } sink = ofSource { content := bs } sink) ∧
    (¬ [carriageReturn, newline] <:+: bs → ∀ sink,
      ofSource { content := Bytes.withReturns bs } sink = ofSource { content := bs } sink) ∧
    (ofBytes bs).written.count carriageReturn = Bytes.innerReturns bs :=
  ⟨fun hne hlast => ofSource_congr (map_ofBytes_splitLines_append_newline hne hlast),
    fun h => ofSource_congr (map_ofBytes_splitLines_withReturns h), count_return_written bs⟩

/-- Two carriage returns stay, one behind a terminator and one at the start of a line, and the sink
has room for five bytes only. -/
theorem ofSource_lineEndings_in_lines :
    let bs := Utf8.encode "a;\rb // c\n\rd".toList
    let sink : Sink := { limit := some 5 }
    ofSource { content := bs ++ [newline] } sink = ofSource { content := bs } sink ∧
    Bytes.withReturns bs = Utf8.encode "a;\rb // c\r\n\rd".toList ∧
    ofSource { content := Bytes.withReturns bs } sink = ofSource { content := bs } sink ∧
    (ofBytes bs).written.count carriageReturn = 2 := by
  intro bs sink
  obtain ⟨hlast, hreturns, hcount⟩ := ofSource_lineEndings bs
  exact ⟨hlast (by decide) (by decide) sink, by decide, hreturns (by decide) sink,
    hcount.trans (by decide)⟩

end Run

end SchemaDoc
