import SchemaDoc.Proofs.Stream.LineCount

/-!
# Inputs one behind the other

Where an input stops at the end of a line, more input can follow it. A run over both is a run over
the first and, behind it, a run over the second that starts where the first one stopped:
`Run.ofBytes_append`. All that the second needs to know of the first is whether it stopped in the
body of an enum, so that two first parts with the same answer cannot be told apart by what follows
them, and one that stopped outside might as well not be there: `Run.ofBytes_composes`.
-/

namespace SchemaDoc

/-- The totals of two inputs, the second read behind the first. -/
def Stats.followedBy (first second : Stats) : Stats where
  linesRead := first.linesRead + second.linesRead
  linesWritten := first.linesWritten + second.linesWritten
  hoistedComments := first.hoistedComments + second.hoistedComments
  endedInsideEnum := second.endedInsideEnum

/-- The totals of all outcomes are those of the first and the last of them together. -/
theorem Stats.total_append (rs qs : List Recast) (s s' : Scope) :
    Stats.total {} (rs ++ qs) s' = (Stats.total {} rs s).followedBy (Stats.total {} qs s') := by
  simp [Stats.total_eq, followedBy]

/-- The scope behind an input, by whether it ended in the body of an enum. -/
def Scope.ofInside (inside : Bool) : Scope := if inside then enumBody else outside

@[simp]
theorem Scope.ofInside_isInside (s : Scope) : ofInside s.isInside = s := by
  cases s <;> rfl

namespace Run

/-- A run over `bs` in which nothing fails, behind an input that ended in the body of an enum or
not. -/
def resume (inside : Bool) (bs : Bytes) : Run :=
  ofLines {} (.ofInside inside) {} none (splitLines bs)

theorem resume_written (inside : Bool) (bs : Bytes) :
    (resume inside bs).written =
      (Line.recastAll (.ofInside inside) ((splitLines bs).map Line.ofBytes)).flatMap Recast.bytes :=
  ofLines_written rfl _

theorem resume_result (inside : Bool) (bs : Bytes) :
    (resume inside bs).result =
      .ok (Stats.total {} (Line.recastAll (.ofInside inside) ((splitLines bs).map Line.ofBytes))
        ((Scope.ofInside inside).after ((splitLines bs).map Line.ofBytes))) :=
  ofLines_result rfl rfl _

/-- A run that resumes outside of any enum is a run from the start, but for its first event. -/
theorem resume_false (bs : Bytes) :
    (resume false bs).written = (ofBytes bs).written ∧
      (resume false bs).result = (ofBytes bs).result :=
  ⟨rfl, rfl⟩

variable {inside : Bool} {a : Bytes} {total : Stats}

/-- **Two inputs** come out one behind the other, the second as the first leaves the scope. -/
theorem resume_append (ha : a = [] ∨ a.getLast? = some newline)
    (htotal : (resume inside a).result = .ok total) (b : Bytes) :
    (resume inside (a ++ b)).written =
      (resume inside a).written ++ (resume total.endedInsideEnum b).written ∧
    ∃ more, (resume total.endedInsideEnum b).result = .ok more ∧
      (resume inside (a ++ b)).result = .ok (total.followedBy more) := by
  rw [resume_result, Except.ok.injEq] at htotal
  subst htotal
  have hlines : (splitLines (a ++ b)).map Line.ofBytes =
      (splitLines a).map Line.ofBytes ++ (splitLines b).map Line.ofBytes := by
    rw [splitLines_append_of_getLast? ha, List.map_append]
  have hscope (rs : List Recast) (s : Scope) :
      Scope.ofInside (Stats.total {} rs s).endedInsideEnum = s := s.ofInside_isInside
  refine ⟨?_, _, resume_result _ b, ?_⟩
  · rw [resume_written, resume_written, resume_written, hscope, hlines, Line.recastAll_append,
      List.flatMap_append]
  · rw [resume_result, hscope, hlines, Line.recastAll_append, Scope.after_append,
      Stats.total_append]

/-- **An input behind another** comes out behind it. -/
theorem ofBytes_append (ha : a = [] ∨ a.getLast? = some newline)
    (htotal : (ofBytes a).result = .ok total) (b : Bytes) :
    (ofBytes (a ++ b)).written =
      (ofBytes a).written ++ (resume total.endedInsideEnum b).written ∧
    ∃ more, (resume total.endedInsideEnum b).result = .ok more ∧
      (ofBytes (a ++ b)).result = .ok (total.followedBy more) := by
  simp only [← resume_false] at htotal ⊢
  exact resume_append ha htotal b

/-- **Inputs compose at the ends of lines, through one bit.** Let `a` be empty or end in a line
feed. Whatever follows it comes out behind what comes out of `a`, and adds to its totals. What that
is, and how much, is the same behind every other such input that ends in the body of an enum if and
only if `a` does, and if `a` does not, it is what comes of `b` alone. -/
theorem ofBytes_composes (ha : a = [] ∨ a.getLast? = some newline) (b : Bytes) :
    ∃ (total more : Stats) (x : Bytes), (ofBytes a).result = .ok total ∧
      (ofBytes (a ++ b)).written = (ofBytes a).written ++ x ∧
      (ofBytes (a ++ b)).result = .ok (total.followedBy more) ∧
      (∀ a' total', (a' = [] ∨ a'.getLast? = some newline) → (ofBytes a').result = .ok total' →
        total'.endedInsideEnum = total.endedInsideEnum →
        (ofBytes (a' ++ b)).written = (ofBytes a').written ++ x ∧
        (ofBytes (a' ++ b)).result = .ok (total'.followedBy more)) ∧
      (total.endedInsideEnum = false →
        x = (ofBytes b).written ∧ (ofBytes b).result = .ok more) := by
  have htotal : (ofBytes a).result = .ok _ := resume_result false a
  obtain ⟨hwritten, more, hmore, hresult⟩ := ofBytes_append ha htotal b
  refine ⟨_, more, _, htotal, hwritten, hresult, ?_, ?_⟩
  · intro a' total' ha' htotal' hinside
    obtain ⟨hwritten', more', hmore', hresult'⟩ := ofBytes_append ha' htotal' b
    rw [hinside] at hwritten' hmore'
    obtain rfl : more' = more := Except.ok.inj (hmore'.symm.trans hmore)
    exact ⟨hwritten', hresult'⟩
  · intro hinside
    rw [hinside, (resume_false b).2] at hmore
    rw [hinside, (resume_false b).1]
    exact ⟨rfl, hmore⟩

/-- The body of an enum goes on behind two different openings of it. -/
theorem ofBytes_composes_in_enum :
    let a := Utf8.encode "enum E \x7b\n".toList
    let a' := Utf8.encode "\x7d // x\nenum F\n".toList
    let b := Utf8.encode " A; // y\n\x7d".toList
    ∃ (total total' more : Stats) (x : Bytes), total.endedInsideEnum = true ∧
      (ofBytes a).result = .ok total ∧ (ofBytes a').result = .ok total' ∧
      x = Utf8.encode " /// y\n A,\n\x7d\n".toList ∧
      more = { linesRead := 2, linesWritten := 3, hoistedComments := 1 } ∧
      (ofBytes (a ++ b)).written = (ofBytes a).written ++ x ∧
      (ofBytes (a' ++ b)).written = (ofBytes a').written ++ x ∧
      (ofBytes (a' ++ b)).result = .ok (total'.followedBy more) := by
  intro a a' b
  have ha : (ofBytes a).result =
      .ok { linesRead := 1, linesWritten := 1, endedInsideEnum := true } := by rfl
  have ha' : (ofBytes a').result =
      .ok { linesRead := 2, linesWritten := 2, endedInsideEnum := true } := by rfl
  obtain ⟨total, more, x, htotal, hwritten, hresult, hother, -⟩ :=
    ofBytes_composes (a := a) (Or.inr (by decide)) b
  obtain rfl : total = _ := Except.ok.inj (htotal.symm.trans ha)
  obtain ⟨hwritten', hresult'⟩ := hother a' _ (Or.inr (by decide)) ha' rfl
  have hx : x = Utf8.encode " /// y\n A,\n\x7d\n".toList := by
    refine List.append_cancel_left (hwritten.symm.trans ?_)
    decide
  have hmore : more = { linesRead := 2, linesWritten := 3, hoistedComments := 1 } := by
    have hall : (ofBytes (a ++ b)).result =
        .ok { linesRead := 3, linesWritten := 4, hoistedComments := 1 } := by rfl
    have hsum := Except.ok.inj (hresult.symm.trans hall)
    cases more
    simp only [Stats.followedBy, Stats.mk.injEq] at hsum ⊢
    obtain ⟨hread, hlines, hhoisted, hinside⟩ := hsum
    exact ⟨by omega, by omega, by omega, hinside⟩
  exact ⟨_, _, more, x, rfl, htotal, ha', hx, hmore, hwritten, hwritten', hresult'⟩

end Run

end SchemaDoc
