import SchemaDoc.Line.Recast

/-!
# Lines one after the other

What becomes of a sequence of lines, each recast in the scope that the lines before it leave:
`Line.recastAll` gives the outcomes and `Scope.after` the scope behind the last line. Both go along
with the concatenation of lines.
-/

namespace SchemaDoc

/-- The scope behind `lines` when they are recast one after the other from scope `s` on. -/
def Scope.after (s : Scope) (lines : List Text) : Scope :=
  lines.foldl (fun s line => (Line.recast s line).2) s

namespace Scope

@[simp]
theorem after_nil (s : Scope) : s.after [] = s := rfl

@[simp]
theorem after_cons (s : Scope) (line : Text) (lines : List Text) :
    s.after (line :: lines) = (Line.recast s line).2.after lines := rfl

@[simp]
theorem after_append (s : Scope) (lines others : List Text) :
    s.after (lines ++ others) = (s.after lines).after others :=
  List.foldl_append

/-- A closing brace is all that ends the body of an enum. -/
theorem isInside_leave_iff {s : Scope} {m : Markers} :
    (s.leave m).isInside = true ↔ s.isInside = true ∧ m.blockClose = none := by
  cases s <;> cases h : m.blockClose <;> simp [leave, exits, isInside, h]

end Scope

namespace Line

/-- The outcomes of `lines` when they are recast one after the other from scope `s` on. -/
def recastAll (s : Scope) : List Text → List Recast
  | [] => []
  | line :: lines => (recast s line).1 :: recastAll (recast s line).2 lines

@[simp]
theorem recastAll_nil (s : Scope) : recastAll s [] = [] := rfl

@[simp]
theorem recastAll_cons (s : Scope) (line : Text) (lines : List Text) :
    recastAll s (line :: lines) = (recast s line).1 :: recastAll (recast s line).2 lines := rfl

@[simp]
theorem length_recastAll (s : Scope) (lines : List Text) :
    (recastAll s lines).length = lines.length := by
  induction lines generalizing s with
  | nil => rfl
  | cons line lines ih => rw [recastAll_cons, List.length_cons, ih, List.length_cons]

/-- What came before a line matters to it only through the scope. -/
@[simp]
theorem recastAll_append (s : Scope) (lines others : List Text) :
    recastAll s (lines ++ others) = recastAll s lines ++ recastAll (s.after lines) others := by
  induction lines generalizing s with
  | nil => rfl
  | cons line lines ih => rw [List.cons_append, recastAll_cons, ih, recastAll_cons,
      List.cons_append, Scope.after_cons]

/-- Each line is recast in the scope that the lines before it leave. -/
theorem getElem?_recastAll (s : Scope) (lines : List Text) (i : Nat) :
    (recastAll s lines)[i]? =
      lines[i]?.map fun line => (recast (s.after (lines.take i)) line).1 := by
  induction lines generalizing s i with
  | nil => rfl
  | cons line lines ih =>
    cases i with
    | zero => rfl
    | succ i => simp [ih]

end Line

end SchemaDoc
