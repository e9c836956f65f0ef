import SchemaDoc.Text.Basic

/-!
# Searching text

`Text.cut? word t` splits `t` around the first occurrence of `word`. `Text.cutBare? word t` does the
same for the first *bare* occurrence: one whose neighbours are not word characters, among the
occurrences met from left to right without overlap.
-/

namespace SchemaDoc

namespace Text

/-- What follows `word` when `t` starts with it. -/
def after? : (word t : Text) → Option Text
  | [], t => some t
  | _ :: _, [] => none
  | w :: word, c :: t => if w = c then after? word t else none

/-- The text before and after the first occurrence of `word`. -/
def cut? (word : Text) : Text → Option (Text × Text)
  | [] => (after? word []).map fun rest => ([], rest)
  | c :: t =>
    match after? word (c :: t) with
    | some rest => some ([], rest)
    | none => (cut? word t).map fun (head, tail) => (c :: head, tail)

/-- The byte offset of the first occurrence of `word`. -/
def find? (word t : Text) : Option Nat := (cut? word t).map fun (head, _) => byteSize head

/-- Word characters are the ASCII letters and digits and the underscore. -/
def isWordChar (c : Char) : Bool := c.isAlphanum || c == '_'

/-- Whether a word that follows `prev` and is followed by `rest` has no word character beside it. -/
def standsFree (prev : Option Char) (rest : Text) : Bool :=
  !prev.any isWordChar && !rest.head?.any isWordChar

/-- `cutBare?` within a text whose part up to and including `prev` is already passed. The next
`skip` characters belong to an occurrence that was not bare, so no occurrence starts there. -/
def cutBareFrom? (word : Text) (prev : Option Char) (skip : Nat) : Text → Option (Text × Text)
  | [] => if word = [] ∧ standsFree prev [] then some ([], []) else none
  | c :: t =>
    let further (skip : Nat) :=
      (cutBareFrom? word (some c) skip t).map fun (head, tail) => (c :: head, tail)
    match skip with
    | skip + 1 => further skip
    | 0 =>
      match after? word (c :: t) with
      | some rest => if standsFree prev rest then some ([], rest) else further (word.length - 1)
      | none => further 0

/-- The text before and after the first bare occurrence of `word`. -/
def cutBare? (word t : Text) : Option (Text × Text) := cutBareFrom? word none 0 t

/-- The byte offset of the first bare occurrence of `word`. -/
def findBare? (word t : Text) : Option Nat := (cutBare? word t).map fun (head, _) => byteSize head

/-! ### What a search result says -/

theorem eq_append_of_after? {word t rest : Text} (h : after? word t = some rest) :
    t = word ++ rest := by
  induction word generalizing t with
  | nil => simpa [after?] using h
  | cons w word ih =>
    cases t with
    | nil => simp [after?] at h
    | cons c t =>
      simp only [after?] at h
      split at h
      · next hwc => simp [hwc, ih h]
      · simp at h

@[simp]
theorem after?_append (word rest : Text) : after? word (word ++ rest) = some rest := by
  induction word with
  | nil => rfl
  | cons w word ih => simp [after?, ih]

/-- The two sides of a cut and the word between them are the text. -/
theorem eq_append_of_cut? {word t head tail : Text} (h : cut? word t = some (head, tail)) :
    t = head ++ word ++ tail := by
  induction t generalizing head with
  | nil =>
    simp only [cut?] at h
    obtain ⟨rest, hrest, heq⟩ := Option.map_eq_some_iff.1 h
    simp only [Prod.mk.injEq] at heq
    obtain ⟨rfl, rfl⟩ := heq
    simpa using eq_append_of_after? hrest
  | cons c t ih =>
    simp only [cut?] at h
    split at h
    · next rest hrest =>
      simp only [Option.some.injEq, Prod.mk.injEq] at h
      obtain ⟨rfl, rfl⟩ := h
      simpa using eq_append_of_after? hrest
    · obtain ⟨⟨front, back⟩, hcut, heq⟩ := Option.map_eq_some_iff.1 h
      simp only [Prod.mk.injEq] at heq
      obtain ⟨rfl, rfl⟩ := heq
      simp [ih hcut]

end Text

end SchemaDoc
