import SchemaDoc.Path
import Mathlib.Data.List.Basic

/-!
# The file name of a path

Of the parts between the separators of a path, those that are empty or a `.` have no influence on
its file name. The others are its `landmarks`; the file name is the last of them unless that is
`..`, `fileName?_eq`. The landmarks of two paths with a separator between them are those of the one
and then those of the other, which says what becomes of the file name when a path is continued.

`fileName?_eq_none_iff` reads off the bytes of a path that it has none: what is left behind when
separators, and each `.` behind a separator, are taken off its end.
-/

namespace SchemaDoc

namespace Path

/-! ### Parts -/

theorem splitParts_ne_nil (bs : Bytes) : splitParts bs ≠ [] := by
  cases bs with
  | nil => exact List.cons_ne_nil _ _
  | cons b bs =>
    rw [splitParts, List.foldr_cons]
    split
    · exact List.cons_ne_nil _ _
    · split <;> exact List.cons_ne_nil _ _

theorem splitParts_separator_cons (bs : Bytes) :
    splitParts (separator :: bs) = [] :: splitParts bs := rfl

theorem splitParts_cons_of_ne {b : UInt8} (h : b ≠ separator) (bs : Bytes) :
    ∃ part parts, splitParts bs = part :: parts ∧
      splitParts (b :: bs) = (b :: part) :: parts := by
  obtain ⟨part, parts, hparts⟩ := List.exists_cons_of_ne_nil (splitParts_ne_nil bs)
  refine ⟨part, parts, hparts, ?_⟩
  rw [splitParts, List.foldr_cons, if_neg h, ← splitParts, hparts]

/-- The parts on both sides of a separator are split apart. -/
theorem splitParts_append (as bs : Bytes) :
    splitParts (as ++ separator :: bs) = splitParts as ++ splitParts bs := by
  induction as with
  | nil => rfl
  | cons a as ih =>
    by_cases ha : a = separator
    · subst ha
      rw [List.cons_append, splitParts_separator_cons, splitParts_separator_cons, ih]
      rfl
    · obtain ⟨part, parts, hparts, hcons⟩ := splitParts_cons_of_ne ha as
      obtain ⟨part', parts', hparts', hcons'⟩ := splitParts_cons_of_ne ha (as ++ separator :: bs)
      rw [ih, hparts] at hparts'
      obtain ⟨rfl, rfl⟩ := List.cons.inj hparts'
      rw [List.cons_append, hcons', hcons]
      rfl

theorem splitParts_of_notMem {bs : Bytes} (h : separator ∉ bs) : splitParts bs = [bs] := by
  induction bs with
  | nil => rfl
  | cons b bs ih =>
    obtain ⟨hb, hbs⟩ : b ≠ separator ∧ separator ∉ bs := by simpa [eq_comm] using h
    obtain ⟨part, parts, hparts, hcons⟩ := splitParts_cons_of_ne hb bs
    rw [ih hbs] at hparts
    obtain ⟨rfl, rfl⟩ := List.cons.inj hparts
    exact hcons

/-- A part has bytes of the path, with no separator among them. -/
theorem of_mem_splitParts {part bs : Bytes} (h : part ∈ splitParts bs) :
    separator ∉ part ∧ part ⊆ bs := by
  induction bs generalizing part with
  | nil =>
    obtain rfl : part = [] := List.mem_singleton.mp h
    exact ⟨List.not_mem_nil, List.nil_subset _⟩
  | cons b bs ih =>
    by_cases hb : b = separator
    · subst hb
      rcases List.mem_cons.mp h with rfl | h
      · exact ⟨List.not_mem_nil, List.nil_subset _⟩
      · exact ⟨(ih h).1, List.subset_cons_of_subset _ (ih h).2⟩
    · obtain ⟨first, parts, hparts, hcons⟩ := splitParts_cons_of_ne hb bs
      rw [hparts] at ih
      rw [hcons] at h
      rcases List.mem_cons.mp h with rfl | h
      · obtain ⟨hseparator, hsubset⟩ := ih List.mem_cons_self
        exact ⟨by simp [hseparator, Ne.symm hb], List.cons_subset_cons _ hsubset⟩
      · obtain ⟨hseparator, hsubset⟩ := ih (List.mem_cons_of_mem _ h)
        exact ⟨hseparator, List.subset_cons_of_subset _ hsubset⟩

/-! ### Landmarks -/

/-- The parts of a path that are neither empty nor a `.`. -/
def landmarks (bs : Bytes) : List Bytes := (names ⟨bs⟩).filter fun part => part != here

theorem landmarks_append (as bs : Bytes) :
    landmarks (as ++ separator :: bs) = landmarks as ++ landmarks bs := by
  simp only [landmarks, names, splitParts_append, List.filter_append]

theorem landmarks_of_notMem {bs : Bytes} (h : separator ∉ bs) :
    landmarks bs = if bs = [] ∨ bs = here then [] else [bs] := by
  simp only [landmarks, names, splitParts_of_notMem h]
  by_cases hnil : bs = []
  · simp [hnil]
  · by_cases hhere : bs = here
    · simp [hhere, here]
    · simp [hnil, hhere]

theorem landmarks_append_separator (bs : Bytes) : landmarks (bs ++ [separator]) = landmarks bs :=
  (landmarks_append bs []).trans (List.append_nil _)

theorem landmarks_append_here (bs : Bytes) : landmarks (bs ++ separator :: here) = landmarks bs :=
  (landmarks_append bs here).trans (List.append_nil _)

/-- The components of a path are its landmarks, perhaps with the root or a `.` in front. -/
theorem exists_components_eq (p : Path) : ∃ start : List Component,
    p.components = start ++ (landmarks p.bytes).map Component.ofPart ∧
      (start = [.root] ∨ start = [.here] ∨ start = []) := by
  unfold components
  dsimp only
  split
  · exact ⟨[.root], rfl, .inl rfl⟩
  · split
    · exact ⟨[.here], rfl, .inr (.inl rfl)⟩
    · exact ⟨[], rfl, .inr (.inr rfl)⟩

/-- The file name of a path with the given last landmark. -/
def nameOf (part : Bytes) : Option Bytes := if part = up then none else some part

/-- **The file name** is the last landmark, unless that is `..`. -/
theorem fileName?_eq (p : Path) : p.fileName? = (landmarks p.bytes).getLast?.bind nameOf := by
  obtain ⟨start, hcomponents, hstart⟩ := p.exists_components_eq
  rw [fileName?, hcomponents]
  rcases List.eq_nil_or_concat' (landmarks p.bytes) with hnone | ⟨others, part, hlast⟩
  · rcases hstart with rfl | rfl | rfl <;> simp [hnone]
  · rw [hlast, List.map_append, ← List.append_assoc]
    simp only [List.map_singleton, List.getLast?_concat, Option.bind_some, Component.ofPart, nameOf]
    by_cases hup : part = up <;> simp [hup]

/-- A path that is continued by one with a file name gets that file name. -/
theorem fileName?_append {p : Bytes} (h : fileName? ⟨p⟩ ≠ none) (d : Bytes) :
    fileName? ⟨d ++ separator :: p⟩ = fileName? ⟨p⟩ := by
  have hlandmarks : landmarks p ≠ [] := by
    intro hnone
    simp [fileName?_eq, hnone] at h
  rw [fileName?_eq, fileName?_eq, landmarks_append, List.getLast?_append_of_ne_nil _ hlandmarks]

/-! ### The end of a path -/

/-- What is left of a path when separators, and each `.` behind a separator, are taken off its end
as long as there are any. -/
def stem (bs : Bytes) : Bytes :=
  if [separator] <:+ bs then stem (bs.take (bs.length - 1))
  else if separator :: here <:+ bs then stem (bs.take (bs.length - 2))
  else bs
termination_by bs.length
decreasing_by
  all_goals
    next h =>
    have := h.length_le
    simp_all [here]
    omega

theorem eq_take_append {as bs : Bytes} (h : as <:+ bs) :
    bs = bs.take (bs.length - as.length) ++ as := by
  obtain ⟨cs, rfl⟩ := h
  simp

/-- What is taken off the end of a path holds no landmark. -/
theorem landmarks_stem (bs : Bytes) : landmarks (stem bs) = landmarks bs := by
  fun_induction stem bs with
  | case1 bs h ih =>
    rw [ih]
    conv_rhs => rw [eq_take_append h]
    exact (landmarks_append_separator _).symm
  | case2 bs _ h ih =>
    rw [ih]
    conv_rhs => rw [eq_take_append h]
    exact (landmarks_append_here _).symm
  | case3 bs => rfl

/-- All that can be is taken off. -/
theorem stem_not_suffix (bs : Bytes) :
    ¬ [separator] <:+ stem bs ∧ ¬ separator :: here <:+ stem bs := by
  fun_induction stem bs with
  | case1 bs h ih => exact ih
  | case2 bs _ h ih => exact ih
  | case3 bs hseparator hhere => exact ⟨hseparator, hhere⟩

/-- The last of the parts of a path, and what stands before it. -/
theorem exists_last_part (bs : Bytes) :
    separator ∉ bs ∨ ∃ as part, bs = as ++ separator :: part ∧ separator ∉ part := by
  by_cases h : separator ∈ bs
  · obtain ⟨part, as, hreverse, hpart⟩ := List.eq_append_cons_of_mem (List.mem_reverse.mpr h)
    refine .inr ⟨as.reverse, part.reverse, ?_, by simpa using hpart⟩
    have := congrArg List.reverse hreverse
    simpa using this
  · exact .inl h

/-- Only the last part follows a separator and holds none. -/
theorem separator_suffix_iff {as part last : Bytes} (hpart : separator ∉ part)
    (hlast : separator ∉ last) : separator :: last <:+ as ++ separator :: part ↔ last = part := by
  have hcons {p q : Bytes} (hq : separator ∉ q) (h : separator :: p <:+ separator :: q) :
      p = q := by
    rcases List.suffix_cons_iff.mp h with heq | hsuffix
    · exact List.tail_eq_of_cons_eq heq
    · exact absurd (hsuffix.subset List.mem_cons_self) hq
  constructor
  · intro h
    rcases List.suffix_or_suffix_of_suffix h (List.suffix_append as _) with h | h
    · exact hcons hpart h
    · exact (hcons hlast h).symm
  · rintro rfl
    exact List.suffix_append as _

/-- **A path without a file name**: nothing is left of it, or a `.`, or something whose last part is
a `..`, when all that can be is taken off its end. -/
theorem fileName?_eq_none_iff (bs : Bytes) : fileName? ⟨bs⟩ = none ↔
    stem bs = [] ∨ stem bs = here ∨ stem bs = up ∨ separator :: up <:+ stem bs := by
  rw [fileName?_eq, ← landmarks_stem]
  obtain ⟨hseparator, hhere⟩ := stem_not_suffix bs
  generalize stem bs = left at *
  rcases exists_last_part left with hpart | ⟨as, part, rfl, hpart⟩
  · have hnot : ¬ separator :: up <:+ left := fun h => hpart (h.subset List.mem_cons_self)
    rw [landmarks_of_notMem hpart]
    by_cases hdrop : left = [] ∨ left = here
    · rw [if_pos hdrop]
      refine iff_of_true rfl ?_
      tauto
    · rw [if_neg hdrop, List.getLast?_singleton, Option.bind_some, nameOf]
      by_cases hup : left = up <;> simp_all
  · have hnil : part ≠ [] := by
      rintro rfl
      exact hseparator (List.suffix_append as _)
    have hne : part ≠ here := by
      rintro rfl
      exact hhere (List.suffix_append as _)
    have hmem : separator ∈ as ++ separator :: part := by simp
    rw [landmarks_append, landmarks_of_notMem hpart, if_neg (by tauto), List.getLast?_concat,
      Option.bind_some, nameOf, separator_suffix_iff hpart (by decide)]
    constructor
    · intro h
      have hup : part = up := by
        by_contra hne
        simp [hne] at h
      exact .inr (.inr (.inr hup.symm))
    · rintro (h | h | h | rfl)
      · rw [h] at hmem
        cases hmem
      · rw [h] at hmem
        exact absurd hmem (by decide)
      · rw [h] at hmem
        exact absurd hmem (by decide)
      · exact if_pos rfl

end Path

end SchemaDoc
