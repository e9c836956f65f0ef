import Mathlib.Computability.Language
import SchemaDoc.Glob.Basic

/-!
# The language of a glob

The names that a glob describes are a language over bytes, `Glob.language`. Matching is sound and
complete for it: `accepts_iff_mem_language`. The proof follows the glob. A place is marked behind a
glob if and only if some piece of the name that is in the language of the glob lies between a place
marked before and this one, which is said of all pieces at once by cutting the name in two:
`reach_iff`.
-/

namespace SchemaDoc

namespace ByteSet

@[simp]
theorem contains_single (b c : UInt8) : (single b).contains c ↔ c = b := by
  have hanti : b ≤ c ∧ c ≤ b ↔ c = b := by
    constructor
    · rintro ⟨hbc, hcb⟩
      exact UInt8.le_antisymm hcb hbc
    · rintro rfl
      exact ⟨UInt8.le_refl _, UInt8.le_refl _⟩
  simpa [single, contains] using hanti

@[simp]
theorem contains_all (b : UInt8) : all.contains b := by
  have hlast : b ≤ 255 := UInt8.le_iff_toNat_le.mpr (Nat.le_of_lt_succ b.toNat_lt)
  simpa [all, contains] using hlast

end ByteSet

namespace Glob

/-- The names that a glob describes. -/
def language : Glob → Language UInt8
  | empty => 1
  | byte set => {name | ∃ b, set.contains b ∧ name = [b]}
  | anything => ⊤
  | cat g h => g.language * h.language
  | either g h => g.language + h.language

theorem mem_language_byte {set : ByteSet} {name : Bytes} :
    name ∈ (byte set).language ↔ ∃ b, set.contains b ∧ name = [b] := Iff.rfl

theorem mem_language_anything (name : Bytes) : name ∈ anything.language := trivial

/-! ### Matching -/

section Matching

variable {name : Bytes}

theorem length_spread (seen : Bool) (marks : Marks) :
    (spread seen marks).length = marks.length := by
  induction marks generalizing seen with
  | nil => rfl
  | cons mark marks ih => simp [spread, ih]

/-- There is a flag for each place, also behind a glob. -/
theorem length_reach (g : Glob) {marks : Marks} (h : marks.length = name.length + 1) :
    (g.reach name marks).length = name.length + 1 := by
  induction g generalizing marks with
  | empty => exact h
  | byte set => simp [reach, h]
  | anything => rw [reach, length_spread, h]
  | cat g h ihg ihh => exact ihh (ihg h)
  | either g h ihg ihh => simp [reach, ihg h, ihh h]

theorem spread_iff (seen : Bool) (marks : Marks) {n : Nat} (h : n < marks.length) :
    (spread seen marks)[n]? = some true ↔ seen = true ∨ ∃ m ≤ n, marks[m]? = some true := by
  induction marks generalizing seen n with
  | nil => simp at h
  | cons mark marks ih =>
    cases n with
    | zero => simp [spread]
    | succ n =>
      have hn : n < marks.length := by simpa using h
      simp only [spread, List.getElem?_cons_succ, ih _ hn, Bool.or_eq_true]
      constructor
      · rintro ((hseen | hmark) | ⟨m, hm, hmarked⟩)
        · exact .inl hseen
        · exact .inr ⟨0, by omega, by simpa using hmark⟩
        · exact .inr ⟨m + 1, by omega, hmarked⟩
      · rintro (hseen | ⟨m, hm, hmarked⟩)
        · exact .inl (.inl hseen)
        · cases m with
          | zero => exact .inl (.inr (by simpa using hmarked))
          | succ m => exact .inr ⟨m, by omega, hmarked⟩

/-- **The marks behind a glob.** With `u` as the part of the name before a place, the place is
marked if and only if `u` ends in a name of the glob and the place before that is marked. -/
theorem reach_iff (g : Glob) {marks : Marks} (hmarks : marks.length = name.length + 1) {u : Bytes}
    (hu : u <+: name) : (g.reach name marks)[u.length]? = some true ↔
      ∃ s t, u = s ++ t ∧ marks[s.length]? = some true ∧ t ∈ g.language := by
  induction g generalizing marks u with
  | empty =>
    constructor
    · intro h
      exact ⟨u, [], by simp, h, rfl⟩
    · rintro ⟨s, t, rfl, h, rfl⟩
      simpa [reach] using h
  | byte set =>
    simp only [mem_language_byte]
    rcases List.eq_nil_or_concat' u with rfl | ⟨s, b, rfl⟩
    · simp [reach]
    · have hb : name[s.length]? = some b := by
        rw [List.prefix_iff_getElem?.mp hu s.length (by simp)]
        simp
      have hlast : ((byte set).reach name marks)[(s ++ [b]).length]? = some true ↔
          marks[s.length]? = some true ∧ set.contains b := by
        simp only [reach, List.length_append, List.length_singleton, List.getElem?_cons_succ,
          List.getElem?_zipWith, hb]
        cases marks[s.length]? <;> simp [and_comm]
      rw [hlast]
      constructor
      · rintro ⟨hmark, hcontains⟩
        exact ⟨s, [b], rfl, hmark, b, hcontains, rfl⟩
      · rintro ⟨s', _, heq, hmark, b', hcontains, rfl⟩
        obtain ⟨rfl, rfl⟩ := List.append_inj' heq rfl |>.imp_right List.singleton_inj.mp
        exact ⟨hmark, hcontains⟩
  | anything =>
    have hlength : u.length < marks.length := by
      have := hu.length_le
      omega
    rw [reach, spread_iff false marks hlength]
    constructor
    · rintro (h | ⟨m, hm, hmark⟩)
      · cases h
      · refine ⟨u.take m, u.drop m, by simp, ?_, mem_language_anything _⟩
        rwa [List.length_take, Nat.min_eq_left hm]
    · rintro ⟨s, t, rfl, hmark, -⟩
      exact .inr ⟨s.length, by simp, hmark⟩
  | cat g h ihg ihh =>
    rw [reach, ihh (g.length_reach hmarks) hu]
    -- the place between the two names is behind `g` and before `h`
    constructor
    · rintro ⟨v, t, rfl, hmark, ht⟩
      obtain ⟨s, r, rfl, hs, hr⟩ := (ihg hmarks ((List.prefix_append v t).trans hu)).mp hmark
      exact ⟨s, r ++ t, by simp, hs, Language.append_mem_mul hr ht⟩
    · rintro ⟨s, _, rfl, hs, r, hr, t, ht, rfl⟩
      refine ⟨s ++ r, t, by simp, (ihg hmarks ?_).mpr ⟨s, r, rfl, hs, hr⟩, ht⟩
      exact List.IsPrefix.trans ⟨t, by simp⟩ hu
  | either g h ihg ihh =>
    have hlength : u.length < name.length + 1 := Nat.lt_succ_of_le hu.length_le
    have hg : u.length < (g.reach name marks).length := by rwa [g.length_reach hmarks]
    have hh : u.length < (h.reach name marks).length := by rwa [h.length_reach hmarks]
    have hor : ((either g h).reach name marks)[u.length]? = some true ↔
        (g.reach name marks)[u.length]? = some true ∨
          (h.reach name marks)[u.length]? = some true := by
      simp [reach, List.getElem?_zipWith, List.getElem?_eq_getElem hg,
        List.getElem?_eq_getElem hh]
    rw [hor, ihg hmarks hu, ihh hmarks hu]
    simp only [language, Language.mem_add, and_or_left, exists_or]

/-- **Matching is sound and complete**: exactly the names of the language are accepted. -/
theorem accepts_iff_mem_language (g : Glob) (name : Bytes) :
    g.accepts name ↔ name ∈ g.language := by
  have hmarks : (true :: name.map fun _ => false).length = name.length + 1 := by simp
  have hlast : g.accepts name ↔
      (g.reach name (true :: name.map fun _ => false))[name.length]? = some true := by
    rw [accepts, beq_iff_eq, List.getLast?_eq_getElem?, g.length_reach hmarks, Nat.add_sub_cancel]
  rw [hlast, reach_iff g hmarks (List.prefix_refl name)]
  -- at the start only the place before the first byte is marked
  constructor
  · rintro ⟨s, t, rfl, hmark, ht⟩
    cases s with
    | nil => exact ht
    | cons b s =>
      rw [List.length_cons, List.getElem?_cons_succ, List.getElem?_map,
        Option.map_eq_some_iff] at hmark
      obtain ⟨_, -, hfalse⟩ := hmark
      cases hfalse
  · intro h
    exact ⟨[], name, rfl, rfl, h⟩

end Matching

/-! ### How globs are put together -/

@[simp]
theorem append_empty (g : Glob) : append g empty = g := by
  cases g <;> rfl

theorem language_append (g h : Glob) : (append g h).language = g.language * h.language := by
  unfold append
  split
  · exact (one_mul _).symm
  · exact (mul_one _).symm
  · rfl

theorem append_eq_empty_iff {g h : Glob} : append g h = empty ↔ g = empty ∧ h = empty := by
  unfold append
  split <;> simp_all

/-- A text describes its bytes and nothing else. -/
theorem language_literal (bs : Bytes) : (literal bs).language = {bs} := by
  induction bs with
  | nil => rfl
  | cons b bs ih =>
    have hcons : literal (b :: bs) = append (byte (.single b)) (literal bs) := rfl
    rw [hcons, language_append, ih]
    ext name
    simp only [Language.mem_mul, mem_language_byte, ByteSet.contains_single]
    constructor
    · rintro ⟨_, ⟨_, rfl, rfl⟩, _, rfl, rfl⟩
      rfl
    · rintro rfl
      exact ⟨[b], ⟨b, rfl, rfl⟩, bs, rfl, rfl⟩

/-- A character is never empty. -/
theorem char_ne_empty (c : Char) : char c ≠ empty := by
  intro h
  have hbytes : ([] : Bytes) ∈ ({String.utf8EncodeChar c} : Language UInt8) := by
    rw [← language_literal, ← char, h]
    exact Language.nil_mem_one
  exact String.utf8EncodeChar_ne_nil (Set.mem_singleton_iff.mp hbytes).symm

/-- The names of a choice are those of the globs that are not empty. -/
theorem mem_language_choice_iff {gs : List Glob} {name : Bytes} :
    name ∈ (choice gs).language ↔
      (∃ g ∈ gs, g ≠ empty ∧ name ∈ g.language) ∨ (∀ g ∈ gs, g = empty) ∧ name = [] := by
  have hfoldl (g : Glob) (gs : List Glob) : name ∈ (gs.foldl either g).language ↔
      name ∈ g.language ∨ ∃ h ∈ gs, name ∈ h.language := by
    induction gs generalizing g with
    | nil => simp
    | cons h gs ih => simp [ih, language, Language.mem_add, or_assoc]
  have hmem (g : Glob) : g ∈ gs.filter (fun g => decide (g ≠ empty)) ↔ g ∈ gs ∧ g ≠ empty := by
    simp
  unfold choice
  split
  · next hnone =>
    have hall (g : Glob) (hg : g ∈ gs) : g = empty := by
      by_contra hne
      have hg' := (hmem g).mpr ⟨hg, hne⟩
      rw [hnone] at hg'
      cases hg'
    refine ⟨fun h => .inr ⟨hall, h⟩, ?_⟩
    rintro (⟨g, hg, hne, -⟩ | ⟨-, rfl⟩)
    · exact absurd (hall g hg) hne
    · exact Language.nil_mem_one
  · next first others hsome =>
    have hexists : (∃ g ∈ gs, g ≠ empty ∧ name ∈ g.language) ↔
        name ∈ first.language ∨ ∃ h ∈ others, name ∈ h.language := by
      simp only [← and_assoc, ← hmem, hsome, List.mem_cons, exists_eq_or_imp]
    have hfirst := (hmem first).mp (hsome ▸ List.mem_cons_self)
    rw [hfoldl, hexists]
    refine ⟨.inl, ?_⟩
    rintro (h | ⟨hall, -⟩)
    · exact h
    · exact absurd (hall first hfirst.1) hfirst.2

end Glob

end SchemaDoc
