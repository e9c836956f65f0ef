import SchemaDoc.Text.Search
import Mathlib.Data.List.Infix

/-!
# What a search finds

Both searches are exact. `cut? word` finds the first occurrence of `word` and misses none:
`cut?_eq_some_iff` and `cut?_eq_none_iff`.

`cutBare? word` scans without overlap, so an occurrence that overlaps a rejected one is never looked
at. For a `word` of word characters this loses nothing: what is passed over stands behind a word
character and cannot be bare (`cutBareFrom?_skip`). Hence the search breaks up at every character
that is no word character, `cutBare?_append_cons`, and everything else about it follows from this
one equation: the search finds the first bare occurrence (`cutBare?_append_word`), and what stands
before it has none (`cutBare?_eq_some_iff`).
-/

namespace SchemaDoc

namespace Text

/-! ### Plain occurrences -/

theorem after?_eq_none_iff {word t : Text} : after? word t = none ↔ ¬ word <+: t := by
  rw [Option.eq_none_iff_forall_ne_some]
  constructor
  · rintro h ⟨rest, rfl⟩
    exact h rest (after?_append word rest)
  · intro h rest hrest
    exact h ⟨rest, (eq_append_of_after? hrest).symm⟩

/-- A search fails exactly on the texts that do not contain the word. -/
theorem cut?_eq_none_iff {word t : Text} : cut? word t = none ↔ ¬ word <:+: t := by
  induction t with
  | nil =>
    rw [cut?, Option.map_eq_none_iff, after?_eq_none_iff, List.prefix_nil, List.infix_nil]
  | cons c t ih =>
    rw [List.infix_cons_iff, not_or, ← after?_eq_none_iff, ← ih, cut?]
    cases after? word (c :: t) <;> simp

/-- The first occurrence of a character stands behind a text without it. -/
theorem cut?_singleton_eq_some_iff {y : Char} {t head tail : Text} :
    cut? [y] t = some (head, tail) ↔ t = head ++ y :: tail ∧ y ∉ head := by
  induction t generalizing head with
  | nil => simp [cut?, after?]
  | cons c t ih =>
    rw [cut?]
    -- either the text begins with `y`, or the search goes on behind `c`
    by_cases hc : y = c
    · subst hc
      simp only [after?, if_true, Option.some.injEq, Prod.mk.injEq]
      constructor
      · rintro ⟨rfl, rfl⟩
        simp
      · rintro ⟨h, hhead⟩
        cases head with
        | nil => exact ⟨rfl, by simpa using h⟩
        | cons d head => simp_all
    · simp only [after?, hc, if_false, Option.map_eq_some_iff, Prod.exists, Prod.mk.injEq]
      constructor
      · rintro ⟨front, back, hcut, rfl, rfl⟩
        obtain ⟨rfl, hfront⟩ := ih.mp hcut
        exact ⟨rfl, by simp [hc, hfront]⟩
      · rintro ⟨h, hhead⟩
        cases head with
        | nil => exact absurd (by simpa using h : c = y ∧ _).1.symm hc
        | cons d head =>
          obtain ⟨rfl, rfl⟩ : c = d ∧ t = head ++ y :: tail := by simpa using h
          exact ⟨head, tail, ih.mpr ⟨rfl, by simp_all⟩, rfl, rfl⟩

theorem cut?_singleton_eq_none_iff {y : Char} {t : Text} : cut? [y] t = none ↔ y ∉ t := by
  rw [cut?_eq_none_iff, List.singleton_infix_iff]

/-- A search for a character passes over a text that does not have it. -/
theorem cut?_singleton_append {y : Char} {u : Text} (h : y ∉ u) (v : Text) :
    cut? [y] (u ++ v) = (cut? [y] v).map fun (head, tail) => (u ++ head, tail) := by
  cases hv : cut? [y] v with
  | none =>
    rw [cut?_singleton_eq_none_iff] at hv
    rw [Option.map_none, cut?_singleton_eq_none_iff]
    simp [h, hv]
  | some parts =>
    obtain ⟨rfl, hhead⟩ := cut?_singleton_eq_some_iff.mp hv
    rw [Option.map_some, cut?_singleton_eq_some_iff]
    exact ⟨by simp, by simp [h, hhead]⟩

/-- A search for a character goes no further than a text that has it. -/
theorem cut?_singleton_append_of_mem {y : Char} {u : Text} (h : y ∈ u) (v : Text) :
    cut? [y] (u ++ v) = (cut? [y] u).map fun (head, tail) => (head, tail ++ v) := by
  obtain ⟨head, tail, rfl, hhead⟩ := List.eq_append_cons_of_mem h
  rw [cut?_singleton_eq_some_iff.mpr ⟨rfl, hhead⟩, Option.map_some, cut?_singleton_eq_some_iff]
  exact ⟨by simp, hhead⟩

/-- A word is found where it first can begin: behind a text without its first character. -/
theorem cut?_append_of_notMem {w : Char} {word head : Text} (h : w ∉ head) (tail : Text) :
    cut? (w :: word) (head ++ (w :: word) ++ tail) = some (head, tail) := by
  induction head with
  | nil =>
    have hafter : after? (w :: word) (w :: (word ++ tail)) = some tail :=
      after?_append (w :: word) tail
    simp [cut?, hafter]
  | cons c head ih =>
    simp only [List.mem_cons, not_or] at h
    have hafter (t : Text) : after? (w :: word) (c :: t) = none := by simp [after?, h.1]
    simp only [List.cons_append, cut?, hafter]
    simp [show cut? (w :: word) (head ++ w :: (word ++ tail)) = some (head, tail) by
      simpa using ih h.2]

/-- The word does not end before the end of its first occurrence. -/
private theorem not_infix_append_dropLast {word t head tail : Text} (hne : word ≠ [])
    (h : cut? word t = some (head, tail)) : ¬ word <:+: head ++ word.dropLast := by
  induction t generalizing head with
  | nil =>
    obtain ⟨-, rfl, -⟩ : head = [] ∧ word = [] ∧ tail = [] := by simpa using eq_append_of_cut? h
    exact absurd rfl hne
  | cons c t ih =>
    have htext := eq_append_of_cut? h
    rw [cut?] at h
    split at h
    · obtain ⟨rfl, rfl⟩ : [] = head ∧ _ = tail := by simpa using h
      intro hopens
      have hle := hopens.length_le
      have hpos := List.length_pos_iff.mpr hne
      simp only [List.nil_append, List.length_dropLast] at hle
      omega
    · next hafter =>
      obtain ⟨⟨front, back⟩, hcut, heq⟩ := Option.map_eq_some_iff.mp h
      obtain ⟨rfl, rfl⟩ : c :: front = head ∧ back = tail := by simpa using heq
      rw [List.cons_append, List.infix_cons_iff, not_or]
      -- an occurrence at the start would have been found at once
      have hword : word.dropLast <+: word := List.dropLast_prefix word
      refine ⟨fun hpre => after?_eq_none_iff.mp hafter (hpre.trans ?_), ih hcut⟩
      rw [htext, List.append_assoc, List.cons_append, List.prefix_cons_inj,
        List.prefix_append_right_inj]
      exact hword.trans (List.prefix_append _ _)

/-- **The search finds exactly the first occurrence** of a word. -/
theorem cut?_eq_some_iff {word t head tail : Text} (hne : word ≠ []) :
    cut? word t = some (head, tail) ↔
      t = head ++ word ++ tail ∧ ¬ word <:+: head ++ word.dropLast := by
  refine ⟨fun h => ⟨eq_append_of_cut? h, not_infix_append_dropLast hne h⟩, ?_⟩
  rintro ⟨rfl, h⟩
  induction head with
  | nil =>
    obtain ⟨w, word', rfl⟩ := List.exists_cons_of_ne_nil hne
    have hafter : after? (w :: word') (w :: (word' ++ tail)) = some tail :=
      after?_append (w :: word') tail
    simp [cut?, hafter]
  | cons c head ih =>
    rw [List.cons_append, List.infix_cons_iff, not_or] at h
    -- an occurrence at `c` would end before the one behind `head` does
    have hafter : after? word (c :: (head ++ word ++ tail)) = none := by
      rw [after?_eq_none_iff]
      intro hpre
      have hword : word.dropLast <+: word := List.dropLast_prefix word
      have hfront : c :: (head ++ word.dropLast) <+: c :: (head ++ word ++ tail) := by
        rw [List.prefix_cons_inj, List.append_assoc, List.prefix_append_right_inj]
        exact hword.trans (List.prefix_append _ _)
      refine h.1 (List.prefix_of_prefix_length_le hpre hfront ?_)
      have hpos := List.length_pos_iff.mpr hne
      simp only [List.length_cons, List.length_append, List.length_dropLast]
      omega
    rw [List.cons_append, List.cons_append, cut?, hafter, ih h.2]
    rfl

/-- What stands before the first occurrence does not contain the word. -/
theorem not_infix_of_cut? {word t head tail : Text} (hne : word ≠ [])
    (h : cut? word t = some (head, tail)) : ¬ word <:+: head := fun hopens =>
  ((cut?_eq_some_iff hne).mp h).2 (hopens.trans (List.prefix_append _ _).isInfix)

/-- An occurrence does not reach across a character that is not in the word. -/
private theorem after?_append_cons {word : Text} {y : Char} (hy : y ∉ word) (u v : Text) :
    after? word (u ++ y :: v) = (after? word u).map (· ++ y :: v) := by
  induction word generalizing u with
  | nil => simp [after?]
  | cons w word ih =>
    simp only [List.mem_cons, not_or] at hy
    cases u with
    | nil => simp [after?, Ne.symm hy.1]
    | cons c u =>
      simp only [List.cons_append, after?, ih hy.2 u]
      split <;> rfl

private theorem after?_cons_of_notMem {word : Text} {y : Char} (hne : word ≠ []) (hy : y ∉ word)
    (v : Text) : after? word (y :: v) = none := by
  have hempty : after? word [] = none := after?_eq_none_iff.mpr (by simpa using hne)
  simpa [hempty] using after?_append_cons hy [] v

/-- The search for a word breaks up at every character that is not in the word. -/
theorem cut?_append_cons {word : Text} {y : Char} (hne : word ≠ []) (hy : y ∉ word) (u v : Text) :
    cut? word (u ++ y :: v) =
      match cut? word u with
      | some (head, tail) => some (head, tail ++ y :: v)
      | none => (cut? word v).map fun (head, tail) => (u ++ y :: head, tail) := by
  induction u with
  | nil =>
    have hempty : cut? word [] = none := cut?_eq_none_iff.mpr (by simpa using hne)
    rw [List.nil_append, hempty, cut?, after?_cons_of_notMem hne hy]
    rfl
  | cons c u ih =>
    rw [List.cons_append, cut?, ← List.cons_append, after?_append_cons hy, ih, cut?]
    cases after? word (c :: u) with
    | some rest => rfl
    | none =>
      cases cut? word u with
      | some parts => rfl
      | none => cases cut? word v <;> rfl

/-! ### Bare occurrences -/

/-- A **word** is a text of word characters that is not empty. -/
structure IsWord (word : Text) : Prop where
  /-- A word has a character. -/
  ne_nil : word ≠ []
  /-- All characters of a word are word characters. -/
  isWordChar_of_mem : ∀ c ∈ word, isWordChar c = true

instance (word : Text) : Decidable (IsWord word) :=
  decidable_of_iff (word.isEmpty = false ∧ word.all isWordChar = true)
    ⟨fun h => ⟨by simpa using h.1, List.all_eq_true.mp h.2⟩,
      fun h => ⟨by simpa using h.ne_nil, List.all_eq_true.mpr h.isWordChar_of_mem⟩⟩

section Bare

variable {word : Text} {prev : Option Char} {y : Char}

theorem IsWord.notMem (hw : IsWord word) (hy : isWordChar y = false) : y ∉ word := fun hmem => by
  simp [hw.isWordChar_of_mem y hmem] at hy

/-- Behind a word character nothing stands free. -/
private theorem standsFree_some {c : Char} (hc : isWordChar c = true) (rest : Text) :
    standsFree (some c) rest = false := by
  simp [standsFree, hc]

/-- The characters of an occurrence are word characters. -/
private theorem isWordChar_of_after? (hw : IsWord word) {c : Char} {t rest : Text}
    (h : after? word (c :: t) = some rest) :
    isWordChar c = true ∧ ∀ d ∈ t.take (word.length - 1), isWordChar d = true := by
  have htext := eq_append_of_after? h
  obtain ⟨w, word', rfl⟩ := List.exists_cons_of_ne_nil hw.ne_nil
  obtain ⟨rfl, rfl⟩ : c = w ∧ t = word' ++ rest := by simpa using htext
  refine ⟨hw.isWordChar_of_mem c (by simp), fun d hd => hw.isWordChar_of_mem d ?_⟩
  rw [List.length_cons, Nat.add_sub_cancel, List.take_left] at hd
  exact List.mem_cons_of_mem c hd

/-- Passing over characters of a rejected occurrence passes over no bare one: each of them stands
behind a word character. -/
theorem cutBareFrom?_skip (hw : IsWord word) (skip : Nat) {c : Char} (hc : isWordChar c = true)
    {t : Text} (ht : ∀ d ∈ t.take skip, isWordChar d = true) :
    cutBareFrom? word (some c) skip t = cutBareFrom? word (some c) 0 t := by
  induction t generalizing skip c with
  | nil => simp [cutBareFrom?]
  | cons d t ih =>
    cases skip with
    | zero => rfl
    | succ skip =>
      have hd : isWordChar d = true := ht d (by simp)
      have hskip := ih skip hd fun e he => ht e (by simp [he])
      simp only [cutBareFrom?, hskip, standsFree_some hc, Bool.false_eq_true, if_false]
      -- an occurrence at `d` is rejected too, and what it passes over is again behind `d`
      cases hafter : after? word (d :: t) with
      | none => rfl
      | some rest =>
        dsimp only
        rw [ih _ hd (isWordChar_of_after? hw hafter).2]

/-- The search goes on behind every character, whether an occurrence was rejected there or not. -/
theorem cutBareFrom?_cons (hw : IsWord word) (prev : Option Char) (c : Char) (t : Text) :
    cutBareFrom? word prev 0 (c :: t) =
      match after? word (c :: t) with
      | some rest =>
        if standsFree prev rest then some ([], rest)
        else (cutBareFrom? word (some c) 0 t).map fun (head, tail) => (c :: head, tail)
      | none => (cutBareFrom? word (some c) 0 t).map fun (head, tail) => (c :: head, tail) := by
  rw [cutBareFrom?]
  dsimp only
  cases hafter : after? word (c :: t) with
  | none => rfl
  | some rest =>
    obtain ⟨hc, ht⟩ := isWordChar_of_after? hw hafter
    dsimp only
    rw [cutBareFrom?_skip hw _ hc ht]

theorem cutBareFrom?_nil (hw : IsWord word) (prev : Option Char) (skip : Nat) :
    cutBareFrom? word prev skip [] = none := by
  simp [cutBareFrom?, hw.ne_nil]

/-- Only whether a word character stands before the text matters to the search. -/
theorem cutBareFrom?_some (hy : isWordChar y = false) (t : Text) :
    cutBareFrom? word (some y) 0 t = cutBare? word t := by
  have hfree (rest : Text) : standsFree (some y) rest = standsFree none rest := by
    simp [standsFree, hy]
  cases t with
  | nil => simp [cutBare?, cutBareFrom?, hfree]
  | cons c t => simp only [cutBare?, cutBareFrom?, hfree]

/-- The search starts afresh behind a character that is no word character. -/
theorem cutBareFrom?_separator (hw : IsWord word) (hy : isWordChar y = false) (v : Text) :
    cutBareFrom? word prev 0 (y :: v) =
      (cutBare? word v).map fun (head, tail) => (y :: head, tail) := by
  rw [cutBareFrom?_cons hw, after?_cons_of_notMem hw.ne_nil (hw.notMem hy), cutBareFrom?_some hy]

theorem standsFree_append_cons (hy : isWordChar y = false) (rest v : Text) :
    standsFree prev (rest ++ y :: v) = standsFree prev rest := by
  cases rest <;> simp [standsFree, hy]

theorem standsFree_of_isPrefix {u v : Text} (h : u <+: v) (hfree : standsFree prev v = true) :
    standsFree prev u = true := by
  obtain ⟨rest, rfl⟩ := h
  cases u with
  | nil => simp_all [standsFree]
  | cons c u => simpa [standsFree] using hfree

private theorem cutBareFrom?_append_cons (hw : IsWord word) (hy : isWordChar y = false)
    (u v : Text) :
    cutBareFrom? word prev 0 (u ++ y :: v) =
      match cutBareFrom? word prev 0 u with
      | some (head, tail) => some (head, tail ++ y :: v)
      | none => (cutBare? word v).map fun (head, tail) => (u ++ y :: head, tail) := by
  induction u generalizing prev with
  | nil =>
    rw [List.nil_append, cutBareFrom?_separator hw hy, cutBareFrom?_nil hw]
    rfl
  | cons c u ih =>
    -- what the search finds behind `c`, where it does not end at `c`
    have hfurther : (cutBareFrom? word (some c) 0 (u ++ y :: v)).map
        (fun (head, tail) => (c :: head, tail)) =
        match (cutBareFrom? word (some c) 0 u).map fun (head, tail) => (c :: head, tail) with
        | some (head, tail) => some (head, tail ++ y :: v)
        | none => (cutBare? word v).map fun (head, tail) => (c :: u ++ y :: head, tail) := by
      rw [ih]
      rcases cutBareFrom? word (some c) 0 u with _ | ⟨head, tail⟩
      · rcases cutBare? word v with _ | ⟨head, tail⟩ <;> simp
      · simp
    rw [List.cons_append, cutBareFrom?_cons hw, cutBareFrom?_cons hw, hfurther,
      ← List.cons_append, after?_append_cons (hw.notMem hy) (c :: u) v]
    cases after? word (c :: u) with
    | none => rfl
    | some rest =>
      simp only [Option.map_some, standsFree_append_cons hy]
      split <;> rfl

/-- **The search for a bare word breaks up at every character that is no word character.** -/
theorem cutBare?_append_cons (hw : IsWord word) (hy : isWordChar y = false) (u v : Text) :
    cutBare? word (u ++ y :: v) =
      match cutBare? word u with
      | some (head, tail) => some (head, tail ++ y :: v)
      | none => (cutBare? word v).map fun (head, tail) => (u ++ y :: head, tail) :=
  cutBareFrom?_append_cons hw hy u v

/-- A text that holds no bare word on either side of such a character holds none. -/
theorem cutBare?_append_cons_eq_none_iff (hw : IsWord word) (hy : isWordChar y = false)
    {u v : Text} :
    cutBare? word (u ++ y :: v) = none ↔ cutBare? word u = none ∧ cutBare? word v = none := by
  rw [cutBare?_append_cons hw hy]
  cases cutBare? word u <;> simp

/-- A bare word that is found stands on one side of such a character. -/
theorem cutBare?_append_cons_eq_some (hw : IsWord word) (hy : isWordChar y = false)
    {u v head tail : Text} (h : cutBare? word (u ++ y :: v) = some (head, tail)) :
    (∃ back, cutBare? word u = some (head, back) ∧ tail = back ++ y :: v) ∨
    ∃ front, cutBare? word u = none ∧ cutBare? word v = some (front, tail) ∧
      head = u ++ y :: front := by
  rw [cutBare?_append_cons hw hy] at h
  cases hu : cutBare? word u with
  | some pieces =>
    obtain ⟨rfl, rfl⟩ : pieces.1 = head ∧ pieces.2 ++ y :: v = tail := by simpa [hu] using h
    exact Or.inl ⟨pieces.2, rfl, rfl⟩
  | none =>
    rw [hu] at h
    obtain ⟨⟨front, back⟩, hv, heq⟩ := Option.map_eq_some_iff.mp h
    obtain ⟨rfl, rfl⟩ : u ++ y :: front = head ∧ back = tail := by simpa using heq
    exact Or.inr ⟨front, rfl, hv, rfl⟩

theorem cutBare?_cons_eq_none_iff (hw : IsWord word) (hy : isWordChar y = false) {v : Text} :
    cutBare? word (y :: v) = none ↔ cutBare? word v = none := by
  rw [cutBare?, cutBareFrom?_separator hw hy, Option.map_eq_none_iff]

private theorem eq_append_of_cutBareFrom? (hw : IsWord word) {t head tail : Text}
    (h : cutBareFrom? word prev 0 t = some (head, tail)) :
    t = head ++ word ++ tail ∧ standsFree (head.getLast?.or prev) tail = true := by
  induction t generalizing prev head with
  | nil => simp [cutBareFrom?_nil hw] at h
  | cons c t ih =>
    have hfurther (hmap : (cutBareFrom? word (some c) 0 t).map
        (fun (head, tail) => (c :: head, tail)) = some (head, tail)) :
        c :: t = head ++ word ++ tail ∧ standsFree (head.getLast?.or prev) tail = true := by
      obtain ⟨⟨front, back⟩, hcut, heq⟩ := Option.map_eq_some_iff.mp hmap
      obtain ⟨rfl, rfl⟩ : c :: front = head ∧ back = tail := by simpa using heq
      obtain ⟨rfl, hfree⟩ := ih hcut
      refine ⟨rfl, ?_⟩
      cases hlast : front.getLast? <;> simpa [List.getLast?_cons, hlast] using hfree
    rw [cutBareFrom?_cons hw] at h
    split at h
    · next rest hafter =>
      split at h
      · next hfree =>
        obtain ⟨rfl, rfl⟩ : [] = head ∧ rest = tail := by simpa using h
        exact ⟨by simpa using eq_append_of_after? hafter, by simpa using hfree⟩
      · exact hfurther h
    · exact hfurther h

/-- What is found is an occurrence, and it stands free. -/
theorem eq_append_of_cutBare? (hw : IsWord word) {t head tail : Text}
    (h : cutBare? word t = some (head, tail)) :
    t = head ++ word ++ tail ∧ standsFree head.getLast? tail = true := by
  simpa using eq_append_of_cutBareFrom? hw h

private theorem cutBare?_word_append (hw : IsWord word) {tail : Text}
    (h : standsFree none tail = true) : cutBare? word (word ++ tail) = some ([], tail) := by
  obtain ⟨w, word', rfl⟩ := List.exists_cons_of_ne_nil hw.ne_nil
  have hafter : after? (w :: word') (w :: (word' ++ tail)) = some tail :=
    after?_append (w :: word') tail
  rw [List.cons_append, cutBare?, cutBareFrom?_cons hw, hafter]
  simp [h]

/-- **No bare occurrence is missed**: a search that is led up to one finds it, unless it finds one
before it. -/
theorem cutBare?_append_word (hw : IsWord word) {head tail : Text}
    (h : standsFree head.getLast? tail = true) :
    cutBare? word (head ++ word ++ tail) =
      match cutBare? word head with
      | some (front, back) => some (front, back ++ word ++ tail)
      | none => some (head, tail) := by
  rcases List.eq_nil_or_concat head with rfl | ⟨front, y, rfl⟩
  · have hnil : cutBare? word [] = none := cutBareFrom?_nil hw none 0
    simpa [hnil] using cutBare?_word_append hw (by simpa using h)
  · -- the character before the occurrence is no word character, so the search breaks up there
    obtain ⟨hy, hfree⟩ : isWordChar y = false ∧ standsFree none tail = true := by
      simpa [standsFree] using h
    have hnil : cutBare? word [] = none := cutBareFrom?_nil hw none 0
    have hsplit : front.concat y ++ word ++ tail = front ++ y :: (word ++ tail) := by simp
    rw [hsplit, cutBare?_append_cons hw hy, cutBare?_word_append hw hfree, List.concat_eq_append,
      cutBare?_append_cons hw hy, hnil]
    cases cutBare? word front <;> simp

/-- **The search finds exactly the first bare occurrence**: one that stands free, behind a text
that has none. -/
theorem cutBare?_eq_some_iff (hw : IsWord word) {t head tail : Text} :
    cutBare? word t = some (head, tail) ↔
      t = head ++ word ++ tail ∧ standsFree head.getLast? tail = true ∧
        cutBare? word head = none := by
  constructor
  · intro h
    obtain ⟨rfl, hfree⟩ := eq_append_of_cutBare? hw h
    refine ⟨rfl, hfree, ?_⟩
    -- an occurrence in `head` would be found first, and then `head` would end before it
    by_contra hsome
    obtain ⟨⟨front, back⟩, hcut⟩ := Option.ne_none_iff_exists'.mp hsome
    have hfront : front = head := by
      rw [cutBare?_append_word hw hfree, hcut] at h
      simpa using congrArg (Option.map Prod.fst) h
    have hlength := congrArg List.length (eq_append_of_cutBare? hw hcut).1
    have hpos := List.length_pos_iff.mpr hw.ne_nil
    simp only [hfront, List.length_append] at hlength
    omega
  · rintro ⟨rfl, hfree, hnone⟩
    rw [cutBare?_append_word hw hfree, hnone]

/-- The search fails exactly where no occurrence stands free. -/
theorem cutBare?_eq_none_iff (hw : IsWord word) {t : Text} :
    cutBare? word t = none ↔
      ∀ head tail, t = head ++ word ++ tail → standsFree head.getLast? tail = false := by
  constructor
  · rintro h head tail rfl
    by_contra hfree
    rw [cutBare?_append_word hw (by simpa using hfree)] at h
    split at h <;> cases h
  · intro h
    by_contra hsome
    obtain ⟨⟨head, tail⟩, hcut⟩ := Option.ne_none_iff_exists'.mp hsome
    obtain ⟨htext, hfree⟩ := eq_append_of_cutBare? hw hcut
    simp [h head tail htext] at hfree

/-- The word stands in the text somewhere, and no word character beside it. -/
def HasBare (word t : Text) : Prop :=
  ∃ head tail, t = head ++ word ++ tail ∧ standsFree head.getLast? tail = true

theorem cutBare?_eq_none_iff_not_hasBare (hw : IsWord word) {t : Text} :
    cutBare? word t = none ↔ ¬ HasBare word t := by
  rw [cutBare?_eq_none_iff hw]
  constructor
  · rintro h ⟨head, tail, htext, hfree⟩
    simp [h head tail htext] at hfree
  · intro h head tail htext
    exact Bool.eq_false_iff.mpr fun hfree => h ⟨head, tail, htext, hfree⟩

/-- One word holds no other. -/
theorem cutBare?_eq_none_of_ne (hw : IsWord word) {t : Text}
    (ht : ∀ c ∈ t, isWordChar c = true) (hne : t ≠ word) : cutBare? word t = none := by
  rw [cutBare?_eq_none_iff hw]
  rintro head tail rfl
  -- an occurrence that is not all of the text has a word character beside it
  rcases List.eq_nil_or_concat head with rfl | ⟨front, y, rfl⟩
  · cases tail with
    | nil => simp at hne
    | cons c tail => simp [standsFree, ht c (by simp)]
  · simp [standsFree, ht y (by simp)]

end Bare

end Text

end SchemaDoc
