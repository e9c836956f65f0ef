import SchemaDoc.Proofs.Text.Search

/-!
# Changing a text everywhere at once

`Text.patch f t` replaces every character of `t` by what `f` makes of it at its byte offset. All
offsets are those of `t` as it is, so the changes do not move one another. `Text.slice` takes the
characters between two offsets.

A search in a patched text finds the image of what it finds in the text, provided that the patch
leaves alone what is searched for: `cut?_patchFrom` for a character and `cutBare?_patchFrom` for a
bare word. The latter asks for a `Neutral` patch, which keeps word characters and turns other
characters into some that are no word characters either.
-/

namespace SchemaDoc

namespace Text

/-- `patch` of a text that begins at byte offset `o`. -/
def patchFrom (f : Nat → Char → Text) (o : Nat) : Text → Text
  | [] => []
  | x :: t => f o x ++ patchFrom f (o + x.utf8Size) t

/-- The text in which every character of `t` is replaced by what `f` makes of it at its byte
offset. -/
def patch (f : Nat → Char → Text) (t : Text) : Text := patchFrom f 0 t

/-- The characters of `t` that begin at byte offset `i` or behind it, and before `j`. -/
def slice (i j : Nat) (t : Text) : Text := patch (fun o x => if i ≤ o ∧ o < j then [x] else []) t

section Patch

variable {f g : Nat → Char → Text} {o : Nat}

@[simp]
theorem patchFrom_nil : patchFrom f o [] = [] := rfl

@[simp]
theorem patchFrom_cons (x : Char) (t : Text) :
    patchFrom f o (x :: t) = f o x ++ patchFrom f (o + x.utf8Size) t := rfl

theorem patchFrom_append (u v : Text) :
    patchFrom f o (u ++ v) = patchFrom f o u ++ patchFrom f (o + byteSize u) v := by
  induction u generalizing o with
  | nil => simp
  | cons x u ih => simp [ih, Nat.add_assoc]

/-- Patches that agree between the two ends of a text agree on it. -/
theorem patchFrom_congr {t : Text}
    (h : ∀ i x, o ≤ i → i + x.utf8Size ≤ o + byteSize t → f i x = g i x) :
    patchFrom f o t = patchFrom g o t := by
  induction t generalizing o with
  | nil => rfl
  | cons x t ih =>
    rw [byteSize_cons] at h
    rw [patchFrom_cons, patchFrom_cons, h o x le_rfl (by omega),
      ih fun i y hi hi' => h i y (by omega) (by omega)]

/-- Patches that agree everywhere but at one character of a text. -/
theorem patchFrom_append_cons {u v : Text} {y : Char}
    (h : ∀ i x, i ≠ o + byteSize u → g i x = f i x) :
    patchFrom g o (u ++ y :: v) =
      patchFrom f o u ++ (g (o + byteSize u) y ++ patchFrom f (o + byteSize u + y.utf8Size) v) := by
  rw [patchFrom_append, patchFrom_cons]
  congr 1
  · refine patchFrom_congr fun i x _ hi => h i x ?_
    have := x.utf8Size_pos
    omega
  · refine congrArg _ (patchFrom_congr fun i x hi _ => h i x ?_)
    have := y.utf8Size_pos
    omega

theorem patchFrom_eq_self {t : Text}
    (h : ∀ i x, o ≤ i → i + x.utf8Size ≤ o + byteSize t → f i x = [x]) :
    patchFrom f o t = t := by
  have hsingle : patchFrom (fun _ x => [x]) o t = t := by
    clear h
    induction t generalizing o with
    | nil => rfl
    | cons x t ih => simp [ih]
  rw [patchFrom_congr h, hsingle]

theorem patchFrom_eq_nil {t : Text}
    (h : ∀ i x, o ≤ i → i + x.utf8Size ≤ o + byteSize t → f i x = []) :
    patchFrom f o t = [] := by
  have hempty : patchFrom (fun _ _ => []) o t = [] := by
    clear h
    induction t generalizing o with
    | nil => rfl
    | cons x t ih => simp [ih]
  rw [patchFrom_congr h, hempty]

/-- Where a character of a patched text comes from. -/
theorem exists_of_mem_patchFrom {t : Text} {y : Char} (h : y ∈ patchFrom f o t) :
    ∃ u x v, t = u ++ x :: v ∧ y ∈ f (o + byteSize u) x := by
  induction t generalizing o with
  | nil => simp at h
  | cons x t ih =>
    rcases List.mem_append.mp h with h | h
    · exact ⟨[], x, t, rfl, by simpa using h⟩
    · obtain ⟨u, z, v, rfl, hy⟩ := ih h
      exact ⟨x :: u, z, v, rfl, by rwa [byteSize_cons, ← Nat.add_assoc]⟩

/-- What stands between two places of a text. -/
theorem slice_append (u v w : Text) :
    slice (byteSize u) (byteSize u + byteSize v) (u ++ (v ++ w)) = v := by
  rw [slice, patch, patchFrom_append, patchFrom_append, patchFrom_eq_nil, patchFrom_eq_self,
    patchFrom_eq_nil, List.nil_append, List.append_nil]
  · intro i x hi hi'
    rw [if_neg (by omega)]
  · intro i x hi hi'
    have := x.utf8Size_pos
    rw [if_pos (by omega)]
  · intro i x hi hi'
    have := x.utf8Size_pos
    rw [if_neg (by omega)]

theorem slice_append_right (u v : Text) :
    slice (byteSize u) (byteSize (u ++ v)) (u ++ v) = v := by
  simpa using slice_append u v []

theorem slice_append_left (u v : Text) : slice 0 (byteSize u) (u ++ v) = u := by
  simpa using slice_append [] u v

/-! ### Two places in one text -/

/-- A text is cut in one way at one offset. -/
theorem append_inj_of_byteSize {u v u' v' : Text} (h : u ++ v = u' ++ v')
    (hsize : byteSize u = byteSize u') : u = u' ∧ v = v' := by
  have hcut := splitAt?_byteSize_append u v
  rw [h, hsize, splitAt?_byteSize_append] at hcut
  simpa [eq_comm] using hcut

/-- At one offset of a text stands one character. -/
theorem char_inj_of_byteSize {u v u' v' : Text} {x y : Char} (h : u ++ x :: v = u' ++ y :: v')
    (hsize : byteSize u = byteSize u') : x = y := by
  have heq := (append_inj_of_byteSize h hsize).2
  exact (List.cons.inj heq).1

/-- The later of two cuts is behind the character at the earlier one. -/
theorem exists_of_append_eq {u v u' v' : Text} {x : Char} (h : u ++ x :: v = u' ++ v')
    (hsize : byteSize u < byteSize u') : ∃ w, u' = u ++ x :: w ∧ v = w ++ v' := by
  rcases List.append_eq_append_iff.mp h with ⟨w, rfl, hw⟩ | ⟨w, rfl, -⟩
  · cases w with
    | nil => simp at hsize
    | cons y w =>
      obtain ⟨rfl, rfl⟩ : x = y ∧ v = w ++ v' := by simpa using hw
      exact ⟨w, rfl, rfl⟩
  · rw [byteSize_append] at hsize
    omega

/-! ### Searching a patched text -/

/-- A patch that keeps a character and does not bring it in keeps its first place. -/
theorem cut?_patchFrom {t : Text} {y : Char}
    (hkeep : ∀ u v, t = u ++ y :: v → f (o + byteSize u) y = [y])
    (hnew : ∀ u x v, t = u ++ x :: v → x ≠ y → y ∉ f (o + byteSize u) x) :
    cut? [y] (patchFrom f o t) = (cut? [y] t).map fun (u, v) =>
      (patchFrom f o u, patchFrom f (o + byteSize u + y.utf8Size) v) := by
  cases h : cut? [y] t with
  | none =>
    rw [cut?_singleton_eq_none_iff] at h
    rw [Option.map_none, cut?_singleton_eq_none_iff]
    intro hmem
    obtain ⟨u, x, v, rfl, hy⟩ := exists_of_mem_patchFrom hmem
    exact hnew u x v rfl (by rintro rfl; simp at h) hy
  | some parts =>
    obtain ⟨u, v⟩ := parts
    obtain ⟨rfl, hu⟩ := cut?_singleton_eq_some_iff.mp h
    rw [Option.map_some, cut?_singleton_eq_some_iff]
    constructor
    · rw [patchFrom_append, patchFrom_cons, hkeep u v rfl]
      rfl
    · intro hmem
      obtain ⟨u, x, w, rfl, hy⟩ := exists_of_mem_patchFrom hmem
      exact hnew u x (w ++ y :: v) (by simp) (by rintro rfl; simp at hu) hy

/-- A patch of `t` is **neutral** when it keeps word characters, and puts characters that are no
word characters, at least one, in the place of any other. -/
structure Neutral (f : Nat → Char → Text) (o : Nat) (t : Text) : Prop where
  /-- Word characters stay. -/
  keeps : ∀ u x v, t = u ++ x :: v → isWordChar x = true → f (o + byteSize u) x = [x]
  /-- Other characters become some of their kind. -/
  separates : ∀ u x v, t = u ++ x :: v → isWordChar x = false →
    f (o + byteSize u) x ≠ [] ∧ ∀ y ∈ f (o + byteSize u) x, isWordChar y = false

theorem Neutral.head {x : Char} {t : Text} (h : Neutral f o (x :: t)) :
    isWordChar x = true ∧ f o x = [x] ∨
      isWordChar x = false ∧ ∃ y ys, f o x = y :: ys ∧ isWordChar y = false ∧
        ∀ z ∈ ys, isWordChar z = false := by
  cases hx : isWordChar x with
  | true => exact Or.inl ⟨rfl, by simpa using h.keeps [] x t rfl hx⟩
  | false =>
    obtain ⟨hne, hall⟩ := h.separates [] x t rfl hx
    rw [byteSize_nil, Nat.add_zero] at hne hall
    obtain ⟨y, ys, hy⟩ := List.exists_cons_of_ne_nil hne
    rw [hy] at hall
    exact Or.inr ⟨rfl, y, ys, hy, hall y (by simp), fun z hz => hall z (by simp [hz])⟩

theorem Neutral.right {s t : Text} (h : Neutral f o (s ++ t)) :
    Neutral f (o + byteSize s) t where
  keeps u x v ht hx := by
    simpa [Nat.add_assoc] using h.keeps (s ++ u) x v (by rw [ht, List.append_assoc]) hx
  separates u x v ht hx := by
    simpa [Nat.add_assoc] using h.separates (s ++ u) x v (by rw [ht, List.append_assoc]) hx

theorem Neutral.tail {x : Char} {t : Text} (h : Neutral f o (x :: t)) :
    Neutral f (o + x.utf8Size) t := by
  simpa using Neutral.right (s := [x]) h

variable {word : Text}

private theorem after?_patchFrom (hw : ∀ c ∈ word, isWordChar c = true) {t : Text}
    (h : Neutral f o t) :
    after? word (patchFrom f o t) = (after? word t).map (patchFrom f (o + byteSize word)) := by
  induction word generalizing o t with
  | nil => simp [after?]
  | cons w word ih =>
    cases t with
    | nil => simp [after?]
    | cons x t =>
      have hword : isWordChar w = true := hw w (by simp)
      rcases h.head with ⟨-, hx⟩ | ⟨hx, y, ys, hy, hy', -⟩
      · rw [patchFrom_cons, hx, List.singleton_append, after?, after?]
        split
        · next heq =>
          rw [ih (fun c hc => hw c (by simp [hc])) h.tail, heq, byteSize_cons, Nat.add_assoc]
        · rfl
      · have hwy : w ≠ y := by
          rintro rfl
          simp [hword] at hy'
        have hwx : w ≠ x := by
          rintro rfl
          simp [hword] at hx
        simp [hy, after?, hwy, hwx]

private theorem standsFree_patchFrom {prev : Option Char} {t : Text} (h : Neutral f o t) :
    standsFree prev (patchFrom f o t) = standsFree prev t := by
  cases t with
  | nil => rfl
  | cons x t =>
    rcases h.head with ⟨-, hx⟩ | ⟨hx, y, ys, hy, hy', -⟩
    · simp [standsFree, hx]
    · simp [standsFree, hy, hy', hx]

private theorem cutBareFrom?_separators (hw : IsWord word) {prev : Option Char} {y : Char}
    {ys : Text} (hy : isWordChar y = false) (hys : ∀ z ∈ ys, isWordChar z = false) (v : Text) :
    cutBareFrom? word prev 0 (y :: (ys ++ v)) =
      (cutBare? word v).map fun (head, tail) => (y :: (ys ++ head), tail) := by
  induction ys generalizing prev y with
  | nil => exact cutBareFrom?_separator hw hy v
  | cons z ys ih =>
    rw [cutBareFrom?_separator hw hy, List.cons_append, cutBare?,
      ih (hys z (by simp)) fun c hc => hys c (by simp [hc])]
    cases cutBare? word v <;> rfl

private theorem cutBareFrom?_patchFrom (hw : IsWord word) {prev : Option Char} {t : Text}
    (h : Neutral f o t) :
    cutBareFrom? word prev 0 (patchFrom f o t) =
      (cutBareFrom? word prev 0 t).map fun (head, tail) =>
        (patchFrom f o head, patchFrom f (o + byteSize head + byteSize word) tail) := by
  induction t generalizing o prev with
  | nil => simp [cutBareFrom?_nil hw]
  | cons x t ih =>
    rcases h.head with ⟨-, hx⟩ | ⟨hx, y, ys, hy, hy', hys⟩
    -- a word character stays, so an occurrence begins here in both texts or in neither
    · have hpatch : patchFrom f o (x :: t) = x :: patchFrom f (o + x.utf8Size) t := by simp [hx]
      have hafter := after?_patchFrom hw.isWordChar_of_mem h
      rw [hpatch] at hafter
      have hfurther : ((cutBareFrom? word (some x) 0 (patchFrom f (o + x.utf8Size) t)).map
          fun (head, tail) => (x :: head, tail)) =
          ((cutBareFrom? word (some x) 0 t).map fun (head, tail) => (x :: head, tail)).map
            fun (head, tail) =>
              (patchFrom f o head, patchFrom f (o + byteSize head + byteSize word) tail) := by
        rw [ih h.tail]
        cases cutBareFrom? word (some x) 0 t with
        | none => rfl
        | some parts => simp [hx, Nat.add_assoc]
      rw [hpatch, cutBareFrom?_cons hw, cutBareFrom?_cons hw, hafter, hfurther]
      cases hrest : after? word (x :: t) with
      | none => rfl
      | some rest =>
        rw [eq_append_of_after? hrest] at h
        simp only [Option.map_some, standsFree_patchFrom h.right]
        split
        · simp
        · rfl
    -- behind any other character both searches start afresh
    · rw [patchFrom_cons, hy, List.cons_append, cutBareFrom?_separators hw hy' hys,
        cutBareFrom?_separator hw hx, cutBare?, ih h.tail, ← cutBare?]
      cases cutBare? word t with
      | none => rfl
      | some parts => simp [hy, Nat.add_assoc]

/-- **A neutral patch keeps the first place of a bare word.** -/
theorem cutBare?_patchFrom (hw : IsWord word) {t : Text} (h : Neutral f o t) :
    cutBare? word (patchFrom f o t) = (cutBare? word t).map fun (head, tail) =>
      (patchFrom f o head, patchFrom f (o + byteSize head + byteSize word) tail) :=
  cutBareFrom?_patchFrom hw h

end Patch

end Text

end SchemaDoc
