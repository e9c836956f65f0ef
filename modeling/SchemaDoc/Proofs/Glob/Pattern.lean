import SchemaDoc.Proofs.Glob.Groups
import SchemaDoc.Proofs.Glob.Language

/-!
# Patterns as trees

A pattern without sets, escapes and doubled stars is a tree: a sequence of characters that stand for
themselves, of `?`, of `*` and of groups, with further patterns between the commas of a group. The
tree is written as a text (`Row.text`). Its language (`Row.language`) and its number of levels
(`Row.levels`) are told by its parts alone.

Every text with all groups closed is that of a tree, `exists_row_of_mistake?`. Reading the text of a
tree gives a glob for its language if it has no more levels than the limit, and only then:
`Row.parse_text`. The proof goes along the tree, with the reader in any state before and any text
behind.
-/

namespace SchemaDoc

namespace Glob

/-- A character that stands for itself in a pattern. -/
structure Literal where
  /-- The character. -/
  char : Char
  notMem : char ∉ ['?', '*', '[', '{', '}', ',', '\\']

mutual

/-- A pattern with no comma outside of its groups, by what it starts with. -/
inductive Pattern where
  /-- Nothing. -/
  | nil
  /-- A character that stands for itself. -/
  | literal (c : Literal) (rest : Pattern)
  /-- Any one byte. -/
  | one (rest : Pattern)
  /-- Any bytes. -/
  | many (rest : Pattern)
  /-- A group. -/
  | group (row : Row) (rest : Pattern)

/-- Patterns with commas between them. -/
inductive Row where
  /-- The last pattern. -/
  | last (p : Pattern)
  /-- A pattern with a comma behind it. -/
  | cons (p : Pattern) (row : Row)

end

mutual

/-- The pattern as it is written. -/
def Pattern.text : Pattern → Text
  | .nil => []
  | .literal c rest => c.char :: rest.text
  | .one rest => '?' :: rest.text
  | .many rest => '*' :: rest.text
  | .group row rest => '{' :: (row.text ++ '}' :: rest.text)

/-- The patterns as they are written. -/
def Row.text : Row → Text
  | .last p => p.text
  | .cons p row => p.text ++ ',' :: row.text

end

/-! ### Languages -/

mutual

/-- Whether nothing is left of a pattern when empty groups are left out. -/
def Pattern.isEmpty : Pattern → Bool
  | .nil => true
  | .group row rest => row.isEmpty && rest.isEmpty
  | _ => false

/-- Whether all patterns are empty. -/
def Row.isEmpty : Row → Bool
  | .last p => p.isEmpty
  | .cons p row => p.isEmpty && row.isEmpty

end

/-- The names of one byte. -/
def anyByte : Language UInt8 := {name | name.length = 1}

mutual

/-- The names that a pattern describes. A group describes those of its alternatives that are not
empty, and the empty name if there are none. -/
def Pattern.language : Pattern → Language UInt8
  | .nil => 1
  | .literal c rest => {String.utf8EncodeChar c.char} * rest.language
  | .one rest => anyByte * rest.language
  | .many rest => ⊤ * rest.language
  | .group row rest => (if row.isEmpty then 1 else row.choice) * rest.language

/-- The names of those patterns that are not empty. -/
def Row.choice : Row → Language UInt8
  | .last p => if p.isEmpty then 0 else p.language
  | .cons p row => (if p.isEmpty then 0 else p.language) + row.choice

end

/-- The names that patterns describe outside of every group, where a comma stands for itself. -/
def Row.language : Row → Language UInt8
  | .last p => p.language
  | .cons p row => p.language * {String.utf8EncodeChar ','} * row.language

/-- A pattern of characters that stand for themselves. -/
def Pattern.literals (cs : List Literal) : Pattern := cs.foldr .literal .nil

theorem Pattern.language_literals (cs : List Literal) :
    (literals cs).language = {Utf8.encode (cs.map Literal.char)} := by
  induction cs with
  | nil => rfl
  | cons c cs ih =>
    have hcons : literals (c :: cs) = .literal c (literals cs) := rfl
    rw [hcons, Pattern.language, ih, List.map_cons, Utf8.encode_cons]
    exact Set.image2_singleton

/-- A star before other characters is for all names that end in these. -/
theorem Pattern.mem_language_many_literals (cs : List Literal) (name : Bytes) :
    name ∈ (Pattern.many (literals cs)).language ↔ Utf8.encode (cs.map Literal.char) <:+ name := by
  rw [Pattern.language, Pattern.language_literals, Language.mem_mul]
  constructor
  · rintro ⟨before, -, _, rfl, rfl⟩
    exact List.suffix_append _ _
  · rintro ⟨before, rfl⟩
    exact ⟨before, trivial, _, rfl, rfl⟩

/-! ### Levels -/

mutual

/-- How deep a pattern is nested. -/
def Pattern.nesting : Pattern → Nesting
  | .nil => .nothing
  | .literal c rest => (Nesting.char c.char).append rest.nesting
  | .one rest => (Nesting.part 0).append rest.nesting
  | .many rest => (Nesting.part 1).append rest.nesting
  | .group row rest => (Nesting.group row.nestings).append rest.nesting

/-- How deep each of the patterns is nested. -/
def Row.nestings : Row → List Nesting
  | .last p => [p.nesting]
  | .cons p row => p.nesting :: row.nestings

end

/-- How deep patterns are nested outside of every group. -/
def Row.nesting : Row → Nesting
  | .last p => p.nesting
  | .cons p row => (p.nesting.append (Nesting.char ',')).append row.nesting

/-- The number of levels of patterns outside of every group. -/
def Row.levels (row : Row) : Nat := row.nesting.total

/-! ### Pieces -/

/-- The piece of a group with the given alternatives, each with its last piece first. -/
def groupPiece (alternatives : List (List Piece)) : Piece :=
  .plain (choice (alternatives.map ofPieces)) (.group (alternatives.map nestingOf))

mutual

/-- The pieces that a pattern is read as, the last one first. -/
def Pattern.pieces : Pattern → List Piece
  | .nil => []
  | .literal c rest => rest.pieces ++ [.plain (char c.char) (.char c.char)]
  | .one rest => rest.pieces ++ [.plain (byte .all) (.part 0)]
  | .many rest => rest.pieces ++ [.plain anything (.part 1)]
  | .group row rest => rest.pieces ++ [groupPiece row.alternatives]

/-- The alternatives that patterns are read as in a group. -/
def Row.alternatives : Row → List (List Piece)
  | .last p => [p.pieces]
  | .cons p row => p.pieces :: row.alternatives

end

/-- The pieces that patterns are read as outside of every group, the last one first. -/
def Row.pieces : Row → List Piece
  | .last p => p.pieces
  | .cons p row => row.pieces ++ .plain (char ',') (.char ',') :: p.pieces

section Pieces

variable {pieces : List Piece}

theorem language_ofPieces_append (later earlier : List Piece) :
    (ofPieces (later ++ earlier)).language =
      (ofPieces earlier).language * (ofPieces later).language := by
  have hfoldl (g : Glob) (pieces : List Piece) :
      (pieces.foldl (fun g piece => append piece.glob g) g).language =
        (ofPieces pieces).language * g.language := by
    induction pieces generalizing g with
    | nil => exact (one_mul _).symm
    | cons piece pieces ih =>
      have hcons : ofPieces (piece :: pieces) =
          pieces.foldl (fun g piece => append piece.glob g) piece.glob := by
        rw [ofPieces, List.foldl_cons, append_empty]
      rw [List.foldl_cons, ih, language_append, hcons, ih, mul_assoc]
  rw [ofPieces, List.foldl_append]
  exact hfoldl _ earlier

theorem ofPieces_eq_empty_iff : ofPieces pieces = empty ↔ ∀ piece ∈ pieces, piece.glob = empty := by
  have hfoldl (g : Glob) : pieces.foldl (fun g piece => append piece.glob g) g = empty ↔
      g = empty ∧ ∀ piece ∈ pieces, piece.glob = empty := by
    induction pieces generalizing g with
    | nil => simp
    | cons piece pieces ih =>
      rw [List.foldl_cons, ih, append_eq_empty_iff, List.forall_mem_cons, and_assoc, and_left_comm]
  rw [ofPieces, hfoldl]
  exact and_iff_right rfl

theorem language_ofPieces_singleton (piece : Piece) :
    (ofPieces [piece]).language = piece.glob.language := by
  rw [ofPieces, List.foldl_cons, append_empty, List.foldl_nil]

theorem choice_eq_empty_iff {gs : List Glob} : choice gs = empty ↔ ∀ g ∈ gs, g = empty := by
  have hfoldl (g : Glob) (gs : List Glob) (hg : g ≠ empty) : gs.foldl either g ≠ empty := by
    induction gs generalizing g with
    | nil => exact hg
    | cons h gs ih => exact ih _ nofun
  unfold choice
  split
  · next hnone => simpa using hnone
  · next first others hsome =>
    have hfirst : first ∈ gs.filter fun g => decide (g ≠ empty) := hsome ▸ List.mem_cons_self
    obtain ⟨hmem, hne⟩ := List.mem_filter.mp hfirst
    have hne : first ≠ empty := of_decide_eq_true hne
    exact iff_of_false (hfoldl first others hne) fun hall => hne (hall first hmem)

theorem language_byte_all : (byte .all).language = anyByte := by
  ext name
  simp only [mem_language_byte, ByteSet.contains_all, true_and]
  exact List.length_eq_one_iff.symm

end Pieces

mutual

/-- The glob of a pattern is empty if the pattern is. -/
theorem Pattern.ofPieces_eq_empty_iff : (p : Pattern) → (ofPieces p.pieces = empty ↔ p.isEmpty)
  | .nil => by simp [Pattern.pieces, Pattern.isEmpty, ofPieces]
  | .literal c rest => by
    simp [Pattern.pieces, Pattern.isEmpty, Glob.ofPieces_eq_empty_iff, or_imp, forall_and,
      Piece.glob, char_ne_empty]
  | .one rest => by
    simp [Pattern.pieces, Pattern.isEmpty, Glob.ofPieces_eq_empty_iff, or_imp, forall_and,
      Piece.glob]
  | .many rest => by
    simp [Pattern.pieces, Pattern.isEmpty, Glob.ofPieces_eq_empty_iff, or_imp, forall_and,
      Piece.glob]
  | .group row rest => by
    have hgroup : (groupPiece row.alternatives).glob = empty ↔ row.isEmpty :=
      choice_eq_empty_iff.trans row.all_empty_iff
    have hrest := rest.ofPieces_eq_empty_iff
    rw [Glob.ofPieces_eq_empty_iff] at hrest ⊢
    rw [Pattern.pieces, List.forall_mem_append, List.forall_mem_singleton, hrest, hgroup,
      Pattern.isEmpty, Bool.and_eq_true, and_comm]

/-- The globs of patterns are all empty if the patterns are. -/
theorem Row.all_empty_iff : (row : Row) →
    ((∀ g ∈ row.alternatives.map ofPieces, g = empty) ↔ row.isEmpty)
  | .last p => by
    rw [Row.alternatives, List.map_singleton, List.forall_mem_singleton, p.ofPieces_eq_empty_iff,
      Row.isEmpty]
  | .cons p row => by
    rw [Row.alternatives, List.map_cons, List.forall_mem_cons, p.ofPieces_eq_empty_iff,
      row.all_empty_iff, Row.isEmpty, Bool.and_eq_true]

end

/-- An alternative counts in a choice if it is not empty. -/
theorem Pattern.mem_alternative_iff {p : Pattern} {name : Bytes}
    (h : (ofPieces p.pieces).language = p.language) :
    ofPieces p.pieces ≠ empty ∧ name ∈ (ofPieces p.pieces).language ↔
      name ∈ (if p.isEmpty then 0 else p.language : Language UInt8) := by
  rw [h, ne_eq, p.ofPieces_eq_empty_iff]
  split
  · next hempty => simp [hempty]
  · next hempty => simp [hempty]

mutual

/-- **The glob of a pattern** has the language of the pattern. -/
theorem Pattern.language_ofPieces : (p : Pattern) → (ofPieces p.pieces).language = p.language
  | .nil => rfl
  | .literal c rest => by
    rw [Pattern.pieces, language_ofPieces_append, language_ofPieces_singleton,
      rest.language_ofPieces, Piece.glob, char, language_literal, Pattern.language]
  | .one rest => by
    rw [Pattern.pieces, language_ofPieces_append, language_ofPieces_singleton,
      rest.language_ofPieces, Piece.glob, language_byte_all, Pattern.language]
  | .many rest => by
    rw [Pattern.pieces, language_ofPieces_append, language_ofPieces_singleton,
      rest.language_ofPieces, Piece.glob, Glob.language, Pattern.language]
  | .group row rest => by
    have hgroup : (groupPiece row.alternatives).glob.language =
        if row.isEmpty then 1 else row.choice := by
      ext name
      rw [groupPiece, Piece.glob, mem_language_choice_iff, row.all_empty_iff]
      split
      · next hempty =>
        have hall := row.all_empty_iff.mpr hempty
        refine ⟨?_, fun h => .inr ⟨hempty, h⟩⟩
        rintro (⟨g, hg, hne, -⟩ | ⟨-, h⟩)
        · exact absurd (hall g hg) hne
        · exact h
      · next hempty =>
        rw [row.mem_choice_iff]
        exact or_iff_left fun h => hempty h.1
    rw [Pattern.pieces, language_ofPieces_append, language_ofPieces_singleton,
      rest.language_ofPieces, hgroup, Pattern.language]

/-- The names of a choice are those of the globs that are not empty. -/
theorem Row.mem_choice_iff {name : Bytes} : (row : Row) →
    ((∃ g ∈ row.alternatives.map ofPieces, g ≠ empty ∧ name ∈ g.language) ↔ name ∈ row.choice)
  | .last p => by
    rw [Row.choice, ← Pattern.mem_alternative_iff p.language_ofPieces]
    simp [Row.alternatives]
  | .cons p row => by
    rw [Row.choice, Language.mem_add, ← Pattern.mem_alternative_iff p.language_ofPieces,
      ← row.mem_choice_iff]
    simp [Row.alternatives]

end

/-- The glob of patterns outside of every group has their language. -/
theorem Row.language_ofPieces : (row : Row) → (ofPieces row.pieces).language = row.language
  | .last p => p.language_ofPieces
  | .cons p row => by
    have hcomma : (ofPieces (.plain (char ',') (.char ',') :: p.pieces)).language =
        p.language * {String.utf8EncodeChar ','} := by
      rw [← List.singleton_append, language_ofPieces_append, language_ofPieces_singleton,
        p.language_ofPieces, Piece.glob, char, language_literal]
    rw [Row.pieces, language_ofPieces_append, hcomma, row.language_ofPieces, Row.language]

theorem nestingOf_append (later earlier : List Piece) :
    nestingOf (later ++ earlier) = (nestingOf earlier).append (nestingOf later) := by
  have hassoc (m n k : Nesting) : (m.append n).append k = m.append (n.append k) := by
    simp [Nesting.append, Nat.add_assoc, Nat.max_assoc]
  have hnothing (n : Nesting) : Nesting.append .nothing n = n ∧ n.append .nothing = n := by
    simp [Nesting.append, Nesting.nothing]
  have hfoldl (n : Nesting) (pieces : List Piece) :
      pieces.foldl (fun n piece => piece.nesting.append n) n = (nestingOf pieces).append n := by
    induction pieces generalizing n with
    | nil => exact (hnothing n).1.symm
    | cons piece pieces ih =>
      have hcons : nestingOf (piece :: pieces) = (nestingOf pieces).append piece.nesting := by
        rw [nestingOf, List.foldl_cons, (hnothing _).2, ih]
      rw [List.foldl_cons, ih, hcons, hassoc]
  rw [nestingOf, List.foldl_append]
  exact hfoldl _ earlier

theorem nestingOf_singleton (piece : Piece) : nestingOf [piece] = piece.nesting := by
  simp [nestingOf, Nesting.append, Nesting.nothing]

mutual

/-- The pieces of a pattern are nested as deep as the pattern. -/
theorem Pattern.nestingOf_pieces : (p : Pattern) → nestingOf p.pieces = p.nesting
  | .nil => rfl
  | .literal _ rest | .one rest | .many rest => by
    rw [Pattern.pieces, nestingOf_append, nestingOf_singleton, rest.nestingOf_pieces,
      Pattern.nesting, Piece.nesting]
  | .group row rest => by
    rw [Pattern.pieces, nestingOf_append, nestingOf_singleton, rest.nestingOf_pieces,
      Pattern.nesting, groupPiece, Piece.nesting, row.nestingOf_alternatives]

theorem Row.nestingOf_alternatives : (row : Row) → row.alternatives.map nestingOf = row.nestings
  | .last p => by rw [Row.alternatives, List.map_singleton, p.nestingOf_pieces, Row.nestings]
  | .cons p row => by
    rw [Row.alternatives, List.map_cons, p.nestingOf_pieces, row.nestingOf_alternatives,
      Row.nestings]

end

theorem Row.nestingOf_pieces : (row : Row) → nestingOf row.pieces = row.nesting
  | .last p => p.nestingOf_pieces
  | .cons p row => by
    rw [Row.pieces, nestingOf_append, row.nestingOf_pieces, ← List.singleton_append,
      nestingOf_append, nestingOf_singleton, p.nestingOf_pieces, Piece.nesting, Row.nesting]

/-! ### Reading the text of a tree -/

namespace Reader

variable (previous : Option Char) (pieces : List Piece) (groups : List OpenGroup) {rest : Text}

/-- A character that stands for itself is a piece. -/
theorem readAll_literal (c : Literal) :
    readAll ⟨.piece, previous, pieces, groups⟩ (c.char :: rest) =
      readAll ⟨.piece, some c.char, .plain (char c.char) (.char c.char) :: pieces, groups⟩
        rest := by
  have hstart (r : Reader) (next : Option Char) :
      r.startPiece c.char next = .ok (r.pushChar c.char) := by
    have hc := c.notMem
    unfold startPiece
    split <;> simp_all
  rw [readAll_cons, Reader.step, read, hstart]
  rfl

/-- A star that no other star follows is a piece. -/
theorem readAll_star (h : rest.head? ≠ some '*') :
    readAll ⟨.piece, previous, pieces, groups⟩ ('*' :: rest) =
      readAll ⟨.piece, some '*', .plain anything (.part 1) :: pieces, groups⟩ rest := by
  rw [readAll_cons, Reader.step, read, startPiece, if_neg h]
  rfl

end Reader

/-- No star stands beside another one. -/
def StarsApart (t : Text) : Prop := ¬ ['*', '*'] <:+: t

instance (t : Text) : Decidable (StarsApart t) := inferInstanceAs (Decidable (¬ _))

theorem StarsApart.tail {c : Char} {t : Text} (h : StarsApart (c :: t)) : StarsApart t :=
  fun ht => h (List.infix_cons ht)

theorem StarsApart.right {s t : Text} (h : StarsApart (s ++ t)) : StarsApart t :=
  fun ht => h (ht.trans (List.suffix_append s t).isInfix)

theorem StarsApart.head?_ne {t : Text} (h : StarsApart ('*' :: t)) : t.head? ≠ some '*' := by
  intro ht
  obtain ⟨t, rfl⟩ := List.head?_eq_some_iff.mp ht
  exact h (List.prefix_append ['*', '*'] t).isInfix

mutual

/-- **Reading a pattern** adds its pieces, whatever comes behind. -/
theorem Pattern.readAll_text (previous : Option Char) (pieces : List Piece)
    (groups : List OpenGroup) {rest : Text} : (p : Pattern) → StarsApart (p.text ++ rest) →
    ∃ last, Reader.readAll ⟨.piece, previous, pieces, groups⟩ (p.text ++ rest) =
      Reader.readAll ⟨.piece, last, p.pieces ++ pieces, groups⟩ rest
  | .nil, _ => ⟨previous, rfl⟩
  | .literal c p, h => by
    obtain ⟨last, hp⟩ := p.readAll_text (some c.char)
      (.plain (char c.char) (.char c.char) :: pieces) groups h.tail
    refine ⟨last, ?_⟩
    rw [Pattern.text, List.cons_append, Reader.readAll_literal, hp, Pattern.pieces,
      List.append_assoc, List.singleton_append]
  | .one p, h => by
    obtain ⟨last, hp⟩ := p.readAll_text (some '?') (.plain (byte .all) (.part 0) :: pieces) groups
      h.tail
    refine ⟨last, Eq.trans ?_ (hp.trans ?_)⟩
    · rfl
    · rw [Pattern.pieces, List.append_assoc, List.singleton_append]
  | .many p, h => by
    obtain ⟨last, hp⟩ := p.readAll_text (some '*') (.plain anything (.part 1) :: pieces) groups
      h.tail
    refine ⟨last, ?_⟩
    have hstar : (p.text ++ rest).head? ≠ some '*' := h.head?_ne
    rw [Pattern.text, List.cons_append, Reader.readAll_star _ _ _ hstar, hp, Pattern.pieces,
      List.append_assoc, List.singleton_append]
  | .group row p, h => by
    have htext : (Pattern.group row p).text ++ rest =
        '{' :: (row.text ++ '}' :: (p.text ++ rest)) := by
      simp [Pattern.text]
    rw [htext] at h ⊢
    obtain ⟨middle, hrow⟩ := row.readAll_text (some '{') pieces [] groups h.tail
    obtain ⟨last, hp⟩ := p.readAll_text middle (groupPiece row.alternatives :: pieces) groups
      h.tail.right.tail
    refine ⟨last, ?_⟩
    rw [Pattern.pieces, List.append_assoc, List.singleton_append, ← hp]
    exact hrow

/-- Reading patterns behind those of a group that are read already closes the group. -/
theorem Row.readAll_text (previous : Option Char) (outer : List Piece)
    (finished : List (List Piece)) (groups : List OpenGroup) {rest : Text} : (row : Row) →
    StarsApart (row.text ++ '}' :: rest) →
    ∃ last, Reader.readAll ⟨.piece, previous, [], ⟨outer, finished⟩ :: groups⟩
        (row.text ++ '}' :: rest) =
      Reader.readAll ⟨.piece, last,
        groupPiece (finished.reverse ++ row.alternatives) :: outer, groups⟩ rest
  | .last p, h => by
    obtain ⟨last, hp⟩ := p.readAll_text previous [] (⟨outer, finished⟩ :: groups) h
    refine ⟨some '}', hp.trans ?_⟩
    rw [List.append_nil, Row.alternatives, ← List.reverse_cons]
    rfl
  | .cons p row, h => by
    have htext : (Row.cons p row).text ++ '}' :: rest =
        p.text ++ ',' :: (row.text ++ '}' :: rest) := by
      simp [Row.text]
    rw [htext] at h ⊢
    obtain ⟨middle, hp⟩ := p.readAll_text previous [] (⟨outer, finished⟩ :: groups) h
    obtain ⟨last, hrow⟩ := row.readAll_text (some ',') outer (p.pieces :: finished) groups
      h.right.tail
    rw [List.append_nil] at hp
    rw [List.reverse_cons, List.append_assoc, List.singleton_append] at hrow
    exact ⟨last, Eq.trans hp hrow⟩

end

/-- Reading patterns outside of every group adds their pieces and those of the commas. -/
theorem Row.readAll_outside (previous : Option Char) (pieces : List Piece) : (row : Row) →
    StarsApart row.text → ∃ last, Reader.readAll ⟨.piece, previous, pieces, []⟩ row.text =
      .ok ⟨.piece, last, row.pieces ++ pieces, []⟩
  | .last p, h => by
    have htext : p.text ++ [] = (Row.last p).text := List.append_nil _
    obtain ⟨last, hp⟩ := p.readAll_text previous pieces [] (htext ▸ h)
    exact ⟨last, htext ▸ hp⟩
  | .cons p row, h => by
    obtain ⟨middle, hp⟩ := p.readAll_text previous pieces [] h
    obtain ⟨last, hrow⟩ := row.readAll_outside (some ',')
      (.plain (char ',') (.char ',') :: (p.pieces ++ pieces)) h.right.tail
    refine ⟨last, Eq.trans hp (Eq.trans hrow ?_)⟩
    simp [Row.pieces]

/-- All pieces of a pattern mean the same wherever they stand. -/
theorem Pattern.leadingDirs_notMem_pieces : (p : Pattern) → .leadingDirs ∉ p.pieces
  | .nil => by simp [Pattern.pieces]
  | .literal _ rest => by simp [Pattern.pieces, rest.leadingDirs_notMem_pieces]
  | .one rest => by simp [Pattern.pieces, rest.leadingDirs_notMem_pieces]
  | .many rest => by simp [Pattern.pieces, rest.leadingDirs_notMem_pieces]
  | .group _ rest => by simp [Pattern.pieces, rest.leadingDirs_notMem_pieces, groupPiece]

theorem Row.leadingDirs_notMem_pieces : (row : Row) → .leadingDirs ∉ row.pieces
  | .last p => p.leadingDirs_notMem_pieces
  | .cons p row => by
    simp [Row.pieces, p.leadingDirs_notMem_pieces, row.leadingDirs_notMem_pieces]

theorem Row.readPieces_text (row : Row) (h : StarsApart row.text) :
    readPieces row.text = .ok row.pieces := by
  obtain ⟨last, hread⟩ := row.readAll_outside none [] h
  rw [List.append_nil] at hread
  rw [readPieces, hread]
  rfl

/-- The levels of a pattern are those of its tree. -/
theorem Row.levels_text (row : Row) (h : StarsApart row.text) :
    Glob.levels row.text = row.levels := by
  rw [Glob.levels, row.readPieces_text h]
  exact congrArg Nesting.total row.nestingOf_pieces

/-- **Reading the text of a tree** gives a glob for the language of the tree if it has no more
levels than the limit. -/
theorem Row.parse_text (row : Row) (h : StarsApart row.text)
    (hlevels : row.levels ≤ Nesting.limit) :
    ∃ g, parse row.text = .ok g ∧ g.language = row.language := by
  have hpieces : row.pieces ≠ [.leadingDirs] := by
    intro heq
    exact row.leadingDirs_notMem_pieces (heq ▸ List.mem_singleton_self _)
  have hdeep : (nestingOf row.pieces).isTooDeep = false := by
    rw [row.nestingOf_pieces]
    exact decide_eq_false (Nat.not_lt.mpr hlevels)
  refine ⟨ofPieces row.pieces, ?_, row.language_ofPieces⟩
  rw [parse_of_readPieces (row.readPieces_text h), if_neg hpieces, hdeep]
  rfl

/-! ### Every text with closed groups is that of a tree -/

/-- What comes behind a pattern within so many open groups: the end, a comma, or the end of the
innermost group. -/
inductive Continues (opened : Nat) : Text → Prop
  /-- The end, outside of every group. -/
  | ends (h : opened = 0) : Continues opened []
  /-- A comma. -/
  | comma {t : Text} (h : Scan.mistake? { opened } t = none) : Continues opened (',' :: t)
  /-- The end of a group. -/
  | closes {t : Text} {outside : Nat} (hopened : opened = outside + 1)
    (h : Scan.mistake? { opened := outside } t = none) : Continues opened ('}' :: t)

/-- No set and no escape. -/
def Bare (t : Text) : Prop := '[' ∉ t ∧ '\\' ∉ t

instance (t : Text) : Decidable (Bare t) := inferInstanceAs (Decidable (_ ∧ _))

theorem Bare.tail {c : Char} {t : Text} (h : Bare (c :: t)) : Bare t :=
  ⟨fun ht => h.1 (.tail c ht), fun ht => h.2 (.tail c ht)⟩

theorem Bare.right {s t : Text} (h : Bare (s ++ t)) : Bare t :=
  ⟨fun ht => h.1 (List.mem_append_right s ht), fun ht => h.2 (List.mem_append_right s ht)⟩

mutual

/-- A text whose groups are all closed starts with a pattern. -/
theorem exists_pattern (opened : Nat) (t : Text) (hbare : Bare t)
    (h : Scan.mistake? { opened } t = none) :
    ∃ (p : Pattern) (rest : Text), t = p.text ++ rest ∧ Continues opened rest := by
  match t, hbare, h with
  | [], _, h =>
    have hzero : opened = 0 := by
      by_contra hne
      simp [Scan.mistake?, Scan.ending?, hne] at h
    exact ⟨.nil, [], rfl, .ends hzero⟩
  | c :: t, hbare, h =>
    by_cases hspecial : c ∈ ['?', '*', '[', '{', '}', ',', '\\']
    · simp only [List.mem_cons, List.not_mem_nil, or_false] at hspecial
      rcases hspecial with rfl | rfl | rfl | rfl | rfl | rfl | rfl
      · obtain ⟨p, rest, rfl, hrest⟩ := exists_pattern opened t hbare.tail h
        exact ⟨.one p, rest, rfl, hrest⟩
      · obtain ⟨p, rest, rfl, hrest⟩ := exists_pattern opened t hbare.tail h
        exact ⟨.many p, rest, rfl, hrest⟩
      · exact absurd List.mem_cons_self hbare.1
      · obtain ⟨row, middle, rfl, hmiddle⟩ := exists_row opened t hbare.tail h
        obtain ⟨p, rest, rfl, hrest⟩ := exists_pattern opened middle hbare.tail.right.tail hmiddle
        exact ⟨.group row p, rest, by simp [Pattern.text], hrest⟩
      · cases opened with
        | zero => cases h
        | succ outside => exact ⟨.nil, '}' :: t, rfl, .closes rfl h⟩
      · exact ⟨.nil, ',' :: t, rfl, .comma h⟩
      · exact absurd List.mem_cons_self hbare.2
    · have hstep : Scan.step { opened } c = .ok { opened } := by
        simp only [List.mem_cons, not_or] at hspecial
        exact Scan.step_of_ordinary (by tauto) (by tauto) (by tauto)
      rw [Scan.mistake?, hstep] at h
      obtain ⟨p, rest, rfl, hrest⟩ := exists_pattern opened t hbare.tail h
      exact ⟨.literal ⟨c, hspecial⟩ p, rest, rfl, hrest⟩
termination_by (t.length, 0)

/-- The rest of a group whose groups are all closed is some patterns and the end of the group. -/
theorem exists_row (opened : Nat) (t : Text) (hbare : Bare t)
    (h : Scan.mistake? { opened := opened + 1 } t = none) :
    ∃ (row : Row) (rest : Text), t = row.text ++ '}' :: rest ∧
      Scan.mistake? { opened } rest = none := by
  obtain ⟨p, rest, rfl, hrest⟩ := exists_pattern (opened + 1) t hbare h
  cases hrest with
  | ends hzero => cases hzero
  | comma hrest =>
    obtain ⟨row, rest, rfl, hafter⟩ := exists_row opened _ hbare.right.tail hrest
    exact ⟨.cons p row, rest, by simp [Row.text], hafter⟩
  | closes hopened hrest =>
    cases hopened
    exact ⟨.last p, _, rfl, hrest⟩
termination_by (t.length, 1)

end

/-- **Every text** without sets and escapes in which all groups are closed is that of a tree. -/
theorem exists_row_of_mistake? (t : Text) (hbare : Bare t) (h : mistake? t = none) :
    ∃ row : Row, row.text = t := by
  obtain ⟨p, rest, rfl, hrest⟩ := exists_pattern 0 t hbare h
  cases hrest with
  | ends => exact ⟨.last p, (List.append_nil _).symm⟩
  | comma hrest =>
    obtain ⟨row, rfl⟩ := exists_row_of_mistake? _ hbare.right.tail hrest
    exact ⟨.cons p row, rfl⟩
  | closes hopened => cases hopened
termination_by t.length

end Glob

end SchemaDoc
