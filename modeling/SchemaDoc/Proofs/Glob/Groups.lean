import SchemaDoc.Glob.Parser

/-!
# Groups and escapes of a pattern

Whether a pattern without a set can be read is decided by its braces and escapes alone. A `Scan`
goes through the pattern and keeps nothing but the number of open groups and whether the next
character is escaped; `mistake?` is the first mistake that it meets, and `depth` the largest number
of groups that are open at once.

The reader does more: it looks ahead, takes separators in behind two stars and puts pieces in the
place of others. `Reader.reads` lists once what one character can make it do. From this follow the
two facts that are carried through a whole pattern, that the reader has as many groups open as the
scan (`Reader.Follows`), and that the pieces of an alternative are nested no deeper than the groups
still to come allow (`Reader.Within`). So the reader finds the mistakes of the scan and no other,
`parse_of_mistake?`.

Levels are counted when all is read, in the nesting of the pieces: `parse_eq_tooDeep_iff` says of
every pattern when it has too many of them. Without a set this takes more than 81 groups within each
other, `mistake?_of_tooDeep`.
-/

namespace SchemaDoc

namespace Glob

/-- What is kept when only braces and escapes are looked at. -/
structure Scan where
  /-- The number of open groups. -/
  opened : Nat := 0
  /-- Whether the next character is taken as it is. -/
  escaped : Bool := false
  deriving DecidableEq, Repr

namespace Scan

variable (s : Scan)

/-- Looks at one character. -/
def step (c : Char) : Except Error Scan :=
  if s.escaped then .ok { s with escaped := false }
  else if c = '\\' then .ok { s with escaped := true }
  else if c = '{' then .ok { s with opened := s.opened + 1 }
  else if c = '}' then
    if s.opened = 0 then .error .unopenedGroup else .ok { s with opened := s.opened - 1 }
  else .ok s

/-- The mistake when the pattern ends here. -/
def ending? : Option Error :=
  if s.escaped then some .danglingEscape
  else if s.opened = 0 then none
  else some .unclosedGroup

/-- The first mistake in the rest of a pattern. -/
def mistake? (s : Scan) : Text → Option Error
  | [] => s.ending?
  | c :: t =>
    match s.step c with
    | .error error => some error
    | .ok s => s.mistake? t

/-- The largest number of groups that are open at once in the rest of a pattern. -/
def depth (s : Scan) : Text → Nat
  | [] => s.opened
  | c :: t =>
    match s.step c with
    | .error _ => s.opened
    | .ok next => max s.opened (next.depth t)

variable {s} {c : Char}

/-- Only braces and escapes matter. -/
theorem step_of_ordinary (hescape : c ≠ '\\') (hopens : c ≠ '{') (hcloses : c ≠ '}') :
    s.step c = .ok { s with escaped := false } := by
  obtain ⟨opened, escaped⟩ := s
  cases escaped with
  | true => rfl
  | false => simp [step, hescape, hopens, hcloses]

/-- Where nothing is escaped, a character that is neither a brace nor an escape can be put in. -/
theorem mistake?_insert (hescape : c ≠ '\\') (hopens : c ≠ '{') (hcloses : c ≠ '}') {head : Text}
    (h : s.mistake? head ≠ some .danglingEscape) (tail : Text) :
    s.mistake? (head ++ c :: tail) = s.mistake? (head ++ tail) := by
  induction head generalizing s with
  | nil =>
    obtain ⟨opened, escaped⟩ := s
    obtain rfl : escaped = false := by simpa [mistake?, ending?] using h
    simp only [List.nil_append, mistake?, step_of_ordinary hescape hopens hcloses]
  | cons first head ih =>
    simp only [List.cons_append, mistake?] at h ⊢
    cases hstep : s.step first with
    | error error => rfl
    | ok next =>
      rw [hstep] at h
      exact ih h

end Scan

/-- The first mistake in the groups and escapes of a pattern. -/
def mistake? (pattern : Text) : Option Error := ({} : Scan).mistake? pattern

/-- The largest number of groups that are open at once in a pattern. -/
def depth (pattern : Text) : Nat := ({} : Scan).depth pattern

/-! ### Levels -/

theorem Nesting.levels_le (n : Nesting) : n.levels ≤ n.inner + 1 := by
  unfold levels
  split <;> omega

/-- A group has at most three levels more than what stands in it. -/
theorem Nesting.inner_group_le {alternatives : List Nesting} {k : Nat}
    (h : ∀ n ∈ alternatives, n.inner ≤ k) : (group alternatives).inner ≤ k + 3 := by
  have hlevels (n : Nesting) (hn : n ∈ alternatives.filter fun n => decide (n.parts ≠ 0)) :
      n.levels ≤ k + 1 :=
    Nat.le_trans n.levels_le (Nat.add_le_add_right (h n (List.mem_filter.mp hn).1) 1)
  have hmax (ns : List Nesting) (hns : ∀ n ∈ ns, n.levels ≤ k + 1) {deepest : Nat}
      (hdeepest : deepest ≤ k + 1) :
      ns.foldl (fun deepest n => max deepest n.levels) deepest ≤ k + 1 := by
    induction ns generalizing deepest with
    | nil => exact hdeepest
    | cons n ns ih =>
      obtain ⟨hn, hns⟩ := List.forall_mem_cons.mp hns
      exact ih hns (Nat.max_le.mpr ⟨hdeepest, hn⟩)
  unfold group
  split
  · exact Nat.zero_le _
  · next n hfilter =>
    have hn := hlevels n (by rw [hfilter]; exact List.mem_singleton_self n)
    simp only [part]
    omega
  · exact Nat.add_le_add_right (hmax _ hlevels (Nat.zero_le _)) 2

/-- A sequence is nested as deep as its deepest piece. -/
theorem inner_nestingOf_le_iff {pieces : List Piece} {k : Nat} :
    (nestingOf pieces).inner ≤ k ↔ ∀ piece ∈ pieces, piece.nesting.inner ≤ k := by
  have hfoldl (n : Nesting) :
      (pieces.foldl (fun n piece => piece.nesting.append n) n).inner ≤ k ↔
        n.inner ≤ k ∧ ∀ piece ∈ pieces, piece.nesting.inner ≤ k := by
    induction pieces generalizing n with
    | nil => simp
    | cons piece pieces ih =>
      have happend : (piece.nesting.append n).inner ≤ k ↔ piece.nesting.inner ≤ k ∧ n.inner ≤ k :=
        Nat.max_le
      rw [List.foldl_cons, ih, happend, List.forall_mem_cons, and_assoc, and_left_comm]
  rw [nestingOf, hfoldl]
  exact and_iff_right (Nat.zero_le _)

/-! ### Too many levels -/

/-- The number of levels of a pattern, none if it cannot be read. -/
def levels (pattern : Text) : Nat :=
  match readPieces pattern with
  | .ok pieces => (nestingOf pieces).total
  | .error _ => 0

/-- A mistake comes of one of the steps. -/
theorem bind_ne_error {α β : Type} {x : Except Error α} {f : α → Except Error β} {error : Error}
    (hx : x ≠ .error error) (hf : ∀ a, f a ≠ .error error) : x.bind f ≠ .error error := by
  cases x with
  | error other => exact fun h => hx (congrArg Except.error (Except.error.inj h))
  | ok a => exact hf a

namespace Reader

variable (r : Reader)

theorem readAll_cons (c : Char) (t : Text) :
    r.readAll (c :: t) = (r.step c t.head?).bind (·.readAll t) := rfl

theorem startPiece_ne_tooDeep (c : Char) (next : Option Char) :
    r.startPiece c next ≠ .error .tooDeep := by
  unfold startPiece
  split
  · nofun
  · split <;> nofun
  · nofun
  · nofun
  · unfold closeGroup
    split <;> nofun
  · nofun
  · nofun
  · nofun

theorem step_ne_tooDeep (c : Char) (next : Option Char) : r.step c next ≠ .error .tooDeep := by
  refine bind_ne_error ?_ fun _ => nofun
  unfold read
  split
  · exact r.startPiece_ne_tooDeep c next
  · nofun
  · nofun
  · nofun
  · next reader hmode =>
    split
    · nofun
    · refine bind_ne_error ?_ fun _ => nofun
      unfold SetReader.read
      grind

/-- Levels are not counted before all is read. -/
theorem readAll_ne_tooDeep (t : Text) : (r.readAll t).bind finish ≠ .error .tooDeep := by
  induction t generalizing r with
  | nil =>
    change r.finish ≠ .error .tooDeep
    unfold finish
    split <;> nofun
  | cons c t ih =>
    rw [readAll_cons]
    have hbind : ((r.step c t.head?).bind (·.readAll t)).bind finish =
        (r.step c t.head?).bind fun r' => (r'.readAll t).bind finish := by
      cases r.step c t.head? <;> rfl
    rw [hbind]
    exact bind_ne_error (r.step_ne_tooDeep c t.head?) fun r' => ih r'

end Reader

theorem parse_of_readPieces {pattern : Text} {pieces : List Piece}
    (h : readPieces pattern = .ok pieces) :
    parse pattern = if pieces = [.leadingDirs] then .ok anything
      else if (nestingOf pieces).isTooDeep then .error .tooDeep else .ok (ofPieces pieces) := by
  rw [parse, h]
  rfl

/-- **Too many levels** is what is wrong with a pattern if and only if it has more of them than the
limit. -/
theorem parse_eq_tooDeep_iff {pattern : Text} :
    parse pattern = .error .tooDeep ↔ Nesting.limit < levels pattern := by
  unfold levels
  cases hread : readPieces pattern with
  | error error =>
    have hparse : parse pattern = .error error := by
      rw [parse, hread]
      rfl
    have hne : error ≠ .tooDeep := by
      rintro rfl
      exact Reader.readAll_ne_tooDeep {} pattern hread
    rw [hparse]
    exact iff_of_false (fun h => hne (Except.error.inj h)) (Nat.not_lt_zero _)
  | ok pieces =>
    rw [parse_of_readPieces hread]
    by_cases hdirs : pieces = [.leadingDirs]
    · subst hdirs
      exact iff_of_false nofun (by decide)
    · rw [if_neg hdirs]
      simp [Nesting.isTooDeep]

/-! ### One character -/

/-- Whether what is expected next fits what comes next, and the escape of a scan. -/
def Mode.Fits (escaped : Bool) (next : Option Char) : Mode → Prop
  | .piece => escaped = false
  | .escaped => escaped = true
  | .secondStar _ => escaped = false ∧ next = some '*'
  | .separator => escaped = false ∧ next = some '/'
  | .inSet _ => False

/-- The number of levels in the deepest piece that is no group. -/
def Piece.flat : Nat := 4

namespace Reader

variable {r r' : Reader} {s : Scan} {c : Char} {next : Option Char} {d : Nat}

/-- What a character in front of `next` can make of a reader outside of sets. -/
inductive Reads (r : Reader) (s : Scan) (c : Char) (next : Option Char) :
    Except Error Reader → Prop
  /-- The next character is escaped. -/
  | escape (hscan : s.step c = .ok { s with escaped := true }) :
    Reads r s c next (.ok { r with mode := .escaped })
  /-- A group is opened. -/
  | opens (hmode : r.mode = .piece)
    (hscan : s.step c = .ok { s with opened := s.opened + 1 }) : Reads r s c next (.ok r.openGroup)
  /-- An alternative ends. -/
  | separates {group : OpenGroup} {groups : List OpenGroup} (hmode : r.mode = .piece)
    (hgroups : r.groups = group :: groups) (hscan : s.step c = .ok s) :
    Reads r s c next (.ok { r with
      pieces := []
      groups := { group with finished := r.pieces :: group.finished } :: groups })
  /-- A group is closed. -/
  | closes {group : OpenGroup} {groups : List OpenGroup} (hmode : r.mode = .piece)
    (hgroups : r.groups = group :: groups)
    (hscan : s.step c = .ok { s with opened := s.opened - 1 }) :
    Reads r s c next (.ok { r with
      pieces := .plain (choice ((r.pieces :: group.finished).reverse.map ofPieces))
        (.group ((r.pieces :: group.finished).reverse.map nestingOf)) :: group.outer
      groups })
  /-- No group is open that could be closed. -/
  | unopened (hscan : s.step c = .error .unopenedGroup) : Reads r s c next (.error .unopenedGroup)
  /-- Some pieces are added to the alternative, or put in the place of others. -/
  | adds (mode : Mode) (pieces : List Piece) (hscan : s.step c = .ok { s with escaped := false })
    (hfits : mode.Fits false next)
    (hpieces : ∀ piece ∈ pieces, piece ∈ r.pieces ∨ piece.nesting.inner ≤ Piece.flat) :
    Reads r s c next (.ok { r with mode, pieces })

theorem joinDirs_inner {directories : Piece} (h : directories.nesting.inner ≤ Piece.flat)
    (last : Piece) : (Piece.joinDirs directories last).nesting.inner ≤ Piece.flat := by
  cases last with
  | plain g nesting => exact h
  | leadingDirs => exact Nat.le_refl _
  | trailingDirs => exact Nat.le_of_lt (by decide : 1 < Piece.flat)
  | innerDirs => exact h

/-- Two stars add pieces that are no groups, or put one in the place of the last piece. -/
theorem doubleStar_adds (r : Reader) (before next : Option Char) :
    ∃ mode pieces, r.doubleStar before next = { r with mode, pieces } ∧ mode.Fits false next ∧
      ∀ piece ∈ pieces, piece ∈ r.pieces ∨ piece.nesting.inner ≤ Piece.flat := by
  have hstars : ∃ mode pieces, r.pushStar.pushStar = { r with mode, pieces } ∧
      mode.Fits false next ∧
      ∀ piece ∈ pieces, piece ∈ r.pieces ∨ piece.nesting.inner ≤ Piece.flat := by
    refine ⟨.piece, _, rfl, rfl, ?_⟩
    rintro piece (_ | ⟨_, _ | ⟨_, hpiece⟩⟩)
    · exact .inr (by decide)
    · exact .inr (by decide)
    · exact .inl hpiece
  unfold doubleStar
  dsimp only
  split
  · next hpieces =>
    split
    · refine ⟨.piece, [.leadingDirs], by simp [push, hpieces], rfl, ?_⟩
      simp [Piece.nesting, Piece.flat, Nesting.part]
    · refine ⟨.separator, [.leadingDirs], by simp [push, hpieces], ⟨rfl, rfl⟩, ?_⟩
      simp [Piece.nesting, Piece.flat, Nesting.part]
    · exact hstars
  · next last pieces hpieces =>
    have hjoined {directories : Piece} (h : directories.nesting.inner ≤ Piece.flat) :
        ∀ piece ∈ Piece.joinDirs directories last :: pieces,
          piece ∈ last :: pieces ∨ piece.nesting.inner ≤ Piece.flat := by
      rintro piece (_ | ⟨_, hpiece⟩)
      · exact .inr (joinDirs_inner h last)
      · exact .inl (.tail _ hpiece)
    split
    · exact hstars
    · split
      · exact ⟨.piece, _, rfl, rfl, hpieces ▸ hjoined (by decide)⟩
      · split
        · next hnext =>
          exact ⟨.separator, _, rfl, ⟨rfl, by simpa using hnext⟩, hpieces ▸ hjoined (by decide)⟩
        · exact hstars

/-- **One character** does one of the things listed. -/
theorem reads (hfits : r.mode.Fits s.escaped (some c)) (hopened : r.groups.length = s.opened)
    (hset : c ≠ '[') (next : Option Char) : Reads r s c next (r.read c next) := by
  obtain ⟨opened, escaped⟩ := s
  have hpush {piece : Piece} (h : piece.nesting.inner ≤ Piece.flat) :
      ∀ other ∈ piece :: r.pieces, other ∈ r.pieces ∨ other.nesting.inner ≤ Piece.flat := by
    rintro other (_ | ⟨_, hother⟩)
    · exact .inr h
    · exact .inl hother
  unfold read
  cases hmode : r.mode with
  | piece =>
    obtain rfl : escaped = false := by simpa [hmode, Mode.Fits] using hfits
    dsimp only
    unfold startPiece
    split
    · exact .adds .piece _ rfl rfl (hpush (Nat.zero_le _))
    · split
      · next hnext => exact .adds _ _ rfl ⟨rfl, hnext⟩ fun piece hpiece => .inl hpiece
      · exact .adds .piece _ rfl rfl (hpush (by decide))
    · exact absurd rfl hset
    · exact .opens hmode rfl
    · unfold closeGroup
      split
      · next hgroups =>
        obtain rfl : 0 = opened := by simpa [hgroups] using hopened
        exact .unopened rfl
      · next group groups hgroups =>
        have hpos : opened ≠ 0 := by
          rintro rfl
          simp [hgroups] at hopened
        exact .closes hmode hgroups (by simp [Scan.step, hpos])
    · unfold comma
      split
      · exact .adds .piece _ rfl rfl (hpush (Nat.zero_le _))
      · next group groups hgroups => exact .separates hmode hgroups rfl
    · exact .escape rfl
    · next hquestion hstar hbracket hopens hcloses hcomma hescape =>
      exact .adds .piece _ (Scan.step_of_ordinary hescape hopens hcloses) rfl
        (hpush (Nat.zero_le _))
  | escaped =>
    obtain rfl : escaped = true := by simpa [hmode, Mode.Fits] using hfits
    exact .adds .piece _ rfl rfl (hpush (Nat.zero_le _))
  | secondStar before =>
    obtain ⟨rfl, rfl⟩ : escaped = false ∧ c = '*' := by simpa [hmode, Mode.Fits] using hfits
    obtain ⟨mode, pieces, hstars, hfits', hpieces⟩ := r.doubleStar_adds before next
    dsimp only
    rw [hstars]
    exact .adds mode pieces rfl hfits' hpieces
  | separator =>
    obtain ⟨rfl, rfl⟩ : escaped = false ∧ c = '/' := by simpa [hmode, Mode.Fits] using hfits
    exact .adds .piece r.pieces rfl rfl fun piece hpiece => .inl hpiece
  | inSet reader => exact absurd hfits (by simp [hmode, Mode.Fits])

/-! ### Following the scan -/

/-- The reader is where a scan is, in front of `next`. -/
structure Follows (r : Reader) (s : Scan) (next : Option Char) : Prop where
  /-- What is expected fits what comes. -/
  fits : r.mode.Fits s.escaped next
  /-- Both have the same number of groups open. -/
  opened_eq : r.groups.length = s.opened

/-- The number of levels that a piece may have within `n` of `d` groups. Every group adds a level,
its choice another one, and the sequence in an alternative a third. -/
def room (d n : Nat) : Nat := Piece.flat + 3 * (d - n)

/-- All pieces of an alternative within `n` of `d` groups have few enough levels. -/
def PiecesWithin (d n : Nat) (pieces : List Piece) : Prop :=
  ∀ piece ∈ pieces, piece.nesting.inner ≤ room d n

/-- The pieces around open groups have few enough levels. -/
def GroupsWithin (d : Nat) : List OpenGroup → Prop
  | [] => True
  | group :: groups =>
    (∀ pieces ∈ group.finished, PiecesWithin d (groups.length + 1) pieces) ∧
      PiecesWithin d groups.length group.outer ∧ GroupsWithin d groups

/-- All pieces of a reader have few enough levels, if no more than `d` groups are open at once. -/
structure Within (r : Reader) (d : Nat) : Prop where
  /-- The current alternative. -/
  pieces : PiecesWithin d r.groups.length r.pieces
  /-- What stands around it. -/
  groups : GroupsWithin d r.groups

/-- What one character makes of a reader follows the scan again. -/
theorem Follows.of_reads (h : r.Follows s (some c)) {s' : Scan} (hs : s.step c = .ok s')
    (hreads : Reads r s c next (.ok r')) : r'.Follows s' next := by
  have hscan {s'' : Scan} (heq : s.step c = .ok s'') : s'' = s' :=
    Except.ok.inj (heq.symm.trans hs)
  have hopened := h.opened_eq
  cases hreads with
  | escape heq => exact hscan heq ▸ ⟨rfl, hopened⟩
  | opens hmode heq =>
    refine hscan heq ▸ ⟨?_, ?_⟩
    · simpa [openGroup, hmode, Mode.Fits] using h.fits
    · simp [openGroup, hopened]
  | separates hmode hgroups heq =>
    refine hscan heq ▸ ⟨?_, ?_⟩
    · simpa [hmode, Mode.Fits] using h.fits
    · simpa [hgroups] using hopened
  | closes hmode hgroups heq =>
    refine hscan heq ▸ ⟨?_, ?_⟩
    · simpa [hmode, Mode.Fits] using h.fits
    · simp [← hopened, hgroups]
  | adds mode pieces heq hfits hpieces => exact hscan heq ▸ ⟨hfits, hopened⟩

/-- What one character makes of a reader has few enough levels again. Only closing a group makes a
deeper piece, and then the piece stands within one group less. -/
theorem Follows.within_of_reads (h : r.Follows s (some c)) (hd : s.opened ≤ d) (hr : r.Within d)
    (hreads : Reads r s c next (.ok r')) : r'.Within d := by
  obtain ⟨hpieces, hgroups⟩ := hr
  cases hreads with
  | escape hscan => exact ⟨hpieces, hgroups⟩
  | opens hmode hscan =>
    exact ⟨by simp [PiecesWithin, openGroup], by simp, hpieces, hgroups⟩
  | separates hmode heq hscan =>
    rw [heq] at hpieces hgroups
    obtain ⟨hfinished, houter, hgroups⟩ := hgroups
    exact ⟨by simp [PiecesWithin], List.forall_mem_cons.mpr ⟨hpieces, hfinished⟩, houter, hgroups⟩
  | @closes group groups hmode heq hscan =>
    have hopened := h.opened_eq
    rw [heq] at hpieces hgroups hopened
    obtain ⟨hfinished, houter, hgroups⟩ := hgroups
    have halternatives : ∀ pieces ∈ r.pieces :: group.finished,
        PiecesWithin d (groups.length + 1) pieces := List.forall_mem_cons.mpr ⟨hpieces, hfinished⟩
    have hgroup : (Nesting.group ((r.pieces :: group.finished).reverse.map nestingOf)).inner ≤
        room d groups.length := by
      have hroom : room d groups.length = room d (groups.length + 1) + 3 := by
        simp only [room, List.length_cons] at hopened ⊢
        omega
      rw [hroom]
      refine Nesting.inner_group_le fun n hn => ?_
      obtain ⟨pieces, hmem, rfl⟩ := List.mem_map.mp hn
      exact inner_nestingOf_le_iff.mpr (halternatives pieces (List.mem_reverse.mp hmem))
    exact ⟨List.forall_mem_cons.mpr ⟨hgroup, houter⟩, hgroups⟩
  | adds mode pieces hscan hfits hadded =>
    refine ⟨fun piece hpiece => ?_, hgroups⟩
    rcases hadded piece hpiece with hold | hflat
    · exact hpieces piece hold
    · exact Nat.le_trans hflat (Nat.le_add_right _ _)

/-! ### A whole pattern -/

/-- **One step** of reader and scan side by side. -/
theorem Follows.step (h : r.Follows s (some c)) (hset : c ≠ '[') (next : Option Char) :
    (∀ error, s.step c = .error error → r.step c next = .error error) ∧
    ∀ s', s.step c = .ok s' → ∃ r', r.step c next = .ok r' ∧ r'.Follows s' next ∧
      ∀ d, s.opened ≤ d → r.Within d → r'.Within d := by
  have hreads := reads h.fits h.opened_eq hset next
  unfold Reader.step
  cases hread : r.read c next with
  | error error =>
    rw [hread] at hreads
    cases hreads with
    | unopened hscan =>
      refine ⟨?_, ?_⟩
      · intro error herror
        rw [Except.error.inj (hscan.symm.trans herror)]
        rfl
      · intro s' hs'
        cases hscan.symm.trans hs'
  | ok r' =>
    rw [hread] at hreads
    refine ⟨?_, ?_⟩
    · intro error herror
      cases hreads <;> simp_all
    · intro s' hs'
      have hfollows := h.of_reads hs' hreads
      refine ⟨_, rfl, ⟨hfollows.fits, hfollows.opened_eq⟩, fun d hd hr => ?_⟩
      have hwithin := h.within_of_reads hd hr hreads
      exact ⟨hwithin.pieces, hwithin.groups⟩

/-- The end of a pattern, which the scan reaches with the same mistake or with none. -/
theorem Follows.finish_of_ending? (h : r.Follows s none) :
    (∀ error, s.ending? = some error → r.finish = .error error) ∧
    (s.ending? = none → r.finish = .ok r.pieces ∧ r.groups = []) := by
  obtain ⟨hfits, hopened⟩ := h
  obtain ⟨opened, escaped⟩ := s
  unfold finish Scan.ending?
  cases hmode : r.mode with
  | piece =>
    obtain rfl : escaped = false := by simpa [hmode, Mode.Fits] using hfits
    cases hgroups : r.groups with
    | nil => simp_all
    | cons group groups =>
      have hpos : opened ≠ 0 := by
        rintro rfl
        simp [hgroups] at hopened
      simp [hpos]
  | escaped =>
    obtain rfl : escaped = true := by simpa [hmode, Mode.Fits] using hfits
    simp
  | secondStar before => simp [hmode, Mode.Fits] at hfits
  | separator => simp [hmode, Mode.Fits] at hfits
  | inSet reader => simp [hmode, Mode.Fits] at hfits

/-- **All of a pattern.** The reader fails where the scan finds a mistake, and otherwise comes to
the end with no group open, so that the pieces are as deep as groups allow. -/
theorem Follows.readAll {t : Text} (h : r.Follows s t.head?) (hset : '[' ∉ t) (hr : r.Within d)
    (hd : s.depth t ≤ d) :
    (∀ error, s.mistake? t = some error → (r.readAll t).bind finish = .error error) ∧
    (s.mistake? t = none →
      ∃ pieces, (r.readAll t).bind finish = .ok pieces ∧ PiecesWithin d 0 pieces) := by
  induction t generalizing r s with
  | nil =>
    obtain ⟨herror, hnone⟩ := h.finish_of_ending?
    refine ⟨herror, fun hs => ?_⟩
    obtain ⟨hfinish, hgroups⟩ := hnone hs
    have hpieces := hr.pieces
    rw [hgroups] at hpieces
    exact ⟨r.pieces, hfinish, hpieces⟩
  | cons c t ih =>
    obtain ⟨hc, ht⟩ : c ≠ '[' ∧ '[' ∉ t := by simpa [eq_comm] using hset
    obtain ⟨herror, hok⟩ := h.step hc t.head?
    rw [Scan.mistake?, readAll_cons]
    rw [Scan.depth] at hd
    cases hs : s.step c with
    | error error =>
      rw [herror error hs]
      refine ⟨?_, nofun⟩
      rintro _ ⟨⟩
      rfl
    | ok s' =>
      rw [hs] at hd
      obtain ⟨hopened, hdepth⟩ := Nat.max_le.mp hd
      obtain ⟨r', hstep, hfollows, hwithin⟩ := hok s' hs
      rw [hstep]
      exact ih hfollows ht (hwithin d hopened hr) hdepth

end Reader

/-- The number of groups within each other with which no pattern has too many levels. -/
def safeDepth : Nat := 81

section Patterns

variable {pattern : Text}

/-- **The pieces of a pattern** without a set. Its first mistake is that of the scan, and without
one the levels of its pieces are told by the groups within each other. -/
theorem readPieces_of_mistake? (hset : '[' ∉ pattern) :
    (∀ error, mistake? pattern = some error → readPieces pattern = .error error) ∧
    (mistake? pattern = none → ∃ pieces, readPieces pattern = .ok pieces ∧
      (nestingOf pieces).inner ≤ Reader.room (depth pattern) 0) := by
  have hfollows : ({} : Reader).Follows {} pattern.head? := ⟨rfl, rfl⟩
  have hwithin : ({} : Reader).Within (depth pattern) := ⟨nofun, trivial⟩
  obtain ⟨herror, hnone⟩ := hfollows.readAll hset hwithin (Nat.le_refl _)
  refine ⟨herror, fun hmistake => ?_⟩
  obtain ⟨pieces, hread, hpieces⟩ := hnone hmistake
  exact ⟨pieces, hread, inner_nestingOf_le_iff.mpr hpieces⟩

/-- **Reading a pattern** without a set: its first mistake is that of the scan. Without one it is
read if it has no more levels than the limit. -/
theorem parse_of_mistake? (hset : '[' ∉ pattern) :
    (∀ error, mistake? pattern = some error → parse pattern = .error error) ∧
    (mistake? pattern = none → levels pattern ≤ Nesting.limit → ∃ g, parse pattern = .ok g) := by
  obtain ⟨herror, hnone⟩ := readPieces_of_mistake? hset
  refine ⟨fun error hmistake => ?_, fun hmistake hlevels => ?_⟩
  · rw [parse, herror error hmistake]
    rfl
  · cases hparse : parse pattern with
    | ok g => exact ⟨g, rfl⟩
    | error error =>
      obtain ⟨pieces, hread, -⟩ := hnone hmistake
      have hdeep : error = .tooDeep := by
        rw [parse_of_readPieces hread] at hparse
        grind
      exact absurd (parse_eq_tooDeep_iff.mp (hdeep ▸ hparse)) (Nat.not_lt.mpr hlevels)

/-- A pattern without a set that has too many levels has no other mistake, and many groups within
each other. -/
theorem mistake?_of_tooDeep (hset : '[' ∉ pattern) (h : parse pattern = .error .tooDeep) :
    mistake? pattern = none ∧ safeDepth < depth pattern := by
  obtain ⟨herror, hnone⟩ := readPieces_of_mistake? hset
  have hlevels := parse_eq_tooDeep_iff.mp h
  unfold levels at hlevels
  cases hmistake : mistake? pattern with
  | some error =>
    rw [herror error hmistake] at hlevels
    exact absurd hlevels (Nat.not_lt_zero _)
  | none =>
    obtain ⟨pieces, hread, hinner⟩ := hnone hmistake
    rw [hread] at hlevels
    refine ⟨rfl, ?_⟩
    simp only [Nesting.total, Nesting.limit, Reader.room, Piece.flat, safeDepth] at *
    omega

end Patterns

end Glob

end SchemaDoc
