import SchemaDoc.Proofs.Schema.Tree
import SchemaDoc.Proofs.Stream.Lines

/-!
# Translation of canonical schemas

Every canonical schema is translated as its two renderings say: `transform_sources`. The proof goes
along the tree. `Becomes s source target next` says that lines recast from scope `s` on come out as
`target` and leave scope `next`; it holds of single lines by their kind and of lines one after the
other by `Becomes.append`. All of an item is recast outside an enum and leaves the scope as it was,
so it does not matter how deep the item stands.
-/

namespace SchemaDoc

namespace Line

/-- The lines `source` can be written and read again, come out as `target` when they are recast from
scope `s` on, and leave scope `next`. -/
structure Becomes (s : Scope) (source target : List Text) (next : Scope) : Prop where
  /-- The lines can be written. -/
  printed : ∀ l ∈ source, Printed l
  /-- What comes out. -/
  output : Recast.output (recastAll s source) = target
  /-- The scope behind the lines. -/
  scope : s.after source = next

section Becomes

variable {s s' s'' : Scope} {line : Text} {source target source' target' : List Text}

theorem Becomes.nil (s : Scope) : Becomes s [] [] s := ⟨by simp, rfl, rfl⟩

theorem Becomes.append (h : Becomes s source target s') (h' : Becomes s' source' target' s'') :
    Becomes s (source ++ source') (target ++ target') s'' where
  printed l hl := by
    rcases List.mem_append.mp hl with hl | hl
    · exact h.printed l hl
    · exact h'.printed l hl
  output := by rw [recastAll_append, Recast.output_append, h.output, h.scope, h'.output]
  scope := by rw [Scope.after_append, h.scope, h'.scope]

/-- One line, by what it is recast to. -/
theorem Becomes.of_recast {r : Recast} (hrecast : recast s line = (r, s')) (hnewline : '\n' ∉ line)
    (hreturn : '\r' ∉ line) : Becomes s [line] r.lines s' where
  printed l hl := by
    rw [List.mem_singleton.mp hl]
    exact ⟨hnewline, fun hlast => hreturn (List.mem_of_getLast? hlast)⟩
  output := by simp [hrecast]
  scope := by simp [hrecast]

/-- A block: a line that opens it, what stands in it and a line that closes it. -/
theorem Becomes.block {first last : Text} {first' last' : Text} {s₁ s₂ s₃ : Scope}
    (hfirst : Becomes s [first] [first'] s₁) (hbody : Becomes s₁ source target s₂)
    (hlast : Becomes s₂ [last] [last'] s₃) :
    Becomes s (first :: source ++ [last]) (first' :: target ++ [last']) s₃ :=
  (hfirst.append hbody).append hlast

end Becomes

end Line

namespace Schema

open Line (blanks Becomes Plain)

/-! ### The lines of a schema -/

section Lines

variable {code : Text}

theorem becomes_blank (s : Scope) (n : Nat) : Becomes s [blanks n] [blanks n] s := by
  have hplain := Line.plain_blanks n
  have hrecast := Line.recast_plain s hplain (c := none) (by simp) (by simp)
  simp only [Line.remark, Line.docRemark, List.append_nil] at hrecast
  exact .of_recast hrecast hplain.newline_notMem hplain.return_notMem

theorem becomes_comment (s : Scope) (n : Nat) (note : Note) (h : s = .outside ∨ ';' ∉ note.text) :
    Becomes s [blanks n ++ '/' :: '/' :: note.text]
      [blanks n ++ '/' :: '/' :: '/' :: note.text] s := by
  have hplain := Line.plain_blanks n
  have hrecast := Line.recast_plain s hplain (c := some note.text)
    (by simpa using note.brace_notMem) (by simpa using h)
  refine .of_recast hrecast ?_ ?_
  · simpa [Line.remark, hplain.newline_notMem] using note.newline_notMem
  · simpa [Line.remark, hplain.return_notMem] using note.return_notMem

theorem becomes_statement {s : Scope} {mark : Char} (hcode : Plain code)
    (hmark : Line.separate s (code ++ [';']) = code ++ [mark]) (note : Option Note) :
    Becomes s [statement code note] (documented code mark note) s := by
  cases note with
  | none =>
    have hrecast := Line.recast_statement s hcode
    rw [hmark] at hrecast
    exact .of_recast hrecast (by simpa using hcode.newline_notMem)
      (by simpa using hcode.return_notMem)
  | some note =>
    have hrecast := Line.recast_statement_remark s hcode (Line.plain_blanks 1) note.brace_notMem
    rw [hmark] at hrecast
    have hline : statement code (some note) =
        code ++ ';' :: blanks 1 ++ '/' :: '/' :: note.text := by simp [statement, blanks]
    rw [← hline] at hrecast
    refine .of_recast hrecast ?_ ?_
    · simpa [statement, hcode.newline_notMem] using note.newline_notMem
    · simpa [statement, hcode.return_notMem] using note.return_notMem

theorem becomes_message (n : Nat) (name : Identifier) :
    Becomes .outside [blanks n ++ Markers.messageWord ++ ' ' :: opening name]
      [Markers.structWord ++ blanks n ++ ' ' :: opening name] .outside := by
  have hplain := plain_opening name
  have hw := Markers.isWord_messageWord
  exact .of_recast (Line.recast_message n hplain) (Line.notMem_keyword n hw hplain (by decide))
    (Line.notMem_keyword n hw hplain (by decide))

theorem becomes_enum (s : Scope) (n : Nat) (name : Identifier) :
    Becomes s [blanks n ++ Markers.enumWord ++ ' ' :: opening name]
      [blanks n ++ Markers.enumWord ++ ' ' :: opening name] .enumBody := by
  have hplain := plain_opening name
  have hw := Markers.isWord_enumWord
  exact .of_recast (Line.recast_enum n s hplain) (Line.notMem_keyword n hw hplain (by decide))
    (Line.notMem_keyword n hw hplain (by decide))

theorem becomes_brace_outside (n : Nat) :
    Becomes .outside [blanks n ++ ['}']] [blanks n ++ ['}', ';']] .outside := by
  have hplain := Line.plain_blanks n
  refine .of_recast (Line.recast_brace_outside hplain) ?_ ?_
  · simpa using hplain.newline_notMem
  · simpa using hplain.return_notMem

theorem becomes_brace_enumBody (n : Nat) :
    Becomes .enumBody [blanks n ++ ['}']] [blanks n ++ ['}']] .outside := by
  have hplain := Line.plain_blanks n
  refine .of_recast (Line.recast_brace_enumBody hplain) ?_ ?_
  · simpa using hplain.newline_notMem
  · simpa using hplain.return_notMem

end Lines

/-! ### Along the tree -/

/-- What stands in the body of an enum stays in it. -/
theorem Member.becomes (member : Member) :
    Becomes .enumBody [member.source] member.target .enumBody := by
  cases member with
  | blank indent => exact becomes_blank .enumBody indent
  | comment indent note h => exact becomes_comment .enumBody indent note (Or.inr h)
  | value indent name number note =>
    have hcode := (plain_assignment name number).blanks_append indent
    refine becomes_statement hcode ?_ note
    unfold Line.separate
    rw [Text.cut?_singleton_eq_some_iff.mpr ⟨rfl, hcode.terminator_notMem⟩]

theorem Member.becomes_all (members : List Member) :
    Becomes .enumBody (members.map Member.source) (members.flatMap Member.target) .enumBody := by
  induction members with
  | nil => exact .nil .enumBody
  | cons member members ih => exact member.becomes.append ih

mutual

/-- **An item is translated wherever it stands**, and leaves the scope outside an enum. -/
theorem Item.becomes : (item : Item) → Becomes .outside item.source item.target .outside
  | .blank indent => becomes_blank .outside indent
  | .comment indent note => becomes_comment .outside indent note (Or.inl rfl)
  | .field indent type name number note => by
    have hcode := (type.plain.append_cons (plain_assignment name number) (y := ' ') (by decide)
      (by decide)).blanks_append indent
    exact becomes_statement hcode rfl note
  -- the body of a message stands outside any enum again, the body of an enum does not
  | .message indent name body closing =>
    .block (becomes_message indent name) (Item.becomes_all body) (becomes_brace_outside closing)
  | .enumeration indent name body closing =>
    .block (becomes_enum .outside indent name) (Member.becomes_all body)
      (becomes_brace_enumBody closing)

theorem Item.becomes_all : (items : List Item) →
    Becomes .outside (Item.sources items) (Item.targets items) .outside
  | [] => .nil .outside
  | item :: items => item.becomes.append (Item.becomes_all items)

end

/-- **Translation of canonical schemas.** The schema text of any tree is transformed to its C-family
text. -/
theorem transform_sources (items : List Item) :
    Run.transform (Text.unlines (Item.sources items)) = Text.unlines (Item.targets items) := by
  have h := Item.becomes_all items
  rw [Run.transform_unlines h.printed, h.output]

example : Run.transform (Text.unlines (["message A \x7b", "  B c = 1; // d", "  enum E \x7b",
      "    X = 0;", "  \x7d", "\x7d"].map String.toList)) =
    Text.unlines (["struct A \x7b", " /// d", "  B c = 1;", "  enum E \x7b",
      "    X = 0,", "  \x7d", "\x7d;"].map String.toList) := by
  decide +kernel

end Schema

end SchemaDoc
