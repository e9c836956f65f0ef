import SchemaDoc.Batch.Session
import SchemaDoc.FileSystem.Setup
import SchemaDoc.Proofs.Glob.Pattern
import SchemaDoc.Proofs.Path.FileName

/-!
# What decides the kind of an input

The kind of an input is told by its file name. The name of the tool's own file comes before the
pattern, and a path without a file name is never a schema: `Classifier.classify_eq_iff` says so by
the language of the glob, and `Classifier.ofSettings_describes` by the language of the pattern in
the settings, read as a tree. Directories before the name and separators behind it do not matter:
`Classifier.classify_by_fileName`.

Which patterns a session can be started with is told by their groups and escapes alone,
`Session.start_of_mistake?`. Well-formed groups with more levels than `Glob.Nesting.limit` are the
exception.
-/

namespace SchemaDoc

/-- When an input is of a kind, given the names of schemas and that of the tool's own file. -/
def InputKind.Describes (schemas : Language UInt8) (selfName : Option Bytes) (path : Path) :
    InputKind → Prop
  | selfIdentity => ∃ name, path.fileName? = some name ∧ selfName = some name
  | schema => ∃ name, path.fileName? = some name ∧ selfName ≠ some name ∧ name ∈ schemas
  | passthrough => ∀ name, path.fileName? = some name → selfName ≠ some name ∧ name ∉ schemas

namespace Classifier

theorem classify_eq_iff (c : Classifier) (path : Path) (kind : InputKind) :
    c.classify path = kind ↔ kind.Describes c.glob.language c.selfName path := by
  unfold classify
  cases hname : path.fileName? with
  | none => cases kind <;> simp [InputKind.Describes, hname]
  | some name =>
    by_cases hself : c.selfName = some name
    · cases kind <;> simp [InputKind.Describes, hname, hself]
    · have haccepts := c.glob.accepts_iff_mem_language name
      by_cases hglob : c.glob.accepts name <;> cases kind <;>
        simp_all [InputKind.Describes]

/-! ### The last component -/

theorem classify_congr {c : Classifier} {p q : Path} (h : p.fileName? = q.fileName?) :
    c.classify p = c.classify q := by
  unfold classify
  rw [h]

/-- **Only the last component counts.** Separators behind a path make no difference, nor does a
directory before one with a file name. A path without a file name is no schema, whatever the
pattern. -/
theorem classify_by_fileName (c : Classifier) (p d : Bytes) :
    c.classify ⟨p ++ [Path.separator]⟩ = c.classify ⟨p⟩ ∧
    c.classify ⟨p ++ Path.separator :: Path.here⟩ = c.classify ⟨p⟩ ∧
    (Path.fileName? ⟨p⟩ ≠ none → c.classify ⟨d ++ Path.separator :: p⟩ = c.classify ⟨p⟩) ∧
    (Path.fileName? ⟨p⟩ = none ↔ Path.stem p = [] ∨ Path.stem p = Path.here ∨
      Path.stem p = Path.up ∨ Path.separator :: Path.up <:+ Path.stem p) ∧
    (Path.fileName? ⟨p⟩ = none → c.classify ⟨p⟩ = .passthrough) := by
  refine ⟨classify_congr ?_, classify_congr ?_, fun h => classify_congr (Path.fileName?_append h d),
    Path.fileName?_eq_none_iff p, fun h => ?_⟩
  · rw [Path.fileName?_eq, Path.fileName?_eq, Path.landmarks_append_separator]
  · rw [Path.fileName?_eq, Path.fileName?_eq, Path.landmarks_append_here]
  · unfold classify
    rw [h]

/-- The directory above, as `../.`, is no schema for a pattern that describes every name, while a
file below it is one. -/
theorem classify_by_fileName_of_star :
    let c : Classifier := { glob := .anything, selfName := none }
    Glob.parse ['*'] = .ok c.glob ∧
    c.classify (.ofText "../.".toList) = .passthrough ∧
    c.classify (.ofText "../a".toList) = .schema := by
  intro c
  obtain ⟨-, -, hbelow, -, -⟩ :=
    c.classify_by_fileName (Utf8.encode "a".toList) (Utf8.encode "..".toList)
  obtain ⟨-, -, -, -, hpassthrough⟩ := c.classify_by_fileName (Utf8.encode "../.".toList) []
  refine ⟨by decide, hpassthrough (by decide), ?_⟩
  exact (hbelow (by decide)).trans (by decide)

/-! ### The language of the pattern -/

section Settings

variable {settings : Settings}

theorem ofSettings_of_parse {g : Glob} (h : Glob.parse settings.schemaPattern = .ok g) :
    ofSettings settings = .ok { glob := g, selfName := settings.selfName } := by
  simp [ofSettings, h, bind, Except.bind, pure, Except.pure]

theorem ofSettings_eq_error_iff {error : Glob.Error} :
    ofSettings settings = .error error ↔ Glob.parse settings.schemaPattern = .error error := by
  cases hparse : Glob.parse settings.schemaPattern with
  | ok g => simp [ofSettings_of_parse hparse]
  | error other => simp [ofSettings, hparse, bind, Except.bind]

/-- The classifier for a tree as pattern goes by the language of the tree. -/
theorem ofSettings_of_row {row : Glob.Row} (htext : row.text = settings.schemaPattern)
    (hstars : Glob.StarsApart row.text) (hlevels : row.levels ≤ Glob.Nesting.limit) :
    ∃ c, ofSettings settings = .ok c ∧ ∀ path kind,
      c.classify path = kind ↔ kind.Describes row.language settings.selfName path := by
  obtain ⟨g, hparse, hlanguage⟩ := row.parse_text hstars hlevels
  refine ⟨_, ofSettings_of_parse (htext ▸ hparse), fun path kind => ?_⟩
  rw [classify_eq_iff, hlanguage]

/-- The default pattern as a tree. -/
def defaultRow : Glob.Row :=
  .last (.many (.literals [⟨'.', by decide⟩, ⟨'p', by decide⟩, ⟨'r', by decide⟩, ⟨'o', by decide⟩,
    ⟨'t', by decide⟩, ⟨'o', by decide⟩]))

/-- **Classification by the pattern.** A pattern without sets, escapes and doubled stars whose
groups are all closed is a tree. If the tree has no more levels than the limit, the schemas are the
inputs with a name in its language, except for the tool's own file, and otherwise there is no
classifier; this takes many groups within each other. By default the schemas are the names that end
in `.proto`. -/
theorem ofSettings_describes (settings : Settings) (hbare : Glob.Bare settings.schemaPattern)
    (hstars : Glob.StarsApart settings.schemaPattern)
    (hclosed : Glob.mistake? settings.schemaPattern = none) :
    (∃ row : Glob.Row, row.text = settings.schemaPattern) ∧
    (∀ row : Glob.Row, row.text = settings.schemaPattern →
      (row.levels ≤ Glob.Nesting.limit → ∃ c, ofSettings settings = .ok c ∧ ∀ path kind,
        c.classify path = kind ↔ kind.Describes row.language settings.selfName path) ∧
      (Glob.Nesting.limit < row.levels → ofSettings settings = .error .tooDeep ∧
        Glob.safeDepth < Glob.depth settings.schemaPattern)) ∧
    (∃ c, ofSettings { settings with schemaPattern := ({} : Settings).schemaPattern } = .ok c ∧
      ∀ path, c.classify path = .schema ↔ ∃ name, path.fileName? = some name ∧
        settings.selfName ≠ some name ∧ Utf8.encode ".proto".toList <:+ name) := by
  refine ⟨Glob.exists_row_of_mistake? _ hbare hclosed, fun row htext => ⟨fun hlevels => ?_,
    fun hlevels => ?_⟩, ?_⟩
  · exact ofSettings_of_row htext (htext ▸ hstars) hlevels
  · rw [← row.levels_text (htext ▸ hstars), htext] at hlevels
    have hdeep := Glob.parse_eq_tooDeep_iff.mpr hlevels
    exact ⟨ofSettings_eq_error_iff.mpr hdeep, (Glob.mistake?_of_tooDeep hbare.1 hdeep).2⟩
  · let default : Settings := { settings with schemaPattern := ({} : Settings).schemaPattern }
    have htext : defaultRow.text = default.schemaPattern := rfl
    obtain ⟨c, hc, hclassify⟩ := ofSettings_of_row htext (by decide) (by decide)
    refine ⟨c, hc, fun path => (hclassify path .schema).trans ?_⟩
    simp only [InputKind.Describes, defaultRow, Glob.Row.language,
      Glob.Pattern.mem_language_many_literals]
    rfl

/-- A group within a group that has one empty alternative, and the tool's own name among those of
schemas. -/
theorem ofSettings_describes_nested :
    let settings : Settings :=
      { schemaPattern := "\x7ba,\x7b\x7d?\x7d.p".toList
        selfName := some (Utf8.encode "b.p".toList) }
    ∃ (row : Glob.Row) (c : Classifier), row.text = settings.schemaPattern ∧
      ofSettings settings = .ok c ∧ Utf8.encode "z.p".toList ∈ row.language ∧
      c.classify (.ofText "d/z.p".toList) = .schema ∧
      c.classify (.ofText "d/b.p".toList) = .selfIdentity ∧
      c.classify (.ofText "d/ab.p".toList) = .passthrough := by
  intro settings
  obtain ⟨⟨row, htext⟩, hrow, -⟩ :=
    ofSettings_describes settings (by decide) (by decide) (by decide)
  have hlevels : row.levels ≤ Glob.Nesting.limit := by
    rw [← row.levels_text (htext ▸ by decide), htext]
    decide
  obtain ⟨c, hc, hclassify⟩ := (hrow row htext).1 hlevels
  have hparse : ofSettings settings = .ok c := hc
  obtain rfl : _ = c := Except.ok.inj hparse
  obtain ⟨name, hname, -, hmem⟩ := (hclassify (.ofText "d/z.p".toList) .schema).mp (by decide)
  obtain rfl : Utf8.encode "z.p".toList = name := Option.some.inj hname
  exact ⟨row, _, htext, hc, hmem, by decide, by decide, by decide⟩

/-- So many groups within each other, each with the alternative `a` and one that goes on. -/
def chain : Nat → Glob.Pattern
  | 0 => .nil
  | depth + 1 =>
    let goesOn : Glob.Pattern := .literal ⟨'x', by decide⟩ (chain depth)
    .group (.cons (.literal ⟨'a', by decide⟩ .nil) (.last goesOn)) .nil

theorem mem_language_chain (depth : Nat) :
    Utf8.encode "a".toList ∈ (chain (depth + 1)).language :=
  ⟨_, .inl ⟨_, rfl, [], rfl, rfl⟩, [], rfl, rfl⟩

/-- Every group of a chain takes three levels: one of its own, one for the choice, and one for the
sequence that goes on. -/
theorem levels_chain (depth : Nat) :
    (Glob.Row.last (chain (depth + 1))).levels = 3 * (depth + 1) := by
  have hchain (depth : Nat) : (chain (depth + 1)).nesting = ⟨1, 3 * depth + 2⟩ := by
    induction depth with
    | zero => rfl
    | succ depth ih =>
      rw [chain]
      simp only [Glob.Pattern.nesting, Glob.Row.nestings, ih]
      rfl
  rw [Glob.Row.levels, Glob.Row.nesting, hchain]
  rfl

/-- A well-formed pattern for which there is no classifier, although its language has the name `a`.
With one group less there is one. -/
theorem ofSettings_of_chain :
    let row : Glob.Row := .last (chain 84)
    (Glob.Bare row.text ∧ '/' ∉ row.text ∧ Glob.StarsApart row.text ∧
      Glob.mistake? row.text = none ∧ Glob.depth row.text ≤ 200) ∧
    Utf8.encode "a".toList ∈ row.language ∧
    (¬ ∃ c, ofSettings { schemaPattern := row.text } = .ok c) ∧
    ∃ c, ofSettings { schemaPattern := (Glob.Row.last (chain 83)).text } = .ok c := by
  intro row
  have hstars : Glob.StarsApart row.text := by decide +kernel
  have hlevels : Glob.levels row.text = 252 := (row.levels_text hstars).trans (levels_chain 83)
  have hdeep : Glob.parse row.text = .error .tooDeep :=
    Glob.parse_eq_tooDeep_iff.mpr (hlevels ▸ by decide)
  have herror : ofSettings { schemaPattern := row.text } = .error .tooDeep :=
    ofSettings_eq_error_iff.mpr hdeep
  refine ⟨by decide +kernel, mem_language_chain 83, ?_, ?_⟩
  · rintro ⟨c, hc⟩
    cases herror.symm.trans hc
  · have hfewer : (Glob.Row.last (chain 83)).levels ≤ Glob.Nesting.limit :=
      levels_chain 82 ▸ by decide
    obtain ⟨g, hparse, -⟩ := (Glob.Row.last (chain 83)).parse_text (by decide +kernel) hfewer
    exact ⟨_, ofSettings_of_parse hparse⟩

end Settings

end Classifier

/-! ### Patterns to start with -/

namespace Session

section Start

variable {settings : Settings} {files : FileSystem}

theorem start_of_ofSettings {c : Classifier} (h : Classifier.ofSettings settings = .ok c) :
    ∃ s, start settings files = .ok s := by
  simp [start, h]

theorem start_of_ofSettings_error {error : Glob.Error}
    (h : Classifier.ofSettings settings = .error error) :
    start settings files = .error (.invalidPattern settings.schemaPattern error) := by
  simp [start, h]

/-- **Starting a session** with a pattern that has no set. It succeeds if and only if there is no
mistake in the groups and escapes of the pattern, and fails with the first one otherwise. The
exception are patterns with more levels than the limit, which have no such mistake and many groups
within each other. Characters other than braces and escapes make no difference where nothing is
escaped. -/
theorem start_of_mistake? (settings : Settings) (files : FileSystem)
    (hset : '[' ∉ settings.schemaPattern) :
    (∀ error, Glob.mistake? settings.schemaPattern = some error →
      Classifier.ofSettings settings = .error error ∧
      start settings files = .error (.invalidPattern settings.schemaPattern error)) ∧
    (Classifier.ofSettings settings ≠ .error .tooDeep →
      ((∃ c, Classifier.ofSettings settings = .ok c) ↔
        Glob.mistake? settings.schemaPattern = none) ∧
      ((∃ s, start settings files = .ok s) ↔ Glob.mistake? settings.schemaPattern = none)) ∧
    (Classifier.ofSettings settings = .error .tooDeep ↔
      Glob.Nesting.limit < Glob.levels settings.schemaPattern) ∧
    (Classifier.ofSettings settings = .error .tooDeep →
      Glob.mistake? settings.schemaPattern = none ∧
      Glob.safeDepth < Glob.depth settings.schemaPattern) ∧
    (∀ head tail : Text, ∀ c ∈ ['*', '?', ',', ']', '/'],
      settings.schemaPattern = head ++ c :: tail → Glob.mistake? head ≠ some .danglingEscape →
      Glob.mistake? settings.schemaPattern = Glob.mistake? (head ++ tail)) := by
  obtain ⟨hmistaken, hclean⟩ := Glob.parse_of_mistake? hset
  have htooDeep : Classifier.ofSettings settings = .error .tooDeep ↔
      Glob.Nesting.limit < Glob.levels settings.schemaPattern :=
    Classifier.ofSettings_eq_error_iff.trans Glob.parse_eq_tooDeep_iff
  refine ⟨fun error h => ?_, fun hdeep => ?_, htooDeep, fun hdeep => ?_, ?_⟩
  · have herror := Classifier.ofSettings_eq_error_iff.mpr (hmistaken error h)
    exact ⟨herror, start_of_ofSettings_error herror⟩
  · cases hmistake : Glob.mistake? settings.schemaPattern with
    | none =>
      have hlevels : ¬ Glob.Nesting.limit < Glob.levels settings.schemaPattern :=
        mt htooDeep.mpr hdeep
      obtain ⟨g, hparse⟩ := hclean hmistake (Nat.not_lt.mp hlevels)
      have hok := Classifier.ofSettings_of_parse hparse
      exact ⟨iff_of_true ⟨_, hok⟩ rfl, iff_of_true (start_of_ofSettings hok) rfl⟩
    | some error =>
      have herror := Classifier.ofSettings_eq_error_iff.mpr (hmistaken error hmistake)
      simp [start_of_ofSettings_error herror, herror]
  · exact Glob.mistake?_of_tooDeep hset (Classifier.ofSettings_eq_error_iff.mp hdeep)
  · intro head tail c hc hpattern hescape
    rw [hpattern]
    simp only [List.mem_cons, List.not_mem_nil, or_false] at hc
    exact Glob.Scan.mistake?_insert (by rintro rfl; simp at hc) (by rintro rfl; simp at hc)
      (by rintro rfl; simp at hc) hescape tail

/-- An escaped brace closes no group, and two stars do not hide that. -/
theorem start_of_unclosed_group :
    let settings : Settings := { schemaPattern := "\x7b**/a,]\\\x7d?".toList }
    Glob.mistake? settings.schemaPattern = some .unclosedGroup ∧
      start settings .fresh = .error (.invalidPattern settings.schemaPattern .unclosedGroup) := by
  intro settings
  have hmistake : Glob.mistake? settings.schemaPattern = some .unclosedGroup := by decide
  obtain ⟨hmistaken, -, -, -, -⟩ := start_of_mistake? settings .fresh (by decide)
  exact ⟨hmistake, (hmistaken _ hmistake).2⟩

/-- So many groups within each other, each with a single alternative. -/
def nest (depth : Nat) : Text :=
  (List.replicate depth "\x7bx".toList).flatten ++ List.replicate depth '\x7d'

/-- No session can be started with a pattern that has no mistake in its groups. With one group less
the pattern has just as many levels as the limit, and one can be started. -/
theorem start_of_nest :
    let settings : Settings := { schemaPattern := nest 126 }
    '[' ∉ settings.schemaPattern ∧ Glob.depth settings.schemaPattern ≤ 200 ∧
      Glob.mistake? settings.schemaPattern = none ∧ (¬ ∃ s, start settings .fresh = .ok s) ∧
      Glob.levels (nest 125) = Glob.Nesting.limit ∧
      ∃ s, start { schemaPattern := nest 125 } .fresh = .ok s := by
  intro settings
  have hdeep : Glob.parse settings.schemaPattern = .error .tooDeep := by decide +kernel
  have herror : start settings .fresh = .error (.invalidPattern settings.schemaPattern .tooDeep) :=
    start_of_ofSettings_error (Classifier.ofSettings_eq_error_iff.mpr hdeep)
  have hset : '[' ∉ nest 125 := by decide +kernel
  have hlevels : Glob.levels (nest 125) = Glob.Nesting.limit := by decide +kernel
  obtain ⟨g, hparse⟩ :=
    (Glob.parse_of_mistake? hset).2 (by decide +kernel) (Nat.le_of_eq hlevels)
  refine ⟨by decide +kernel, by decide +kernel, by decide +kernel, ?_, hlevels,
    start_of_ofSettings (Classifier.ofSettings_of_parse hparse)⟩
  rintro ⟨s, hs⟩
  cases herror.symm.trans hs

end Start

end Session

end SchemaDoc
