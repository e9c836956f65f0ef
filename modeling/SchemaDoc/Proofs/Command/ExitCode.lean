import SchemaDoc.Command.Run
import SchemaDoc.Proofs.Batch.Output
import SchemaDoc.Proofs.Glob.Groups

/-!
# How the command ends

Once its arguments make sense, the command can end in three ways, its `Ending`: the pattern of
schema names has a mistake, the directory of schemas cannot be listed, or all inputs are served. An
input that cannot be opened or read has no influence on this: `run_code` says that the exit code is
told by the pattern and the directory alone.

A pattern with too many levels is apart from the other mistakes. It is the one with which the
command breaks down, although the pattern is well-formed: `run_code_of_nested_groups`.
-/

namespace SchemaDoc

theorem Classifier.discover_eq_error_iff {c : Classifier} {files : FileSystem} {dir : Path}
    {fault : Fault} : c.discover files dir = .error fault ↔ files.list dir = .error fault := by
  unfold discover
  cases files.list dir with
  | error other => simp [bind, Except.bind]
  | ok names => simp [bind, Except.bind, pure, Except.pure]

namespace Command

/-- The inputs that are requested: those that are named, or else the schemas of the directory. -/
def Request.inputs (request : Request) (c : Classifier) (files : FileSystem) :
    Except Fault (List Path) :=
  if request.files = [] then c.discover files request.directory else .ok request.files

section Serve

variable {s : Session} {request : Request} {fault : Fault} {inputs : List Path}

/-- No inputs can be requested only from a directory that cannot be listed. -/
theorem Request.inputs_eq_error_iff {c : Classifier} {files : FileSystem} :
    request.inputs c files = .error fault ↔
      request.files = [] ∧ files.list request.directory = .error fault := by
  unfold inputs
  split
  · next hfiles => simp [hfiles, Classifier.discover_eq_error_iff]
  · next hfiles => simp [hfiles]

theorem serve_of_error (h : request.inputs s.classifier s.recorder.files = .error fault)
    (stdout : StandardOutput) :
    (serve s request stdout).written = [] ∧
      (serve s request stdout).result = .error (.discovery request.directory fault) := by
  obtain ⟨hfiles, hlist⟩ := Request.inputs_eq_error_iff.mp h
  have hdiscover := (Classifier.discover_eq_error_iff (c := s.classifier)).mpr hlist
  simp [serve, hfiles, Session.runDiscovered, Session.discover, Recorder.note, hdiscover]

/-- **The requested inputs** are served to the last one, whatever becomes of each. -/
theorem serve_of_ok (h : request.inputs s.classifier s.recorder.files = .ok inputs)
    (hclear : s.Clear inputs) :
    (serve s request .taken).written = inputs.flatMap (fun path => (s.fate path).output) ∧
      ∃ summary, (serve s request .taken).result = .ok summary := by
  unfold Request.inputs at h
  split at h
  · next hfiles =>
    -- what is remarked before the first input changes neither the files nor the logs
    obtain ⟨first, second, hserve⟩ : ∃ first second, serve s request .taken =
        Session.run { s with recorder := (s.recorder.note .debug first).note .debug second }
          inputs {} := by
      simp only [serve, hfiles, List.isEmpty_nil, if_true, Session.runDiscovered, Session.discover,
        Recorder.note, h]
      exact ⟨_, _, rfl⟩
    obtain ⟨hwritten, hresult⟩ := Session.run_of_unlimited
      (s := { s with recorder := (s.recorder.note .debug first).note .debug second })
      hclear {} rfl rfl
    rw [hserve]
    exact ⟨hwritten, _, hresult⟩
  · next hfiles =>
    obtain rfl : request.files = inputs := Except.ok.inj h
    obtain ⟨hwritten, hresult⟩ := Session.run_of_unlimited hclear {} rfl rfl
    rw [serve, if_neg (by simpa using hfiles)]
    exact ⟨hwritten, _, hresult⟩

end Serve

/-- How the command can end when its output is taken. -/
inductive Ending (request : Request) (selfName : Bytes) (files : FileSystem) (done : Outcome) :
    Prop
  /-- The pattern has a mistake. -/
  | mistaken {error : Glob.Error}
    (hparse : Glob.parse request.settings.schemaPattern = .error error)
    (hcode : done.code = failureCode (.invalidPattern request.settings.schemaPattern error))
    (houtput : done.output = [])
  /-- The directory cannot be listed. -/
  | unlisted {glob : Glob} {fault : Fault}
    (hparse : Glob.parse request.settings.schemaPattern = .ok glob) (hfiles : request.files = [])
    (hlist : files.list request.directory = .error fault) (hcode : done.code = 1)
    (houtput : done.output = [])
  /-- All inputs are served. -/
  | served {glob : Glob} {s : Session} {inputs : List Path}
    (hparse : Glob.parse request.settings.schemaPattern = .ok glob)
    (hstart : Session.start { request.settings with selfName := some selfName } files = .ok s)
    (hinputs : request.inputs s.classifier files = .ok inputs) (hcode : done.code = 0)
    (houtput : done.output = inputs.flatMap fun path => (s.fate path).output)

theorem perform_ends {request : Request} {selfName : Bytes} {files : FileSystem}
    (hclear : ∀ s inputs,
      Session.start { request.settings with selfName := some selfName } files = .ok s →
      request.inputs s.classifier files = .ok inputs → s.Clear inputs) :
    Ending request selfName files (perform request selfName files .taken) := by
  unfold perform
  cases hparse : Glob.parse request.settings.schemaPattern with
  | error error =>
    have hstart : Session.start { request.settings with selfName := some selfName } files =
        .error (.invalidPattern request.settings.schemaPattern error) := by
      simp [Session.start, Classifier.ofSettings, hparse, bind, Except.bind]
    rw [hstart]
    exact .mistaken hparse rfl rfl
  | ok glob =>
    obtain ⟨s, hstart, hfiles⟩ : ∃ s, Session.start { request.settings with
        selfName := some selfName } files = .ok s ∧ s.recorder.files = files := by
      simp [Session.start, Classifier.ofSettings, hparse, bind, Except.bind, pure, Except.pure]
    rw [hstart]
    cases hinputs : request.inputs s.classifier files with
    | error fault =>
      obtain ⟨hnone, hlist⟩ := Request.inputs_eq_error_iff.mp hinputs
      obtain ⟨hwritten, hresult⟩ := serve_of_error (hfiles.symm ▸ hinputs) .taken
      refine .unlisted hparse hnone hlist ?_ ?_
      · simp only [hresult]
        rfl
      · simp only [hresult]
        exact hwritten
    | ok inputs =>
      obtain ⟨hwritten, summary, hresult⟩ :=
        serve_of_ok (hfiles.symm ▸ hinputs) (hclear s inputs hstart hinputs)
      refine .served hparse hstart hinputs ?_ ?_
      · simp only [hresult]
      · simp only [hresult]
        exact hwritten

/-- With every mistake in the pattern but one the command fails as it does otherwise. -/
theorem failureCode_invalidPattern {pattern : Text} {error : Glob.Error}
    (h : error ≠ .tooDeep) : failureCode (.invalidPattern pattern error) = 1 := by
  cases error with
  | tooDeep => exact absurd rfl h
  | _ => rfl

namespace Ending

variable {request : Request} {selfName : Bytes} {files : FileSystem} {done : Outcome}

theorem code_of_tooDeep (h : Ending request selfName files done)
    (hdeep : Glob.parse request.settings.schemaPattern = .error .tooDeep) :
    done.code = 101 ∧ done.output = [] := by
  cases h with
  | mistaken hparse hcode houtput =>
    obtain rfl := Except.error.inj (hdeep.symm.trans hparse)
    exact ⟨hcode, houtput⟩
  | unlisted hparse => cases hdeep.symm.trans hparse
  | served hparse => cases hdeep.symm.trans hparse

/-- The exit code is told by the pattern and the directory. -/
theorem code_eq_one_iff (h : Ending request selfName files done)
    (hdeep : Glob.parse request.settings.schemaPattern ≠ .error .tooDeep) :
    done.code = 1 ↔ (∃ error, Glob.parse request.settings.schemaPattern = .error error) ∨
      request.files = [] ∧ ∃ fault, files.list request.directory = .error fault := by
  cases h with
  | mistaken hparse hcode houtput =>
    refine ⟨fun _ => .inl ⟨_, hparse⟩, fun _ => hcode.trans (failureCode_invalidPattern ?_)⟩
    rintro rfl
    exact hdeep hparse
  | unlisted hparse hfiles hlist hcode houtput =>
    exact ⟨fun _ => .inr ⟨hfiles, _, hlist⟩, fun _ => hcode⟩
  | served hparse hstart hinputs hcode houtput =>
    rw [hcode]
    refine ⟨fun hone => absurd hone (by decide), ?_⟩
    rintro (⟨error, herror⟩ | hunlisted)
    · cases herror.symm.trans hparse
    · obtain ⟨hfiles, fault, hlist⟩ := hunlisted
      cases (Request.inputs_eq_error_iff.mpr ⟨hfiles, hlist⟩).symm.trans hinputs

theorem output_of_code_eq_one (h : Ending request selfName files done) (hcode : done.code = 1) :
    done.output = [] := by
  cases h with
  | mistaken hparse hcode' houtput => exact houtput
  | unlisted hparse hfiles hlist hcode' houtput => exact houtput
  | served hparse hstart hinputs hzero houtput =>
    rw [hzero] at hcode
    exact absurd hcode (by decide)

theorem served_of_code_ne_one (h : Ending request selfName files done)
    (hdeep : Glob.parse request.settings.schemaPattern ≠ .error .tooDeep) (hcode : done.code ≠ 1) :
    done.code = 0 ∧ ∃ s inputs,
      Session.start { request.settings with selfName := some selfName } files = .ok s ∧
      request.inputs s.classifier files = .ok inputs ∧
      done.output = inputs.flatMap fun path => (s.fate path).output := by
  have hfails := h.code_eq_one_iff hdeep
  cases h with
  | mistaken hparse hcode' houtput => exact absurd (hfails.mpr (.inl ⟨_, hparse⟩)) hcode
  | unlisted hparse hfiles hlist hone houtput => exact absurd hone hcode
  | served hparse hstart hinputs hzero houtput =>
    exact ⟨hzero, _, _, hstart, hinputs, houtput⟩

end Ending

/-- **Failures of inputs are never fatal.** Let the arguments make sense, let no requested input
lead to a log in use or through it, and let the output be taken. A pattern with more levels than the
limit is a breakdown; without a set this takes many groups within each other, all of them closed.
With any other pattern, the exit code is 1 if and only if the pattern has a mistake, or no input is
named and the directory cannot be listed, and then there is no output. Otherwise the exit code is 0,
and the output is that of the requested inputs in their order, whatever becomes of each of them. -/
theorem run_code {arguments : List Bytes} {environment : List (Text × Bytes)} {selfName : Bytes}
    {files : FileSystem} {request : Request}
    (hrequest : Request.ofArguments arguments environment = .ok request)
    (hclear : ∀ s inputs,
      Session.start { request.settings with selfName := some selfName } files = .ok s →
      request.inputs s.classifier files = .ok inputs → s.Clear inputs) :
    let done := run arguments environment selfName files .taken
    let pattern := request.settings.schemaPattern
    let parsed := Glob.parse pattern
    (parsed = .error .tooDeep ↔ Glob.Nesting.limit < Glob.levels pattern) ∧
    ('[' ∉ pattern → parsed = .error .tooDeep →
      Glob.mistake? pattern = none ∧ Glob.safeDepth < Glob.depth pattern) ∧
    (parsed = .error .tooDeep → done.code = 101 ∧ done.output = []) ∧
    (parsed ≠ .error .tooDeep →
      (done.code = 1 ↔ (∃ error, parsed = .error error) ∨
        request.files = [] ∧ ∃ fault, files.list request.directory = .error fault) ∧
      (done.code = 1 → done.output = []) ∧
      (done.code ≠ 1 → done.code = 0 ∧ ∃ s inputs,
        Session.start { request.settings with selfName := some selfName } files = .ok s ∧
        request.inputs s.classifier files = .ok inputs ∧
        done.output = inputs.flatMap fun path => (s.fate path).output)) := by
  intro done pattern parsed
  have hdone : done = perform request selfName files .taken := by
    simp only [done, run, hrequest]
  have hends : Ending request selfName files done := hdone ▸ perform_ends hclear
  refine ⟨Glob.parse_eq_tooDeep_iff, Glob.mistake?_of_tooDeep, hends.code_of_tooDeep,
    fun hdeep => ?_⟩
  exact ⟨hends.code_eq_one_iff hdeep, hends.output_of_code_eq_one,
    hends.served_of_code_ne_one hdeep⟩

/-- A command with an input where nothing stands and a directory among its inputs, and its log of
failures in vain. -/
theorem run_code_of_failing_inputs :
    let arguments := ["-l", "errors", "--error-log", "d", "none.proto", "d", "a.proto"].map
      fun argument => Utf8.encode argument.toList
    let done := run arguments [] (Utf8.encode "self".toList) Sample.files .taken
    done.code = 0 ∧ done.output = Utf8.encode "enum E \x7b\n /// x\n A,\n".toList := by
  intro arguments done
  let named : List Path := ["none.proto", "d", "a.proto"].map fun name => .ofText name.toList
  let request : Request :=
    { settings := { logLevel := .errors, errorLog := .ofText "d".toList }
      directory := .ofText ".".toList
      files := named }
  let settings : Settings := { request.settings with selfName := Sample.settings.selfName }
  have hrequest : Request.ofArguments arguments [] = .ok request := by decide
  have hstart : Session.start settings Sample.files = .ok (Sample.session settings) := rfl
  have hclear : ∀ s inputs, Session.start settings Sample.files = .ok s →
      request.inputs s.classifier Sample.files = .ok inputs → s.Clear inputs := by
    rw [hstart]
    rintro s inputs ⟨⟩ hinputs
    obtain rfl : named = inputs := Except.ok.inj hinputs
    decide
  obtain ⟨-, -, -, hcode⟩ := run_code hrequest hclear
  obtain ⟨hone, -, hserved⟩ := hcode (by decide)
  have hne : done.code ≠ 1 := by
    intro h
    rcases hone.mp h with ⟨error, herror⟩ | ⟨hfiles, -⟩
    · cases herror
    · cases hfiles
  obtain ⟨hzero, s, inputs, hs, hinputs, houtput⟩ := hserved hne
  obtain rfl : Sample.session settings = s := Except.ok.inj (hstart.symm.trans hs)
  obtain rfl : named = inputs := Except.ok.inj hinputs
  exact ⟨hzero, houtput.trans (by decide)⟩

/-- The pattern of `depth` groups, one within the other, in which every group has two
alternatives. -/
def nestedGroups (depth : Nat) : Text :=
  List.replicate depth '{' ++ 'a' :: (List.replicate depth ",b\x7d".toList).flatten

/-- Well-formed groups, so many of them within each other that the command breaks down and has
neither of its exit codes, although no log is in use and the input can be read. -/
theorem run_code_of_nested_groups :
    let arguments := ["-p".toList, nestedGroups 130, "a".toList].map Utf8.encode
    let files := FileSystem.fresh.addFile (.ofText "a".toList) (Utf8.encode "message\n".toList)
    let done := run arguments [] (Utf8.encode "protodox".toList) files .taken
    Request.ofArguments arguments [] = .ok
      { settings := { schemaPattern := nestedGroups 130 }, directory := .ofText ".".toList
        files := [.ofText "a".toList] } ∧
    done.code ≠ 1 ∧ done.code ≠ 0 := by
  intro arguments files done
  have hparse : Glob.parse (nestedGroups 130) = .error .tooDeep := by decide +kernel
  have hoption : Argument.ofBytes (Utf8.encode "-p".toList) = .option .pattern none := by decide
  have hvalue : Argument.isValue (Utf8.encode (nestedGroups 130)) := rfl
  have htext : Given.textOf (Utf8.encode (nestedGroups 130)) = .ok (nestedGroups 130) := by
    rw [Given.textOf, Utf8.decode?_encode]
  have hrequest : Request.ofArguments arguments [] = .ok
      { settings := { schemaPattern := nestedGroups 130 }, directory := .ofText ".".toList
        files := [.ofText "a".toList] } := by
    have hread : Given.read {} arguments =
        .ok { pattern := some (nestedGroups 130), files := [.ofText "a".toList] } := by
      simp only [arguments, List.map_cons, List.map_nil, Given.read, hoption, hvalue, if_true,
        Given.set, Given.has, htext]
      rfl
    rw [Request.ofArguments, hread]
    rfl
  have hcode : done.code = 101 := by
    simp only [done, run, hrequest, perform, Session.start, Classifier.ofSettings, hparse]
    rfl
  refine ⟨hrequest, ?_, ?_⟩
  · rw [hcode]
    decide
  · rw [hcode]
    decide

end Command

end SchemaDoc
