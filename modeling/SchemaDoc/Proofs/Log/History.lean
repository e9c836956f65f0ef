import SchemaDoc.FileSystem.Setup
import SchemaDoc.Proofs.Log.Course
import SchemaDoc.Stream.Driver
import Mathlib.Logic.Basic

/-!
# The history of both logs

The two logs of a recorder are opened, written and given up one beside the other, and every line
that is written to one of them adds the acts that come of it to the `Recorder.history`. The history
accounts for all that logging leaves behind: it goes along with the states of the logs and the
warnings in the trace (`Recorder.Did`), and with what stands in the files (`Recorder.Kept`). Both
are known of one line, and from there of one operation and of all.

`Recorder.logs_fail_once` takes this to whatever a recorder can be asked for. Each log is opened at
most once, fails at most once, and is silent from then on, and neither the one nor the other depends
on how its fellow fares.
-/

namespace SchemaDoc

/-! ### Warnings about logs -/

namespace Trace

/-- Whether a record tells that a log cannot be opened or written. -/
def Record.isLogWarning (record : Record) : Bool :=
  decide (record.level = .warn) &&
    ("Cannot open log ".toList.isPrefixOf record.message ||
      "Cannot write log ".toList.isPrefixOf record.message)

/-- The records of a trace that tell of logs that cannot be opened or written. -/
def logWarnings (trace : List Record) : List Record := trace.filter Record.isLogWarning

@[simp]
theorem logWarnings_append (trace others : List Record) :
    logWarnings (trace ++ others) = logWarnings trace ++ logWarnings others :=
  List.filter_append _ _

end Trace

theorem Event.logWarnings_trace (event : Event) : Trace.logWarnings event.trace = [] := by
  cases event with
  | started => rfl
  | line number before after => rfl
  | finished stats =>
    cases h : stats.endedInsideEnum <;> simp only [Event.trace, h] <;> rfl

/-- The warnings of a log are warnings about logs. -/
theorem LogFile.Outcome.logWarnings_warnings (done : Outcome) :
    Trace.logWarnings done.warnings = done.acts.filterMap (·.warning? done.log.path) := by
  refine List.filter_eq_self.mpr fun record hrecord => ?_
  obtain ⟨action, fault, rfl, rfl | rfl⟩ := exists_of_mem_warnings hrecord
  · rfl
  · rfl

namespace Recorder

open Journal (Log)
open LogFile (Act Course)

/-! ### Acts in order -/

/-- What one of the logs did among the acts of both. -/
def actsOf (log : Log) (acts : List (Log × Act)) : List Act :=
  (acts.filter fun entry => entry.1 = log).map Prod.snd

section ActsOf

variable (log : Log) (acts others : List (Log × Act)) (own : List Act)

@[simp]
theorem actsOf_nil : actsOf log [] = [] := rfl

@[simp]
theorem actsOf_append : actsOf log (acts ++ others) = actsOf log acts ++ actsOf log others := by
  simp [actsOf]

@[simp]
theorem actsOf_self : actsOf log (own.map (log, ·)) = own := by
  simp [actsOf, List.filter_map, Function.comp_def]

theorem actsOf_other {log' : Log} (h : log' ≠ log) : actsOf log (own.map (log', ·)) = [] := by
  simp [actsOf, List.filter_map, Function.comp_def, h]

end ActsOf

/-- Whether an operation is a remark. -/
def Operation.isRemark : Operation → Bool
  | remark _ _ _ => true
  | _ => false

/-! ### States and warnings -/

/-- From `r` to `r'`, the logs did what the acts say. -/
structure Did (acts : List (Log × Act)) (r r' : Recorder) : Prop where
  /-- The acts stand in the history. -/
  history_eq : r'.history = r.history ++ acts
  /-- The logs keep their paths. -/
  path_eq : ∀ log, (r'.journal.file log).path = (r.journal.file log).path
  /-- Each log kept to its course. -/
  course : ∀ log, Course (r.journal.file log).state (actsOf log acts) (r'.journal.file log).state
  /-- The trace was told of the acts in vain, and of no other trouble with a log. -/
  trace_eq : ∃ told, r'.trace = r.trace ++ told ∧ Trace.logWarnings told =
    acts.filterMap fun (log, act) => act.warning? (r.journal.file log).path

section Did

variable {r r' r'' : Recorder} {acts others : List (Log × Act)}

/-- Nothing is done by what leaves the logs alone and tells of no trouble with them. -/
theorem did_nil (hhistory : r'.history = r.history)
    (hfile : ∀ log, r'.journal.file log = r.journal.file log) (told : List Trace.Record)
    (htrace : r'.trace = r.trace ++ told) (htold : Trace.logWarnings told = []) : Did [] r r' := by
  refine ⟨by simp [hhistory], fun log => by rw [hfile], fun log => ?_, told, htrace, htold⟩
  rw [hfile]
  exact .idle _

theorem Did.refl (r : Recorder) : Did [] r r :=
  did_nil rfl (fun _ => rfl) [] (List.append_nil _).symm rfl

theorem Did.trans (h : Did acts r r') (h' : Did others r' r'') : Did (acts ++ others) r r'' := by
  obtain ⟨told, htrace, hwarnings⟩ := h.trace_eq
  obtain ⟨told', htrace', hwarnings'⟩ := h'.trace_eq
  refine ⟨?_, fun log => (h'.path_eq log).trans (h.path_eq log), fun log => ?_, told ++ told', ?_,
    ?_⟩
  · rw [h'.history_eq, h.history_eq, List.append_assoc]
  · rw [actsOf_append]
    exact (h.course log).trans (h'.course log)
  · rw [htrace', htrace, List.append_assoc]
  · simp only [Trace.logWarnings_append, hwarnings, hwarnings', List.filterMap_append, h.path_eq]

variable (r)

/-- **One line** for a log. -/
theorem did_write (log : Log) (line : Text) :
    Did (((r.journal.file log).writeLine r.files line).acts.map (log, ·)) r (r.write log line) := by
  refine ⟨r.history_write log line, fun log' => ?_, fun log' => ?_, _, r.trace_write log line, ?_⟩
  · rcases log.eq_or_eq_other log' with rfl | rfl
    · rw [file_write_self, LogFile.path_writeLine]
    · rw [file_write_other]
  · rcases log.eq_or_eq_other log' with rfl | rfl
    · rw [actsOf_self, file_write_self]
      exact LogFile.course_writeLine _ _ _
    · rw [actsOf_other _ _ log.other_ne.symm, file_write_other]
      exact .idle _
  · rw [LogFile.Outcome.logWarnings_warnings, LogFile.path_writeLine, List.filterMap_map]
    rfl

theorem did_writeAll (log : Log) (lines : List Text) :
    ∃ acts, Did acts r (r.writeAll log lines) := by
  induction lines generalizing r with
  | nil => exact ⟨[], .refl r⟩
  | cons line lines ih =>
    obtain ⟨acts, hrest⟩ := ih (r.write log line)
    exact ⟨_, (r.did_write log line).trans hrest⟩

/-- What an operation notes beside the logs is no trouble with a log, unless a remark says so. -/
theorem did_noted {op : Operation} (hop : op.isRemark = false) : Did [] r (r.noted op) := by
  cases op with
  | remark level message hlevel => cases hop
  | beginInput path => exact did_nil rfl (r.file_noted _) [] (List.append_nil _).symm rfl
  | recordError path message => exact did_nil rfl (r.file_noted _) [_] rfl rfl
  | observe event => exact did_nil rfl (r.file_noted _) event.trace rfl event.logWarnings_trace

/-- **One operation.** -/
theorem did_perform {op : Operation} (hop : op.isRemark = false) :
    ∃ acts, Did acts r (r.perform op) := by
  have hnoted := r.did_noted hop
  rw [perform_eq]
  split
  · obtain ⟨acts, hlines⟩ := (r.noted op).did_writeAll op.log (op.lines r.journal.currentName)
    exact ⟨_, hnoted.trans hlines⟩
  · exact ⟨_, hnoted⟩

/-- **All operations.** -/
theorem did_performAll {ops : List Operation} (hops : ∀ op ∈ ops, op.isRemark = false) :
    ∃ acts, Did acts r (r.performAll ops) := by
  induction ops generalizing r with
  | nil => exact ⟨[], .refl r⟩
  | cons op ops ih =>
    rw [List.forall_mem_cons] at hops
    obtain ⟨acts, hop⟩ := r.did_perform hops.1
    obtain ⟨acts', hrest⟩ := ih (r.perform op) hops.2
    exact ⟨acts ++ acts', hop.trans hrest⟩

end Did

/-! ### Lines and files -/

/-- The input that the recorder is at when it has done an operation. -/
def Operation.current (op : Operation) (current : Option Path) : Option Path :=
  match op with
  | beginInput path => some path
  | _ => current

theorem current_perform (r : Recorder) (op : Operation) :
    (r.perform op).journal.current = op.current r.journal.current := by
  have hnoted : (r.noted op).journal.current = op.current r.journal.current := by
    cases op <;> rfl
  rw [perform_eq]
  split
  · rw [current_writeAll, hnoted]
  · exact hnoted

/-- The lines that an operation has for one of the logs, if the level asks for that log. -/
def Operation.linesFor (op : Operation) (j : Journal) (log : Log) : List Text :=
  if op.log = log ∧ j.level.records log then op.lines j.currentName else []

/-- The lines that operations have for one of the logs, if the level asks for that log. -/
def linesFor (j : Journal) (log : Log) : List Operation → List Text
  | [] => []
  | op :: ops =>
    op.linesFor j log ++ linesFor { j with current := op.current j.current } log ops

/-- The lines for a log depend on the level and on the inputs turned to, and not on the logs. -/
theorem linesFor_congr {j j' : Journal} (hlevel : j'.level = j.level)
    (hcurrent : j'.current = j.current) (log : Log) (ops : List Operation) :
    linesFor j' log ops = linesFor j log ops := by
  induction ops generalizing j j' with
  | nil => rfl
  | cons op ops ih =>
    have hname : j'.currentName = j.currentName := by
      rw [Journal.currentName, hcurrent, Journal.currentName]
    have hrest := @ih { j with current := op.current j.current }
      { j' with current := op.current j'.current } hlevel (by rw [hcurrent])
    rw [linesFor, linesFor, hrest, Operation.linesFor, Operation.linesFor, hlevel, hname]

/-- Both logs are settled. -/
def Settled (r : Recorder) : Prop := ∀ log, (r.journal.file log).Settled r.files

/-- From `r` to `r'`, the given lines were written to the logs by the given acts. -/
structure Kept (lines : Log → List Text) (acts : List (Log × Act)) (r r' : Recorder) : Prop where
  /-- The acts stand in the history. -/
  history_eq : r'.history = r.history ++ acts
  /-- Both logs stay settled. -/
  settled : r'.Settled
  /-- They go where they went. -/
  place?_eq : ∀ log, r'.place? log = r.place? log
  /-- A log is given up with the first line if it goes nowhere. -/
  disabled_iff : ∀ log, (r'.journal.file log).state = .disabled ↔
    (r.journal.file log).state = .disabled ∨ (r.place? log = none ∧ lines log ≠ [])
  /-- Otherwise all lines get through. -/
  written_eq : ∀ log, (actsOf log acts).flatMap Act.written =
    if (r.place? log).isSome then (lines log).flatMap LogFile.lineBytes else []
  /-- What gets through stands at the end of the files of the logs, in the order of the acts. -/
  bytesAt_eq : ∀ place, r'.files.bytesAt place = r.files.bytesAt place ++
    (acts.filter fun entry => r.place? entry.1 = some place).flatMap (·.2.written)

section Kept

variable {r r' r'' : Recorder} {lines lines' : Log → List Text} {acts acts' : List (Log × Act)}

/-- Nothing is written by what touches neither the files nor the logs. -/
theorem Settled.kept_nil (h : r.Settled) (hfiles : r'.files = r.files)
    (hfile : ∀ log, r'.journal.file log = r.journal.file log) (hhistory : r'.history = r.history) :
    Kept (fun _ => []) [] r r' where
  history_eq := by simp [hhistory]
  settled log := by
    rw [hfiles, hfile]
    exact h log
  place?_eq log := by rw [place?, place?, hfiles, hfile]
  disabled_iff log := by simp [hfile]
  written_eq log := by simp
  bytesAt_eq place := by simp [hfiles]

theorem Kept.trans (h : Kept lines acts r r') (h' : Kept lines' acts' r' r'') :
    Kept (fun log => lines log ++ lines' log) (acts ++ acts') r r'' where
  history_eq := by rw [h'.history_eq, h.history_eq, List.append_assoc]
  settled := h'.settled
  place?_eq log := (h'.place?_eq log).trans (h.place?_eq log)
  disabled_iff log := by
    rw [h'.disabled_iff, h.disabled_iff, h.place?_eq, Ne, Ne, Ne, List.append_eq_nil_iff,
      not_and_or, or_assoc, ← and_or_left]
  written_eq log := by
    rw [actsOf_append, List.flatMap_append, h.written_eq, h'.written_eq, h.place?_eq]
    split
    · rw [List.flatMap_append]
    · rfl
  bytesAt_eq place := by
    simp only [h'.bytesAt_eq, h.bytesAt_eq, h.place?_eq, List.filter_append, List.flatMap_append,
      List.append_assoc]

/-- **One line** for a log. -/
theorem Settled.kept_write (h : r.Settled) (log : Log) (line : Text) :
    Kept (fun log' => if log = log' then [line] else [])
      (((r.journal.file log).writeLine r.files line).acts.map (log, ·)) r (r.write log line) := by
  have hdone := (h log).writeLine line
  have hgrown := (LogFile.writeLine_within (r.journal.file log) r.files line).grown
  refine ⟨r.history_write log line, fun log' => ?_, fun log' => ?_, fun log' => ?_, fun log' => ?_,
    fun place => ?_⟩
  · rcases log.eq_or_eq_other log' with rfl | rfl
    · rw [file_write_self, files_write]
      exact hdone.settled
    · rw [file_write_other, files_write]
      exact (h log.other).of_grown hgrown
  · rcases log.eq_or_eq_other log' with rfl | rfl
    · rw [place?, file_write_self, files_write]
      exact hdone.place?_eq
    · rw [place?, file_write_other, files_write]
      exact LogFile.place?_eq_of_grown hgrown _
  · rcases log.eq_or_eq_other log' with rfl | rfl
    · rw [file_write_self, hdone.disabled_iff, if_pos rfl]
      constructor
      · exact fun hnone => .inr ⟨hnone, List.cons_ne_nil _ _⟩
      -- a log that was given up before goes nowhere
      · rintro (hdisabled | ⟨hnone, -⟩)
        · rw [LogFile.place?, hdisabled]
        · exact hnone
    · simp [file_write_other, log.other_ne.symm]
  · rcases log.eq_or_eq_other log' with rfl | rfl
    · rw [actsOf_self, if_pos rfl, List.flatMap_singleton]
      exact hdone.written_eq
    · simp [actsOf_other _ _ log.other_ne.symm, log.other_ne.symm]
  · rw [files_write, hdone.bytesAt_eq]
    by_cases hplace : (r.journal.file log).place? r.files = some place
    · rw [if_pos hplace, List.filter_eq_self.mpr (by simp [place?, hplace]), List.flatMap_map]
    · rw [if_neg hplace, List.filter_eq_nil_iff.mpr (by simp [place?, hplace]), List.flatMap_nil]

theorem Settled.kept_writeAll (h : r.Settled) (log : Log) (lines : List Text) :
    ∃ acts, Kept (fun log' => if log = log' then lines else []) acts r (r.writeAll log lines) := by
  induction lines generalizing r with
  | nil =>
    simp only [ite_self]
    exact ⟨[], h.kept_nil rfl (fun _ => rfl) rfl⟩
  | cons line lines ih =>
    have hline := h.kept_write log line
    obtain ⟨acts, hrest⟩ := ih hline.settled
    have hlines : (fun log' => if log = log' then line :: lines else []) =
        fun log' => (if log = log' then [line] else []) ++ if log = log' then lines else [] := by
      funext log'
      split <;> rfl
    rw [hlines]
    exact ⟨_, hline.trans hrest⟩

/-- **One operation.** -/
theorem Settled.kept_perform (h : r.Settled) (op : Operation) :
    ∃ acts, Kept (op.linesFor r.journal) acts r (r.perform op) := by
  have hnoted : Kept (fun _ => []) [] r (r.noted op) :=
    h.kept_nil (r.files_noted op) (r.file_noted op) (r.history_noted op)
  rw [perform_eq]
  split
  · next hlevel =>
    obtain ⟨acts, hall⟩ := hnoted.settled.kept_writeAll op.log (op.lines r.journal.currentName)
    have hlines : op.linesFor r.journal = fun log' =>
        [] ++ if op.log = log' then op.lines r.journal.currentName else [] := by
      funext log'
      by_cases hlog : op.log = log'
      · subst hlog
        simp [Operation.linesFor, hlevel]
      · simp [Operation.linesFor, hlog]
    rw [hlines]
    exact ⟨_, hnoted.trans hall⟩
  · next hlevel =>
    have hlines : op.linesFor r.journal = fun _ => [] := by
      funext log'
      refine if_neg ?_
      rintro ⟨rfl, hlog⟩
      exact hlevel hlog
    rw [hlines]
    exact ⟨_, hnoted⟩

/-- **All operations.** -/
theorem Settled.kept_performAll (h : r.Settled) (ops : List Operation) :
    ∃ acts, Kept (fun log => linesFor r.journal log ops) acts r (r.performAll ops) := by
  induction ops generalizing r with
  | nil => exact ⟨[], h.kept_nil rfl (fun _ => rfl) rfl⟩
  | cons op ops ih =>
    obtain ⟨acts, hop⟩ := h.kept_perform op
    obtain ⟨acts', hrest⟩ := ih hop.settled
    have hlines : (fun log => linesFor (r.perform op).journal log ops) =
        fun log => linesFor { r.journal with current := op.current r.journal.current } log ops := by
      funext log
      exact linesFor_congr (j := { r.journal with current := op.current r.journal.current })
        (r.extends_perform op).level_eq (r.current_perform op) log ops
    rw [hlines] at hrest
    exact ⟨acts ++ acts', hop.trans hrest⟩

/-- A file that only one of the logs goes to has the lines for that log at its end. -/
theorem Kept.bytesAt_own (h : Kept lines acts r r') {log : Log} {place : Location}
    (hplace : r.place? log = some place) (hother : r.place? log.other ≠ some place) :
    r'.files.bytesAt place =
      r.files.bytesAt place ++ (lines log).flatMap LogFile.lineBytes := by
  have hentry (log' : Log) : r.place? log' = some place ↔ log' = log := by
    rcases log.eq_or_eq_other log' with rfl | rfl
    · simp [hplace]
    · simp [hother, log.other_ne]
  have hwritten := h.written_eq log
  rw [hplace, Option.isSome_some, if_pos rfl, actsOf, List.flatMap_map] at hwritten
  simp only [h.bytesAt_eq, hentry, hwritten]

end Kept

/-! ### Requests -/

/-- What others can ask a recorder for. -/
inductive Request where
  /-- To turn to another input. -/
  | beginInput (path : Path)
  /-- To record that an input could not be processed. -/
  | recordError (path : Path) (message : Text)
  /-- To observe a driver that carries out a run. -/
  | session (source : Source) (sink : Sink)
  /-- To follow events of any other origin, such as a run over an input that grows. -/
  | follow (events : List Event)
  /-- To flush both logs. -/
  | flush

namespace Request

/-- The operations that a request comes to. -/
def operations : Request → List Operation
  | beginInput path => [.beginInput path]
  | recordError path message => [.recordError path message]
  | session source sink => (Run.ofSource source sink).events.map .observe
  | follow events => events.map .observe
  | flush => []

/-- Whether a failure is to be recorded. -/
def isFailure : Request → Bool
  | recordError _ _ => true
  | _ => false

theorem isRemark_of_mem_operations {request : Request} {op : Operation}
    (h : op ∈ request.operations) : op.isRemark = false := by
  cases request <;> simp only [operations, List.mem_map, List.mem_singleton, List.not_mem_nil] at h
  case beginInput => rw [h]; rfl
  case recordError => rw [h]; rfl
  case session =>
    obtain ⟨event, -, rfl⟩ := h
    rfl
  case follow =>
    obtain ⟨event, -, rfl⟩ := h
    rfl

/-- A request records a failure if it is a request to do so. -/
theorem length_filterMap_failure? (request : Request) :
    (request.operations.filterMap Operation.failure?).length =
      if request.isFailure then 1 else 0 := by
  have hobserve (events : List Event) :
      (events.map Operation.observe).filterMap Operation.failure? = [] := by
    simp [Operation.failure?]
  cases request with
  | beginInput path => rfl
  | recordError path message => rfl
  | session source sink =>
    rw [operations, hobserve]
    rfl
  | follow events =>
    rw [operations, hobserve]
    rfl
  | flush => rfl

end Request

/-- Does what a request asks for. -/
def serve (r : Recorder) : Request → Recorder
  | .beginInput path => r.beginInput path
  | .recordError path message => r.recordError path message
  | .session source sink =>
    (Driver.run { observe := observe, observer := r } source sink).2.observer
  | .follow events => r.observeAll events
  | .flush => r.flush

/-- Does what requests ask for, one after the other. -/
def serveAll (r : Recorder) (requests : List Request) : Recorder := requests.foldl serve r

theorem serveAll_append (r : Recorder) (before after : List Request) :
    r.serveAll (before ++ after) = (r.serveAll before).serveAll after :=
  List.foldl_append

theorem serve_eq_performAll (r : Recorder) (request : Request) :
    r.serve request = r.performAll request.operations := by
  cases request with
  | beginInput path => rfl
  | recordError path message => rfl
  | session source sink => exact (r.performAll_observe _).symm
  | follow events => exact (r.performAll_observe _).symm
  | flush => exact r.flush_eq

theorem serveAll_eq_performAll (r : Recorder) (requests : List Request) :
    r.serveAll requests = r.performAll (requests.flatMap Request.operations) := by
  induction requests generalizing r with
  | nil => rfl
  | cons request requests ih =>
    rw [List.flatMap_cons, performAll_append, ← serve_eq_performAll, ← ih]
    rfl

theorem did_serveAll (r : Recorder) (requests : List Request) :
    ∃ acts, Did acts r (r.serveAll requests) := by
  rw [serveAll_eq_performAll]
  refine r.did_performAll fun op hop => ?_
  obtain ⟨request, -, hop⟩ := List.mem_flatMap.mp hop
  exact Request.isRemark_of_mem_operations hop

theorem Settled.kept_serveAll {r : Recorder} (h : r.Settled) (requests : List Request) :
    ∃ acts, Kept (fun log => linesFor r.journal log (requests.flatMap Request.operations)) acts r
      (r.serveAll requests) := by
  rw [serveAll_eq_performAll]
  exact h.kept_performAll _

/-- Every failure is counted, and nothing else is. -/
theorem errorsRecorded_serveAll (r : Recorder) (requests : List Request) :
    (r.serveAll requests).journal.errorsRecorded =
      r.journal.errorsRecorded + requests.countP Request.isFailure := by
  have hcount : ((requests.flatMap Request.operations).filterMap Operation.failure?).length =
      requests.countP Request.isFailure := by
    induction requests with
    | nil => rfl
    | cons request requests ih =>
      rw [List.flatMap_cons, List.filterMap_append, List.length_append, ih,
        request.length_filterMap_failure?, List.countP_cons, Nat.add_comm]
  rw [serveAll_eq_performAll, (r.reports_performAll _).errorsRecorded_eq, hcount]

/-! ### Logs that fail -/

/-- What the requests bring about in the logs of a new recorder is told in full by the history, and
no log fails twice in it. -/
structure FailsOnce (r : Recorder) (requests : List Request) : Prop where
  /-- The acts of each log lead from its state to the one that it ends in. -/
  course : ∀ log, Course (r.journal.file log).state (actsOf log (r.serveAll requests).history)
    ((r.serveAll requests).journal.file log).state
  /-- Each log is opened at most once, or tried to be. -/
  opening_le_one : ∀ log, (actsOf log (r.serveAll requests).history).countP Act.isOpening ≤ 1
  /-- Each log gives rise to at most one warning. -/
  warning_le_one : ∀ log, ((actsOf log (r.serveAll requests).history).filterMap
    (·.warning? (r.journal.file log).path)).length ≤ 1
  /-- Whenever a log is given up, it does nothing from then on, and stays given up. -/
  silent : ∀ log before after, requests = before ++ after →
    ((r.serveAll before).journal.file log).state = .disabled →
      actsOf log (r.serveAll requests).history = actsOf log (r.serveAll before).history ∧
        ((r.serveAll requests).journal.file log).state = .disabled
  /-- The trace warns of the logs that failed, and of nothing else about a log. -/
  logWarnings_eq : Trace.logWarnings (r.serveAll requests).trace =
    Trace.logWarnings r.trace ++ (r.serveAll requests).history.filterMap fun (log, act) =>
      act.warning? (r.journal.file log).path
  /-- The files grow by what was written to the logs that go there, and by nothing else. -/
  bytesAt_eq : ∀ place, (r.serveAll requests).files.bytesAt place =
    r.files.bytesAt place ++
      ((r.serveAll requests).history.filter fun entry => r.place? entry.1 = some place).flatMap
        (·.2.written)
  /-- All failures are counted. -/
  errorsRecorded_eq : (r.serveAll requests).journal.errorsRecorded =
    r.journal.errorsRecorded + requests.countP Request.isFailure

/-- A log fares alike at two new recorders: it is given up at both or at none, the same is written
through it, and the same stands in its file in the end if the other log goes elsewhere. -/
structure FaresAlike (log : Log) (r r' : Recorder) (requests : List Request) : Prop where
  disabled_iff : ((r'.serveAll requests).journal.file log).state = .disabled ↔
    ((r.serveAll requests).journal.file log).state = .disabled
  written_eq : (actsOf log (r'.serveAll requests).history).flatMap Act.written =
    (actsOf log (r.serveAll requests).history).flatMap Act.written
  bytesAt_eq : ∀ place, r.place? log = some place → r.place? log.other ≠ some place →
    r'.place? log.other ≠ some place →
      (r'.serveAll requests).files.bytesAt place = (r.serveAll requests).files.bytesAt place

section Requests

variable {r r' : Recorder}

theorem Settled.failsOnce (h : r.Settled) (hnew : r.history = []) (requests : List Request) :
    r.FailsOnce requests := by
  obtain ⟨acts, hdid⟩ := r.did_serveAll requests
  have hacts : (r.serveAll requests).history = acts := by
    rw [hdid.history_eq, hnew, List.nil_append]
  refine ⟨?_, fun log => ?_, fun log => ?_, ?_, ?_, ?_, r.errorsRecorded_serveAll requests⟩
  · rw [hacts]
    exact hdid.course
  · rw [hacts]
    exact (hdid.course log).countP_isOpening_le_one
  · rw [hacts, List.length_filterMap_eq_countP]
    refine le_of_eq_of_le (List.countP_congr fun act _ => ?_) (hdid.course log).countP_isVain_le_one
    rw [Act.isSome_warning?]
  · intro log before after hrequests hdisabled
    obtain ⟨later, hlater⟩ := (r.serveAll before).did_serveAll after
    have hcourse := hlater.course log
    rw [hdisabled] at hcourse
    obtain ⟨hnone, hstays⟩ := hcourse.of_disabled
    rw [hrequests, serveAll_append, hlater.history_eq, actsOf_append, hnone, List.append_nil]
    exact ⟨rfl, hstays⟩
  · obtain ⟨told, htrace, hwarnings⟩ := hdid.trace_eq
    rw [hacts, htrace, Trace.logWarnings_append, hwarnings]
  · obtain ⟨acts', hkept⟩ := h.kept_serveAll requests
    have hacts' : (r.serveAll requests).history = acts' := by
      rw [hkept.history_eq, hnew, List.nil_append]
    rw [hacts']
    exact hkept.bytesAt_eq

/-- A log fares alike at new and settled recorders that differ in no more than their other log. -/
theorem Settled.faresAlike (h : r.Settled) (h' : r'.Settled) {log : Log} (hnew : r.history = [])
    (hnew' : r'.history = []) (hfiles : r'.files = r.files)
    (hfile : r'.journal.file log = r.journal.file log)
    (hlevel : r'.journal.level = r.journal.level)
    (hcurrent : r'.journal.current = r.journal.current) (requests : List Request) :
    FaresAlike log r r' requests := by
  obtain ⟨acts, hkept⟩ := h.kept_serveAll requests
  obtain ⟨acts', hkept'⟩ := h'.kept_serveAll requests
  have hplace : r'.place? log = r.place? log := by rw [place?, place?, hfile, hfiles]
  have hlines := linesFor_congr hlevel hcurrent log (requests.flatMap Request.operations)
  refine ⟨?_, ?_, fun place hself hother hother' => ?_⟩
  · rw [hkept'.disabled_iff, hkept.disabled_iff, hfile, hplace, hlines]
  · rw [hkept'.history_eq, hkept.history_eq, hnew, hnew', List.nil_append, List.nil_append,
      hkept'.written_eq, hkept.written_eq, hplace, hlines]
  · rw [hkept'.bytesAt_own (hplace.trans hself) hother', hkept.bytesAt_own hself hother, hfiles,
      hlines]

end Requests

/-- The recorder of a batch, before anything is recorded. -/
def ofSettings (files : FileSystem) (s : Settings) : Recorder where
  files
  journal := .ofSettings s

theorem settled_ofSettings (files : FileSystem) (s : Settings) : (ofSettings files s).Settled := by
  intro log
  apply LogFile.settled_of_closed
  cases log <;> rfl

/-- **Logs fail once and are silent from then on.** Whatever files there are and whatever a recorder
is asked for, in any order, each of its logs is opened at most once and warned of at most once, a
log that was given up does nothing any more, and all failures are counted. How the one log fares is
the same for all paths that the other one can have. -/
theorem logs_fail_once (files : FileSystem) (settings : Settings) (requests : List Request) :
    (ofSettings files settings).FailsOnce requests ∧
      ∀ (log : Log) (settings' : Settings), settings'.logLevel = settings.logLevel →
        ((ofSettings files settings').journal.file log).path =
            ((ofSettings files settings).journal.file log).path →
          FaresAlike log (ofSettings files settings) (ofSettings files settings') requests := by
  have hsettled := settled_ofSettings files
  refine ⟨(hsettled settings).failsOnce rfl requests, fun log settings' hlevel hpath => ?_⟩
  refine (hsettled settings).faresAlike (hsettled settings') rfl rfl rfl ?_ hlevel rfl requests
  cases log with
  | debug => exact congrArg (fun path => ({ path } : LogFile)) hpath
  | errors => exact congrArg (fun path => ({ path } : LogFile)) hpath

/-- A session over one input, and two inputs that fail. -/
def twoFailures : List Request :=
  [.beginInput (.ofText "a.proto".toList),
    .session { content := Utf8.encode "enum E \x7b\n".toList } {},
    .recordError (.ofText "a.proto".toList) "bad".toList, .flush,
    .beginInput (.ofText "b.proto".toList), .recordError (.ofText "b.proto".toList) "worse".toList]

/-- A recorder of everything, with the log of every line at the given path. -/
def recording (debugLog : Text) : Recorder :=
  ofSettings .fresh { logLevel := .all, debugLog := .ofText debugLog }

/-- The log of every line is given up on a full device. The log of failures gets the same lines as
beside a log that works. -/
theorem logs_fail_once_of_full_device :
    (recording "/dev/full".toList).FailsOnce twoFailures ∧
      ((recording "/dev/full".toList).serveAll twoFailures).journal.debug.state = .disabled ∧
      ((recording "some.log".toList).serveAll twoFailures).journal.debug.state ≠ .disabled ∧
      ((recording "some.log".toList).serveAll twoFailures).files.bytesAt
          [Utf8.encode "home".toList, Utf8.encode "protodox.error.log".toList] =
        ((recording "/dev/full".toList).serveAll twoFailures).files.bytesAt
          [Utf8.encode "home".toList, Utf8.encode "protodox.error.log".toList] := by
  obtain ⟨honce, halike⟩ := logs_fail_once .fresh
    { logLevel := .all, debugLog := .ofText "/dev/full".toList } twoFailures
  have herrors := halike .errors { logLevel := .all, debugLog := .ofText "some.log".toList } rfl rfl
  exact ⟨honce, by decide, by decide,
    herrors.bytesAt_eq _ (by decide) (by decide) (by decide)⟩

end Recorder

end SchemaDoc
