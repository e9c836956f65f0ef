import SchemaDoc.FileSystem.Setup
import SchemaDoc.Proofs.Input.Delivery
import SchemaDoc.Proofs.Stream.FailStop
import SchemaDoc.Stream.Driver

/-!
# Copies are verbatim

A copy goes through a file line by line, and so does a run, each in a loop of its own. As far as the
sink goes, a copy comes to writing the content at once (`Copy.ofLines_eq`), so that the sink is left
with the beginning of the content, however short its room falls. And both loops mean the same by a
line: a copy that comes to its end counts the lines that any run over the same bytes has read,
`Copy.ofFile_verbatim`.
-/

namespace SchemaDoc

/-- A path to a regular file delivers the content of the file. -/
theorem FileSystem.read_of_content? {fs : FileSystem} {p : Path} {content : Bytes}
    (h : fs.content? p = some content) : fs.read p = .ok content := by
  unfold content? entry? at h
  cases hlocate : fs.locate p with
  | error fault => simp [hlocate, Except.toOption] at h
  | ok place =>
    simp only [hlocate, Except.toOption, Option.bind_some] at h
    split at h
    · next id data hentry =>
      obtain rfl : data.content = content := Option.some.inj h
      have hopen : fs.openRead p = .ok { content := data.content } := by
        simp only [openRead, hlocate, bind, Except.bind, hentry]
      simp only [read, hopen]
    · cases h

/-- A run that comes to its end has read the lines into which its input is cut. -/
theorem Run.linesRead_eq_length {content : Bytes} {sink : Sink} {stats : Stats}
    (h : (ofSource { content } sink).result = .ok stats) :
    stats.linesRead = (splitLines content).length := by
  have hstats : stats = _ := ofLines_result_eq h
  rw [hstats, Stats.total_eq, Line.length_recastAll, List.length_map, Nat.zero_add]
  rfl

/-- A sink whose flush succeeds delivers all of an output, or refuses what it has no room for. -/
theorem Sink.delivery_of_room {α : Type} (n : Nat) (refusal : Fault) (out : Bytes) (value : α) :
    ({ limit := some n, refusal } : Sink).delivery out value =
      if n < out.length then .error (.write refusal) else .ok value := by
  rw [delivery, refusal?, Run.write_of_held_eq_zero, Option.any_some]
  by_cases hroom : n < out.length
  · simp [hroom]
  · simp [hroom, flush]

namespace Copy

/-- **A copy is verbatim.** Copying a file into a sink with room for `n` bytes leaves there the
first `n` bytes of its content, or all of them where there are no more. It fails, by a refusal of
the sink, if and only if the content is longer. Otherwise it gives the number of lines that every
run over the same bytes gives which comes to its end, and there is such a run. -/
theorem ofFile_verbatim {files : FileSystem} {path : Path} {content : Bytes}
    (h : files.content? path = some content) (n : Nat) (refusal : Fault) :
    let copy := ofFile files path { limit := some n, refusal }
    copy.written = content.take (min n content.length) ∧
    copy.sink.held = min n content.length ∧
    (copy.result = .error (.write refusal) ↔ n < content.length) ∧
    (content.length ≤ n → ∃ lines, copy.result = .ok lines ∧
      (∃ stats, (Driver.unobserved.run { content } {}).1.result = .ok stats) ∧
      ∀ (σ : Type) (d : Driver σ) (sink : Sink) (stats : Stats),
        (d.run { content } sink).1.result = .ok stats → stats.linesRead = lines) := by
  intro copy
  have hcopy : copy = _ := ofFile_of_read_eq_ok (FileSystem.read_of_content? h) _
  rw [hcopy, Sink.delivery_of_room, Run.write_of_held_eq_zero, Option.getD_some]
  refine ⟨rfl, rfl, ?_, fun hroom => ⟨(splitLines content).length, ?_, ?_, ?_⟩⟩
  · by_cases hroom : n < content.length <;> simp [hroom]
  · exact if_neg (Nat.not_lt.mpr hroom)
  · exact ⟨_, Run.ofLines_result rfl rfl (splitLines content)⟩
  · intro σ d sink stats hstats
    exact Run.linesRead_eq_length hstats

/-- A file with a carriage return, an empty line, bytes that are no UTF-8 and no line feed at its
end, copied into a sink that is full one byte too early, and into one that has just the room. -/
theorem ofFile_verbatim_of_four_lines :
    let content := Utf8.encode "// a;\r\n\n\x7d\n".toList ++ [0xC3, 0x0D]
    let path := Path.ofText "notes.txt".toList
    let files := FileSystem.fresh.addFile path content
    files.content? path = some content ∧
    (ofFile files path { limit := some 11, refusal := .noSpace }).written =
      Utf8.encode "// a;\r\n\n\x7d\n".toList ++ [0xC3] ∧
    (ofFile files path { limit := some 11, refusal := .noSpace }).result =
      .error (.write .noSpace) ∧
    (ofFile files path { limit := some 12, refusal := .noSpace }).written = content ∧
    (ofFile files path { limit := some 12, refusal := .noSpace }).result = .ok 4 := by
  intro content path files
  have hcontent : files.content? path = some content := by decide
  obtain ⟨hcut, -, hfault, -⟩ := ofFile_verbatim hcontent 11 .noSpace
  obtain ⟨hall, -, -, hlines⟩ := ofFile_verbatim hcontent 12 .noSpace
  obtain ⟨lines, hresult, -, hrun⟩ := hlines (by decide)
  obtain rfl : 4 = lines := hrun Unit .unobserved {} ⟨4, 4, 0, false⟩ (by decide)
  exact ⟨hcontent, hcut.trans (by decide), hfault.mpr (by decide), hall.trans (by decide), hresult⟩

end Copy

end SchemaDoc
