import SchemaDoc.FileSystem.Access
import SchemaDoc.Stream.Growing

/-!
# Inputs from files

A schema file is recast by a run over its content, also when it grows meanwhile. Any other file is
copied as it is, line by line.
-/

namespace SchemaDoc

/-- A run from the file at `path` to `sink`. -/
def Run.ofFile (files : FileSystem) (path : Path) (sink : Sink) : Run :=
  match files.openRead path with
  | .error fault => { written := [], events := [], sink, result := .error (.cannotOpen path fault) }
  | .ok source => Run.ofSource source sink

/-- A run from the file at `path`, to which every event adds the lines of `growth`, to `sink`. -/
def Run.ofGrowingFile (files : FileSystem) (path : Path) (growth : Event → List Bytes)
    (sink : Sink) : Run :=
  match files.openRead path with
  | .error fault => { written := [], events := [], sink, result := .error (.cannotOpen path fault) }
  | .ok source => Run.ofGrowing source growth sink

/-- The outcome of copying one input. -/
structure Copy where
  /-- The bytes that the sink accepted. -/
  written : Bytes
  /-- The sink afterwards. -/
  sink : Sink
  /-- The number of lines, or why there is none. -/
  result : Except StreamError Nat

namespace Copy

/-- Copies the lines still to be read, behind `count` others. -/
def ofLines (sink : Sink) (count : Nat) (fault : Option Fault) : List Bytes → Copy
  | [] =>
    match fault with
    | some fault => { written := [], sink, result := .error (.read fault) }
    | none =>
      match sink.flush with
      | some fault => { written := [], sink, result := .error (.write fault) }
      | none => { written := [], sink, result := .ok count }
  | raw :: rest =>
    let output := sink.write raw
    match output.fault with
    | some refusal =>
      { written := output.accepted, sink := output.sink, result := .error (.write refusal) }
    | none =>
      let copy := ofLines output.sink (count + 1) fault rest
      { copy with written := output.accepted ++ copy.written }

/-- Copies a source. -/
def ofSource (source : Source) (sink : Sink) : Copy := ofLines sink 0 source.fault source.lines

/-- Copies the file at `path`. -/
def ofFile (files : FileSystem) (path : Path) (sink : Sink) : Copy :=
  match files.openRead path with
  | .error fault => { written := [], sink, result := .error (.cannotOpen path fault) }
  | .ok source => ofSource source sink

end Copy

end SchemaDoc
