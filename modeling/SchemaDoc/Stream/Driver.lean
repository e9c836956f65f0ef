import SchemaDoc.Stream.Run

/-!
# Drivers

A driver takes one input after the other from its source to its sink, and tells one observer of all
of them. What the observer makes of the events is its own affair; between two inputs nothing else is
kept.
-/

namespace SchemaDoc

/-- Something that carries out runs under the eyes of an observer with states of type `σ`. -/
structure Driver (σ : Type) where
  /-- What an event makes of a state of the observer. -/
  observe : σ → Event → σ
  /-- The state that the observer is in. -/
  observer : σ

namespace Driver

/-- A driver whose observer keeps what it is told. -/
def recording : Driver (List Event) where
  observe events event := events ++ [event]
  observer := []

/-- A driver that nobody observes. -/
def unobserved : Driver Unit where
  observe _ _ := ()
  observer := ()

variable {σ : Type} (d : Driver σ)

/-- Carries out a run from `source` to `sink`. -/
def run (source : Source) (sink : Sink) : Run × Driver σ :=
  let run := Run.ofSource source sink
  (run, { d with observer := run.events.foldl d.observe d.observer })

/-- Carries out one run after the other. -/
def runAll (d : Driver σ) : List (Source × Sink) → List Run × Driver σ
  | [] => ([], d)
  | (source, sink) :: inputs =>
    let (run, next) := d.run source sink
    let (runs, last) := next.runAll inputs
    (run :: runs, last)

end Driver

end SchemaDoc
