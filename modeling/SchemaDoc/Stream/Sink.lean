import SchemaDoc.Fault

/-!
# Sinks

A sink accepts bytes, some sinks only up to a limit. Of data that crosses the limit the part that
still fits is accepted and the rest refused. Flushing may be refused too.
-/

namespace SchemaDoc

/-- How a sink answers a flush. -/
inductive Flushing where
  /-- It always succeeds. -/
  | succeeds
  /-- It is always refused. -/
  | refused (fault : Fault)
  /-- It is refused as soon as the sink holds a byte. -/
  | refusedWhenHolding (fault : Fault)
  deriving DecidableEq, Repr

/-- Something that bytes are written to. -/
structure Sink where
  /-- The number of bytes accepted so far. -/
  held : Nat := 0
  /-- The number of bytes that are accepted in all; any number when there is none. -/
  limit : Option Nat := none
  /-- Why data beyond the limit is refused. -/
  refusal : Fault := .noSpace
  /-- How a flush is answered. -/
  flushing : Flushing := .succeeds
  deriving DecidableEq, Repr

namespace Sink

/-- What a sink makes of the data written to it. -/
structure Written where
  /-- The part that was accepted. -/
  accepted : Bytes
  /-- The sink afterwards. -/
  sink : Sink
  /-- Why the rest was refused, if there was a rest. -/
  fault : Option Fault
  deriving DecidableEq, Repr

/-- The part of `bs` that the sink has room for. -/
def accept (s : Sink) (bs : Bytes) : Bytes :=
  match s.limit with
  | none => bs
  | some limit => bs.take (limit - s.held)

/-- Writes `bs`. -/
def write (s : Sink) (bs : Bytes) : Written :=
  let accepted := s.accept bs
  { accepted
    sink := { s with held := s.held + accepted.length }
    fault := if accepted.length = bs.length then none else some s.refusal }

/-- Flushes the sink and gives the reason when that is refused. -/
def flush (s : Sink) : Option Fault :=
  match s.flushing with
  | .succeeds => none
  | .refused fault => some fault
  | .refusedWhenHolding fault => if s.held = 0 then none else some fault

end Sink

end SchemaDoc
