import SchemaDoc.Batch.Error
import SchemaDoc.Batch.Process
import SchemaDoc.Batch.Session
import SchemaDoc.Batch.Summary
import SchemaDoc.Command.Argument
import SchemaDoc.Command.Request
import SchemaDoc.Command.Run
import SchemaDoc.Fault
import SchemaDoc.FileSystem.Access
import SchemaDoc.FileSystem.Basic
import SchemaDoc.FileSystem.Resolve
import SchemaDoc.FileSystem.Setup
import SchemaDoc.Glob.Basic
import SchemaDoc.Glob.Error
import SchemaDoc.Glob.Nesting
import SchemaDoc.Glob.Parser
import SchemaDoc.Glob.Piece
import SchemaDoc.Glob.SetReader
import SchemaDoc.Input.Classifier
import SchemaDoc.Input.Discovery
import SchemaDoc.Input.File
import SchemaDoc.Line.Markers
import SchemaDoc.Line.Recast
import SchemaDoc.Line.Scope
import SchemaDoc.Log.File
import SchemaDoc.Log.Level
import SchemaDoc.Log.Recorder
import SchemaDoc.Main
import SchemaDoc.Path
import SchemaDoc.Sample.Schema
import SchemaDoc.Sample.Throughput
import SchemaDoc.Settings
import SchemaDoc.Stream.Driver
import SchemaDoc.Stream.Error
import SchemaDoc.Stream.Event
import SchemaDoc.Stream.Growing
import SchemaDoc.Stream.Run
import SchemaDoc.Stream.Sink
import SchemaDoc.Stream.Source
import SchemaDoc.Text.Basic
import SchemaDoc.Text.Blank
import SchemaDoc.Text.Printable
import SchemaDoc.Text.Quoted
import SchemaDoc.Text.Search
import SchemaDoc.Text.Utf8
import SchemaDoc.Trace
import SchemaDoc.Proofs.Text.Search
import SchemaDoc.Proofs.Text.Utf8
import SchemaDoc.Proofs.Line.Sequence
import SchemaDoc.Proofs.Stream.Run
import SchemaDoc.Proofs.Stream.Lines
import SchemaDoc.Proofs.Stream.Decoding
import SchemaDoc.Proofs.Line.Code
import SchemaDoc.Proofs.Line.EnumScope
import SchemaDoc.Proofs.Text.Patch
import SchemaDoc.Proofs.Line.Simultaneous
import SchemaDoc.Proofs.Line.Plain
import SchemaDoc.Proofs.Schema.Translation
import SchemaDoc.Proofs.Line.Comment
import SchemaDoc.Proofs.Line.Braces
import SchemaDoc.Proofs.Stream.FailStop
import SchemaDoc.Proofs.Stream.Observer
import SchemaDoc.Proofs.FileSystem.Names
import SchemaDoc.Proofs.FileSystem.Trail
import SchemaDoc.Proofs.FileSystem.Growth
import SchemaDoc.Proofs.Log.Frame
import SchemaDoc.Proofs.Batch.Fate
import SchemaDoc.Proofs.Batch.Output
import SchemaDoc.Proofs.Log.Arrival
import SchemaDoc.Proofs.Log.Lines
import SchemaDoc.Proofs.Batch.Logging
import SchemaDoc.Proofs.Stream.Composition
import SchemaDoc.Proofs.Batch.Effects
import SchemaDoc.Proofs.Command.ExitCode
import SchemaDoc.Proofs.Line.Offsets
import SchemaDoc.Proofs.Line.Identity
import SchemaDoc.Proofs.Stream.LineEndings
import SchemaDoc.Proofs.Stream.Shape
import SchemaDoc.Proofs.Input.Classification
import SchemaDoc.Proofs.Batch.Discovered
import SchemaDoc.Proofs.Line.Keyword
import SchemaDoc.Proofs.Input.Verbatim
import SchemaDoc.Proofs.Sample.Translation
import SchemaDoc.Proofs.Log.Course
import SchemaDoc.Proofs.Log.History
