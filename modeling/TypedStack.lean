import TypedStack.Artifact.Basic
import TypedStack.Artifact.Reader
import TypedStack.Artifact.Writer
import TypedStack.Assembly.Basic
import TypedStack.Assembly.Encode
import TypedStack.Assembly.Error
import TypedStack.Binary.Format
import TypedStack.Bytes
import TypedStack.Code.Listing
import TypedStack.Code.Op
import TypedStack.Code.Relation
import TypedStack.Code.Segment
import TypedStack.Command.Basic
import TypedStack.Command.Execute
import TypedStack.Command.Folder
import TypedStack.Command.Host
import TypedStack.Command.Path
import TypedStack.Command.Report
import TypedStack.Command.Session
import TypedStack.Compile.Error
import TypedStack.Compile.Lowering
import TypedStack.Compile.Module
import TypedStack.Compile.Scope
import TypedStack.Compile.Typing
import TypedStack.Constant
import TypedStack.Decimal.Literal
import TypedStack.Decimal.Scientific
import TypedStack.Decimal.Shortest
import TypedStack.Json.Basic
import TypedStack.Json.Printer
import TypedStack.Json.Reader
import TypedStack.Json.Token
import TypedStack.Machine.Error
import TypedStack.Machine.Input
import TypedStack.Machine.Run
import TypedStack.Machine.State
import TypedStack.Machine.Step
import TypedStack.Machine.Token
import TypedStack.Main
import TypedStack.Proofs.Artifact.Extent
import TypedStack.Proofs.Artifact.RoundTrip
import TypedStack.Proofs.Assembly.Capacity
import TypedStack.Proofs.Assembly.ConstantPool
import TypedStack.Proofs.Assembly.Encodable
import TypedStack.Proofs.Assembly.Encoding
import TypedStack.Proofs.Assembly.Fidelity
import TypedStack.Proofs.Assembly.Fixups
import TypedStack.Proofs.Assembly.Layout
import TypedStack.Proofs.Assembly.Lines
import TypedStack.Proofs.Assembly.Paths
import TypedStack.Proofs.Assembly.Typed
import TypedStack.Proofs.Binary.Order
import TypedStack.Proofs.Binary.Rounding
import TypedStack.Proofs.Binary.Widening
import TypedStack.Proofs.Code.Decoding
import TypedStack.Proofs.Code.LineTable
import TypedStack.Proofs.Code.Related
import TypedStack.Proofs.Code.Writing
import TypedStack.Proofs.Compile.Acceptance
import TypedStack.Proofs.Compile.Agreement
import TypedStack.Proofs.Compile.Bindings
import TypedStack.Proofs.Compile.Blame
import TypedStack.Proofs.Compile.Expressions
import TypedStack.Proofs.Compile.Failures
import TypedStack.Proofs.Compile.Functions
import TypedStack.Proofs.Compile.Generated
import TypedStack.Proofs.Compile.Messages
import TypedStack.Proofs.Compile.Modules
import TypedStack.Proofs.Compile.Order
import TypedStack.Proofs.Compile.Places
import TypedStack.Proofs.Compile.Scopes
import TypedStack.Proofs.Compile.Scoping
import TypedStack.Proofs.Compile.Slots
import TypedStack.Proofs.Compile.Steps
import TypedStack.Proofs.Compile.Typed
import TypedStack.Proofs.Compile.WellFormed
import TypedStack.Proofs.Decimal.Digits
import TypedStack.Proofs.Decimal.Printed
import TypedStack.Proofs.Decimal.Reading
import TypedStack.Proofs.Evaluation.Basic
import TypedStack.Proofs.Inversion
import TypedStack.Proofs.Json.Numbers
import TypedStack.Proofs.Json.RoundTrip
import TypedStack.Proofs.Json.Scalars
import TypedStack.Proofs.Machine.Effects
import TypedStack.Proofs.Machine.Faults
import TypedStack.Proofs.Machine.Frames
import TypedStack.Proofs.Machine.Layers
import TypedStack.Proofs.Machine.Limits
import TypedStack.Proofs.Machine.Lookup
import TypedStack.Proofs.Machine.Overflow
import TypedStack.Proofs.Machine.Points
import TypedStack.Proofs.Machine.ReadBack
import TypedStack.Proofs.Machine.Reordered
import TypedStack.Proofs.Machine.Returns
import TypedStack.Proofs.Machine.Runs
import TypedStack.Proofs.Machine.Values
import TypedStack.Proofs.Machine.Words
import TypedStack.Proofs.Simulation.Basic
import TypedStack.Proofs.Simulation.Calls
import TypedStack.Proofs.Simulation.Expressions
import TypedStack.Proofs.Simulation.Programs
import TypedStack.Proofs.Simulation.Statements
import TypedStack.Proofs.Simulation.Steps
import TypedStack.Proofs.Source.Position
import TypedStack.Proofs.SyntaxTree.Records
import TypedStack.Proofs.SyntaxTree.RoundTrip
import TypedStack.Proofs.Value.Arith
import TypedStack.Proofs.Value.Order
import TypedStack.Proofs.Verification.Exactness
import TypedStack.Proofs.Verification.Fixpoint
import TypedStack.Proofs.Verification.Preservation
import TypedStack.Proofs.Verification.Rules
import TypedStack.Proofs.Verification.Soundness
import TypedStack.Proofs.Verification.StackBound
import TypedStack.Proofs.Verification.Sweep
import TypedStack.Proofs.Verification.Worklist
import TypedStack.Source.Position
import TypedStack.SyntaxTree.Basic
import TypedStack.SyntaxTree.Equality
import TypedStack.SyntaxTree.Reader
import TypedStack.SyntaxTree.Spelling
import TypedStack.SyntaxTree.Writer
import TypedStack.Text.Alphabetic
import TypedStack.Text.Blank
import TypedStack.Text.Hidden
import TypedStack.Text.Identifier
import TypedStack.Text.Numeric
import TypedStack.Text.Quoted
import TypedStack.Text.Ranges
import TypedStack.Value.Arith
import TypedStack.Value.Basic
import TypedStack.Value.Text
import TypedStack.ValueType
import TypedStack.Verification.Artifact
import TypedStack.Verification.Error
import TypedStack.Verification.Flow
import TypedStack.Verification.Typing
