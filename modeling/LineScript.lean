import LineScript.Arithmetic
import LineScript.Command
import LineScript.Console
import LineScript.Desk
import LineScript.Error
import LineScript.Files
import LineScript.FunctionTable
import LineScript.Heap
import LineScript.Keyword
import LineScript.Kind
import LineScript.Listing
import LineScript.Machine.Effect
import LineScript.Machine.Expression
import LineScript.Machine.Operand
import LineScript.Machine.Plan
import LineScript.Machine.Run
import LineScript.Machine.State
import LineScript.Machine.Trace
import LineScript.Main
import LineScript.Operator
import LineScript.Program
import LineScript.Proofs.Activations
import LineScript.Proofs.CallFrames
import LineScript.Proofs.Circulation
import LineScript.Proofs.Closures
import LineScript.Proofs.Frames
import LineScript.Proofs.HeapGraph
import LineScript.Proofs.LambdaCalls
import LineScript.Proofs.Loading
import LineScript.Proofs.Planned
import LineScript.Proofs.Search
import LineScript.Proofs.Statements
import LineScript.Proofs.Step
import LineScript.Proofs.Structured
import LineScript.Proofs.WellNested
import LineScript.Report
import LineScript.Scope
import LineScript.Session
import LineScript.Signature
import LineScript.Suggestion
import LineScript.Table
import LineScript.Text.Blank
import LineScript.Text.Cluster
import LineScript.Text.Decimal
import LineScript.Text.EditDistance
import LineScript.Text.Lines
import LineScript.Text.Mark
import LineScript.Text.Ranges
import LineScript.Text.Typed
import LineScript.Text.Width
import LineScript.Token
import LineScript.Value
import LineScript.Proofs.Turns
import LineScript.Proofs.Sharing
import LineScript.Proofs.Callers
import LineScript.Proofs.Consistency
import LineScript.Proofs.Blocks
import LineScript.Proofs.Arguments
import LineScript.Proofs.Changes
import LineScript.Proofs.Kinds
import LineScript.Proofs.Halting
import LineScript.Proofs.Transcripts
import LineScript.Proofs.CallLimits
import LineScript.Proofs.Streams
import LineScript.Proofs.PrefixForm
import LineScript.Proofs.DeepCopies
import LineScript.Proofs.Headers
import LineScript.Proofs.LoopEnds
import LineScript.Proofs.ExpressionKinds
import LineScript.Proofs.Enclosing
import LineScript.Proofs.Residues
import LineScript.Proofs.EditScripts
import LineScript.Proofs.FloorDivision
import LineScript.Proofs.Suggestions
import LineScript.Proofs.Divisions
import LineScript.Proofs.Lexemes
import LineScript.Proofs.Paths
import LineScript.Proofs.Decimals
import LineScript.Proofs.LeastEdits
import LineScript.Proofs.LineSpans
import LineScript.Proofs.Literals
import LineScript.Proofs.CallNames
import LineScript.Proofs.Splices
import LineScript.Proofs.Spacing
import LineScript.Proofs.LoadedFiles
import LineScript.Proofs.Visibility
import LineScript.Proofs.Hints
