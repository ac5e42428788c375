import ScriptEngine.Call.Arguments
import ScriptEngine.Call.Binding
import ScriptEngine.Code
import ScriptEngine.CommandLine.Command
import ScriptEngine.CommandLine.FileTree
import ScriptEngine.CommandLine.Outcome
import ScriptEngine.Dict
import ScriptEngine.Digest
import ScriptEngine.Engine
import ScriptEngine.Instruction
import ScriptEngine.Listing
import ScriptEngine.Literal
import ScriptEngine.Lowering
import ScriptEngine.Main
import ScriptEngine.Method
import ScriptEngine.Method.Basic
import ScriptEngine.Method.Keyed
import ScriptEngine.Method.Number
import ScriptEngine.Method.Sequence
import ScriptEngine.Method.Text
import ScriptEngine.Number.Arithmetic
import ScriptEngine.Number.Binary64
import ScriptEngine.Number.Reading
import ScriptEngine.Number.Shortest
import ScriptEngine.Procedures
import ScriptEngine.Program
import ScriptEngine.Proofs.Acceptance
import ScriptEngine.Proofs.Accords
import ScriptEngine.Proofs.Accounts
import ScriptEngine.Proofs.Assembling
import ScriptEngine.Proofs.Atomicity
import ScriptEngine.Proofs.Bookkeeping
import ScriptEngine.Proofs.Breakpoints
import ScriptEngine.Proofs.Callbacks
import ScriptEngine.Proofs.Calling
import ScriptEngine.Proofs.Cancelling
import ScriptEngine.Proofs.Catching
import ScriptEngine.Proofs.Charting
import ScriptEngine.Proofs.Coherence
import ScriptEngine.Proofs.Containers
import ScriptEngine.Proofs.Counting
import ScriptEngine.Proofs.Dataflow
import ScriptEngine.Proofs.Definitions
import ScriptEngine.Proofs.Delegation
import ScriptEngine.Proofs.Depths
import ScriptEngine.Proofs.Derivation
import ScriptEngine.Proofs.Effects
import ScriptEngine.Proofs.Emission
import ScriptEngine.Proofs.Enduring
import ScriptEngine.Proofs.Fillers
import ScriptEngine.Proofs.Fragment
import ScriptEngine.Proofs.Frames
import ScriptEngine.Proofs.Grammar
import ScriptEngine.Proofs.HandingOn
import ScriptEngine.Proofs.Hiding
import ScriptEngine.Proofs.Histories
import ScriptEngine.Proofs.Indifference
import ScriptEngine.Proofs.Iterating
import ScriptEngine.Proofs.Keeping
import ScriptEngine.Proofs.Keys
import ScriptEngine.Proofs.Language
import ScriptEngine.Proofs.Layout
import ScriptEngine.Proofs.Lexemes
import ScriptEngine.Proofs.Likeness
import ScriptEngine.Proofs.Listed
import ScriptEngine.Proofs.Loaded
import ScriptEngine.Proofs.LoopVariables
import ScriptEngine.Proofs.Looping
import ScriptEngine.Proofs.Loops
import ScriptEngine.Proofs.Marking
import ScriptEngine.Proofs.Meaning
import ScriptEngine.Proofs.Methods
import ScriptEngine.Proofs.Naming
import ScriptEngine.Proofs.Nesting
import ScriptEngine.Proofs.Numbers
import ScriptEngine.Proofs.Occurrences
import ScriptEngine.Proofs.Origins
import ScriptEngine.Proofs.Outcomes
import ScriptEngine.Proofs.Parameters
import ScriptEngine.Proofs.ParserStates
import ScriptEngine.Proofs.Parsing
import ScriptEngine.Proofs.Peeking
import ScriptEngine.Proofs.Pieces
import ScriptEngine.Proofs.Placement
import ScriptEngine.Proofs.Positions
import ScriptEngine.Proofs.Preservation
import ScriptEngine.Proofs.Privacy
import ScriptEngine.Proofs.Progress
import ScriptEngine.Proofs.Quoting
import ScriptEngine.Proofs.Reaching
import ScriptEngine.Proofs.Recognition
import ScriptEngine.Proofs.Relocation
import ScriptEngine.Proofs.Reports
import ScriptEngine.Proofs.Requests
import ScriptEngine.Proofs.Room
import ScriptEngine.Proofs.Scopes
import ScriptEngine.Proofs.Sessions
import ScriptEngine.Proofs.Simulation
import ScriptEngine.Proofs.Snapshots
import ScriptEngine.Proofs.SourceLines
import ScriptEngine.Proofs.Spacing
import ScriptEngine.Proofs.Spelling
import ScriptEngine.Proofs.Startup
import ScriptEngine.Proofs.StartupWrites
import ScriptEngine.Proofs.Steadiness
import ScriptEngine.Proofs.Steps
import ScriptEngine.Proofs.Stretches
import ScriptEngine.Proofs.Targets
import ScriptEngine.Proofs.Termination
import ScriptEngine.Proofs.TextMethods
import ScriptEngine.Proofs.Texts
import ScriptEngine.Proofs.Tiling
import ScriptEngine.Proofs.TopLevelNames
import ScriptEngine.Proofs.Transparency
import ScriptEngine.Proofs.Turns
import ScriptEngine.Proofs.Unmarked
import ScriptEngine.Proofs.Unmarking
import ScriptEngine.Proofs.Unwinding
import ScriptEngine.Proofs.Verified
import ScriptEngine.Proofs.Views
import ScriptEngine.Proofs.Watching
import ScriptEngine.Proofs.WellFormed
import ScriptEngine.Proofs.Winding
import ScriptEngine.Proofs.Zone
import ScriptEngine.Run.Builtin
import ScriptEngine.Run.Exec
import ScriptEngine.Run.Execute
import ScriptEngine.Run.Frame
import ScriptEngine.Run.Host
import ScriptEngine.Run.Invoke
import ScriptEngine.Run.Lifetime
import ScriptEngine.Run.Machine
import ScriptEngine.Run.Member
import ScriptEngine.Run.Name
import ScriptEngine.Run.State
import ScriptEngine.Run.Step
import ScriptEngine.RuntimeError
import ScriptEngine.Source
import ScriptEngine.Stack
import ScriptEngine.Store
import ScriptEngine.Store.Equality
import ScriptEngine.Store.Holding
import ScriptEngine.Store.Text
import ScriptEngine.SyntaxError
import ScriptEngine.Table
import ScriptEngine.Text.Blank
import ScriptEngine.Text.Case
import ScriptEngine.Text.CaseTable
import ScriptEngine.Text.PrintableTable
import ScriptEngine.Text.Quoted
import ScriptEngine.Text.Search
import ScriptEngine.Token
import ScriptEngine.Token.Cursor
import ScriptEngine.Token.Lexer
import ScriptEngine.Token.Lookahead
import ScriptEngine.Tree
import ScriptEngine.Tree.Parser
import ScriptEngine.Value
import ScriptEngine.Verification
import ScriptEngine.Verification.Depth
import ScriptEngine.Verification.Finding
import ScriptEngine.Verification.Shape
