import TileMachine.Command
import TileMachine.Command.Arguments
import TileMachine.Command.Report
import TileMachine.Fixture
import TileMachine.InputList
import TileMachine.Instruction
import TileMachine.Json.Number
import TileMachine.Json.Reader
import TileMachine.Json.Token
import TileMachine.Machine
import TileMachine.Machine.Execution
import TileMachine.Machine.RuntimeError
import TileMachine.Machine.State
import TileMachine.Main
import TileMachine.Program
import TileMachine.Program.Listing
import TileMachine.Program.Validity
import TileMachine.Proofs.CommaLists
import TileMachine.Proofs.Command.Endings
import TileMachine.Proofs.Command.Failures
import TileMachine.Proofs.Command.Testing
import TileMachine.Proofs.Command.Verbose
import TileMachine.Proofs.Fixture
import TileMachine.Proofs.Fixture.Validity
import TileMachine.Proofs.InputList
import TileMachine.Proofs.Json.Spelling
import TileMachine.Proofs.Json.Trees
import TileMachine.Proofs.Machine.Actions
import TileMachine.Proofs.Machine.Atomicity
import TileMachine.Proofs.Machine.Conservation
import TileMachine.Proofs.Machine.CopyLoop
import TileMachine.Proofs.Machine.EmptyTiles
import TileMachine.Proofs.Machine.Histories
import TileMachine.Proofs.Machine.InPlace
import TileMachine.Proofs.Machine.Lifecycle
import TileMachine.Proofs.Machine.Lockstep
import TileMachine.Proofs.Machine.LongerInbox
import TileMachine.Proofs.Machine.NamedTiles
import TileMachine.Proofs.Machine.Planning
import TileMachine.Proofs.Machine.Reference
import TileMachine.Proofs.Machine.Refinement
import TileMachine.Proofs.Machine.Runs
import TileMachine.Proofs.Machine.Safety
import TileMachine.Proofs.Machine.StepLimit
import TileMachine.Proofs.Machine.Stepping
import TileMachine.Proofs.Maps
import TileMachine.Proofs.Outcome
import TileMachine.Proofs.PrintedValues
import TileMachine.Proofs.Program.Listing
import TileMachine.Proofs.Program.Printable
import TileMachine.Proofs.Program.RoundTrip
import TileMachine.Proofs.Program.Validity
import TileMachine.Proofs.Source.Acceptance
import TileMachine.Proofs.Source.AnyTokens
import TileMachine.Proofs.Source.Blame
import TileMachine.Proofs.Source.Blocks
import TileMachine.Proofs.Source.Diagnostics
import TileMachine.Proofs.Source.Drafting
import TileMachine.Proofs.Source.FirstError
import TileMachine.Proofs.Source.Grammar
import TileMachine.Proofs.Source.Indexing
import TileMachine.Proofs.Source.Layout
import TileMachine.Proofs.Source.Lexemes
import TileMachine.Proofs.Source.LineGroups
import TileMachine.Proofs.Source.LineTable
import TileMachine.Proofs.Source.Linking
import TileMachine.Proofs.Source.Lossless
import TileMachine.Proofs.Source.Offsets
import TileMachine.Proofs.Source.Places
import TileMachine.Proofs.Source.Reading
import TileMachine.Proofs.Source.Relexing
import TileMachine.Proofs.Source.Relocation
import TileMachine.Proofs.Source.Rendering
import TileMachine.Proofs.Source.Substitution
import TileMachine.Proofs.Source.Words
import TileMachine.Proofs.Text.Bytes
import TileMachine.Proofs.Text.Decimal
import TileMachine.Proofs.Text.Letters
import TileMachine.Proofs.Text.Lines
import TileMachine.Proofs.Text.Numerals
import TileMachine.Proofs.Text.OneLine
import TileMachine.Proofs.Text.Trimming
import TileMachine.Proofs.Tiles.Keys
import TileMachine.Proofs.Tiles.Notations
import TileMachine.Proofs.Trace.Account
import TileMachine.Proofs.Trace.Changes
import TileMachine.Proofs.Trace.Effects
import TileMachine.Proofs.Trace.Lines
import TileMachine.Source.Assembly
import TileMachine.Source.Lexer
import TileMachine.Source.ParseError
import TileMachine.Source.Statement
import TileMachine.Source.Token
import TileMachine.Text.Blank
import TileMachine.Text.Bytes
import TileMachine.Text.Decimal
import TileMachine.Text.Lines
import TileMachine.Tiles
import TileMachine.Trace
import TileMachine.Value
