import Descent.Clock
import Descent.Grammar.Basic
import Descent.Grammar.Build
import Descent.Grammar.Semantics
import Descent.Location
import Descent.Outcome
import Descent.Parser.Basic
import Descent.Parser.Choice
import Descent.Parser.Diagnostic
import Descent.Parser.Projection
import Descent.Parser.Repetition
import Descent.Parser.Sequence
import Descent.Proofs.Grammar.Accounting
import Descent.Proofs.Grammar.Composition
import Descent.Proofs.Grammar.Contract
import Descent.Proofs.Grammar.Definition
import Descent.Proofs.Grammar.Guarded
import Descent.Proofs.Grammar.Inline
import Descent.Proofs.Grammar.IntegerList
import Descent.Proofs.Grammar.Journal
import Descent.Proofs.Grammar.LeadingSpace
import Descent.Proofs.Grammar.NestedList
import Descent.Proofs.Grammar.Part
import Descent.Proofs.Grammar.Provenance
import Descent.Proofs.Grammar.Reference
import Descent.Proofs.Grammar.Simulation
import Descent.Proofs.Grammar.Transcript
import Descent.Proofs.Grammar.Unrolling
import Descent.Proofs.Grammar.Verdict
import Descent.Proofs.Grammar.Whole
import Descent.Proofs.Location.After
import Descent.Proofs.Parser.Accounting
import Descent.Proofs.Parser.Answering
import Descent.Proofs.Parser.Cases
import Descent.Proofs.Parser.Chain
import Descent.Proofs.Parser.Choice
import Descent.Proofs.Parser.FirstStop
import Descent.Proofs.Parser.LeadingSpace
import Descent.Proofs.Parser.Naturality
import Descent.Proofs.Parser.Repetition
import Descent.Proofs.Parser.Rest
import Descent.Proofs.Parser.Sequence
import Descent.Proofs.Parser.Simulation
import Descent.Proofs.Parser.Tiling
import Descent.Proofs.Parser.Transcript
import Descent.Proofs.Regex.Anchored
import Descent.Proofs.Regex.Group
import Descent.Proofs.Regex.Shift
import Descent.Proofs.Regex.Source
import Descent.Proofs.Report.Boundary
import Descent.Proofs.Report.Context
import Descent.Proofs.Report.Place
import Descent.Proofs.Session.Effect
import Descent.Proofs.Session.Environment
import Descent.Proofs.Session.Forward
import Descent.Proofs.Session.Lazy
import Descent.Proofs.Terminal.Run
import Descent.Proofs.Terminal.SkippedSpace
import Descent.Proofs.Terminal.Tokens
import Descent.Proofs.Text.Lines
import Descent.Proofs.Value.Relocation
import Descent.Proofs.Value.Spans
import Descent.Regex.Assertion
import Descent.Regex.Basic
import Descent.Regex.Beginning
import Descent.Regex.Bracket
import Descent.Regex.CharSet
import Descent.Regex.Compile
import Descent.Regex.Escape
import Descent.Regex.Footprint
import Descent.Regex.Program
import Descent.Regex.Reader
import Descent.Regex.Repetition
import Descent.Regex.Token
import Descent.Regex.Utf8
import Descent.Report
import Descent.Session
import Descent.Span
import Descent.Terminal
import Descent.Text
import Descent.Text.Alphabetic
import Descent.Text.CaseFolding
import Descent.Text.DecimalDigit
import Descent.Text.Ranges
import Descent.Text.WhiteSpace
import Descent.Text.WordChar
import Descent.Value
import Descent.Value.Operation
