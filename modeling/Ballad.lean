import Ballad.CommandLine
import Ballad.Evaluation.Basic
import Ballad.Evaluation.Change
import Ballad.Evaluation.Control
import Ballad.Evaluation.Evaluator
import Ballad.Evaluation.Location
import Ballad.Evaluation.Operation
import Ballad.HostValue
import Ballad.Lexeme.Basic
import Ballad.Lexeme.Contraction
import Ballad.Lexeme.Piece
import Ballad.Lexeme.Scan
import Ballad.Main
import Ballad.Name
import Ballad.Node
import Ballad.Number.Basic
import Ballad.Number.Decimal
import Ballad.Number.Integer
import Ballad.Number.Nearest
import Ballad.Number.Shortest
import Ballad.ParseError
import Ballad.Program
import Ballad.Proofs.Arguments
import Ballad.Proofs.Naming
import Ballad.Proofs.Nesting
import Ballad.Proofs.Placement
import Ballad.Proofs.Precedence.Climbing
import Ballad.Proofs.Precedence.Grammar
import Ballad.Proofs.Precedence.Terms
import Ballad.Proofs.Reading.Line
import Ballad.Proofs.Reading.LineEnds
import Ballad.Proofs.Reading.Phrase
import Ballad.Proofs.Reading.Statement
import Ballad.Proofs.Reading.Words
import Ballad.Proofs.Tiling
import Ballad.Proofs.Tree
import Ballad.Proofs.WellFormed
import Ballad.Reading.Line
import Ballad.Reading.Listing
import Ballad.Reading.Phrase
import Ballad.Reading.Poetic
import Ballad.Reading.Statement
import Ballad.Reading.Step
import Ballad.RuntimeError
import Ballad.Session
import Ballad.Span
import Ballad.Store
import Ballad.Table
import Ballad.Text.Blank
import Ballad.Text.Case
import Ballad.Text.CaseTable
import Ballad.Text.CharRange
import Ballad.Text.Graphic
import Ballad.Text.Letter
import Ballad.Text.Quoted
import Ballad.Value
import Ballad.Vocabulary
import Ballad.Proofs.Arrays.Edits
import Ballad.Proofs.Arrays.Histories
import Ballad.Proofs.ControlFlow
import Ballad.Proofs.Splicing
import Ballad.Proofs.BlockStructure
import Ballad.Proofs.Evaluation.Rules
import Ballad.Proofs.Evaluation.Lasting
import Ballad.Proofs.Frames
import Ballad.Proofs.Scoping
import Ballad.Proofs.Pronouns
import Ballad.Proofs.Atomicity
import Ballad.Proofs.Concatenation
import Ballad.Proofs.Simulation.Following
import Ballad.Proofs.Simulation.Rules
import Ballad.Proofs.Simulation.Sessions
import Ballad.Proofs.Ceiling
import Ballad.Proofs.Resetting
import Ballad.Proofs.Termination
import Ballad.Proofs.Places
import Ballad.Proofs.Entries
import Ballad.Proofs.InPlace
import Ballad.Proofs.Fragments
import Ballad.Proofs.Reading.Targets
import Ballad.Proofs.Verbatim
import Ballad.Proofs.Boundaries
import Ballad.Proofs.Wholeness
import Ballad.Proofs.PoeticNumbers
import Ballad.Proofs.Contractions
import Ballad.Proofs.Splitting
import Ballad.Proofs.Crossing
import Ballad.Proofs.Enumerations
import Ballad.Proofs.Pops
import Ballad.Proofs.Assignment
import Ballad.Proofs.Rounds
import Ballad.Proofs.Unfolding
import Ballad.Proofs.Lowercase
import Ballad.Proofs.NormalNames
import Ballad.Proofs.BoundNames
import Ballad.Proofs.Arrays.Draining
import Ballad.Proofs.Numerals.Scanning
import Ballad.Proofs.LineEndings
import Ballad.Proofs.TrailingLines
import Ballad.Proofs.Comments
import Ballad.Proofs.Quotations
import Ballad.Proofs.Printing
