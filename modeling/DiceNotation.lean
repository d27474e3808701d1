import DiceNotation.Application
import DiceNotation.Context
import DiceNotation.Decimal.Binary64
import DiceNotation.Decimal.Layout
import DiceNotation.Decimal.Literal
import DiceNotation.Decimal.Shortest
import DiceNotation.Die.Basic
import DiceNotation.Die.Faces
import DiceNotation.Expr.Basic
import DiceNotation.Expr.Evaluation
import DiceNotation.Expr.Reading
import DiceNotation.Expr.Written
import DiceNotation.Formula
import DiceNotation.Main
import DiceNotation.Mode
import DiceNotation.Number.Arithmetic
import DiceNotation.Number.Basic
import DiceNotation.Number.Remainder
import DiceNotation.Number.Sorting
import DiceNotation.Number.Text
import DiceNotation.Operator.Basic
import DiceNotation.Operator.Name
import DiceNotation.Proofs.Climbing.Basic
import DiceNotation.Proofs.Climbing.Bindings
import DiceNotation.Proofs.Climbing.Exchange
import DiceNotation.Proofs.Climbing.Written
import DiceNotation.Proofs.Decimal.FewestDigits
import DiceNotation.Proofs.Decimal.Nearest
import DiceNotation.Proofs.Decimal.Texts
import DiceNotation.Proofs.Evaluation.Accounts
import DiceNotation.Proofs.Evaluation.Alike
import DiceNotation.Proofs.Evaluation.Budget
import DiceNotation.Proofs.Evaluation.Cases
import DiceNotation.Proofs.Evaluation.Draws
import DiceNotation.Proofs.Evaluation.Extremes
import DiceNotation.Proofs.Evaluation.Integers
import DiceNotation.Proofs.Evaluation.Naturals
import DiceNotation.Proofs.Evaluation.Totals
import DiceNotation.Proofs.Expr.Subtrees
import DiceNotation.Proofs.Formula.Joining
import DiceNotation.Proofs.Formula.RoundTrip
import DiceNotation.Proofs.Grammar.Acceptance
import DiceNotation.Proofs.Grammar.Groups
import DiceNotation.Proofs.Grammar.Matching
import DiceNotation.Proofs.Grammar.Parentheses
import DiceNotation.Proofs.Grammar.Phrases
import DiceNotation.Proofs.Grammar.Redundancy
import DiceNotation.Proofs.Memory.Interrupted
import DiceNotation.Proofs.Memory.Reachable
import DiceNotation.Proofs.Memory.Settled
import DiceNotation.Proofs.Mode.Luck
import DiceNotation.Proofs.Mode.Maximum
import DiceNotation.Proofs.Mode.Raising
import DiceNotation.Proofs.Mode.Rewriting
import DiceNotation.Proofs.Number.Floats
import DiceNotation.Proofs.Number.Moduli
import DiceNotation.Proofs.Number.Ordinals
import DiceNotation.Proofs.Number.Powers
import DiceNotation.Proofs.Number.Rounding
import DiceNotation.Proofs.Number.Sums
import DiceNotation.Proofs.Number.TotalOrder
import DiceNotation.Proofs.Number.Totals
import DiceNotation.Proofs.Operator.Applications
import DiceNotation.Proofs.Operator.Binding
import DiceNotation.Proofs.Operator.Ordered
import DiceNotation.Proofs.Operator.Refusals
import DiceNotation.Proofs.Reader.Climbing
import DiceNotation.Proofs.Reader.Culprits
import DiceNotation.Proofs.Reader.Frames
import DiceNotation.Proofs.Reader.Signs
import DiceNotation.Proofs.Reader.Stacks
import DiceNotation.Proofs.Reader.Supply
import DiceNotation.Proofs.Report.Agreement
import DiceNotation.Proofs.Report.Breakdown
import DiceNotation.Proofs.Report.Equations
import DiceNotation.Proofs.Report.Outline
import DiceNotation.Proofs.Report.Regrouping
import DiceNotation.Proofs.Report.Sums
import DiceNotation.Proofs.Roll.Ascending
import DiceNotation.Proofs.Roll.Ceiling
import DiceNotation.Proofs.Roll.Conservation
import DiceNotation.Proofs.Roll.Escape
import DiceNotation.Proofs.Roll.Naturals
import DiceNotation.Proofs.Roll.Replacing
import DiceNotation.Proofs.Rollable.Modifiers
import DiceNotation.Proofs.Rolling.Alike
import DiceNotation.Proofs.Rolling.Budget
import DiceNotation.Proofs.Rolling.DrawOrder
import DiceNotation.Proofs.Rolling.Fair
import DiceNotation.Proofs.Rolling.Recording
import DiceNotation.Proofs.Rolling.Redraws
import DiceNotation.Proofs.Rolling.Requests
import DiceNotation.Proofs.Rolling.Rerolls
import DiceNotation.Proofs.Rolling.Sequences
import DiceNotation.Proofs.Rolling.Stopping
import DiceNotation.Proofs.Session.Answers
import DiceNotation.Proofs.Token.Apart
import DiceNotation.Proofs.Token.Boundaries
import DiceNotation.Proofs.Token.FaceLists
import DiceNotation.Proofs.Token.Literals
import DiceNotation.Proofs.Token.Scanning
import DiceNotation.Proofs.Token.Written
import DiceNotation.Report
import DiceNotation.Roll.Basic
import DiceNotation.Roll.Reroll
import DiceNotation.Roll.Rework
import DiceNotation.RollError
import DiceNotation.Rollable
import DiceNotation.Roller
import DiceNotation.Session
import DiceNotation.Sorting.Merging
import DiceNotation.Sorting.Runs
import DiceNotation.Sorting.Short
import DiceNotation.Sorting.Stable
import DiceNotation.Text.Blank
import DiceNotation.Text.GraphemeExtend
import DiceNotation.Text.Quoted
import DiceNotation.Text.Unprintable
import DiceNotation.Token.Basic
import DiceNotation.Token.Lexeme
import DiceNotation.Token.ParseError
import DiceNotation.Token.Reading
import DiceNotation.Value
