import DiceNotation.Dice.Command
import DiceNotation.Dice.Comparator
import DiceNotation.Dice.Counting
import DiceNotation.Dice.Kind
import DiceNotation.Dice.Outcome
import DiceNotation.Dice.Selection
import DiceNotation.Evaluation.Modifiers
import DiceNotation.Evaluation.Context
import DiceNotation.Evaluation.Draw
import DiceNotation.Evaluation.Step
import DiceNotation.Evaluation.Run
import DiceNotation.Fault
import DiceNotation.Formula.Clause
import DiceNotation.Formula.Function
import DiceNotation.Formula.Lexeme
import DiceNotation.Formula.Operator
import DiceNotation.Formula.Reference
import DiceNotation.Formula.Scanner
import DiceNotation.Formula.Stacks
import DiceNotation.Formula.Tree
import DiceNotation.Fulfillment.Method
import DiceNotation.Fulfillment.Resolver
import DiceNotation.Fulfillment.Schedule
import DiceNotation.Journal
import DiceNotation.Json.Access
import DiceNotation.Json.Amount
import DiceNotation.Json.Reader
import DiceNotation.Json.Value
import DiceNotation.Json.Writer
import DiceNotation.Number.Arithmetic
import DiceNotation.Number.Basic
import DiceNotation.Number.Text
import DiceNotation.Roll.Basic
import DiceNotation.Roll.Build
import DiceNotation.Roll.Record
import DiceNotation.Roll.Derived
import DiceNotation.Roll.Explanation
import DiceNotation.Roll.Ledger
import DiceNotation.Roll.Parts
import DiceNotation.Roll.Total
import DiceNotation.Roll.Restore
import DiceNotation.Roll.Walk
import DiceNotation.Service
import DiceNotation.Settings
import DiceNotation.Text.Classes
import DiceNotation.Text.Find
import DiceNotation.Text.Identifier
import DiceNotation.Text.Letter
import DiceNotation.Text.Lines
import DiceNotation.Text.LowerCase
import DiceNotation.Text.Quoted
import DiceNotation.Proofs.Formula.Lexemes
import DiceNotation.Proofs.Formula.Reading
import DiceNotation.Proofs.Formula.Rows
import DiceNotation.Proofs.Number.Negation
import DiceNotation.Proofs.Formula.Arithmetic
import DiceNotation.Proofs.Formula.ArithmeticScan
import DiceNotation.Proofs.Formula.References
import DiceNotation.Proofs.Roll.Building
import DiceNotation.Proofs.Roll.Layout
import DiceNotation.Proofs.Roll.Throughout
import DiceNotation.Proofs.Roll.Built
import DiceNotation.Proofs.Evaluation.Frame
import DiceNotation.Proofs.Formula.Polynomials
import DiceNotation.Proofs.Formula.Totals
import DiceNotation.Proofs.Roll.TermRows
import DiceNotation.Proofs.Evaluation.Arithmetic
import DiceNotation.Proofs.Roll.Formulas
import DiceNotation.Proofs.Evaluation.WrittenArithmetic
import DiceNotation.Proofs.Evaluation.Opposites
import DiceNotation.Proofs.Roll.Renumbering
import DiceNotation.Proofs.Roll.Copies
import DiceNotation.Proofs.Roll.Restorable
import DiceNotation.Proofs.Roll.Restoring
import DiceNotation.Proofs.Evaluation.Settled
import DiceNotation.Proofs.Roll.Made
import DiceNotation.Proofs.Roll.Rebuilding
import DiceNotation.Proofs.Evaluation.Attempts
import DiceNotation.Proofs.Evaluation.Handling
import DiceNotation.Proofs.Evaluation.RoundTrip
import DiceNotation.Proofs.Dice.Commands
import DiceNotation.Proofs.Formula.Canonical
import DiceNotation.Proofs.Number.Decimals
import DiceNotation.Proofs.Formula.Legible
import DiceNotation.Proofs.Formula.ReadingClauses
import DiceNotation.Proofs.Formula.Readable
import DiceNotation.Proofs.Formula.Rereading
import DiceNotation.Proofs.Fulfillment.Requests
import DiceNotation.Proofs.Fulfillment.Handing
import DiceNotation.Proofs.Fulfillment.Calls
import DiceNotation.Proofs.Fulfillment.FirstPass
import DiceNotation.Proofs.Fulfillment.Asking
import DiceNotation.Proofs.Fulfillment.Ranged
import DiceNotation.Proofs.Fulfillment.Schedules
import DiceNotation.Proofs.Fulfillment.Matching
import DiceNotation.Proofs.Evaluation.Rolling
import DiceNotation.Proofs.Evaluation.Touched
import DiceNotation.Proofs.Roll.Ranges
import DiceNotation.Proofs.Roll.Written
import DiceNotation.Proofs.Roll.Ledgers
import DiceNotation.Proofs.Text.Boundary
import DiceNotation.Proofs.Formula.RereadingRows
import DiceNotation.Proofs.Roll.Distinct
import DiceNotation.Proofs.Fulfillment.Runs
import DiceNotation.Proofs.Fulfillment.Single
import DiceNotation.Proofs.Fulfillment.Sharing
import DiceNotation.Proofs.Fulfillment.Conserving
import DiceNotation.Proofs.Fulfillment.Course
import DiceNotation.Proofs.Fulfillment.Prepared
import DiceNotation.Proofs.Fulfillment.Replays
import DiceNotation.Proofs.Fulfillment.ReplayedDraws
import DiceNotation.Proofs.Fulfillment.ReplayedDice
import DiceNotation.Proofs.Fulfillment.ReplayedRolls
import DiceNotation.Proofs.Fulfillment.Refinement
import DiceNotation.Proofs.Evaluation.Acts
import DiceNotation.Proofs.Evaluation.Acting
import DiceNotation.Proofs.Dice.Records
import DiceNotation.Proofs.Fulfillment.Boards
import DiceNotation.Proofs.Fulfillment.Turns
import DiceNotation.Proofs.Fulfillment.Standing
import DiceNotation.Proofs.Fulfillment.Early
import DiceNotation.Proofs.Fulfillment.Recording
import DiceNotation.Proofs.Fulfillment.Finality
import DiceNotation.Proofs.Number.Shares
import DiceNotation.Proofs.Fulfillment.Bookkeeping
import DiceNotation.Proofs.Fulfillment.Results
import DiceNotation.Proofs.Fulfillment.Loads
import DiceNotation.Proofs.Fulfillment.Room
import DiceNotation.Proofs.Fulfillment.Quotas
import DiceNotation.Proofs.Fulfillment.Sparing
import DiceNotation.Proofs.Dice.Refusals
import DiceNotation.Proofs.Evaluation.Chances
import DiceNotation.Proofs.Evaluation.Foretelling
import DiceNotation.Proofs.Evaluation.Bonds
import DiceNotation.Proofs.Evaluation.Chanceless
import DiceNotation.Proofs.Evaluation.DrawnRolls
import DiceNotation.Proofs.Evaluation.Synchrony
import DiceNotation.Proofs.Service.Forecasts
import DiceNotation.Proofs.Evaluation.ShownResults
import DiceNotation.Proofs.Evaluation.SubstitutedArithmetic
import DiceNotation.Proofs.Roll.TextData
import DiceNotation.Proofs.Formula.Grouping
import DiceNotation.Proofs.Evaluation.Coherence
import DiceNotation.Proofs.Evaluation.Unaided
import DiceNotation.Proofs.Evaluation.Sifting
import DiceNotation.Proofs.Evaluation.Bounds
import DiceNotation.Proofs.Evaluation.Advancing
import DiceNotation.Proofs.Roll.Deriving
import DiceNotation.Proofs.Evaluation.Lifecycle
import DiceNotation.Proofs.Formula.Shunting
import DiceNotation.Proofs.Roll.Acceptance
import DiceNotation.Proofs.Roll.PlainTotals
import DiceNotation.Proofs.Evaluation.Chains
import DiceNotation.Proofs.Number.Amounts
import DiceNotation.Proofs.Dice.Selections
import DiceNotation.Proofs.Dice.SelectionLaws
import DiceNotation.Proofs.Dice.Fragments
import DiceNotation.Proofs.Evaluation.Leniency
import DiceNotation.Proofs.Dice.Scores
import DiceNotation.Proofs.Evaluation.Counts
import DiceNotation.Proofs.Formula.Nesting
import DiceNotation.Proofs.Formula.Coverage
import DiceNotation.Proofs.Number.WholeReals
import DiceNotation.Proofs.Evaluation.Twins
import DiceNotation.Proofs.Formula.Levels
import DiceNotation.Proofs.Formula.ScaledTexts
import DiceNotation.Proofs.Formula.DiceMarks
import DiceNotation.Proofs.Roll.AlteredNumbers
import DiceNotation.Proofs.Roll.AlteredMethods
import DiceNotation.Proofs.Roll.Visiting
import DiceNotation.Proofs.Fulfillment.Waiting
import DiceNotation.Proofs.Evaluation.Scaling
import DiceNotation.Proofs.Number.Rounding
import DiceNotation.Proofs.Roll.EqualShares
