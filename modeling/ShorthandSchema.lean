import ShorthandSchema.Binary64.Basic
import ShorthandSchema.Binary64.Round
import ShorthandSchema.Coercion
import ShorthandSchema.Compile
import ShorthandSchema.Complaint
import ShorthandSchema.Decimal.Basic
import ShorthandSchema.Decimal.Layout
import ShorthandSchema.Decimal.Shortest
import ShorthandSchema.Entries
import ShorthandSchema.Event
import ShorthandSchema.Failure
import ShorthandSchema.Group
import ShorthandSchema.Json.Basic
import ShorthandSchema.Json.Read
import ShorthandSchema.Json.Text
import ShorthandSchema.Kind
import ShorthandSchema.Message
import ShorthandSchema.Numeral.Basic
import ShorthandSchema.Numeral.Scan
import ShorthandSchema.OrderedMap
import ShorthandSchema.Path
import ShorthandSchema.Proofs.AskedValues
import ShorthandSchema.Proofs.Binary64.Exact
import ShorthandSchema.Proofs.Binary64.Nearest
import ShorthandSchema.Proofs.Binary64.Order
import ShorthandSchema.Proofs.Bounds
import ShorthandSchema.Proofs.Canonical
import ShorthandSchema.Proofs.Comparison
import ShorthandSchema.Proofs.Complaints
import ShorthandSchema.Proofs.Conformance
import ShorthandSchema.Proofs.Evaluation
import ShorthandSchema.Proofs.Faults
import ShorthandSchema.Proofs.FloatInputs
import ShorthandSchema.Proofs.Forms
import ShorthandSchema.Proofs.Groups
import ShorthandSchema.Proofs.History
import ShorthandSchema.Proofs.IntegerTexts
import ShorthandSchema.Proofs.Logged
import ShorthandSchema.Proofs.Loosened
import ShorthandSchema.Proofs.Matching
import ShorthandSchema.Proofs.Members
import ShorthandSchema.Proofs.Nested
import ShorthandSchema.Proofs.NumberForm
import ShorthandSchema.Proofs.Numeral.Grammar
import ShorthandSchema.Proofs.Numeral.Longest
import ShorthandSchema.Proofs.Numeral.Printed
import ShorthandSchema.Proofs.Numeral.Reading
import ShorthandSchema.Proofs.Presence
import ShorthandSchema.Proofs.PrintedNumbers
import ShorthandSchema.Proofs.Projection
import ShorthandSchema.Proofs.Pruned
import ShorthandSchema.Proofs.Reached
import ShorthandSchema.Proofs.Rearranged
import ShorthandSchema.Proofs.Registered
import ShorthandSchema.Proofs.Relocated
import ShorthandSchema.Proofs.Renamed
import ShorthandSchema.Proofs.Retry
import ShorthandSchema.Proofs.Reworded
import ShorthandSchema.Proofs.Routes
import ShorthandSchema.Proofs.Scalars
import ShorthandSchema.Proofs.Sequence
import ShorthandSchema.Proofs.TypeNames
import ShorthandSchema.Proofs.Visits
import ShorthandSchema.Proofs.WellFormed
import ShorthandSchema.Schema.Basic
import ShorthandSchema.Schema.Describe
import ShorthandSchema.Schema.Fault
import ShorthandSchema.Schema.Outline
import ShorthandSchema.Text.Blank
import ShorthandSchema.Text.Quoted
import ShorthandSchema.Traced
import ShorthandSchema.Validator.Basic
import ShorthandSchema.Validator.Rule
import ShorthandSchema.Vocabulary
