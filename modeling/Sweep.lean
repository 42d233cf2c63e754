import Sweep.Aggregate.Lookups
import Sweep.Cancel.Handles
import Sweep.Dispatch.Work
import Sweep.Expression.Grammar
import Sweep.Expression.Semantics
import Sweep.Main
import Sweep.Pool.Gated
import Sweep.Tuples.Rows
import Sweep.Proofs.Lexemes
import Sweep.Proofs.Nesting
import Sweep.Proofs.Reading
import Sweep.Proofs.Parsing
import Sweep.Proofs.Numerals
import Sweep.Request.Naive
import Sweep.Proofs.Polling
import Sweep.Proofs.Folding
import Sweep.Proofs.Cancellation
import Sweep.Proofs.Enumeration
import Sweep.Proofs.Refinement
import Sweep.Proofs.Dispatching
import Sweep.Proofs.Deadlines
import Sweep.Proofs.Resolution
import Sweep.Proofs.Packing
import Sweep.Proofs.Rounding
import Sweep.Proofs.Decimals
import Sweep.Proofs.NotANumber
import Sweep.Proofs.Ascent
import Sweep.Proofs.Evaluation
import Sweep.Proofs.Averages
import Sweep.Proofs.Extremes
import Sweep.Proofs.Attainment
import Sweep.Proofs.Sizes
import Sweep.Proofs.Reordering
import Sweep.Proofs.Nearest
import Sweep.Proofs.Operations
import Sweep.Proofs.Arithmetic
import Sweep.Proofs.Wholes
import Sweep.Proofs.Precision
import Sweep.Proofs.Strides
import Sweep.Proofs.Lengths
import Sweep.Proofs.Generation
import Sweep.Proofs.Progression
import Sweep.Proofs.Printing
import Sweep.Proofs.RoundTrip
import Sweep.Proofs.Framing
import Sweep.Proofs.Decoding
import Sweep.Proofs.Separators
import Sweep.Proofs.Messages
import Sweep.Proofs.Calls
import Sweep.Proofs.Origins
import Sweep.Proofs.Progress
import Sweep.Proofs.Fields
import Sweep.Proofs.Privacy
import Sweep.Proofs.Conversation
import Sweep.Proofs.Sessions
import Sweep.Proofs.Handles
import Sweep.Proofs.Classification
import Sweep.Proofs.Unranking
import Sweep.Proofs.Recording
import Sweep.Proofs.Counting
import Sweep.Proofs.Quoting
import Sweep.Proofs.Settings
import Sweep.Proofs.Totals
import Sweep.Proofs.Viability
import Sweep.Proofs.Resumption
import Sweep.Proofs.Joining
import Sweep.Proofs.Declarations
import Sweep.Proofs.Binding
