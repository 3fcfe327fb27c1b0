import Criteria.Main
import Criteria.Proofs.Agreement
import Criteria.Proofs.Checked.Report
import Criteria.Proofs.ErrorKinds
import Criteria.Proofs.Hiding
import Criteria.Proofs.Language.Acceptance
import Criteria.Proofs.Language.Addressing
import Criteria.Proofs.Language.Depth
import Criteria.Proofs.Language.Faults
import Criteria.Proofs.Language.Grouping
import Criteria.Proofs.Language.Guards
import Criteria.Proofs.Language.Layout
import Criteria.Proofs.Language.LeafTokens
import Criteria.Proofs.Language.Openings
import Criteria.Proofs.Language.ReadBack
import Criteria.Proofs.Language.Slices
import Criteria.Proofs.Language.Tiling
import Criteria.Proofs.Limits
import Criteria.Proofs.Meaning
import Criteria.Proofs.Nodes
import Criteria.Proofs.Numerals
import Criteria.Proofs.Operators.Dispatch
import Criteria.Proofs.Operators.Repetition
import Criteria.Proofs.Report.OneLine
import Criteria.Proofs.Report.Spans
import Criteria.Proofs.Report.Underlines
import Criteria.Proofs.RoundTrip
import Criteria.Proofs.Schema.Declarations
import Criteria.Proofs.Schema.Loading
import Criteria.Proofs.Schema.Lookups
import Criteria.Proofs.Schema.Offers
import Criteria.Proofs.Schema.ReadBack
import Criteria.Proofs.Schema.Walks
import Criteria.Proofs.Soundness
import Criteria.Proofs.Structural.Depth
import Criteria.Proofs.Structural.EmptyNodes
import Criteria.Proofs.Structural.Errors
import Criteria.Proofs.Structural.Faults
import Criteria.Proofs.Structural.Ordering
import Criteria.Proofs.Structural.Reordering
import Criteria.Structural.OrderBy
