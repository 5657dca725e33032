import Mixfix.CommandLine
import Mixfix.Main
import Mixfix.Proofs.Descriptor.CanonicalUnion
import Mixfix.Proofs.Descriptor.Rereading
import Mixfix.Proofs.Descriptor.Shapes
import Mixfix.Proofs.Descriptor.Subsumption
import Mixfix.Proofs.Evaluation.Locations
import Mixfix.Proofs.Evaluation.Preconditions
import Mixfix.Proofs.Evaluation.Relevance
import Mixfix.Proofs.Grammar.Rearrangement
import Mixfix.Proofs.Grammar.Registry
import Mixfix.Proofs.Json.Conversion
import Mixfix.Proofs.Parse.Commitment
import Mixfix.Proofs.Parse.Conformance
import Mixfix.Proofs.Parse.Depths
import Mixfix.Proofs.Parse.Limits
import Mixfix.Proofs.Parse.LongestToken
import Mixfix.Proofs.Parse.Offsets
import Mixfix.Proofs.Parse.ResultTypes
import Mixfix.Proofs.Parse.Spans
import Mixfix.Proofs.Parse.Termination
import Mixfix.Proofs.Schema.Violations
import Mixfix.Proofs.Standard.Comparing
import Mixfix.Proofs.Standard.Extension
import Mixfix.Proofs.Standard.Grouping
import Mixfix.Proofs.Standard.InlinedValues
import Mixfix.Proofs.Standard.Integers
import Mixfix.Proofs.Standard.Neutral
import Mixfix.Proofs.Standard.OwnText
import Mixfix.Proofs.Standard.Progress
import Mixfix.Proofs.Standard.Respacing
import Mixfix.Proofs.Standard.RoundTrip
import Mixfix.Proofs.Standard.Soundness
import Mixfix.Proofs.Standard.Unbalanced
import Mixfix.Proofs.Standard.Weakening
import Mixfix.Proofs.Text.Carets
import Mixfix.Proofs.Text.LongestNumber
import Mixfix.Proofs.Text.Quotations
