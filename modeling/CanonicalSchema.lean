import CanonicalSchema.Event
import CanonicalSchema.Main
import CanonicalSchema.Schema.Builder
import CanonicalSchema.Storage.FileTree
import CanonicalSchema.Value.Freeze
import CanonicalSchema.DecimalNumber.Numeral
import CanonicalSchema.Proofs.CanonicalOrder
import CanonicalSchema.Proofs.WellFormed
import CanonicalSchema.Proofs.Construction
import CanonicalSchema.Proofs.Reordering
import CanonicalSchema.Proofs.Differences
import CanonicalSchema.Proofs.OrderIndependence
import CanonicalSchema.Proofs.Json.QuotedString
import CanonicalSchema.Proofs.Json.Numeral
import CanonicalSchema.Proofs.Json.Run
import CanonicalSchema.Proofs.Json.LayoutReading
import CanonicalSchema.Proofs.Json.LayoutLines
import CanonicalSchema.Proofs.StoredFiles
import CanonicalSchema.Proofs.NormalField
import CanonicalSchema.Proofs.NormalSchema
import CanonicalSchema.Proofs.WrittenSchema
import CanonicalSchema.Proofs.SnapshotRoundTrip
import CanonicalSchema.Proofs.Json.ReadTrees
import CanonicalSchema.Proofs.Json.DistinctLabels
import CanonicalSchema.Proofs.Comparison
import CanonicalSchema.Proofs.Json.CompactText
import CanonicalSchema.Proofs.Json.SortedMembers
import CanonicalSchema.Proofs.FingerprintIdentity
import CanonicalSchema.Proofs.StrictIndex
import CanonicalSchema.Proofs.FieldMap
import CanonicalSchema.Proofs.CanonicalView
import CanonicalSchema.Proofs.ConstructedSchema
import CanonicalSchema.Proofs.Json.TokenStart
import CanonicalSchema.Proofs.Json.StoppedReading
import CanonicalSchema.Proofs.Json.UnreadText
import CanonicalSchema.Proofs.Wording
import CanonicalSchema.Proofs.Refusal
import CanonicalSchema.Proofs.CharacterTexts
import CanonicalSchema.Proofs.Printing
import CanonicalSchema.Proofs.Reporting
import CanonicalSchema.Proofs.LastWrites
import CanonicalSchema.Proofs.ConstructionPaths
import CanonicalSchema.Proofs.Json.LayoutOrder
import CanonicalSchema.Proofs.SnapshotText
import CanonicalSchema.Proofs.Json.Reordered
import CanonicalSchema.Proofs.Json.Without
import CanonicalSchema.Proofs.MemberOrder
import CanonicalSchema.Proofs.NumberValue
import CanonicalSchema.Proofs.KeyEquality
import CanonicalSchema.Proofs.BuilderRun
import CanonicalSchema.Proofs.FailedCalls
import CanonicalSchema.Proofs.IndexStep
import CanonicalSchema.Proofs.Extraction
import CanonicalSchema.Proofs.Patch
import CanonicalSchema.Proofs.OrderChange
import CanonicalSchema.Proofs.FieldName
import CanonicalSchema.Proofs.StoredFields
import CanonicalSchema.Proofs.LeftOutDefaults
import CanonicalSchema.Proofs.FrozenValue
import CanonicalSchema.Proofs.Refreezing
import CanonicalSchema.Proofs.Narrowing
import CanonicalSchema.Proofs.FieldComparison
import CanonicalSchema.Proofs.IndexSpelling
import CanonicalSchema.Proofs.PrintedLines
import CanonicalSchema.Proofs.ShownSchema
import CanonicalSchema.Proofs.PrintedDifference
