import YarnPreview.Host.Calls
import YarnPreview.Proofs.Machine.Winner
import YarnPreview.Proofs.Snapshot.WellFormed
import YarnPreview.Proofs.Feed.Chunks
import YarnPreview.Proofs.Host.Boundary
import YarnPreview.Proofs.Plan.Units
import YarnPreview.Proofs.Value.Lookup
import YarnPreview.Proofs.Plan.Shapes
import YarnPreview.Proofs.Host.Agreement
import YarnPreview.Proofs.Bounds.RoundTrip
import YarnPreview.Proofs.Comparison.Order
import YarnPreview.Proofs.Feed.Locality
import YarnPreview.Proofs.Feed.Rereading
import YarnPreview.Proofs.Snapshot.Independence
import YarnPreview.Proofs.Host.FeedEdits
import YarnPreview.Proofs.Value.Readable
import YarnPreview.Proofs.Feed.Queries
import YarnPreview.Proofs.Plan.Entries
import YarnPreview.Proofs.Value.Padding
import YarnPreview.Proofs.Value.Marked
import YarnPreview.Proofs.Feed.Answers
import YarnPreview.Proofs.Feed.Sentences
import YarnPreview.Proofs.Bounds.Edits
import YarnPreview.Proofs.Comparison.Verdict
import YarnPreview.Proofs.Machine.Stable
import YarnPreview.Proofs.Bounds.Middle
import YarnPreview.Proofs.Feed.Construction
import YarnPreview.Proofs.FileSize.Shown
