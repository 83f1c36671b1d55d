import RecordSource.Main
import RecordSource.Lookup.Sharing
import RecordSource.Proofs.Filter.Acceptance
import RecordSource.Proofs.Filter.Layout
import RecordSource.Proofs.Filter.WellFormed
import RecordSource.Proofs.Filter.Evaluation
import RecordSource.Proofs.Field.Meaning
import RecordSource.Proofs.Field.Lawful
import RecordSource.Proofs.Filter.Compilation
import RecordSource.Proofs.Paging.Conversation
import RecordSource.Proofs.Paging.Serving
import RecordSource.Proofs.Paging.HonestServer
import RecordSource.Proofs.Field.Now
import RecordSource.Proofs.Filter.RoundTrip
import RecordSource.Proofs.Field.Settled
import RecordSource.Proofs.Filter.FixedPoint
import RecordSource.Proofs.Lookup.Steps
import RecordSource.Proofs.Lookup.SingleFlight
import RecordSource.Proofs.Lookup.LateFailure
import RecordSource.Proofs.Paging.Calls
import RecordSource.Proofs.Paging.Offsets
import RecordSource.Proofs.Query.Answers
import RecordSource.Proofs.Filter.Refusal
import RecordSource.Proofs.Lookup.Obtaining
import RecordSource.Proofs.Paging.Replies
import RecordSource.Proofs.Query.Failures
import RecordSource.Proofs.Command.Flags
import RecordSource.Proofs.Command.Preview
import RecordSource.Proofs.Filter.Written
import RecordSource.Proofs.Template.Parts
import RecordSource.Proofs.Filter.Filling
import RecordSource.Proofs.Filter.Spoiling
import RecordSource.Proofs.Paging.Pacing
import RecordSource.Proofs.Filter.Viable
import RecordSource.Proofs.Filter.Negation
import RecordSource.Proofs.Filter.Indexer
import RecordSource.Proofs.Field.Property
import RecordSource.Proofs.Field.PropertyCalls
import RecordSource.Proofs.Filter.Identifier
import RecordSource.Proofs.Filter.Tiling
import RecordSource.Proofs.Field.Product
import RecordSource.Proofs.Lookup.Eviction
import RecordSource.Proofs.Paging.ShortPage
import RecordSource.Proofs.Filter.Verbatim
import RecordSource.Proofs.Http.Retrying
import RecordSource.Proofs.Query.Decoration
import RecordSource.Proofs.Template.OnePass
import RecordSource.Proofs.Transport.ReadBack
import RecordSource.Proofs.Time.Instants
