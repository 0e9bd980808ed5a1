import DocStore.Assoc
import DocStore.Bits.ArraySet
import DocStore.Bits.DocSet
import DocStore.Bits.Word
import DocStore.Build.Builder
import DocStore.Build.Document
import DocStore.Build.Error
import DocStore.Build.Indexing
import DocStore.Build.Sealed
import DocStore.Bytes
import DocStore.Database.Basic
import DocStore.Database.Composite
import DocStore.Database.Execution
import DocStore.Database.Snapshot
import DocStore.Decimal.Binary64
import DocStore.Decimal.Shortest
import DocStore.Dictionary.Basic
import DocStore.Dictionary.Flat
import DocStore.Dictionary.Layout
import DocStore.Dictionary.Node
import DocStore.Dictionary.StoredTrie
import DocStore.Dictionary.Trie
import DocStore.Dictionary.ValueSet
import DocStore.Digest.Sha256
import DocStore.Digest.Sink
import DocStore.Direction
import DocStore.Engine
import DocStore.Error
import DocStore.Fault
import DocStore.Folder
import DocStore.Format.Decoder
import DocStore.Format.Error
import DocStore.Format.File
import DocStore.Format.Payloads
import DocStore.Format.Segment
import DocStore.Format.SegmentKind
import DocStore.Index.Filter
import DocStore.Index.Sort
import DocStore.Index.ValueTest
import DocStore.Journal.Basic
import DocStore.Journal.Event
import DocStore.Journal.Line
import DocStore.Json.Numeral
import DocStore.Json.Parser
import DocStore.Json.Tree
import DocStore.Metrics
import DocStore.Path
import DocStore.Pool.Arena
import DocStore.Pool.Error
import DocStore.Pool.Scratch
import DocStore.Postings.Basic
import DocStore.Postings.BitForm
import DocStore.Postings.Builder
import DocStore.Postings.Encoding
import DocStore.Postings.ListForm
import DocStore.Proofs.Ascending
import DocStore.Proofs.Bits.Alike
import DocStore.Proofs.Bits.Members
import DocStore.Proofs.Bits.Operations
import DocStore.Proofs.Bits.Sets
import DocStore.Proofs.Bits.Words
import DocStore.Proofs.Build.Admission
import DocStore.Proofs.Build.Columns
import DocStore.Proofs.Build.Documents
import DocStore.Proofs.Build.Freezing
import DocStore.Proofs.Build.Grouping
import DocStore.Proofs.Build.Lengths
import DocStore.Proofs.Build.Parts
import DocStore.Proofs.Build.Pieces
import DocStore.Proofs.Build.Reordering
import DocStore.Proofs.Build.Sealing
import DocStore.Proofs.Build.Totality
import DocStore.Proofs.ByteOrder
import DocStore.Proofs.Database.Calls
import DocStore.Proofs.Database.Composite
import DocStore.Proofs.Database.Execution
import DocStore.Proofs.Database.History
import DocStore.Proofs.Database.Lossless
import DocStore.Proofs.Database.Metering
import DocStore.Proofs.Database.Opening
import DocStore.Proofs.Database.Queries
import DocStore.Proofs.Database.Quotas
import DocStore.Proofs.Database.Reopening
import DocStore.Proofs.Database.Restoring
import DocStore.Proofs.Database.Twins
import DocStore.Proofs.Decoders
import DocStore.Proofs.Delimiting
import DocStore.Proofs.Dictionary.Decoding
import DocStore.Proofs.Dictionary.Flat
import DocStore.Proofs.Dictionary.Forms
import DocStore.Proofs.Dictionary.Holding
import DocStore.Proofs.Digest.Recording
import DocStore.Proofs.Format.Canonical
import DocStore.Proofs.Format.Delimited
import DocStore.Proofs.Format.File
import DocStore.Proofs.Format.Grammar
import DocStore.Proofs.Format.Payloads
import DocStore.Proofs.Format.Regions
import DocStore.Proofs.Format.Seeds
import DocStore.Proofs.Format.Segments
import DocStore.Proofs.Format.Sorting
import DocStore.Proofs.Index.Coherence
import DocStore.Proofs.Index.Filter
import DocStore.Proofs.Index.Numbers
import DocStore.Proofs.Index.Ranks
import DocStore.Proofs.Index.Sort
import DocStore.Proofs.Index.Stored
import DocStore.Proofs.Journal.Lines
import DocStore.Proofs.Json.Texts
import DocStore.Proofs.Keyed
import DocStore.Proofs.OffsetTables
import DocStore.Proofs.Outcomes
import DocStore.Proofs.Pool.Balances
import DocStore.Proofs.Pool.Lenders
import DocStore.Proofs.Pool.Stock
import DocStore.Proofs.Postings.BitForm
import DocStore.Proofs.Postings.Choosing
import DocStore.Proofs.Postings.Collecting
import DocStore.Proofs.Postings.Decoding
import DocStore.Proofs.Postings.Interchange
import DocStore.Proofs.Postings.ListForm
import DocStore.Proofs.Postings.Listing
import DocStore.Proofs.Postings.Strays
import DocStore.Proofs.Query.Demand
import DocStore.Proofs.Query.Denoting
import DocStore.Proofs.Query.Effects
import DocStore.Proofs.Query.Emitting
import DocStore.Proofs.Query.Lending
import DocStore.Proofs.Query.Lockstep
import DocStore.Proofs.Query.Meaning
import DocStore.Proofs.Query.Ordering
import DocStore.Proofs.Query.Plans
import DocStore.Proofs.Query.Scripts
import DocStore.Proofs.Query.Selecting
import DocStore.Proofs.Query.Serving
import DocStore.Proofs.Tapes
import DocStore.Proofs.Trie.Decoding
import DocStore.Proofs.Trie.Layout
import DocStore.Proofs.Trie.Nodes
import DocStore.Proofs.Trie.Ranks
import DocStore.Proofs.Trie.Sorted
import DocStore.Proofs.Trie.Spelling
import DocStore.Proofs.Trie.Turns
import DocStore.Proofs.Value.Numbers
import DocStore.Proofs.Value.Order
import DocStore.Proofs.Views
import DocStore.Query.Basic
import DocStore.Query.Condition
import DocStore.Query.Emission
import DocStore.Query.Error
import DocStore.Query.Pager
import DocStore.Query.Running
import DocStore.Query.Selection
import DocStore.Query.Source
import DocStore.Settings.Basic
import DocStore.Settings.Error
import DocStore.Severity
import DocStore.Text.Hexadecimal
import DocStore.Text.Quoted
import DocStore.Text.Visible
import DocStore.Value.Basic
import DocStore.Value.Display
import DocStore.Value.OfJson
import DocStore.View
