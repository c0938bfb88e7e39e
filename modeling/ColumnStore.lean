import ColumnStore.Bytes.Basic
import ColumnStore.Bytes.Crc32
import ColumnStore.Bytes.Varint
import ColumnStore.Bytes.ZigZag
import ColumnStore.Column.Collector
import ColumnStore.Column.Cursor
import ColumnStore.Column.Dictionary
import ColumnStore.Column.Distinct
import ColumnStore.Column.Entry
import ColumnStore.Column.Handle
import ColumnStore.Column.Lookup
import ColumnStore.Column.Plan
import ColumnStore.Column.Reader
import ColumnStore.Column.Share
import ColumnStore.Column.Source
import ColumnStore.Column.Stats
import ColumnStore.Column.Stream
import ColumnStore.Column.StringTable
import ColumnStore.Decimal.Shortest
import ColumnStore.Decimal.Text
import ColumnStore.Error.Basic
import ColumnStore.Error.Message
import ColumnStore.Json.Number
import ColumnStore.Json.Text
import ColumnStore.Json.Token
import ColumnStore.Json.Tree
import ColumnStore.Json.Value
import ColumnStore.Layout
import ColumnStore.Main
import ColumnStore.Packing.Bits
import ColumnStore.Packing.Delta
import ColumnStore.Packing.FixedWidth
import ColumnStore.Packing.Monotone
import ColumnStore.Proofs.Bytes.Burst
import ColumnStore.Proofs.Bytes.Order
import ColumnStore.Proofs.Bytes.Values
import ColumnStore.Proofs.Bytes.Varint
import ColumnStore.Proofs.Column.Answers
import ColumnStore.Proofs.Column.Choice
import ColumnStore.Proofs.Column.Collector
import ColumnStore.Proofs.Column.Cursor
import ColumnStore.Proofs.Column.Decoding
import ColumnStore.Proofs.Column.Dictionary
import ColumnStore.Proofs.Column.Distinct
import ColumnStore.Proofs.Column.Grammar
import ColumnStore.Proofs.Column.Handle
import ColumnStore.Proofs.Column.Lookup
import ColumnStore.Proofs.Column.Merge
import ColumnStore.Proofs.Column.Numbers
import ColumnStore.Proofs.Column.Ordinals
import ColumnStore.Proofs.Column.Parsing
import ColumnStore.Proofs.Column.Plan
import ColumnStore.Proofs.Column.Recording
import ColumnStore.Proofs.Column.Safety
import ColumnStore.Proofs.Column.Share
import ColumnStore.Proofs.Column.Sizes
import ColumnStore.Proofs.Column.Sorted
import ColumnStore.Proofs.Column.Sparse
import ColumnStore.Proofs.Column.Stats
import ColumnStore.Proofs.Column.StringTable
import ColumnStore.Proofs.Column.Strings
import ColumnStore.Proofs.Packing.Bits
import ColumnStore.Proofs.Packing.Blocks
import ColumnStore.Proofs.Packing.Delta
import ColumnStore.Proofs.Packing.Digits
import ColumnStore.Proofs.Packing.FixedWidth
import ColumnStore.Proofs.Packing.Monotone
import ColumnStore.Proofs.Packing.RoundTrip
import ColumnStore.Proofs.Packing.Safety
import ColumnStore.Proofs.Search
import ColumnStore.Proofs.Segment.Answers
import ColumnStore.Proofs.Segment.Builder
import ColumnStore.Proofs.Segment.Collecting
import ColumnStore.Proofs.Segment.Columns
import ColumnStore.Proofs.Segment.Damage
import ColumnStore.Proofs.Segment.Entries
import ColumnStore.Proofs.Segment.Files
import ColumnStore.Proofs.Segment.Flush
import ColumnStore.Proofs.Segment.Framing
import ColumnStore.Proofs.Segment.Header
import ColumnStore.Proofs.Segment.Merging
import ColumnStore.Proofs.Segment.Opening
import ColumnStore.Proofs.Segment.Placement
import ColumnStore.Proofs.Segment.Progress
import ColumnStore.Proofs.Segment.Publication
import ColumnStore.Proofs.Segment.Reports
import ColumnStore.Proofs.Segment.RoundTrip
import ColumnStore.Proofs.Segment.Safety
import ColumnStore.Proofs.Segment.Single
import ColumnStore.Proofs.Segment.Sorted
import ColumnStore.Proofs.Segment.Strings
import ColumnStore.Proofs.Segment.Writer
import ColumnStore.Proofs.Storage.Accounting
import ColumnStore.Proofs.Storage.Checked
import ColumnStore.Proofs.Storage.Cursor
import ColumnStore.Proofs.Storage.Directory
import ColumnStore.Proofs.Storage.Grammar
import ColumnStore.Proofs.Storage.Items
import ColumnStore.Proofs.Storage.Listing
import ColumnStore.Proofs.Storage.Output
import ColumnStore.Proofs.Storage.Reachable
import ColumnStore.Proofs.Storage.Reading
import ColumnStore.Proofs.Storage.Refusal
import ColumnStore.Proofs.Storage.Spelling
import ColumnStore.Proofs.Storage.Streaming
import ColumnStore.Proofs.Storage.Varint
import ColumnStore.Proofs.Storage.Walks
import ColumnStore.Proofs.Text.Hex
import ColumnStore.Proofs.Text.Utf8
import ColumnStore.Schema.Basic
import ColumnStore.Schema.Text
import ColumnStore.Search
import ColumnStore.Segment.Basic
import ColumnStore.Segment.Builder
import ColumnStore.Segment.Framing
import ColumnStore.Segment.Id
import ColumnStore.Segment.Info
import ColumnStore.Segment.Naming
import ColumnStore.Segment.Reader
import ColumnStore.Segment.Writer
import ColumnStore.Storage.Directory
import ColumnStore.Storage.Faults
import ColumnStore.Storage.Input
import ColumnStore.Storage.Output
import ColumnStore.Storage.Path
import ColumnStore.Storage.Sink
import ColumnStore.Strict
import ColumnStore.Text.Blank
import ColumnStore.Text.Hex
import ColumnStore.Text.Hidden
import ColumnStore.Text.Quoted
import ColumnStore.Text.Utf8
import ColumnStore.Tool.Arguments
import ColumnStore.Tool.Documents
import ColumnStore.Tool.Failure
import ColumnStore.Tool.Report
import ColumnStore.Tool.Run
