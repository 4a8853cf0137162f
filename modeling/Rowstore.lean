import Rowstore.Identifier
import Rowstore.ColumnType
import Rowstore.Comparison
import Rowstore.AggregateFunction
import Rowstore.Error
import Rowstore.Outcome
import Rowstore.LittleEndian
import Rowstore.LittleEndian.Lemmas
import Rowstore.Bitmap
import Rowstore.Value
import Rowstore.Schema
import Rowstore.Tuple
import Rowstore.Page
import Rowstore.FileData
import Rowstore.Disk
import Rowstore.HeapFile
import Rowstore.Catalog
import Rowstore.Pool
import Rowstore.Store
import Rowstore.Mutation
import Rowstore.Scan
import Rowstore.Predicate
import Rowstore.Aggregator
import Rowstore.Engine
import Rowstore.Operator.Basic
import Rowstore.Operator.Pull
import Rowstore.Operator.Steps
import Rowstore.Demo
import Rowstore.Main
import Rowstore.Proofs.Codec.Cell
import Rowstore.Proofs.Codec.Row
import Rowstore.Proofs.Codec.PageImage
import Rowstore.Proofs.Page.Slots
import Rowstore.Proofs.Page.SlotMap
import Rowstore.Proofs.Pool.Lookup
import Rowstore.Proofs.File.Pages
import Rowstore.Proofs.File.Places
import Rowstore.Proofs.File.Renumbering
import Rowstore.Proofs.Store.View
import Rowstore.Proofs.Store.Sound
import Rowstore.Proofs.Store.Paging
import Rowstore.Proofs.Store.Altering
import Rowstore.Proofs.Store.Mutation
import Rowstore.Proofs.Store.Scans
import Rowstore.Proofs.Run.Action
import Rowstore.Proofs.Run.Record
import Rowstore.Proofs.Run.Rows
import Rowstore.Proofs.Run.Transparency
import Rowstore.Proofs.Run.Durability
import Rowstore.Proofs.Run.Rollback
import Rowstore.Proofs.Run.Reopening
import Rowstore.Proofs.Run.Settlement
import Rowstore.Proofs.Run.Removal
import Rowstore.Proofs.Run.Staleness
import Rowstore.Proofs.Codec.Significant
import Rowstore.Proofs.Page.RoundTrip
import Rowstore.Proofs.Query.Ending
import Rowstore.Proofs.Query.Answer
import Rowstore.Proofs.Query.Draining
import Rowstore.Proofs.Query.Strategies
import Rowstore.Proofs.Query.Mirroring
import Rowstore.Proofs.Pool.Cache
import Rowstore.Proofs.Pool.Containers
import Rowstore.Proofs.Run.Caching
import Rowstore.Proofs.Query.Replaying
import Rowstore.Proofs.Run.Holding
import Rowstore.Proofs.Run.Scanning
import Rowstore.Proofs.Query.GroupTable
import Rowstore.Proofs.Query.Grouping
import Rowstore.Proofs.Query.Tallies
import Rowstore.Proofs.Query.Merging
import Rowstore.Proofs.Store.Failing
import Rowstore.Proofs.Run.FirstFit
import Rowstore.Proofs.Query.Moving
import Rowstore.Proofs.Query.Asking
import Rowstore.Proofs.Store.Keeping
import Rowstore.Proofs.Store.Writable
import Rowstore.Proofs.Store.Completion
import Rowstore.Proofs.Store.Typing
import Rowstore.Proofs.Query.Typing
import Rowstore.Proofs.Query.Feed
import Rowstore.Proofs.Query.Prospect
import Rowstore.Proofs.Query.Obeying
import Rowstore.Proofs.Query.Recovering
import Rowstore.Proofs.Query.Restarting
import Rowstore.Proofs.Run.Skipping
import Rowstore.Proofs.Store.Searching
import Rowstore.Proofs.Query.Exhausting
import Rowstore.Proofs.Run.Copying
import Rowstore.Proofs.Query.Copying
import Rowstore.Proofs.Run.Thinning
import Rowstore.Proofs.Query.Deleting
import Rowstore.Proofs.Run.Easing
import Rowstore.Proofs.Run.Beside
import Rowstore.Proofs.Query.Lending
import Rowstore.Proofs.Query.Sparing
import Rowstore.Proofs.Query.Widths
import Rowstore.Proofs.Query.Filling
import Rowstore.Proofs.Query.Refilling
import Rowstore.Proofs.Query.Overflow
import Rowstore.Proofs.Codec.Reader
import Rowstore.Proofs.Codec.Acceptance
import Rowstore.Proofs.Codec.Stream
import Rowstore.Proofs.Page.Layout
import Rowstore.Proofs.Catalog.Registry
import Rowstore.Proofs.File.Touches
import Rowstore.Proofs.Run.Confinement
