import EspSqlite.Foundation.BitMemory
import EspSqlite.Foundation.Loop
import EspSqlite.Foundation.CallRun
import EspSqlite.Shox96.Tables
import EspSqlite.Shox96.BitWriter
import EspSqlite.Shox96.BitReader
import EspSqlite.Shox96.Appending
import EspSqlite.Shox96.Matcher
import EspSqlite.Shox96.Compress
import EspSqlite.Shox96.Decompress
import EspSqlite.Shox96.Symbols
import EspSqlite.Shox96.Plan
import EspSqlite.Shox96.Decode
import EspSqlite.Shox96.Output
import EspSqlite.Shox96.Lockstep
import EspSqlite.Shox96.RoundTrip
import EspSqlite.Shox96.Cost
import EspSqlite.Shox96.Reads
import EspSqlite.Shox96.References
import EspSqlite.Shox96.LiteralCost
import EspSqlite.Shox96.TextBits
import EspSqlite.Sql.Varint
import EspSqlite.Sql.Functions
import EspSqlite.Sql.Framing
import EspSqlite.Foundation.HeapList
import EspSqlite.Foundation.SortedMap
import EspSqlite.Foundation.Chunks
import EspSqlite.Foundation.ByteStore
import EspSqlite.Journal.Cache
import EspSqlite.Journal.Blocks
import EspSqlite.Journal.Refine
import EspSqlite.Journal.ChunkLoops
import EspSqlite.Journal.Frame
import EspSqlite.Journal.MemFile
import EspSqlite.Journal.Dropped
import EspSqlite.Journal.LastWriter
import EspSqlite.Journal.Overread
import EspSqlite.Journal.Holes
import EspSqlite.Journal.Aliasing
import EspSqlite.Journal.Allocation
import EspSqlite.Journal.Methods
import EspSqlite.Journal.OutOfMemory
import EspSqlite.Journal.Size
import EspSqlite.Vfs.Backends
import EspSqlite.Vfs.Database
import EspSqlite.Vfs.ReadBack
import EspSqlite.Vfs.Seeking
import EspSqlite.Vfs.FullPathname
import EspSqlite.Vfs.ReadErrors
import EspSqlite.Vfs.ShortReads
import EspSqlite.Vfs.LargeOffsets
import EspSqlite.Vfs.Resolution
import EspSqlite.Foundation.Trace
import EspSqlite.Foundation.Program
import EspSqlite.Vfs.Handles
import EspSqlite.Vfs.Isolation
import EspSqlite.Vfs.Opening
import EspSqlite.Rollback.Files
import EspSqlite.Rollback.Journal
import EspSqlite.Rollback.Playback
import EspSqlite.Journal.Sparse
import EspSqlite.Rollback.Records
import EspSqlite.Rollback.Writing
import EspSqlite.Rollback.Replay
import EspSqlite.Rollback.Restore
import EspSqlite.Rollback.Layout
import EspSqlite.Rollback.Transaction
import EspSqlite.Rollback.Sectors
import EspSqlite.Rollback.Recorded
import EspSqlite.Rollback.Progress
import EspSqlite.Rollback.Calls
import EspSqlite.Rollback.Room
import EspSqlite.Rollback.Atomicity
import EspSqlite.Rollback.Esp8266
import EspSqlite.Rollback.Dense
import EspSqlite.Rollback.Logged
import EspSqlite.Rollback.Exact
import EspSqlite.Foundation.Probing
import EspSqlite.Rollback.Bitvec
import EspSqlite.Rollback.Membership
import EspSqlite.Rollback.Journalled
import EspSqlite.Foundation.DoublyLinked
import EspSqlite.Foundation.BucketSort
import EspSqlite.Pages.Pcache
import EspSqlite.Pages.Lru
import EspSqlite.Pages.Invariant
import EspSqlite.Pages.DirtyList
import EspSqlite.Pages.Represents
import EspSqlite.Pages.Operations
import EspSqlite.Pages.Loops
import EspSqlite.Pages.Spilling
import EspSqlite.Pages.Runs
import EspSqlite.Pages.LastUse
import EspSqlite.Pages.Evicting
import EspSqlite.Pages.Sorting
import EspSqlite.Pages.Merging
import EspSqlite.Pages.Buckets
import EspSqlite.Pages.Ordered
