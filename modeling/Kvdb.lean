import Kvdb.Lib.Prog
import Kvdb.Lib.Hoare
import Kvdb.Lib.Append
import Kvdb.Lib.Bytes
import Kvdb.Lib.Reader
import Kvdb.Lib.Recency
import Kvdb.Lib.Pointwise
import Kvdb.Lib.Merge
import Kvdb.Lib.Heap
import Kvdb.Lib.SearchTree
import Kvdb.Lib.Linked
import Kvdb.Lib.LowerBound
import Kvdb.Utils.Record
import Kvdb.Utils.Status
import Kvdb.Utils.BlockIO
import Kvdb.Utils.Crc32
import Kvdb.Wal.Format
import Kvdb.Wal.Log
import Kvdb.Wal.Encoding
import Kvdb.Wal.Recovery
import Kvdb.Wal.Truncation
import Kvdb.Wal.FailedWrites
import Kvdb.Wal.Streaming
import Kvdb.Utils.Fields
import Kvdb.Utils.Lockstep
import Kvdb.Engine.TableMeta
import Kvdb.Engine.LevelManager
import Kvdb.Manifest.VersionEdit
import Kvdb.Manifest.Encoding
import Kvdb.Manifest.Manifest
import Kvdb.Manifest.Staging
import Kvdb.Manifest.FailStop
import Kvdb.Manifest.Replay
import Kvdb.Manifest.Recovery
import Kvdb.Manifest.Catalog
import Kvdb.Engine.MemTable
import Kvdb.Engine.Options
import Kvdb.Engine.Levels
import Kvdb.DataStructures.Trees
import Kvdb.DataStructures.SkipList
import Kvdb.DataStructures.Drivers
import Kvdb.Engine.TableFiles
import Kvdb.Engine.Lookup
import Kvdb.Compaction.Plan
import Kvdb.Compaction.Selection
import Kvdb.Compaction.ManualRange
import Kvdb.Compaction.Job
import Kvdb.Compaction.Run
import Kvdb.Compaction.Install
import Kvdb.Engine.LevelSearch
import Kvdb.Compaction.Visibility
import Kvdb.Manifest.MoreLevels
import Kvdb.Engine.World
import Kvdb.Engine.Engine
import Kvdb.Engine.Logs
import Kvdb.Engine.Rules
import Kvdb.Engine.Invariant
import Kvdb.Engine.States
import Kvdb.Engine.Compacting
import Kvdb.Engine.Flushing
import Kvdb.Engine.Writing
import Kvdb.Engine.Opening
import Kvdb.Engine.Runs
import Kvdb.Engine.MapSemantics
import Kvdb.Engine.CrashSafety
import Kvdb.Engine.LookupOrder
import Kvdb.Engine.FailedFlush
import Kvdb.Engine.WriteRetries
import Kvdb.Engine.OpenCrashes
import Kvdb.SSTable.DataSection
import Kvdb.SSTable.DataSectionView
import Kvdb.SSTable.BlockParsing
import Kvdb.SSTable.BlockLookup
import Kvdb.SSTable.Iterator
import Kvdb.SSTable.Packing
import Kvdb.Compaction.MergeIterator
import Kvdb.Compaction.Streaming
import Kvdb.Compaction.Output
import Kvdb.Compaction.Refinement
import Kvdb.Allocator.Arena
import Kvdb.Allocator.Checkpoints
import Kvdb.Allocator.History
import Kvdb.DataStructures.SkipListShape
import Kvdb.Engine.Generations
import Kvdb.DataStructures.RedBlack
import Kvdb.DataStructures.TreapHeap
import Kvdb.DataStructures.Splaying
import Kvdb.SSTable.BloomSection
import Kvdb.SSTable.Sections
import Kvdb.SSTable.FileSections
import Kvdb.SSTable.IndexSection
import Kvdb.Allocator.Loading
import Kvdb.SSTable.IndexLoading
import Kvdb.SSTable.DataWriting
import Kvdb.SSTable.MetaSection
import Kvdb.SSTable.TableWriting
import Kvdb.SSTable.TableLoading
import Kvdb.SSTable.Reloading
import Kvdb.Engine.ExactMeta
import Kvdb.Engine.Loaders
import Kvdb.SSTable.SectionBuilding
import Kvdb.SSTable.Comparators
import Kvdb.Wal.Fragmentation
import Kvdb.SSTable.Building
import Kvdb.SSTable.Traversal
import Kvdb.SSTable.RoundTrip
import Kvdb.SSTable.PointLookup
import Kvdb.SSTable.FileLayout
import Kvdb.SSTable.IndexAgreement
import Kvdb.Wal.Grammar
import Kvdb.Compaction.Descent
import Kvdb.Engine.Terminating
import Kvdb.Engine.FlushLimits
