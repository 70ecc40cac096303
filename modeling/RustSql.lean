import RustSql.Foundation.Lexicographic
import RustSql.Foundation.Binary64
import RustSql.Foundation.Bytes
import RustSql.Foundation.AssocMap
import RustSql.Foundation.RedoLog
import RustSql.Foundation.TotalRun
import RustSql.Foundation.GuardedRun
import RustSql.Foundation.TrunkList
import RustSql.Foundation.Kleene
import RustSql.Types.Value
import RustSql.Types.OrderKey
import RustSql.Types.RowCodec
import RustSql.Storage.Page
import RustSql.Storage.Wal
import RustSql.Storage.WalChain
import RustSql.Storage.WalChronicle
import RustSql.Storage.WalBytes
import RustSql.Storage.WalBatch
import RustSql.Storage.WalHistory
import RustSql.Storage.WalCrash
import RustSql.Storage.WalFault
import RustSql.Storage.Pager
import RustSql.Storage.Residency
import RustSql.Storage.Freelist
import RustSql.Storage.TrunkPage
import RustSql.Storage.FreelistInvariant
import RustSql.Storage.TailTruncation
import RustSql.Storage.FreelistRun
import RustSql.Storage.Savepoint
import RustSql.Storage.Checkpoint
import RustSql.Storage.CheckpointSafety
import RustSql.Storage.SavepointInvariant
import RustSql.Storage.SavepointCalls
import RustSql.Storage.SavepointRollback
import RustSql.Storage.SavepointRun
import RustSql.Sql.Ast
import RustSql.Executor.Evaluate
import RustSql.Executor.Condition
import RustSql.Executor.ThreeValued
import RustSql.Executor.ConditionTruth
import RustSql.Storage.ConcurrentRun
import RustSql.Foundation.DoubleBounds
import RustSql.Types.RowBytes
import RustSql.Storage.SpillShape
import RustSql.Foundation.Checked
import RustSql.Storage.CheckedDecode
import RustSql.Storage.RowDecoders
import RustSql.Storage.WalkOrder
import RustSql.Storage.DecodeSafety
import RustSql.Storage.EncodedRows
import RustSql.Storage.LazySpans
import RustSql.Storage.SelectedColumns
import RustSql.Storage.ProbedColumns
import RustSql.Types.MaskedText
import RustSql.Session.Codec
import RustSql.Session.PrimaryKey
import RustSql.Foundation.HashChains
import RustSql.Session.State
import RustSql.Session.RowKeys
import RustSql.Session.CaptureRecord
import RustSql.Session.Capture
import RustSql.Session.CaptureRun
import RustSql.Session.Iter
import RustSql.Session.Group
import RustSql.Session.GroupEntries
import RustSql.Session.GroupMerge
import RustSql.Session.GroupKept
import RustSql.Session.ReadBack
import RustSql.Session.GroupRun
import RustSql.Session.GroupOutput
import RustSql.Session.RowApply
import RustSql.Session.Concat
import RustSql.Session.Generate
import RustSql.Session.Resolve
import RustSql.Session.Patchset
import RustSql.Types.NumericText
import RustSql.Types.SqlEquality
import RustSql.Storage.SpillFile
import RustSql.Storage.Preimage
import RustSql.Session.Invert
import RustSql.Session.InvertUndo
import RustSql.Executor.OrderKeyDecode
import RustSql.Foundation.Effects
import RustSql.Session.ApplySql
import RustSql.Session.Apply
import RustSql.Session.ApplyRun
import RustSql.Session.RebaseBuffer
import RustSql.Session.ApplyAtomic
import RustSql.Foundation.Positional
import RustSql.Types.IntegerText
import RustSql.Storage.Varint
import RustSql.Storage.Cell
import RustSql.Storage.CellCodec
import RustSql.Storage.OverflowPage
import RustSql.Storage.OverflowChain
import RustSql.Storage.OverflowSplit
import RustSql.Storage.SpilledAppend
import RustSql.Foundation.BinarySearch
import RustSql.Foundation.SearchTree
import RustSql.Storage.TableTree
import RustSql.Storage.RangeReads
import RustSql.Storage.CellBatches
import RustSql.Storage.BulkUpdate
import RustSql.Storage.BulkSweep
import RustSql.Storage.BulkMet
import RustSql.Storage.BulkContract
import RustSql.Foundation.SearchTreePrune
import RustSql.Storage.BulkDelete
import RustSql.Storage.UnlinkCascade
import RustSql.Storage.BulkDeleteRun
import RustSql.Foundation.Wildcards
import RustSql.Executor.PatternCompare
import RustSql.Executor.PatternLanguage
import RustSql.Executor.PatternMeaning
import RustSql.Executor.LikeMatchers
import RustSql.Executor.LikeMeaning
import RustSql.Executor.LikeWalk
import RustSql.Executor.LikePredicate
import RustSql.Executor.LikePaths
import RustSql.Types.Utf16
import RustSql.Storage.SqliteRecord
import RustSql.Storage.SqliteRecordCodec
import RustSql.Foundation.FileImage
import RustSql.Storage.RollbackJournal
import RustSql.Storage.JournalProbe
import RustSql.Storage.JournalReplay
import RustSql.Types.NumberParse
import RustSql.Types.RealKeys
import RustSql.Executor.RowidSeek
import RustSql.Executor.RowCompare
import RustSql.Executor.RowExpansion
import RustSql.Executor.RowAgreement
import RustSql.Jsonb.Tree
import RustSql.Jsonb.Codec
import RustSql.Jsonb.Layout
import RustSql.Jsonb.LayoutReading
import RustSql.Jsonb.Readers
import RustSql.Jsonb.ReaderAgreement
import RustSql.Jsonb.Parser
import RustSql.Jsonb.Emit
import RustSql.Jsonb.Scanning
import RustSql.Jsonb.Numbers
import RustSql.Jsonb.Strings
import RustSql.Jsonb.Reading
import RustSql.Jsonb.Encoding
import RustSql.Jsonb.Grammar
import RustSql.Jsonb.Denotation
import RustSql.Jsonb.NumberRendering
import RustSql.Jsonb.Canonical
import RustSql.Jsonb.Escapes
import RustSql.Jsonb.EscapePieces
import RustSql.Jsonb.EscapeMeaning
import RustSql.Jsonb.EscapeLimits
import RustSql.Jsonb.Paths
import RustSql.Jsonb.Enclosing
import RustSql.Jsonb.BlobWalk
import RustSql.Jsonb.BlobEdits
import RustSql.Jsonb.TreeEdits
import RustSql.Jsonb.KeyLookups
import RustSql.Storage.LockBytes
import RustSql.Storage.LockRuns
import RustSql.Storage.LockExclusion
import RustSql.Foundation.SummaryTree
import RustSql.Plugin.RtreeNode
import RustSql.Plugin.RtreeBoxes
import RustSql.Plugin.RtreeRuns
import RustSql.Plugin.RtreeTable
import RustSql.Plugin.RtreeUpdates
import RustSql.Plugin.RtreeScan
import RustSql.Plugin.RtreeHonoured
import RustSql.Executor.InvertedIndex
import RustSql.Executor.SortedRowids
import RustSql.Executor.InvertedScan
import RustSql.Foundation.KBest
import RustSql.Executor.Geometry
import RustSql.Executor.GeometryBounds
import RustSql.Executor.SpatialIndex
import RustSql.Executor.SpatialCover
import RustSql.Executor.SpatialExact
import RustSql.Executor.SpatialLimits
import RustSql.Storage.InstallGate
import RustSql.Storage.RowidBlocks
import RustSql.Storage.RootLineage
import RustSql.Storage.StampPruningRun
import RustSql.Executor.HashGrouperExact
import RustSql.Storage.TableMaintenance
import RustSql.Storage.WalRestarts
