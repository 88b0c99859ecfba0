import RocksDB.Lib.Bytes
import RocksDB.Lib.Lists
import RocksDB.Lib.Sorted
import RocksDB.Lib.Compare
import RocksDB.Lib.Reader
import RocksDB.Lib.BitArray
import RocksDB.Lib.Adjacency
import RocksDB.Lib.Ranges
import RocksDB.Lib.Extents
import RocksDB.Lib.SeqIter
import RocksDB.Lib.Chains
import RocksDB.Lib.HeapOrder
import RocksDB.Lib.SortedUnion
import RocksDB.Lib.ReflectedCrc
import RocksDB.Util.Status
import RocksDB.Util.Arena
import RocksDB.Util.Filename
import RocksDB.Util.Coding
import RocksDB.Util.Slice
import RocksDB.Util.Hash
import RocksDB.Util.Bloom
import RocksDB.Util.BloomFilterMatch
import RocksDB.Util.DynamicBloom
import RocksDB.Db.Dbformat
import RocksDB.Db.InternalKey
import RocksDB.Util.Comparator
import RocksDB.Db.WriteBatch
import RocksDB.Db.WriteBatchRoundTrip
import RocksDB.Db.WriteBatchSavePoints
import RocksDB.Db.MergeHelper
import RocksDB.Db.PointLookup
import RocksDB.Db.MemTable
import RocksDB.Db.MemTableGet
import RocksDB.Db.MemTableInserter
import RocksDB.Db.WriteGroup
import RocksDB.Db.WriteBatchAppend
import RocksDB.Db.VersionEdit
import RocksDB.Db.VersionEditRoundTrip
import RocksDB.Db.VersionStorageInfo
import RocksDB.Db.LevelOverlap
import RocksDB.Db.LevelScan
import RocksDB.Db.FindFile
import RocksDB.Lib.SortedMerge
import RocksDB.Db.VersionBuilder
import RocksDB.Db.LogWriter
import RocksDB.Db.LogReader
import RocksDB.Db.LogRoundTrip
import RocksDB.Db.LogRecycle
import RocksDB.Lib.Cursor
import RocksDB.Cache.LRUCache
import RocksDB.Transactions.LockMgr
import RocksDB.Transactions.LockTable
import RocksDB.Transactions.TransactionKeyMap
import RocksDB.Transactions.TransactionBase
import RocksDB.Transactions.TransactionSavePoints
import RocksDB.Transactions.TransactionImpl
import RocksDB.Transactions.TrackedLocks
import RocksDB.Transactions.LockLimits
import RocksDB.Transactions.DeadlockDetect
import RocksDB.Transactions.LockBatch
import RocksDB.Transactions.TransactionUtil
import RocksDB.Utilities.WriteBatchWithIndex
import RocksDB.Table.Block
import RocksDB.Table.BlockBuilder
import RocksDB.Table.BlockRead
import RocksDB.Table.BlockSeek
import RocksDB.Table.BlockRoundTrip
import RocksDB.Table.Format
import RocksDB.Table.BlockBasedFilterBlock
import RocksDB.Table.FilterBlockMatch
import RocksDB.Table.TwoLevelIterator
import RocksDB.Cache.LRUHandleTable
import RocksDB.Util.Heap
import RocksDB.Util.Crc32c
import RocksDB.Table.MergingIterator
import RocksDB.Cache.LRUList
