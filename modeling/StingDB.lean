import StingDB.Catalog.Consistency
import StingDB.Catalog.SchemaLayout
import StingDB.Common.ArenaSpace
import StingDB.Execution.Batches
import StingDB.Execution.FlatVector
import StingDB.Execution.Operators
import StingDB.Execution.PinNeutral
import StingDB.Execution.Scans
import StingDB.Network.CommandTransactions
import StingDB.Network.Linearizability
import StingDB.Network.Reactor
import StingDB.Network.Segmentation
import StingDB.Planner.Equivalence
import StingDB.Planner.JoinCommutativity
import StingDB.Planner.SharedMemo
import StingDB.Storage.BPlusTree.Header
import StingDB.Storage.BPlusTree.Lookups
import StingDB.Storage.BPlusTree.Termination
import StingDB.Storage.BufferPool.Alignment
import StingDB.Storage.BufferPool.AsyncProgress
import StingDB.Storage.BufferPool.Competitive
import StingDB.Storage.BufferPool.Crashes
import StingDB.Storage.BufferPool.FailedWrites
import StingDB.Storage.BufferPool.FileBytes
import StingDB.Storage.BufferPool.FlushBarrier
import StingDB.Storage.BufferPool.Replacement
import StingDB.Storage.BufferPool.WriteBacks
import StingDB.Storage.SlottedPage.Capacity
import StingDB.System.LogChain
import StingDB.Transaction.ThreadDurability
