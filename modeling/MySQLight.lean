import MySQLight.Catalog.Allocation
import MySQLight.Db.Exec
import MySQLight.Executor.Comparisons
import MySQLight.Executor.Defaults
import MySQLight.Executor.KeyOrder
import MySQLight.Executor.Like
import MySQLight.Executor.Locks
import MySQLight.Executor.Qualified
import MySQLight.Executor.Reference
import MySQLight.Executor.Restrict
import MySQLight.Executor.StoredRows
import MySQLight.Executor.TableLocks
import MySQLight.Parser.Beginning
import MySQLight.Parser.RoundTrip
import MySQLight.Parser.Tiling
import MySQLight.Planner.Divisors
import MySQLight.Planner.Folding
import MySQLight.Planner.IndexSelection
import MySQLight.Planner.Pipeline
import MySQLight.Planner.Pruning
import MySQLight.Planner.Pushdown
import MySQLight.Storage.LogBeforeData
import MySQLight.Storage.Rebalance
import MySQLight.Storage.Transparency
import MySQLight.Txn.Deadlock
import MySQLight.Txn.Victims
import MySQLight.Wal.TornAppend
import MySQLight.Wal.UndoErrors
