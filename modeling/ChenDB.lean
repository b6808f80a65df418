import ChenDB.Wal.SerialHistory
import ChenDB.Wal.Restart
import ChenDB.Mvcc.LostUpdates
import ChenDB.Storage.StaleLog
import ChenDB.Transaction.FailedCommit
import ChenDB.Executor.FailedStatements
import ChenDB.Transaction.Spared
import ChenDB.Storage.FailedEviction
import ChenDB.Wal.Replay
import ChenDB.Storage.TornPages
import ChenDB.Storage.PageMap
import ChenDB.Storage.PageFit
import ChenDB.Executor.IntegerAggregates
import ChenDB.Optimizer.MergedFilters
import ChenDB.Executor.Sort
import ChenDB.Indexing.RefusedInserts
import ChenDB.Concurrency.Deadlock
import ChenDB.Executor.InLists
import ChenDB.Optimizer.IdentityProjection
import ChenDB.Storage.HeapFiles
import ChenDB.Catalog.CreateTable
import ChenDB.Executor.RowCeiling
import ChenDB.Executor.TableReads
import ChenDB.Storage.LsnStamps
import ChenDB.Diagnostics.EventReader
import ChenDB.Optimizer.JoinEstimates
import ChenDB.Transaction.IdFields
import ChenDB.Optimizer.RangeEstimates
import ChenDB.Parser.Derivation
import ChenDB.Planner.JoinOrder
