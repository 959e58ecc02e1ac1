import AegisDB.LatchWaiting
import AegisDB.LatchExclusion
import AegisDB.Storage.CacheConcurrency
import AegisDB.Storage.MergedIterator
import AegisDB.Storage.TierContent
import AegisDB.Storage.ConcurrentTiers
import AegisDB.Storage.MovingReads
import AegisDB.Storage.TieredBatch
import AegisDB.Server.LatchRelease
import AegisDB.Server.Resolution
import AegisDB.Server.ReadStability
import AegisDB.Server.Scans
import AegisDB.Server.Isolation
import AegisDB.Server.Status
import AegisDB.Server.Concurrency
import AegisDB.Server.FamilyIsolation
import AegisDB.Server.MultiLevelApi
import AegisDB.Consensus.Committing
import AegisDB.Consensus.CheckedResponses
import AegisDB.Consensus.LeaderLog
import AegisDB.Consensus.Compaction
import AegisDB.Consensus.AfterSnapshot
import AegisDB.Consensus.StateMachineSafety
import AegisDB.Consensus.Delivery
import AegisDB.Raftstore.Splitting
import AegisDB.Raftstore.DestroyRange
import AegisDB.Raftstore.SplitChecker
import AegisDB.Raftstore.PersistedLog
import AegisDB.Raftstore.LeaderSwitch
import AegisDB.Scheduler.ConcurrentCluster
import AegisDB.Scheduler.OperatorHistory
import AegisDB.Scheduler.OperatorCounts
import AegisDB.Scheduler.OperatorLocks
import AegisDB.Scheduler.MoveRuns
import AegisDB.Scheduler.BalanceRegion
import AegisDB.Scheduler.BalanceLeader
import AegisDB.Scheduler.ScaleRanking
import AegisDB.Pd.Service
import AegisDB.Pd.RejectedHeartbeat
import AegisDB.Pd.AskSplit
