import CexHertz.Service.CrossedBooks
import CexHertz.Service.OrderValidation
import CexHertz.Handler.CancelledOrders
import CexHertz.Service.DBTransferCoordinator
import CexHertz.Service.TradeLog
import CexHertz.Service.ReplayedMatching
import CexHertz.Handler.OrderFencing
import CexHertz.Service.NodeIDs
import CexHertz.Model.OwnershipOperations
import CexHertz.Model.TransferInvariants
import CexHertz.Service.CancelMeaning
import CexHertz.Service.UntradedOrder
import CexHertz.Service.EntryPoints
import CexHertz.Service.SubmitOutcome
import CexHertz.Service.Reprocessing
import CexHertz.Service.TradeNotices
import CexHertz.Service.AverageCost
import CexHertz.Service.DirectPositions
import CexHertz.Service.OffsetTracker
import CexHertz.Service.OutboxRetries
import CexHertz.Service.SnapshotDiff
import CexHertz.Service.RecoveryValidation
import CexHertz.Service.BackfillResume
import CexHertz.Service.BackfillFailures
import CexHertz.Service.HotSplits
import CexHertz.Service.ScaleFrame
import CexHertz.Service.Kline
import CexHertz.Service.Depth
import CexHertz.Service.RedisLock
import CexHertz.Service.NilEvents
import CexHertz.Service.SequenceNumbers
import CexHertz.Service.MemoryLog
import CexHertz.Service.EnqueueOrder
import CexHertz.Service.PartitionWatcher
import CexHertz.Server.Messages
