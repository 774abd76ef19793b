import TorrentNode.BlockSource.AllOrNothing
import TorrentNode.BlockSource.DeliveryOrder
import TorrentNode.BlockSource.DumpBatches
import TorrentNode.BlockSource.DumpFrames
import TorrentNode.BlockSource.FileEnds
import TorrentNode.BlockSource.LastBlockVote
import TorrentNode.BlockSource.PreLoad
import TorrentNode.BlockSource.Transparency
import TorrentNode.Chain.BetweenBlocks
import TorrentNode.Chain.LastState
import TorrentNode.Chain.Representation
import TorrentNode.Lib.BlockFold
import TorrentNode.Lib.Effect
import TorrentNode.Lib.GuardedLoop
import TorrentNode.Lib.NamedKeys
import TorrentNode.Lib.Paging
import TorrentNode.Lib.ParentChain
import TorrentNode.Lib.PrefixScan
import TorrentNode.Lib.SideLog
import TorrentNode.Lib.Snapshot
import TorrentNode.Lib.Total
import TorrentNode.P2P.Download
import TorrentNode.P2P.Graph
import TorrentNode.P2P.Segmentation
import TorrentNode.Parsing.AppendedStatus
import TorrentNode.Parsing.OneTransaction
import TorrentNode.Parsing.SignPrefix
import TorrentNode.RejectedSource.Once
import TorrentNode.Server.Answers
import TorrentNode.Server.Blocks
import TorrentNode.Server.Dumps
import TorrentNode.Storage.AddressRecords
import TorrentNode.Storage.DelegateRecords
import TorrentNode.Storage.FailedAppends
import TorrentNode.Storage.Frames
import TorrentNode.Storage.IntegerKeys
import TorrentNode.Storage.MainRecords
import TorrentNode.Storage.ScriptRecords
import TorrentNode.Structs.BalanceOps
import TorrentNode.Structs.BalanceRuns
import TorrentNode.Structs.BalanceSums
import TorrentNode.Structs.Ledger
import TorrentNode.Structs.NodeTests
import TorrentNode.Structs.Records
import TorrentNode.Structs.RoundTrip
import TorrentNode.Sync.CatchUp
import TorrentNode.Sync.CommonAncestor
import TorrentNode.Sync.CrashPoints
import TorrentNode.Sync.Persistence
import TorrentNode.Sync.RecordedPlaces
import TorrentNode.Sync.Rejected
import TorrentNode.Sync.Restart
import TorrentNode.Sync.SignedDump
import TorrentNode.Utils.Chars
import TorrentNode.Workers.Balances
import TorrentNode.Workers.Contracts
import TorrentNode.Workers.DelegationBooks
import TorrentNode.Workers.Delegations
import TorrentNode.Workers.Frames
import TorrentNode.Workers.History
import TorrentNode.Workers.HistoryPages
import TorrentNode.Workers.LastTestedDay
import TorrentNode.Workers.Money
import TorrentNode.Workers.NodeRating
import TorrentNode.Workers.NodeRegistration
import TorrentNode.Workers.NodeTest
import TorrentNode.Workers.NodeTestStatistics
import TorrentNode.Workers.Prefix
import TorrentNode.Workers.Runs
import TorrentNode.Workers.StatusSteps
import TorrentNode.Workers.StatusWindow
import TorrentNode.Workers.TokenBooks
import TorrentNode.Workers.TokenSupply
import TorrentNode.Workers.Tokens
