import Stroemnet.ByteStrings
import Stroemnet.ScriptLanguage
import Stroemnet.ScriptMachine
import Stroemnet.StraightLineScripts
import Stroemnet.ScriptHashSpends
import Stroemnet.HtlcScript
import Stroemnet.HtlcSpendingCondition
import Stroemnet.SwapProtocol
import Stroemnet.KaspaAddresses
import Stroemnet.HtlcExtraction
import Stroemnet.AnnouncedScripts
import Stroemnet.PayoutAliasing
import Stroemnet.EthereumHtlc
import Stroemnet.EthereumSolvency
import Stroemnet.PreimageAgreement
import Stroemnet.Settlement
import Stroemnet.EvmLogDecoding
import Stroemnet.EvmChannel
import Stroemnet.EvmLogFidelity
import Stroemnet.SwapTracker
import Stroemnet.SwapHandler
import Stroemnet.KaspaBlocks
import Stroemnet.KaspaChannel
import Stroemnet.SwapNode
import Stroemnet.NodeRestart
import Stroemnet.TrackerMoves
import Stroemnet.RecordSources
import Stroemnet.ClaimIntegrity
import Stroemnet.RevealForwarding
import Stroemnet.OwnHtlcRefund
import Stroemnet.KaspaIntake
import Stroemnet.AcceptedTransactions
import Stroemnet.GuardedRuns
import Stroemnet.TrackerLifecycle
import Stroemnet.NodeConfiguration
import Stroemnet.TimelockMargin
import Stroemnet.CounterBroadcasts
import Stroemnet.TakerReveals
import Stroemnet.CounterRecognition
import Stroemnet.KaspaFunding
import Stroemnet.DeliveryOrder
import Stroemnet.Restart
import Stroemnet.CoveredStreams
import Stroemnet.BlockCoverage
import Stroemnet.EvmCursor
import Stroemnet.IntakeOrder
import Stroemnet.KaspaCursor
import Stroemnet.PartialSpends
import Stroemnet.EvmSettlement
import Stroemnet.PendingWork
import Stroemnet.RetryLoop
import Stroemnet.NonceReservations
import Stroemnet.SnapshotWrites
import Stroemnet.RowSnapshots
import Stroemnet.TwoRuns
import Stroemnet.AnnouncementRuns
import Stroemnet.HtlcSpends
import Stroemnet.OwnSpends
import Stroemnet.ScriptRoundTrip
import Stroemnet.BlockDecoding
import Stroemnet.RevealRouting
import Stroemnet.FloorScaling
import Stroemnet.AmountOut
import Stroemnet.QuoteAgreement
import Stroemnet.FundingCoverage
import Stroemnet.SettlementGuards
import Stroemnet.CanonicalCodecs
import Stroemnet.OrderedTables
import Stroemnet.RecordCodec
import Stroemnet.SwapStore
import Stroemnet.GossipWire
import Stroemnet.GossipFlood
import Stroemnet.PeerConnections
import Stroemnet.OnePerPeer
import Stroemnet.MutualDials
import Stroemnet.StateSize
import Stroemnet.Rescaling
import Stroemnet.SeenDigests
import Stroemnet.GasPrices
import Stroemnet.Backoff
import Stroemnet.RobustMeans
import Stroemnet.PriceOracle
import Stroemnet.SelfDelimiting
import Stroemnet.QuoteSignatures
import Stroemnet.HashTimelocks
import Stroemnet.TwoChains
import Stroemnet.ContractLegs
import Stroemnet.CrossChainSwaps
import Stroemnet.ScriptLegs
import Stroemnet.ScriptToContract
import Stroemnet.RefundWorkList
import Stroemnet.FloodCompleteness
import Stroemnet.PriceStorage
import Stroemnet.ExchangePrices
import Stroemnet.RateLimits
import Stroemnet.PeerDiscovery
import Stroemnet.DialBounds
import Stroemnet.QuoteReplies
