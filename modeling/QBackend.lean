import QBackend.SeededHistory
import QBackend.EnvelopeCompleteness
import QBackend.ForwardActions
import QBackend.StartupLeases
import QBackend.SequentialAgreement
import QBackend.AcceptanceGates
import QBackend.LockboxConsumption
import QBackend.FailureRecords
import QBackend.AlphaBlindness
import QBackend.LocalFiles
import QBackend.MatrixCache
import QBackend.RiskLimits
import QBackend.ResolvedBooks
import QBackend.RedeliveredBars
import QBackend.PersistedWatermark
import QBackend.OpeningTimes
import QBackend.TrailingStops
import QBackend.TradeAccounting
import QBackend.TickKernel
import QBackend.WindowTiling
import QBackend.SplitPartition
import QBackend.Leaderboard
import QBackend.ChampionSelection
import QBackend.EvidenceAdmission
import QBackend.SessionCausality
import QBackend.ConnectedClusters
import QBackend.NetStances
import QBackend.LoweredMeaning
