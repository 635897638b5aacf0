import FuzzHelm.Api.BacktestRows
import FuzzHelm.Api.Limits
import FuzzHelm.Api.LiveStreams
import FuzzHelm.Api.LoginRateLimiter
import FuzzHelm.Api.RiskEvents
import FuzzHelm.Backtest.BacktestConfig
import FuzzHelm.Backtest.ConfigHash
import FuzzHelm.Backtest.ConfigRoundTrip
import FuzzHelm.Backtest.DatasetHash
import FuzzHelm.Backtest.Realisation
import FuzzHelm.Backtest.Recording
import FuzzHelm.Backtest.SliceReplay
import FuzzHelm.Core.DecimalContext
import FuzzHelm.Core.Journal
import FuzzHelm.Decision.ConsensusLaws
import FuzzHelm.Decision.OddSymmetry
import FuzzHelm.Detectors.Decision
import FuzzHelm.Execution.FundingSchedule
import FuzzHelm.Execution.Pessimism
import FuzzHelm.Execution.Routing
import FuzzHelm.Execution.TradeLedger
import FuzzHelm.Features.OrderStatistics
import FuzzHelm.Features.Warmup
import FuzzHelm.Features.Window
import FuzzHelm.Fuzzy.Batch
import FuzzHelm.Fuzzy.CentroidRatio
import FuzzHelm.Fuzzy.RuleCover
import FuzzHelm.Ingest.BackfillComplete
import FuzzHelm.Ingest.Dedup
import FuzzHelm.Ingest.Emission
import FuzzHelm.Ingest.GapConsistency
import FuzzHelm.Ingest.RateLimit
import FuzzHelm.Ingest.Replay
import FuzzHelm.Ingest.WireAgreement
import FuzzHelm.Ingest.WsClient
import FuzzHelm.Risk.CooldownPolicy
import FuzzHelm.Risk.EquityHistory
import FuzzHelm.Risk.Limits
import FuzzHelm.Risk.MarginAlgebra
import FuzzHelm.Risk.Monotone
import FuzzHelm.Risk.Recovery
import FuzzHelm.Risk.StopBuffer
import FuzzHelm.Risk.VerdictAlgebra
import FuzzHelm.Sizing.Switching
import FuzzHelm.Sizing.VolTarget
import FuzzHelm.Storage.Candle
import FuzzHelm.Workers.ControlChannel
import FuzzHelm.Workers.GapSeconds
import FuzzHelm.Workers.PersistRun
import FuzzHelm.Backtest.EngineSignals
