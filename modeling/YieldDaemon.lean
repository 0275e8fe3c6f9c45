import YieldDaemon.CheckedArithmetic
import YieldDaemon.LabelledRun
import YieldDaemon.StateShadow
import YieldDaemon.ShadowProduct
import YieldDaemon.Treasury
import YieldDaemon.TreasuryLedger
import YieldDaemon.IntentFills
import YieldDaemon.OfframpExposure
import YieldDaemon.ArbitrageCompleteness
import YieldDaemon.BundleConstructor
import YieldDaemon.SimdSolver
import YieldDaemon.Aste
import YieldDaemon.AsteEvents
import YieldDaemon.LimbArithmetic
import YieldDaemon.AmmParser
import YieldDaemon.BundleAmounts
import YieldDaemon.BundleSubmission
import YieldDaemon.FlashArbitrage
import YieldDaemon.PoolUpdates
import YieldDaemon.ShadowBounds
import YieldDaemon.ShadowDirty
import YieldDaemon.ShadowIsolation
import YieldDaemon.SwapEvents
import YieldDaemon.Bn254Field
import YieldDaemon.MontgomeryU256
import YieldDaemon.NttDomain
import YieldDaemon.PolynomialProduct
import YieldDaemon.BucketMethod
import YieldDaemon.CurvePoints
import YieldDaemon.PippengerMsm
import YieldDaemon.Arena
import YieldDaemon.Base58
import YieldDaemon.ByteDecoder
import YieldDaemon.CommitmentSums
import YieldDaemon.LimitPrices
import YieldDaemon.MessageFormat
import YieldDaemon.MissedProfits
import YieldDaemon.SwapBuilders
import YieldDaemon.AmmPool
import YieldDaemon.KeyedLog
import YieldDaemon.ModularSquareRoot
import YieldDaemon.OfframpCooldown
import YieldDaemon.PoolRegistry
import YieldDaemon.RouteOptimizer
import YieldDaemon.EuclideanGcd
import YieldDaemon.FieldGcd
import YieldDaemon.FlooredSwaps
import YieldDaemon.CycleMonotonicity
import YieldDaemon.FirstOccurrences
import YieldDaemon.SearchResults
import YieldDaemon.RediscoveredLoops
import YieldDaemon.ShadowPrices
import YieldDaemon.NarrowingSearch
import YieldDaemon.OrderBook
import YieldDaemon.ResultLabels
import YieldDaemon.RunningExtremes
import YieldDaemon.SpreadScan
import YieldDaemon.OptimalInputs
import YieldDaemon.InputEstimates
import YieldDaemon.IntentBatches
import YieldDaemon.StepAmounts
import YieldDaemon.SwapLadder
import YieldDaemon.Base58Strings
import YieldDaemon.AccountRemapping
import YieldDaemon.ArenaRequests
import YieldDaemon.TiledGemm
import YieldDaemon.ProverBids
import YieldDaemon.Base64
import YieldDaemon.RpcEndpoints
import YieldDaemon.SquareRootRounds
import YieldDaemon.MsmWindows
import YieldDaemon.PlainScans
import YieldDaemon.SwapRounds
import YieldDaemon.ProgramFilter
import YieldDaemon.FlashRepayment
import YieldDaemon.EngineAccounts
import YieldDaemon.MempoolPipeline
import YieldDaemon.MetricsBridge
import YieldDaemon.OfframpLoop
import YieldDaemon.LiveBundles
import YieldDaemon.PrometheusEndpoint
import YieldDaemon.LayerNorm
import YieldDaemon.ExactAttention
import YieldDaemon.IdleDaemon
import YieldDaemon.PoolDirectory
import YieldDaemon.FlashSettlement
import YieldDaemon.Training
import YieldDaemon.LearningRate
import YieldDaemon.SignedRequests
import YieldDaemon.VaultBalances
import YieldDaemon.RaydiumAccounts
import YieldDaemon.Confirmations
