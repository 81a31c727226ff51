import MioBench.Lib.Transition
import MioBench.Lib.Threads
import MioBench.Lib.ForkJoin
import MioBench.Lib.Adjacent
import MioBench.Lib.IntrusiveList
import MioBench.Lib.Fifo
import MioBench.Lib.ForLoop
import MioBench.Lib.CallLoop
import MioBench.Lib.Cover
import MioBench.Lib.Shuffle
import MioBench.Lib.DrawLaw
import MioBench.Lib.Circuit
import MioBench.Lib.LowerBound
import MioBench.Lib.Shares
import MioBench.Lib.SerialLink
import MioBench.Lib.Memory
import MioBench.Lib.Tokens
import MioBench.Lib.Numeral
import MioBench.Lib.DecimalText
import MioBench.Lib.Regex
import MioBench.Lib.Sections
import MioBench.Lib.Collation
import MioBench.Lib.Checked
import MioBench.Lib.PairMerge
import MioBench.Lib.Stores
import MioBench.Store.Args
import MioBench.Store.SizeText
import MioBench.Store.LastOption
import MioBench.Store.Block
import MioBench.Store.ChunkStripe
import MioBench.Store.ChunkLayout
import MioBench.Store.HugeAlloc
import MioBench.Store.MultiTurn
import MioBench.Store.TurnTags
import MioBench.Sync.Gate
import MioBench.Sync.Mpsc
import MioBench.Sync.MpscInvariant
import MioBench.Sync.MpscFifo
import MioBench.Sync.MpscProgress
import MioBench.Sync.MpscOwnership
import MioBench.Sync.MpscNoRearm
import MioBench.Sync.PlainRequests
import MioBench.Sync.PlainSweep
import MioBench.Sync.PlainProgress
import MioBench.Sync.MpscStub
import MioBench.Sync.Readers
import MioBench.Sync.Sweep
import MioBench.Sync.SweepCleanup
import MioBench.Sync.SweepReturn
import MioBench.Sync.Nic
import MioBench.Sync.NicLink
import MioBench.Sync.NicWindow
import MioBench.Sync.NicDelay
import MioBench.Sync.NoWait
import MioBench.Sync.NoWaitReport
import MioBench.Sync.Rnic
import MioBench.Sync.RnicInvariant
import MioBench.Sync.RnicProtocol
import MioBench.Sync.RnicProgress
import MioBench.Sync.RnicSweep
import MioBench.Programs.ChunkStripe
import MioBench.Programs.MultiTurn
import MioBench.Programs.TurnLoop
import MioBench.Programs.SweepLoop
import MioBench.Programs.FailureCleanup
import MioBench.Programs.NoWaitRows
import MioBench.Bench.Access
import MioBench.Bench.RandomBlocks
import MioBench.Bench.RandomCoverage
import MioBench.Bench.SequentialWrite
import MioBench.Bench.Prefetcher
import MioBench.Bench.Zipfian
import MioBench.Bench.Stride
import MioBench.Bench.StrideCoverage
import MioBench.Bench.StrideTermination
import MioBench.Bench.MemorySize
import MioBench.Bench.CommandLine
import MioBench.Bench.PointerLoad
import MioBench.Bench.PointerChase
import MioBench.Bench.ChaseMemory
import MioBench.Bench.ChaseRun
import MioBench.Bench.ChaseInvariant
import MioBench.Bench.ChaseUnderLoad
import MioBench.Bench.ChaseOrder
import MioBench.Lib.LockedLog
import MioBench.Lib.Words
import MioBench.Bench.BandwidthRun
import MioBench.Bench.BandwidthInvariant
import MioBench.Bench.BandwidthOutcome
import MioBench.Bench.ProgressMonitor
import MioBench.Bench.BandwidthReturns
import MioBench.Bench.TraceFile
import MioBench.Bench.ResultFile
import MioBench.Bench.FirstTouch
import MioBench.Bench.SaveTrace
import MioBench.Bench.Instrumented
import MioBench.Bench.BypassAlignment
import MioBench.Bench.NumaNodes
import MioBench.Bench.ModeList
import MioBench.Bench.LatencyLog
import MioBench.Bench.LatencySummary
import MioBench.Bench.LatencyReserve
import MioBench.Scripts.Python
import MioBench.Scripts.PythonNumbers
import MioBench.Scripts.Csv
import MioBench.Scripts.RunDirs
import MioBench.Scripts.RunRecords
import MioBench.Scripts.SweepRecords
import MioBench.Scripts.SweepBars
import MioBench.Scripts.SweepCommand
import MioBench.Scripts.ChaseSummary
import MioBench.Scripts.CachelibLog
import MioBench.Scripts.CachelibSeries
