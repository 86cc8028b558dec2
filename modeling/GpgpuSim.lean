import GpgpuSim.Containers.Sorting
import GpgpuSim.Containers.UnorderedMap
import GpgpuSim.Coding.Canonical
import GpgpuSim.Coding.Merging
import GpgpuSim.Huffman.FrequencyTable
import GpgpuSim.Huffman.FrequencyTableRuns
import GpgpuSim.Huffman.Codebook
import GpgpuSim.Huffman.CodeLengths
import GpgpuSim.Huffman.PrefixCodes
import GpgpuSim.Huffman.Optimality
import GpgpuSim.Cache.TagArray
import GpgpuSim.Transition.Custody
import GpgpuSim.Transition.Stages
import GpgpuSim.Cache.MshrTable
import GpgpuSim.Cache.DataCache
import GpgpuSim.Cache.Requests
import GpgpuSim.Huffman.Compressor
import GpgpuSim.Partition.CodebookUnit
import GpgpuSim.Partition.State
import GpgpuSim.Partition.DramCycle
import GpgpuSim.Huffman.BuildOutcome
import GpgpuSim.Partition.Stations
import GpgpuSim.Partition.StageEffects
import GpgpuSim.Partition.CodebookRuns
import GpgpuSim.Partition.Frames
import GpgpuSim.Partition.Lifecycle
import GpgpuSim.Partition.Passing
import GpgpuSim.Partition.Accounting
import GpgpuSim.Partition.MetadataAccounting
import GpgpuSim.Partition.CycleRuns
import GpgpuSim.Partition.Schedules
import GpgpuSim.Partition.IntervalStatistics
import GpgpuSim.Partition.CodebookCycle
import GpgpuSim.Partition.CodebookFailure
import GpgpuSim.Partition.RebuildWindows
import GpgpuSim.Partition.Conservation
import GpgpuSim.Partition.ReadPath
import GpgpuSim.Interconnect.XbarRouter
import GpgpuSim.Interconnect.LocalInterconnect
import GpgpuSim.Interconnect.SingleSubnet
import GpgpuSim.Simt.Coalescing
import GpgpuSim.Simt.CoalescingCoverage
import GpgpuSim.Address.Decoding
import GpgpuSim.Address.Aliasing
import GpgpuSim.Simt.Stack
import GpgpuSim.Simt.StackUpdate
import GpgpuSim.Simt.StackRuns
import GpgpuSim.Dram.Cycle
import GpgpuSim.Dram.Timing
import GpgpuSim.Dram.Scheduling
import GpgpuSim.Dram.Accounting
import GpgpuSim.Dram.RequestFlow
import GpgpuSim.Dram.Departures
import GpgpuSim.Cache.LineStates
import GpgpuSim.Cache.Accesses
import GpgpuSim.Cache.AccessRuns
import GpgpuSim.Cache.Pinning
import GpgpuSim.Cache.Reservations
import GpgpuSim.Cache.DirtyData
import GpgpuSim.Partition.SectorRequests
import GpgpuSim.Containers.FlatMemory
import GpgpuSim.Functional.MemorySpace
import GpgpuSim.Functional.MemoryRefinement
import GpgpuSim.Huffman.Encoding
import GpgpuSim.Huffman.Granules
import GpgpuSim.Shader.BarrierRuns
import GpgpuSim.Containers.Holdings
import GpgpuSim.Shader.Occupancy
import GpgpuSim.Shader.OccupancyRuns
import GpgpuSim.Cache.Sending
import GpgpuSim.Shader.LoadStoreCycle
import GpgpuSim.Shader.ReplyRouting
import GpgpuSim.Shader.StoreAcks
import GpgpuSim.Words.SlotBits
import GpgpuSim.Shader.FunctionUnits
import GpgpuSim.Shader.FunctionUnitRuns
import GpgpuSim.Huffman.RecursiveSplit
import GpgpuSim.Huffman.CodedSymbols
import GpgpuSim.Partition.SampleFlow
import GpgpuSim.Containers.RecentlyUsed
import GpgpuSim.Partition.CreditRuns
import GpgpuSim.Partition.SimilarityCache
import GpgpuSim.Partition.SimilarityText
import GpgpuSim.Cache.Refusals
import GpgpuSim.Cache.MshrRuns
import GpgpuSim.Cache.Victims
import GpgpuSim.Cache.Cells
import GpgpuSim.Cache.Readability
import GpgpuSim.Shader.LoadBooks
import GpgpuSim.Shader.LoadRuns
import GpgpuSim.Containers.Rotation
import GpgpuSim.Interconnect.Matching
import GpgpuSim.Address.Striding
import GpgpuSim.Cache.BankHash
import GpgpuSim.Partition.SectorBytes
import GpgpuSim.Dram.Admission
import GpgpuSim.Dram.SingleBus
import GpgpuSim.Dram.ServiceOrder
import GpgpuSim.Cache.CacheStats
import GpgpuSim.Cache.Aggregation
import GpgpuSim.Cache.DataPort
import GpgpuSim.Cache.TexCache
import GpgpuSim.Transition.Replay
import GpgpuSim.Cache.TexTags
import GpgpuSim.Cache.TexOrder
import GpgpuSim.Cache.TexRuns
import GpgpuSim.Containers.OrderedSet
import GpgpuSim.Graphs.Walks
import GpgpuSim.Transition.Iteration
import GpgpuSim.Ptx.FunctionInfo
import GpgpuSim.Ptx.DataFlow
import GpgpuSim.Ptx.Dominators
import GpgpuSim.Ptx.Reconvergence
import GpgpuSim.Ptx.DominatorRounds
import GpgpuSim.Ptx.BasicBlocks
import GpgpuSim.Ptx.BlockPartition
import GpgpuSim.Ptx.BreakTargets
import GpgpuSim.Ptx.ControlFlow
import GpgpuSim.Shader.Scoreboard
import GpgpuSim.Shader.ScoreboardRuns
import GpgpuSim.Partition.MemcpyFills
import GpgpuSim.Cache.Flushing
import GpgpuSim.Partition.L2Flush
import GpgpuSim.Shader.RegisterBanks
import GpgpuSim.Shader.OperandCollector
import GpgpuSim.Transition.Outcomes
import GpgpuSim.Shader.OperandRuns
import GpgpuSim.Containers.FirstFit
import GpgpuSim.Simt.AtomicCoalescing
import GpgpuSim.Simt.AtomicSerialization
import GpgpuSim.Dram.PipelineRuns
import GpgpuSim.Huffman.DepthBounds
import GpgpuSim.Address.LocalMemory
import GpgpuSim.Kernel.ThreadGrid
import GpgpuSim.Kernel.CtaStreams
import GpgpuSim.Shader.ReductionBarriers
import GpgpuSim.Shader.TwoLevel
import GpgpuSim.Simt.StackCheckpoint
import GpgpuSim.Functional.MemoryCheckpoint
import GpgpuSim.Functional.CheckpointRoundTrip
import GpgpuSim.Coding.Spelling
import GpgpuSim.Containers.Sampling
import GpgpuSim.Huffman.BlockSymbols
import GpgpuSim.Partition.SampledSymbols
import GpgpuSim.Transition.Commuting
import GpgpuSim.Functional.InstructionMemory
import GpgpuSim.Functional.WarpExecution
import GpgpuSim.Functional.Interleaving
import GpgpuSim.Functional.CoreSimulation
import GpgpuSim.Cache.HeldRequests
import GpgpuSim.Shader.FetchDecode
import GpgpuSim.Shader.FrontEndBooks
import GpgpuSim.Shader.TimingIndependence
