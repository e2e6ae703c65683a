import DglAscend.Lib.Outcome
import DglAscend.Lib.Rotation
import DglAscend.Lib.Directory
import DglAscend.Lib.TwoEnded
import DglAscend.Graphbolt.Cache.CacheKey
import DglAscend.Graphbolt.Cache.CircularQueue
import DglAscend.Graphbolt.Cache.CachePolicy
import DglAscend.Graphbolt.Cache.Policies
import DglAscend.Graphbolt.Cache.PolicyLaws
import DglAscend.Graphbolt.Cache.PolicyDirectory
import DglAscend.Graphbolt.Cache.Batches
import DglAscend.Graphbolt.Cache.PolicyRun
import DglAscend.Graphbolt.Cache.ReferenceCount
import DglAscend.Graphbolt.Cache.Eviction
import DglAscend.Graphbolt.Cache.Failure
import DglAscend.Lib.Tensor
import DglAscend.Lib.Store
import DglAscend.Lib.Memory
import DglAscend.Lib.TimedCache
import DglAscend.Lib.Slots
import DglAscend.Lib.EqualShares
import DglAscend.Lib.BucketOrder
import DglAscend.Graphbolt.Cache.PartitionedCachePolicy
import DglAscend.Graphbolt.Cache.Partition
import DglAscend.Graphbolt.Cache.PartitionedPolicies
import DglAscend.Graphbolt.Cache.PartitionedBatches
import DglAscend.Graphbolt.Cache.PartitionedCalls
import DglAscend.Graphbolt.Cache.PartitionedRun
import DglAscend.Graphbolt.Cache.ResultFormat
import DglAscend.Graphbolt.Cache.FeatureCache
import DglAscend.Graphbolt.Cache.CachedRows
import DglAscend.Graphbolt.Cache.ReadAsync
import DglAscend.Graphbolt.Cache.CachedFeature
import DglAscend.Ascend.SparseMatrix
import DglAscend.Ascend.CooToCsrCache
import DglAscend.Ascend.CooToCsrRun
import DglAscend.Graph.IdHashMap
import DglAscend.Graph.ToBlock
import DglAscend.Ascend.BalancedPartitions
import DglAscend.Ascend.Csr
import DglAscend.Ascend.SpmmWindows
import DglAscend.Ascend.SpmmSum
import DglAscend.Lib.Memo
import DglAscend.Ascend.SpmmPreprocessCache
import DglAscend.Ascend.SpmmCacheRun
import DglAscend.Lib.Levels
import DglAscend.Bfs.Kernel
import DglAscend.Bfs.Traversal
import DglAscend.Bfs.KernelLevels
import DglAscend.Bfs.KernelRun
import DglAscend.Bfs.TraversalLevels
import DglAscend.Bfs.Frontiers
import DglAscend.Bfs.Workspace
import DglAscend.Bfs.WorkspaceBounds
import DglAscend.Bfs.WorkspaceFits
import DglAscend.Partition.NDArrayPartition
import DglAscend.Partition.Bijection
import DglAscend.Lib.Consecutive
import DglAscend.Partition.Book
import DglAscend.Partition.BookTables
import DglAscend.Partition.BookIds
import DglAscend.Partition.BookPartition
import DglAscend.Lib.CountingSort
import DglAscend.Lib.DisjointWrites
import DglAscend.Aten.SparseMatrix
import DglAscend.Aten.CooToCsr
import DglAscend.Aten.CooToCsrThreads
import DglAscend.Aten.Conversions
import DglAscend.Aten.CooToCsrWrites
import DglAscend.Aten.Slices
import DglAscend.Lib.StdAlgorithms
import DglAscend.Aten.Lookups
import DglAscend.Aten.NullData
import DglAscend.Aten.SortedFlags
import DglAscend.Graphbolt.ItemRanges
import DglAscend.Lib.Loops
import DglAscend.Ascend.UniformRow
import DglAscend.Hetero.Formats
import DglAscend.Lib.Placeholders
import DglAscend.Hetero.UnitGraph
import DglAscend.Hetero.Sharing
import DglAscend.Hetero.FormatRuns
import DglAscend.Hetero.Isolation
import DglAscend.Hetero.FormatsCoherent
import DglAscend.Hetero.Queries
import DglAscend.Hetero.EdgeLists
import DglAscend.Hetero.QueryAnswers
import DglAscend.Hetero.CooAnswers
import DglAscend.Hetero.QueriesByFormat
import DglAscend.Partition.ReassignEdges
import DglAscend.Partition.ReassignConsistent
import DglAscend.Ascend.UniformSegments
import DglAscend.Ascend.UniformBlocks
import DglAscend.Ascend.UniformScratch
import DglAscend.Ascend.UniformLaunches
import DglAscend.Ascend.UniformOverflow
import DglAscend.Lib.OpenAddressing
import DglAscend.Graphbolt.ConcurrentIdHashMap
import DglAscend.Graphbolt.IdHashMapProbes
import DglAscend.Graphbolt.IdHashMapInserts
import DglAscend.Graphbolt.IdHashMapLookups
import DglAscend.Graphbolt.UniqueIds
import DglAscend.Graphbolt.IdHashMapLimits
import DglAscend.Graphbolt.UniqueAndCompact
import DglAscend.Graph.MappingTable
import DglAscend.Graph.InsertRace
import DglAscend.Graphbolt.IdHashMapCover
import DglAscend.Ascend.ToBlockTable
import DglAscend.Graphbolt.WeightedPick
import DglAscend.Graphbolt.IndexSelectCsc
import DglAscend.Graphbolt.Cache.GhostQueue
import DglAscend.Graphbolt.Cache.PolicySimulation
import DglAscend.Graphbolt.Cache.S3FifoHistory
import DglAscend.Graphbolt.Cache.GhostKeys
import DglAscend.Graphbolt.OnDisk.EndlessReads
import DglAscend.Aten.GetDataAscend
import DglAscend.Aten.SliceRowsWrites
import DglAscend.Ascend.UnifiedBuffer
import DglAscend.Ascend.EdgeSoftmaxTiling
import DglAscend.Ascend.ScatterBudgets
import DglAscend.Lib.WeightedDraw
import DglAscend.Ascend.BiasedExact
import DglAscend.Ascend.WeightedRuns
import DglAscend.Traversal.TopologicalRun
import DglAscend.Ascend.UnaryNegationExact
import DglAscend.Aten.SliceMatrixAscend
import DglAscend.Hetero.HeteroGraph
import DglAscend.Hetero.Subgraphs
import DglAscend.Hetero.Flatten
import DglAscend.Graph.FusedExclusion
import DglAscend.Graph.EdgeExclusion
import DglAscend.Lib.RowMajor
import DglAscend.Ascend.Concat
import DglAscend.Ascend.ConcatSearch
import DglAscend.Ascend.ConcatChunks
import DglAscend.Ascend.ConcatCores
import DglAscend.Ascend.ConcatWrites
import DglAscend.Lib.Runs
import DglAscend.Aten.Coalesce
import DglAscend.Lib.Cursor
import DglAscend.Aten.Removal
import DglAscend.Aten.Simple
import DglAscend.Lib.StaticChunks
import DglAscend.Aten.SortedLookups
import DglAscend.Aten.CooSampling
import DglAscend.Lib.KWayMerge
import DglAscend.Aten.Union
import DglAscend.Lib.KeyedSums
import DglAscend.Aten.SumAndProduct
import DglAscend.Lib.SumTree
import DglAscend.Random.Choice
import DglAscend.Aten.EtypePicks
import DglAscend.Ascend.RowPartitions
import DglAscend.Network.MessageQueue
import DglAscend.Aten.DisjointUnion
import DglAscend.Random.TreeSampler
import DglAscend.Random.BiasedChoice
import DglAscend.Traversal.DepthFirst
import DglAscend.Lib.AliasTable
import DglAscend.Lib.ProportionalDraws
import DglAscend.Random.Proportions
import DglAscend.Random.RejectionSamplers
import DglAscend.Lib.Codec
import DglAscend.Serialize.Arrays
import DglAscend.Serialize.MetaGraph
import DglAscend.Serialize.UnitGraph
import DglAscend.Serialize.GraphFile
import DglAscend.Network.SocketReceiver
import DglAscend.Network.SocketDelivery
import DglAscend.Distributed.KVStore
import DglAscend.Distributed.KVPull
import DglAscend.Distributed.KVCluster
import DglAscend.Distributed.KVHistory
