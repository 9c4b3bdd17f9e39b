import SplitNN.Shared.Dict
import SplitNN.Shared.Multigraph
import SplitNN.Coordinator.Topology
import SplitNN.Coordinator.SubTopology
import SplitNN.Coordinator.SubTopologySplit
import SplitNN.Shared.Text
import SplitNN.Agent.Graph
import SplitNN.Agent.TopoLoader
import SplitNN.Coordinator.SubTopologyText
import SplitNN.Shared.Heap
import SplitNN.System.SubTopologyRoundTrip
import SplitNN.Agent.PriorityQueue
import SplitNN.Agent.Plan
import SplitNN.Agent.Planner
import SplitNN.Agent.PlanCoverage
import SplitNN.Agent.NetworkSetup
import SplitNN.Agent.NamespaceBalance
import SplitNN.Coordinator.PartitionPm
import SplitNN.Coordinator.PartitionVm
import SplitNN.Coordinator.PartitionStats
import SplitNN.Agent.ThreadPool
import SplitNN.Agent.ParallelSetup
import SplitNN.Coordinator.DanglingIds
import SplitNN.Coordinator.TopoFilename
import SplitNN.Shared.RunningMax
import SplitNN.Shared.Monadic
import SplitNN.Shared.Arithmetic
import SplitNN.Shared.Binary64
import SplitNN.Shared.PyNumber
import SplitNN.Coordinator.VmAllocation
import SplitNN.Coordinator.BbnsNum
import SplitNN.System.BackboneNumber
import SplitNN.Coordinator.ExpandTopology
import SplitNN.Coordinator.ExpandReach
import SplitNN.Shared.Peeling
import SplitNN.Coordinator.PruneTopology
import SplitNN.Coordinator.TopoGenerators
import SplitNN.Coordinator.TopoStatistics
import SplitNN.Shared.CText
import SplitNN.Agent.Goctr
import SplitNN.Agent.GoctrManager
import SplitNN.Agent.ContainerRun
import SplitNN.Shared.HeapOrder
import SplitNN.Shared.Greedy
import SplitNN.Agent.QueueOrder
import SplitNN.Agent.GreedyOrder
import SplitNN.Agent.TopoMeaning
import SplitNN.Agent.LookupSafety
import SplitNN.Agent.BestStart
import SplitNN.Coordinator.ReadTopoFile
import SplitNN.Coordinator.PlanningErrors
import SplitNN.Coordinator.PlanningDefined
import SplitNN.Agent.CctrManager
import SplitNN.Shared.Decimal
import SplitNN.Agent.NtlBr
import SplitNN.Agent.DeviceNames
import SplitNN.Agent.ParallelLinks
import SplitNN.Coordinator.TrieTopology
import SplitNN.Coordinator.GridTopology
import SplitNN.Coordinator.ClosTopology
import SplitNN.Agent.Measure
import SplitNN.Coordinator.FmtConvert
import SplitNN.Coordinator.PartitionTbs
import SplitNN.Coordinator.TopoFileGraph
import SplitNN.Coordinator.MetisConverters
import SplitNN.Coordinator.ComputeTdf
import SplitNN.Coordinator.TbsRetries
import SplitNN.Agent.QueueRuns
import SplitNN.Shared.RelyGuarantee
import SplitNN.Agent.LinkThreads
import SplitNN.System.Deployment
import SplitNN.Agent.LinkRecovery
import SplitNN.Shared.Flags
import SplitNN.Agent.Args
import SplitNN.Coordinator.AgentCommands
import SplitNN.System.CommandLine
import SplitNN.Coordinator.TopoFileRoundTrip
import SplitNN.Coordinator.AsData
import SplitNN.Coordinator.ExpandLinks
import SplitNN.Coordinator.GeneratedTopology
import SplitNN.Coordinator.CrossPm
