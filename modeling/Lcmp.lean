import Lcmp.Lib.Transition
import Lcmp.Lib.Grid
import Lcmp.Lib.Segments
import Lcmp.Lib.Sweep
import Lcmp.Lib.Walk
import Lcmp.Lib.WrappedQuotient
import Lcmp.Lib.Words
import Lcmp.Lib.Toggle
import Lcmp.Lib.EventQueue
import Lcmp.Lib.BreadthFirst
import Lcmp.Lib.LabelledSearch
import Lcmp.Lib.Smoothing
import Lcmp.Lib.Rank
import Lcmp.Lib.RoundRobin
import Lcmp.Lib.Bytes
import Lcmp.Lib.Text
import Lcmp.Lib.Blocks
import Lcmp.Lib.Extraction
import Lcmp.Lib.Extended
import Lcmp.Lib.Floats
import Lcmp.Lib.While
import Lcmp.Lib.Polyline
import Lcmp.Lib.MinQueue
import Lcmp.Mmu.Code
import Lcmp.Mmu.Accounting
import Lcmp.Mmu.Config
import Lcmp.Mmu.Admission
import Lcmp.Mmu.Hysteresis
import Lcmp.Routing.Header
import Lcmp.Routing.Cost
import Lcmp.Routing.CandidateOrder
import Lcmp.Routing.Congestion
import Lcmp.Routing.CostBounds
import Lcmp.Routing.DciSwitch
import Lcmp.Routing.Selection
import Lcmp.Routing.NextHop
import Lcmp.Routing.Affinity
import Lcmp.Routing.Ucmp
import Lcmp.Routing.Topology
import Lcmp.Routing.RouteSearch
import Lcmp.Routing.ShortestPath
import Lcmp.Routing.Candidates
import Lcmp.Transport.QueuePair
import Lcmp.Transport.VarWindow
import Lcmp.Transport.RdmaHw
import Lcmp.Transport.Network
import Lcmp.Transport.Fifo
import Lcmp.Transport.Window
import Lcmp.Transport.Lossless
import Lcmp.Transport.Acknowledgement
import Lcmp.Nic.EgressQueue
import Lcmp.Nic.Device
import Lcmp.Nic.Wakeup
import Lcmp.Nic.Scheduler
import Lcmp.Nic.Fairness
import Lcmp.Nic.Groups
import Lcmp.Routing.PathMetrics
import Lcmp.Driver.Reference
import Lcmp.Driver.IdealFct
import Lcmp.Driver.FlowNet
import Lcmp.Driver.Identity
import Lcmp.Driver.FlowReader
import Lcmp.Driver.FlowSchedule
import Lcmp.Switch.EgressQueue
import Lcmp.Switch.EgressFifo
import Lcmp.Switch.Node
import Lcmp.Switch.Steps
import Lcmp.Switch.Conservation
import Lcmp.Switch.Pfc
import Lcmp.Switch.Headroom
import Lcmp.Switch.Reentrancy
import Lcmp.Congestion.DataRate
import Lcmp.Congestion.QueuePair
import Lcmp.Congestion.Dcqcn
import Lcmp.Congestion.Feedback
import Lcmp.Congestion.Host
import Lcmp.Congestion.TimerLife
import Lcmp.Congestion.Range
import Lcmp.Congestion.RoundTrip
import Lcmp.Wire.Headers
import Lcmp.Wire.CustomHeader
import Lcmp.Wire.Telemetry
import Lcmp.Wire.InPlace
import Lcmp.Wire.FullHeader
import Lcmp.Wire.FullRoundTrip
import Lcmp.Traffic.CustomRand
import Lcmp.Traffic.FlowBins
import Lcmp.Traffic.InterDc
import Lcmp.Traffic.ScheduleFile
import Lcmp.Traffic.Schedule
import Lcmp.Analysis.LinkUtilization
import Lcmp.Analysis.Fct
import Lcmp.Lib.Pipeline
import Lcmp.Network.Switch
import Lcmp.Network.Fabric
import Lcmp.Network.Stages
import Lcmp.Network.Line
import Lcmp.Network.Settle
import Lcmp.Network.Order
import Lcmp.Network.Components
import Lcmp.Network.HostedFlow
import Lcmp.Network.Delivery
import Lcmp.Network.Completion
import Lcmp.Lib.Serial
import Lcmp.Switch.TimedLink
import Lcmp.Switch.TimedHeadroom
import Lcmp.Switch.LinkHeadroom
import Lcmp.Wire.Echo
import Lcmp.Lib.Mixing
import Lcmp.Routing.Spread
import Lcmp.Lib.Chase
import Lcmp.Congestion.Pending
import Lcmp.Congestion.Recovery
import Lcmp.Network.FlowControl
import Lcmp.Driver.Links
