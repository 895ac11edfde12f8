import RecoNIC.PacketFilter.Steering
import RecoNIC.PacketFilter.Overload
import RecoNIC.Lookside.Framing
import RecoNIC.Lookside.WriteResponses
import RecoNIC.Lookside.CommandFifo
import RecoNIC.Lookside.ReadChannel
import RecoNIC.Lookside.Delivery
import RecoNIC.Lookside.WaitCompute
import RecoNIC.Lookside.StartHandshake
import RecoNIC.PacketParser.Transparent
import RecoNIC.PacketParser.Classification
import RecoNIC.Rdma.SendCompletion
import RecoNIC.Rdma.SendDepth
import RecoNIC.Rdma.BatchTermination
import RecoNIC.Rdma.ReceiveLayout
import RecoNIC.Rdma.Buffers
import RecoNIC.Driver.CdevCalls
import RecoNIC.Driver.StartXmit
import RecoNIC.Registers.PacketCounters
import RecoNIC.Registers.AxiLiteSlave
import RecoNIC.Top.PacketStatistics
import RecoNIC.Top.FilterErrors
import RecoNIC.Top.ReceiveFrontEnd
import RecoNIC.Rdma.WorkQueueEntry
import RecoNIC.Rdma.Windows
import RecoNIC.Rdma.Contiguity
import RecoNIC.Rdma.Teardown
import RecoNIC.Lookside.DenseMatrices
import RecoNIC.Rdma.GlobalConfig
import RecoNIC.Driver.OpenFailure
import RecoNIC.Driver.Probe
import RecoNIC.Rdma.Quiescence
import RecoNIC.Rdma.MemoryRegion
import RecoNIC.Driver.TransmitList
import RecoNIC.Driver.Receive
import RecoNIC.PacketMatcher.Requests
import RecoNIC.Driver.QueueActivity
import RecoNIC.Driver.TransmitPath
import RecoNIC.PacketBuffer.Delivery
import RecoNIC.PacketBuffer.GivenUp
import RecoNIC.HostPath.Completions
import RecoNIC.HostPath.RoutingProgress
import RecoNIC.HostPath.TransmitStatus
import RecoNIC.HostPath.SteeringProgress
import RecoNIC.HostPath.ReceivePath
import RecoNIC.PacketAdapter.Accounting
import RecoNIC.PacketAdapter.Transmit
import RecoNIC.PacketAdapter.PacketFifo
