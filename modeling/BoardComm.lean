import BoardComm.AckReturn
import BoardComm.Acknowledgement
import BoardComm.BridgeNetwork
import BoardComm.BroadcastWalk
import BoardComm.BusTransports
import BoardComm.ByteLayout
import BoardComm.CBuffer
import BoardComm.CheckedAccess
import BoardComm.ClientChunks
import BoardComm.ClientDelivery
import BoardComm.ClientDraining
import BoardComm.ClientFanout
import BoardComm.ClientIngestion
import BoardComm.ClientLifetime
import BoardComm.ClientManager
import BoardComm.ClientParsing
import BoardComm.ClientReading
import BoardComm.ClientRoundTrip
import BoardComm.ClientSdk
import BoardComm.ClientStreams
import BoardComm.ClientTurns
import BoardComm.ClientTxQueue
import BoardComm.Compaction
import BoardComm.Config
import BoardComm.ConfigComments
import BoardComm.ConfigDirectives
import BoardComm.Crc32
import BoardComm.CyclicBuffer
import BoardComm.DescriptorTable
import BoardComm.FileAgreement
import BoardComm.FileCleanup
import BoardComm.FileDelivery
import BoardComm.FileParties
import BoardComm.FileReceiver
import BoardComm.FileRecovery
import BoardComm.FileRetransmission
import BoardComm.FileTransfer
import BoardComm.Fragment
import BoardComm.FragmentTransparency
import BoardComm.FrameAgreement
import BoardComm.FrameChecksum
import BoardComm.Framing
import BoardComm.Ikcp
import BoardComm.IkcpFlush
import BoardComm.IkcpInput
import BoardComm.IkcpLink
import BoardComm.IkcpMessages
import BoardComm.IkcpRecovery
import BoardComm.IkcpSending
import BoardComm.IkcpSession
import BoardComm.IkcpSides
import BoardComm.IkcpWire
import BoardComm.InboundCounters
import BoardComm.IpcFrames
import BoardComm.IpcProtocol
import BoardComm.KcpChannel
import BoardComm.KcpDaemons
import BoardComm.KcpRefinement
import BoardComm.KcpTransport
import BoardComm.Linearization
import BoardComm.MessageBus
import BoardComm.MessageInbound
import BoardComm.MessageWalk
import BoardComm.NoBridge
import BoardComm.NoisyFraming
import BoardComm.PayloadNoise
import BoardComm.PieceArrival
import BoardComm.Protocol
import BoardComm.ProtocolRoundTrip
import BoardComm.PublishOutcome
import BoardComm.PublishedFlags
import BoardComm.Reactor
import BoardComm.ReadAccess
import BoardComm.ReadingInStep
import BoardComm.Reassembly
import BoardComm.ReassemblyBounds
import BoardComm.ReassemblySlots
import BoardComm.ReconnectDelay
import BoardComm.RingAccess
import BoardComm.RingKicks
import BoardComm.RouteChoice
import BoardComm.Router
import BoardComm.Runs
import BoardComm.Scan
import BoardComm.SdkDescriptors
import BoardComm.SdkStream
import BoardComm.SelectiveRepeat
import BoardComm.SendQueue
import BoardComm.SequenceNumbers
import BoardComm.SerialNumbers
import BoardComm.ShiftRegister
import BoardComm.ShmRing
import BoardComm.ShmThreads
import BoardComm.SlidingWindow
import BoardComm.StartMetadata
import BoardComm.StatsReply
import BoardComm.SubscriptionRepeats
import BoardComm.SubscriptionTable
import BoardComm.TcpConnections
import BoardComm.TcpEvents
import BoardComm.TcpReconnect
import BoardComm.TcpTransport
import BoardComm.TokenWalk
import BoardComm.TransportEvents
import BoardComm.TransportFraming
import BoardComm.TransportIo
import BoardComm.TransportSendQueue
import BoardComm.Types
import BoardComm.UartDirection
import BoardComm.UartPeriods
import BoardComm.UartReopen
import BoardComm.UartTransport
import BoardComm.UdpTransport
