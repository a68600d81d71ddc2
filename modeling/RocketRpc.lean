import RocketRpc.Lib.StreamScan
import RocketRpc.Lib.Codec
import RocketRpc.Lib.Machine
import RocketRpc.Lib.Storage
import RocketRpc.Tcp.TcpBuffer
import RocketRpc.Coder.TinyPBCoder
import RocketRpc.Coder.Decoding
import RocketRpc.Coder.Contract
import RocketRpc.Lib.Deadlines
import RocketRpc.Timer.TimingWheel
import RocketRpc.Timer.WheelEntries
import RocketRpc.Timer.WheelRun
import RocketRpc.Timer.OnTime
import RocketRpc.Timer.ExactlyOnce
import RocketRpc.Lib.Gate
import RocketRpc.Rpc.RpcChannel
import RocketRpc.Rpc.CompletionGate
import RocketRpc.Net.TcpConnection
import RocketRpc.Net.ConnectionSteps
import RocketRpc.Net.OutputStream
import RocketRpc.Net.Delivery
import RocketRpc.Lib.LinkedChain
import RocketRpc.Mpsc.MpscQueue
import RocketRpc.Mpsc.QueueOrder
import RocketRpc.Mpsc.WriteQueue
import RocketRpc.Mpsc.DrainArming
import RocketRpc.Net.ArmedOutput
import RocketRpc.Net.MessageAccount
import RocketRpc.Net.GracefulClose
import RocketRpc.Common.ThreadPool
import RocketRpc.Common.PoolDrain
import RocketRpc.Common.LogRotation
import RocketRpc.Rpc.Coroutine
import RocketRpc.Lib.Tally
import RocketRpc.Rpc.RpcDispatcher
import RocketRpc.Rpc.ResponseOnce
import RocketRpc.Rpc.InFlightWork
import RocketRpc.Common.LogOrder
import RocketRpc.Common.LogStop
import RocketRpc.Net.CloseCallback
import RocketRpc.Net.ConnectionSet
import RocketRpc.Rpc.RpcServer
import RocketRpc.Rpc.StartStop
import RocketRpc.Rpc.FinisherWrites
import RocketRpc.Rpc.ErrorPropagation
import RocketRpc.Rpc.BlockingResult
import RocketRpc.Net.RequestSync
import RocketRpc.Rpc.InitHandOff
import RocketRpc.Rpc.ResponseMatching
import RocketRpc.Rpc.PoolSteps
import RocketRpc.Rpc.LiveClients
import RocketRpc.Rpc.PoolAccounting
import RocketRpc.Rpc.PoolClients
import RocketRpc.Rpc.LoopWaits
import RocketRpc.Rpc.PoolCalls
import RocketRpc.Rpc.LoopLifetime
import RocketRpc.Rpc.ShutdownCalls
import RocketRpc.Net.Lifecycle
import RocketRpc.Net.HalfClose
import RocketRpc.Net.QueueAttended
import RocketRpc.Net.SendPaths
import RocketRpc.Loop.EventLoop
import RocketRpc.Loop.TaskQueue
import RocketRpc.Loop.StopDrain
import RocketRpc.Loop.PollTimeout
import RocketRpc.Tcp.ByteDeque
import RocketRpc.Tcp.BoundedBuffer
import RocketRpc.Net.ReceivePath
import RocketRpc.Coder.RawEncoding
import RocketRpc.Coder.CheckedDecoding
import RocketRpc.Mpsc.PopAll
import RocketRpc.Loop.WaitBound
import RocketRpc.Lib.PowerOfTwo
import RocketRpc.Common.SpscQueue
import RocketRpc.Common.SpscOrder
import RocketRpc.Common.MsgIdUtil
import RocketRpc.Lib.Numeral
import RocketRpc.Lib.Counter
import RocketRpc.Common.MsgIdSequence
import RocketRpc.Rpc.ReadCallbacks
import RocketRpc.Rpc.ReadTable
import RocketRpc.Net.RequestEcho
import RocketRpc.Net.RequestMatching
import RocketRpc.Lib.Base64
import RocketRpc.Lib.TextSearch
import RocketRpc.Tcp.NetAddr
import RocketRpc.Common.EtcdRegistry
import RocketRpc.Common.EtcdAnswer
import RocketRpc.Lib.PrefixOrder
import RocketRpc.Common.RangeEnd
import RocketRpc.Common.ServiceDiscovery
import RocketRpc.Rpc.FindAddr
import RocketRpc.Common.LeaseLoop
import RocketRpc.Rpc.RoundRobin
import RocketRpc.Rpc.CoroutineCalls
import RocketRpc.Net.EPollPoller
import RocketRpc.Net.PolledConnections
import RocketRpc.Common.LogArgs
import RocketRpc.Common.DeferredArgs
import RocketRpc.Net.HighWaterMark
import RocketRpc.Lib.Agenda
import RocketRpc.Timer.Insertions
import RocketRpc.Timer.ExpiryOrder
import RocketRpc.Lib.ShiftRegister
import RocketRpc.Coder.Checksum
import RocketRpc.Lib.Framing
import RocketRpc.Net.MessagePipe
import RocketRpc.Rpc.Conversation
import RocketRpc.Rpc.ConversationRuns
import RocketRpc.Lib.Simulation
import RocketRpc.Net.KqueuePoller
import RocketRpc.Net.PollerAgreement
import RocketRpc.Lib.Ledger
import RocketRpc.Net.TcpAcceptor
import RocketRpc.Lib.FreeLists
import RocketRpc.Mpsc.NodePool
import RocketRpc.Loop.PipeWakeup
import RocketRpc.Net.ConnectSync
import RocketRpc.Net.ConnectRuns
import RocketRpc.Lib.Link
import RocketRpc.Net.CloseReasons
import RocketRpc.Net.StreamEnds
import RocketRpc.Net.ConnectionPair
import RocketRpc.Net.GracefulEnd
