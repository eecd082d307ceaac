import Ccb.Machine
import Ccb.Chain
import Ccb.Filepath
import Ccb.Text
import Ccb.Broker
import Ccb.BrokerEffect
import Ccb.BrokerRoute
import Ccb.BrokerResult
import Ccb.BrokerProxy
import Ccb.BrokerProxyInv
import Ccb.BrokerRendezvous
import Ccb.Store
import Ccb.Site
import Ccb.Flushed
import Ccb.Overlay
import Ccb.WriteBehind
import Ccb.Agreement
import Ccb.Ownership
import Ccb.Retention
import Ccb.Outbound
import Ccb.Egress
import Ccb.Upstream
import Ccb.Route
import Ccb.Mux
import Ccb.Bytes
import Ccb.Frame
import Ccb.SegReader
import Ccb.SegReopen
import Ccb.Conn
import Ccb.ConnSteps
import Ccb.ConnCore
import Ccb.Pipe
import Ccb.Stream
import Ccb.Flow
import Ccb.SegLog
import Ccb.SegRead
import Ccb.Codec
import Ccb.Tail
import Ccb.SegRefine
import Ccb.PipeRefine
import Ccb.Fidelity
import Ccb.SegWrap
import Ccb.Window
import Ccb.WakeUp
import Ccb.Reap
import Ccb.EmitFail
import Ccb.Backlog
import Ccb.EndOfStream
import Ccb.SegNext
import Ccb.SegForm
import Ccb.Stall
import Ccb.Tunnel
import Ccb.Reengage
import Ccb.Listener
import Ccb.ListenerEffect
import Ccb.Discovery
import Ccb.Inbox
import Ccb.Channel
import Ccb.Splice
import Ccb.SpliceEnd
import Ccb.Flush
import Ccb.Crc
import Ccb.Corrupt
import Ccb.BrokerWire
import Ccb.BrokerTables
import Ccb.PipeChannel
import Ccb.CarrierListener
import Ccb.CarrierAuth
import Ccb.CarrierClose
import Ccb.Timed
import Ccb.Keepalive
import Ccb.Silence
import Ccb.Bearer
import Ccb.CarrierClient
