import JMEngine.Lib.Bytes
import JMEngine.Lib.Framing
import JMEngine.Lib.Runs
import JMEngine.Net.Message
import JMEngine.Net.ReadBuffer
import JMEngine.Net.Drain
import JMEngine.Net.Reader
import JMEngine.Net.Progress
import JMEngine.Net.TcpSession
import JMEngine.Net.WriteBuffer
import JMEngine.Net.HandleRead
import JMEngine.Net.Link
import JMEngine.Net.Client
import JMEngine.Net.Connection
import JMEngine.Net.Streams
import JMEngine.Net.Outgoing
import JMEngine.Net.WriteSteps
import JMEngine.Rpc.Client
import JMEngine.Rpc.Numbers
import JMEngine.Rpc.Timeout
import JMEngine.Rpc.Refused
import JMEngine.Rpc.System
import JMEngine.Db.Pool
import JMEngine.Net.Wakeup
import JMEngine.Net.Lifecycle
import JMEngine.Net.Stop
import JMEngine.Net.Alive
import JMEngine.Rpc.Malformed
import JMEngine.Rpc.Wrapping
import JMEngine.Net.UdpSession
import JMEngine.Lib.Groups
import JMEngine.Log.GLog
import JMEngine.Log.Files
import JMEngine.Log.Lines
import JMEngine.Encrypt.BlowFish
import JMEngine.Lib.Transducer
import JMEngine.Encrypt.Reference
import JMEngine.Encrypt.Blocks
import JMEngine.Encrypt.Modes
import JMEngine.Encrypt.Static
import JMEngine.Lib.Utf8
import JMEngine.Tools.StringLength
import JMEngine.Net.Retry
import JMEngine.Net.Settings
import JMEngine.Rpc.Create
import JMEngine.Net.UdpSend
import JMEngine.Net.UdpLoop
import JMEngine.Log.Select
import JMEngine.Net.Conserve
import JMEngine.Net.Compaction
import JMEngine.Tools.StringReads
import JMEngine.Game.Random
import JMEngine.Lib.DoubleByte
import JMEngine.Tools.Convert
import JMEngine.Tools.ToUtf8
import JMEngine.Tools.ToGb
import JMEngine.Json.Reader
import JMEngine.Lib.TokenMachine
import JMEngine.Json.Machine
import JMEngine.Json.Join
import JMEngine.Json.Load
import JMEngine.Json.Layout
import JMEngine.Json.Writer
import JMEngine.Json.Spell
import JMEngine.Json.Compare
import JMEngine.Json.Written
import JMEngine.Json.Styled
import JMEngine.Lib.Simulation
import JMEngine.Net.Duplex
import JMEngine.Net.TaskThread
import JMEngine.Net.TaskPosts
import JMEngine.Rpc.Wire
import JMEngine.Lib.DoublyLinked
import JMEngine.Memory.ThreadCache
import JMEngine.Lib.Ownership
import JMEngine.Memory.Pool
import JMEngine.Memory.Owners
import JMEngine.Memory.Requests
import JMEngine.Json.Node
import JMEngine.Json.Order
import JMEngine.Json.Elements
import JMEngine.Json.Members
import JMEngine.Json.Path
