import RocketMQ.Lib.Machine
import RocketMQ.Lib.Text
import RocketMQ.Message
import RocketMQ.Naming
import RocketMQ.Push.Row
import RocketMQ.Lib.Decimal
import RocketMQ.Push.Tasks
import RocketMQ.Push.System
import RocketMQ.Lib.Assoc
import RocketMQ.Push.Queue
import RocketMQ.Push.Refinement
import RocketMQ.Push.Ownership
import RocketMQ.Push.Cursor
import RocketMQ.Push.Generation
import RocketMQ.Push.Line
import RocketMQ.Push.Settled
import RocketMQ.Push.Offset
import RocketMQ.Push.ManualCommit
import RocketMQ.Push.Lock
import RocketMQ.Push.Orderly
import RocketMQ.Push.Exhausted
import RocketMQ.Push.Identity
import RocketMQ.Rebalance.Round
import RocketMQ.Pop.CheckPoint
import RocketMQ.Pop.Answer
import RocketMQ.Pop.Debt
import RocketMQ.LocalOffsets.Crash
import RocketMQ.Lite.System
import RocketMQ.Lite.Buffer
import RocketMQ.Lib.InLine
import RocketMQ.Lite.Fence
import RocketMQ.Lite.Seek
import RocketMQ.Producer.BatchResult
import RocketMQ.Lib.Pool
import RocketMQ.Producer.Accumulator
import RocketMQ.Producer.Sections
import RocketMQ.Producer.HoldSize
import RocketMQ.Producer.Placement
import RocketMQ.Producer.Progress
import RocketMQ.Producer.ExactlyOnce
import RocketMQ.Producer.AsyncSend
import RocketMQ.Producer.AsyncRetry
import RocketMQ.Producer.AsyncCompletion
import RocketMQ.Lib.Utf8
import RocketMQ.Remoting.FastJson
import RocketMQ.Remoting.Dialect
import RocketMQ.Remoting.Spelling
import RocketMQ.Lib.Binary
import RocketMQ.Remoting.Buffer
import RocketMQ.Remoting.Command
import RocketMQ.Remoting.Frame
import RocketMQ.Remoting.RoundTrip
import RocketMQ.MessageDecoder.Fields
import RocketMQ.MessageDecoder.StoreFrame
import RocketMQ.MessageDecoder.StoreRoundTrip
import RocketMQ.MessageDecoder.Lengths
import RocketMQ.Remoting.Client
import RocketMQ.Remoting.Sections
import RocketMQ.Remoting.Invocation
import RocketMQ.Remoting.ConnectionLoss
import RocketMQ.Remoting.Isolation
import RocketMQ.Remoting.Pairing
import RocketMQ.Remoting.Shutdown
import RocketMQ.MessageDecoder.Stream
import RocketMQ.Remoting.Signature
import RocketMQ.Route.Data
import RocketMQ.Route.Refresh
import RocketMQ.Heartbeat
import RocketMQ.Lib.Shares
import RocketMQ.Rebalance.ConsistentHash
import RocketMQ.Rebalance.Strategies
import RocketMQ.Rebalance.Nearby
import RocketMQ.PullSchedule.Rounds
import RocketMQ.PullSchedule.Coverage
import RocketMQ.Lib.Outcome
import RocketMQ.Compress.Xxh32
import RocketMQ.Compress.Lz4Block
import RocketMQ.Compress.Lz4Sequences
import RocketMQ.Compress.Lz4Frame
import RocketMQ.Compress.ZstdBits
import RocketMQ.Lib.Cycle
import RocketMQ.Compress.ZstdFse
import RocketMQ.Compress.ZstdFseTable
import RocketMQ.Compress.ZstdFseSpread
import RocketMQ.Compress.ZstdHuffman
import RocketMQ.Compress.ZstdHuffmanTable
import RocketMQ.Compress.Xxh64
import RocketMQ.Compress.ZstdSequences
import RocketMQ.Compress.ZstdLiterals
import RocketMQ.Compress.ZstdFrame
import RocketMQ.Pop.BackOff
import RocketMQ.Lite.Accounting
import RocketMQ.Pop.BatchAck
import RocketMQ.Remoting.TlsReader
import RocketMQ.Compress.NodeXxh32
import RocketMQ.Producer.SyncSend
import RocketMQ.Producer.RequestReply
