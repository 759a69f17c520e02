import Ach.Channel.Answer
import Ach.Channel.Bounds
import Ach.Channel.Create
import Ach.Channel.Delivery
import Ach.Channel.Discipline
import Ach.Channel.Divisors
import Ach.Channel.Evict
import Ach.Channel.Flush
import Ach.Channel.Frame
import Ach.Channel.Get
import Ach.Channel.GetSpec
import Ach.Channel.History
import Ach.Channel.Invariant
import Ach.Channel.Layout
import Ach.Channel.Lock
import Ach.Channel.Put
import Ach.Channel.PutSpec
import Ach.Channel.Reach
import Ach.Channel.Runs
import Ach.Channel.Types
import Ach.Channel.WriterDeath
import Ach.Cop.Loop
import Ach.Cop.Supervision
import Ach.Daemon.Block
import Ach.Daemon.Carry
import Ach.Daemon.Divisors
import Ach.Daemon.ErrorReply
import Ach.Daemon.Geometry
import Ach.Daemon.Headers
import Ach.Daemon.Hosts
import Ach.Daemon.Io
import Ach.Daemon.Pipe
import Ach.Daemon.Pull
import Ach.Daemon.Push
import Ach.Daemon.Readline
import Ach.Daemon.Reconnect
import Ach.Daemon.Relay
import Ach.Daemon.Request
import Ach.Daemon.Resize
import Ach.Daemon.Udp
import Ach.Daemon.UdpPoll
import Ach.Daemon.UdpSend
import Ach.Daemon.Write
import Ach.Lib.Divide
import Ach.Lib.Framing
import Ach.Lib.Interleave
import Ach.Lib.Loop
import Ach.Lib.Regex
import Ach.Lib.Replace
import Ach.Lib.Ring
import Ach.Lib.Run
import Ach.Lib.Suffix
import Ach.Lib.Text
import Ach.Lib.Tiling
import Ach.Lib.Word
import Ach.Pipe.Subscribe
import Ach.Shm.Contract
import Ach.Shm.Machine
import Ach.Shm.Names
import Ach.Spin.Abstract
import Ach.Spin.Check
import Ach.Spin.Get
import Ach.Spin.Model
import Ach.Spin.Put
import Ach.Spin.Safety
import Ach.Sync.Atomic
import Ach.Sync.Contract
import Ach.Sync.Linearize
import Ach.Sync.Lockset
import Ach.Sync.Machine
import Ach.Sync.ReaderDeath
import Ach.Sync.Solo
import Ach.Sync.Wakeup
