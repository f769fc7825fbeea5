import LightStack.Accept
import LightStack.Arp
import LightStack.Cmd.Conservation
import LightStack.Cmd.Rounds
import LightStack.Conn.Bind.Atomic
import LightStack.Conn.HandOver
import LightStack.Conn.Reuse.Clean
import LightStack.Connect.Answer
import LightStack.Epoll.Calls.Level
import LightStack.Epoll.Calls.Stale
import LightStack.Epoll.Calls.Wait
import LightStack.Epoll.Close
import LightStack.Epoll.Fifo
import LightStack.Epoll.Late
import LightStack.Epoll.Members
import LightStack.Epoll.Records
import LightStack.Epoll.References
import LightStack.Epoll.Sleep
import LightStack.Epoll.Writable
import LightStack.Fd.Fork.Release
import LightStack.Fd.Resolution
import LightStack.Glue.Hangup
import LightStack.Ip.Reassembly
import LightStack.Libinit
import LightStack.Reply.Handshake
import LightStack.Rx.Eof.Completeness
import LightStack.Rx.Fionread
import LightStack.Rx.FlowControl
import LightStack.Rx.Handover.Exact
import LightStack.Rx.Handover.Partial
import LightStack.Rx.Recvfrom
import LightStack.Rx.Release.Batch
import LightStack.Rx.Release.Conservation
import LightStack.Rx.Vlan
import LightStack.Service.Rings.Typed
import LightStack.Shinfo
import LightStack.Sockopt
import LightStack.Tcp.Syncookies
import LightStack.Timing
import LightStack.Tx.Available
import LightStack.Tx.Close.Orderly
import LightStack.Tx.Datagram
import LightStack.Tx.Flow.Credit
import LightStack.Tx.Flow.Progress
import LightStack.Tx.Frame.Runs
import LightStack.Tx.Getfrag
import LightStack.Tx.Kick.Safety
import LightStack.Tx.Send.Failed
import LightStack.Tx.Send.Timeout
import LightStack.Tx.Skb.Balance
import LightStack.Tx.Skb.CopyBits
import LightStack.Tx.Skb.Expand
import LightStack.Tx.Udp
import LightStack.Vectored
import LightStack.Workers
import LightStack.Epoll.Readiness
