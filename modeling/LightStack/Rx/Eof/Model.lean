import LightStack.Rx.DataAvailable
import LightStack.Rx.Recv.Model

/-!
# Payload, FIN and the ready lists of one connection

`process_rx_ready_sockets` treats the closed list first and purges `sk_receive_queue`.
-/

namespace LightStack.Rx.Eof

open Lib

variable {cap : Nat}

abbrev Segment := { m : Mbuf // m.WellFormed }

def segmentBytes (segs : List Segment) : List UInt8 := segs.flatMap fun m => m.val.data

def chainOf : List Segment → Option RxChain
  | [] => none
  | m :: rest =>
    some {
      head := { m.val with
        pktLen := toUInt32 (segmentBytes (m :: rest)).length }
      next := rest.map Subtype.val
      wellFormed := by
        intro x hx
        rcases List.mem_cons.mp hx with rfl | hx
        · exact ⟨m.property.pos, m.property.within, m.property.small⟩
        · obtain ⟨y, _, rfl⟩ := List.mem_map.mp hx
          exact y.property }

/-- Between two calls, in `user_on_socket_fatal`, before `kernel_close`, at the read list, or in
`user_data_available_cbk` before it reads the free slots and before it submits. -/
inductive StackPc where
  | idle
  | fatal
  | kernelClose
  | readList
  | count
  | submit (ringFree : Nat)
  deriving DecidableEq

structure State (cap : Nat) where
  sock : Recv.Sock cap
  receiveQueue : List Segment
  ucopy : List Segment
  fin : Bool
  closedQueuePresent : Bool
  readQueuePresent : Bool
  stack : StackPc
  received : List UInt8

def State.pending (s : State cap) : List Segment := s.ucopy ++ s.receiveQueue

def State.backlog (s : State cap) : List RxChain := (chainOf s.pending).toList

inductive Action where
  | app (a : Recv.AppAction)
  | segment (m : Segment) (direct : Bool)
  | fin
  | round
  | rxKick
  | stack

def receiveSegment (s : State cap) (m : Segment) (direct : Bool) : State cap :=
  let copy := direct && s.receiveQueue.isEmpty
  { s with
    ucopy := if copy then s.ucopy ++ [m] else s.ucopy
    receiveQueue := if copy then s.receiveQueue else s.receiveQueue ++ [m]
    readQueuePresent := true
    received := s.received ++ m.val.data }

def submitPending (s : State cap) (ringFree : Nat) : State cap :=
  let h := DataAvailable.submitLoop ringFree s.sock.rxRing [] s.backlog
  if h.obtained = [] then { s with stack := .idle }
  else { s with
    sock := { s.sock with rxRing := h.ring }
    receiveQueue := []
    ucopy := []
    stack := .idle }

def stackStep (s : State cap) : Option (State cap) :=
  match s.stack with
  | .idle => none
  | .fatal =>
    some { s with
      sock := { s.sock with signal := if s.fin then 3 else 4 }
      stack := .kernelClose }
  | .kernelClose =>
    some { s with
      receiveQueue := []
      closedQueuePresent := false
      stack := .readList }
  | .readList =>
    if s.readQueuePresent then
      some { s with readQueuePresent := false, stack := .count }
    else some { s with stack := .idle }
  | .count =>
    if 0 < s.sock.rxRing.freeCount then
      some { s with stack := .submit s.sock.rxRing.freeCount }
    else some { s with stack := .idle }
  | .submit ringFree => some (submitPending s ringFree)

def step (s : State cap) : Action → Option (State cap)
  | .app a => (Recv.appStep s.sock a).map fun sock => { s with sock := sock }
  | .segment m direct =>
    if s.stack = .idle ∧ s.fin = false then some (receiveSegment s m direct)
    else none
  | .fin =>
    if s.stack = .idle ∧ s.fin = false then
      some { s with
        fin := true
        closedQueuePresent := true
        readQueuePresent := true }
    else none
  | .round =>
    if s.stack = .idle then
      some { s with
        stack := if s.closedQueuePresent then .fatal else .readList }
    else none
  | .rxKick =>
    if s.stack = .idle ∧ 0 < s.sock.rxKicks then
      some { s with
        sock := { s.sock with rxKicks := s.sock.rxKicks - 1 }
        stack := .count }
    else none
  | .stack => stackStep s

def start : State cap :=
  { sock := Recv.Sock.fresh, receiveQueue := [], ucopy := [], fin := false,
    closedQueuePresent := false, readQueuePresent := false, stack := .idle,
    received := [] }

def eofSystem (cap : Nat) : TransitionSystem (State cap) Action where
  init s := s = start
  step := step

end LightStack.Rx.Eof
