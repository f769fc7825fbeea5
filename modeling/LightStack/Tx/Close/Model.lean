import LightStack.Tx.Send.Order

/-!
# Closing a connection that still has buffers to send

`owed` records the buffers enqueued while TCP would still take them, `discarded` those freed when
the ring was flushed.  The satellite entry keeps its pointer when the peer has closed the connection
and its `struct socket` is freed.  Once that memory is used again the commands of the index meet the
socket of another one, and those of another index can meet the socket of this one.
-/

namespace LightStack.Tx.Close

open Lib Tx.Send

inductive Command where
  | txKick
  | close
  | shutdown (how : Int)
  deriving DecidableEq

structure State where
  sock : Sock
  commands : Ring Command 32767
  attached : Bool
  linked : Bool
  closedQueue : Bool
  reset : Bool
  crashed : Bool
  owed : List Buffer
  discarded : List Buffer

def State.Open (s : State) : Prop := s.attached ∧ s.sock.sendShutdown = false

instance (s : State) : Decidable s.Open := inferInstanceAs (Decidable (_ ∧ _))

def userFlushTx (s : State) : State :=
  { s with
    sock := { s.sock with txRing := Ring.empty }
    discarded := s.discarded ++ s.sock.txRing.items }

def tcpClose (sock : Sock) (unread : Bool) : Sock :=
  { sock with
    sendShutdown := true
    hasSocket := false
    state :=
      if sock.state = .closed ∨ sock.state = .connecting ∨ unread then .closed
      else .closing }

def shutdownState (state : TcpState) (how : Int) : TcpState :=
  if how ≠ 0 ∧ how ≠ 1 ∧ how ≠ 2 then state
  else if state = .connecting ∨ state = .closed then .closed
  else if how = 0 then state
  else .closing

def inetShutdown (sock : Sock) (how : Int) : Sock :=
  { sock with
    sendShutdown := sock.sendShutdown || ((how = 1 || how = 2) && sock.state ≠ .connecting)
    state := shutdownState sock.state how }

def skStateChange (s : State) : State :=
  { s with
    closedQueue := s.closedQueue || (s.sock.hasSocket &&
      (s.sock.state = .closeWait || s.sock.state = .closed)) }

def closeSocket (s : State) (unread : Bool) : State :=
  { userFlushTx s with
    sock := tcpClose (userFlushTx s).sock unread
    closedQueue := false
    linked := false }

/-- What a command does to the connection whose socket it meets. -/
def meet (s : State) (unread : Bool) : Command → State
  | .txKick => { s with sock := userOnTransmissionOpportunity s.sock }
  | .close => closeSocket s unread
  | .shutdown how =>
    if how = 2 then closeSocket s unread
    else if how = 1 then
      skStateChange { userFlushTx s with
        sock := inetShutdown (userFlushTx s).sock how }
    else skStateChange { s with sock := inetShutdown s.sock how }

def Command.closes (c : Command) : Bool := c = .close || c = .shutdown 2

/-- After `how` 2 the stack uses the pointer it has just set to NULL. -/
def processCommand (s : State) (unread : Bool) (c : Command) : State :=
  if s.attached then
    { (if s.linked then meet s unread c else s) with
      attached := !c.closes
      crashed := c = .shutdown 2 }
  else s

def processClosed (s : State) (unread : Bool) : State :=
  { s with
    sock :=
      { tcpClose s.sock unread with
        closeSignal := if s.sock.state = .closeWait then 3 else 4 }
    closedQueue := false }

def tcpFin (s : State) : State :=
  let state : TcpState :=
    match s.sock.state with
    | .established => .closeWait
    | .closing => .closed
    | other => other
  skStateChange { s with sock := { s.sock with state := state } }

def tcpReset (s : State) : State :=
  if s.sock.state = .closed then s
  else
    skStateChange { s with
      sock :=
        { s.sock with
          skErr := if s.sock.state = .closeWait then 32 else 104
          state := .closed
          sendShutdown := true }
      reset := true }

/-- `tx opportunity` is a socket on the list of writable sockets; `light_close` also clears
`connect_close_signal`. `foreign` is a command of another index that meets this socket. -/
inductive Action where
  | tx (a : TxAction)
  | post (c : Command)
  | process (unread : Bool)
  | fin
  | rst
  | processClosed (unread : Bool)
  | reused
  | foreign (c : Command) (unread : Bool)
  | idle

def withSock (s : State) (sock : Sock) : State :=
  { s with
    sock := sock
    owed :=
      if s.Open then s.owed ++ sock.enqueued.drop s.sock.enqueued.length
      else s.owed }

def isOpportunity : TxAction → Bool
  | .opportunity => true
  | _ => false

def step (alloc : Nat → Option Nat) (s : State) : Action → Option State
  | .idle => some s
  | .tx a =>
    if s.crashed ∨ (isOpportunity a ∧ ¬ (s.attached ∧ s.linked)) then none
    else (txStep alloc s.sock a).map (withSock s)
  | .post c =>
    if s.crashed then none
    else (s.commands.enqueue c).map fun commands =>
      { s with
        commands := commands
        sock :=
          { s.sock with
            closeSignal := if c = .close then 0 else s.sock.closeSignal } }
  | .process unread =>
    if s.crashed ∨ s.sock.inLoop then none
    else s.commands.dequeue.map fun r => processCommand { s with commands := r.2 } unread r.1
  | .fin => if s.crashed ∨ s.sock.inLoop then none else some (tcpFin s)
  | .rst => if s.crashed ∨ s.sock.inLoop then none else some (tcpReset s)
  | .processClosed unread =>
    if s.crashed ∨ s.sock.inLoop ∨ ¬ s.closedQueue then none
    else some (processClosed s unread)
  | .reused => if s.crashed ∨ s.sock.hasSocket then none else some { s with linked := false }
  | .foreign c unread =>
    if s.crashed ∨ s.sock.inLoop ∨ ¬ s.linked then none
    else some { meet s unread c with crashed := c = .shutdown 2 }

def State.start (isn : Nat) (sndbuf : Int) : State :=
  { sock := Sock.start isn sndbuf, commands := Ring.empty, attached := true,
    linked := true, closedQueue := false, reset := false, crashed := false, owed := [],
    discarded := [] }

def closeSystem (alloc : Nat → Option Nat) : TransitionSystem State Action where
  init s := ∃ isn sndbuf, isn < 2 ^ 32 ∧ s = State.start isn sndbuf
  step := step alloc

end LightStack.Tx.Close
