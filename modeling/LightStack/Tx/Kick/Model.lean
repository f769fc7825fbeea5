import LightStack.Lib.Transition
import LightStack.Lib.Ring
import Mathlib.Logic.Function.Basic
import Mathlib.Tactic.ByCases

/-!
# The transmit kick

A sender test-and-sets `write_done_from_app`, and whoever sets it sends a `TX_KICK`. Every access to
a shared object is a step.

A `struct socket` is known by its address. Its memory keeps its contents when the socket is freed,
and the satellite entry of an index keeps its pointer when the peer closes the connection, so a
command can meet a socket that belongs to another index by now.
-/

namespace LightStack.Tx.Kick

open Lib Function

abbrev Idx := Nat

abbrev Thread := Nat

abbrev Addr := Nat

structure Config where
  poolSize : Nat
  ringCap : Nat

def lightConfig : Config where
  poolSize := 32768
  ringCap := 32767

inductive SockType where
  | stream
  | dgram
  | raw
  deriving DecidableEq

/-- A `struct socket` with its `struct sock`; `userData` is the index whose satellite entry
`sk_user_data` points to. -/
structure KernelSocket where
  live : Bool
  type : SockType
  listening : Bool
  userData : Option Idx
  deriving DecidableEq

inductive Cmd where
  | openSocket (idx : Idx)
  | setSocketRing (idx : Idx) (a : Addr)
  | listenSocket (idx : Idx)
  | close (idx : Idx)
  | shutdown (idx : Idx) (how : Nat)
  | txKick (idx : Idx)
  | rxKick (idx : Idx)
  | other
  deriving DecidableEq

inductive SenderPc where
  | idle
  | testAndSet (idx : Idx)
  | getCmd (idx : Idx)
  | enqueueCmd (idx : Idx)
  deriving DecidableEq

inductive Caller where
  | command
  | txReady
  deriving DecidableEq

inductive StackPc where
  | idle
  | clearFlag (idx : Idx) (caller : Caller)
  | countRing (idx : Idx) (caller : Caller)
  | sending (idx : Idx) (caller : Caller)
  deriving DecidableEq

structure State (cfg : Config) where
  writeDone : Idx → Bool
  txRing : Idx → Nat
  unseen : Idx → Bool
  pool : Nat
  ring : Ring Cmd cfg.ringCap
  socket : Idx → Option Addr
  memory : Addr → KernelSocket
  batch : List Cmd
  stack : StackPc
  halted : Bool
  sender : Thread → SenderPc

def start (cfg : Config) : State cfg where
  writeDone := fun _ => false
  txRing := fun _ => 0
  unseen := fun _ => false
  pool := cfg.poolSize
  ring := .empty
  socket := fun _ => none
  memory := fun _ => ⟨false, .stream, false, none⟩
  batch := []
  stack := .idle
  halted := false
  sender := fun _ => .idle

inductive Action where
  | sendBulk (t : Thread) (idx : Idx) (n : Nat)
  | testAndSet (t : Thread)
  | getCmd (t : Thread)
  -- Enqueue the `TX_KICK`. On a full ring the kick function ends without a
  -- return value: `retry` says whether the caller's loop reads it as `-1`.
  | enqueueCmd (t : Thread) (retry : Bool)
  | post (c : Cmd)
  | dequeueCmds (n : Nat)
  | processCmd (created : Option (Addr × SockType)) (ok : Bool)
  -- An entry of the list of closed sockets: the satellite entry keeps its pointer.
  | peerClosed (a : Addr)
  -- Free memory is used again, for an accepted connection or by whoever gets the `struct sock`.
  -- A connection accepted without a command buffer has the user data of its listener.
  | reused (a : Addr) (sock : KernelSocket)
  | txReady (a : Addr)
  | clearFlag
  | countRing
  | dequeueTx
  | sendAgain
  | sendDone

variable {cfg : Config}

/-! ## The sender -/

def testAndSet (s : State cfg) (t : Thread) (idx : Idx) : State cfg :=
  if s.writeDone idx then
    { s with sender := update s.sender t .idle }
  else
    { s with
      writeDone := update s.writeDone idx true
      sender := update s.sender t (.getCmd idx) }

def getCmd (s : State cfg) (t : Thread) (idx : Idx) : State cfg :=
  if 0 < s.pool then
    { s with
      pool := s.pool - 1
      sender := update s.sender t (.enqueueCmd idx) }
  else
    { s with sender := update s.sender t (.testAndSet idx) }

def enqueueCmd (s : State cfg) (t : Thread) (idx : Idx) (retry : Bool) : State cfg :=
  match s.ring.enqueue (.txKick idx) with
  | some ring =>
    { s with
      ring := ring
      sender := update s.sender t .idle }
  | none =>
    { s with
      pool := s.pool + 1
      sender := update s.sender t (if retry then .testAndSet idx else .idle) }

def post (s : State cfg) (c : Cmd) : State cfg :=
  match s.ring.enqueue c with
  | some ring => { s with pool := s.pool - 1, ring := ring }
  | none =>
    match c with
    | .rxKick _ => { s with pool := s.pool - 1 }
    | _ => s

/-- The index served is that of the socket's user data, whatever index the command was for. -/
def userOnTransmissionOpportunity (s : State cfg) (a : Addr) (caller : Caller) : State cfg :=
  match (s.memory a).userData with
  | none => s
  | some idx =>
    if (s.memory a).listening then { s with halted := true }
    else { s with stack := .clearFlag idx caller }

def userFlushTx (s : State cfg) (a : Addr) : State cfg :=
  match (s.memory a).userData with
  | none => s
  | some idx =>
    { s with
      txRing := update s.txRing idx 0
      unseen := update s.unseen idx false }

def closeSocket (s : State cfg) (idx : Idx) (a : Addr) : State cfg :=
  let s := userFlushTx s a
  { s with
    socket := update s.socket idx none
    memory := update s.memory a
      { s.memory a with live := false, listening := false, userData := none } }

def processCommand (s : State cfg) (created : Option (Addr × SockType)) (ok : Bool) :
    Cmd → State cfg
  | .openSocket idx =>
    match created with
    | none => s
    | some (a, type) =>
      { s with
        socket := update s.socket idx (some a)
        memory := update s.memory a ⟨true, type, false, some idx⟩ }
  | .setSocketRing idx a =>
    { s with
      socket := update s.socket idx (some a)
      memory := update s.memory a { s.memory a with userData := some idx } }
  | .listenSocket idx =>
    match s.socket idx with
    | none => s
    | some a =>
      { s with
        memory := update s.memory a
          { s.memory a with listening := (s.memory a).listening || ok } }
  | .close idx =>
    match s.socket idx with
    | none => s
    | some a => closeSocket s idx a
  | .shutdown idx how =>
    match s.socket idx with
    | none => s
    | some a =>
      if how = 1 then userFlushTx s a
      -- `inet_shutdown` is then called on the socket just set to NULL
      else if how = 2 then { closeSocket s idx a with halted := true }
      else s
  | .txKick idx =>
    match s.socket idx with
    | none => s
    | some a => userOnTransmissionOpportunity s a .command
  | .rxKick _ => s
  | .other => s

/-- `sock_alloc` hands out memory that is free. -/
def allocates (s : State cfg) (created : Option (Addr × SockType)) : Cmd → Bool
  | .openSocket _ => created.all fun x => !(s.memory x.1).live
  | _ => true

def freeCommand (s : State cfg) : State cfg :=
  if s.stack = .idle ∧ s.halted = false then
    { s with pool := s.pool + 1 }
  else s

def leaveSending (s : State cfg) (caller : Caller) : State cfg :=
  match caller with
  | .command => freeCommand { s with stack := .idle }
  | .txReady => { s with stack := .idle }

def stackStep (s : State cfg) : Action → Option (State cfg)
  | .dequeueCmds n =>
    if s.stack = .idle ∧ s.batch = [] then
      (s.ring.dequeueBulk n).map fun (cmds, ring) =>
        { s with batch := cmds, ring := ring }
    else none
  | .processCmd created ok =>
    match s.stack, s.batch with
    | .idle, c :: rest =>
      if allocates s created c then
        some (freeCommand (processCommand { s with batch := rest } created ok c))
      else none
    | _, _ => none
  | .peerClosed a =>
    if s.stack = .idle ∧ s.batch = [] ∧ (s.memory a).live = true then
      some { s with memory := update s.memory a { s.memory a with live := false } }
    else none
  | .reused a sock =>
    if s.stack = .idle ∧ (s.memory a).live = false then
      some { s with memory := update s.memory a sock }
    else none
  | .txReady a =>
    if s.stack = .idle ∧ s.batch = [] then
      some (userOnTransmissionOpportunity s a .txReady)
    else none
  | .clearFlag =>
    match s.stack with
    | .clearFlag idx caller =>
      some { s with
        writeDone := update s.writeDone idx false
        stack := .countRing idx caller }
    | _ => none
  | .countRing =>
    match s.stack with
    | .countRing idx caller =>
      let s := { s with unseen := update s.unseen idx false }
      if s.txRing idx = 0 then some (leaveSending s caller)
      else some { s with stack := .sending idx caller }
    | _ => none
  | .dequeueTx =>
    match s.stack with
    | .sending idx _ =>
      some { s with
        txRing := update s.txRing idx (s.txRing idx - 1) }
    | _ => none
  | .sendAgain =>
    match s.stack with
    | .sending idx caller => some { s with stack := .clearFlag idx caller }
    | _ => none
  | .sendDone =>
    match s.stack with
    | .sending _ caller => some (leaveSending s caller)
    | _ => none
  | _ => none

def step (s : State cfg) : Action → Option (State cfg)
  | .sendBulk t idx n =>
    if s.sender t = .idle then
      some { s with
        txRing := update s.txRing idx (s.txRing idx + n)
        unseen := update s.unseen idx true
        sender := update s.sender t (.testAndSet idx) }
    else none
  | .testAndSet t =>
    match s.sender t with
    | .testAndSet idx => some (testAndSet s t idx)
    | _ => none
  | .getCmd t =>
    match s.sender t with
    | .getCmd idx => some (getCmd s t idx)
    | _ => none
  | .enqueueCmd t retry =>
    match s.sender t with
    | .enqueueCmd idx => some (enqueueCmd s t idx retry)
    | _ => none
  | .post c =>
    match c with
    | .txKick _ => none
    | _ => if 0 < s.pool then some (post s c) else none
  | a => if s.halted then none else stackStep s a

def kickSystem (cfg : Config) : TransitionSystem (State cfg) Action where
  init := fun s => s = start cfg
  step := step

def KickQueued (s : State cfg) (idx : Idx) : Prop := .txKick idx ∈ s.batch ++ s.ring.items

def KickPending (s : State cfg) (idx : Idx) : Prop :=
  KickQueued s idx ∨
    s.stack = .clearFlag idx .command ∨
    ∃ t, s.sender t = .getCmd idx ∨ s.sender t = .enqueueCmd idx

/-- The satellite entry of `idx` points to a socket that is its own and does not listen. -/
def reached (s : State cfg) (idx : Idx) : Bool :=
  (s.socket idx).any fun a => decide ((s.memory a).userData = some idx) && !(s.memory a).listening

/-- Where a `TX_KICK` can get lost there is a free command buffer, room in the ring, and a socket
of the index itself that does not listen, or another `TX_KICK` for the index is queued. -/
def KickKept (s : State cfg) : Action → Prop
  | .getCmd t =>
    match s.sender t with
    | .getCmd idx => 0 < s.pool ∨ KickQueued s idx
    | _ => True
  | .enqueueCmd t _ =>
    match s.sender t with
    | .enqueueCmd idx => s.ring.items.length < cfg.ringCap ∨ KickQueued s idx
    | _ => True
  | .processCmd _ _ =>
    match s.batch with
    | .txKick idx :: rest =>
      reached s idx = true ∨ .txKick idx ∈ rest ++ s.ring.items
    | _ => True
  | _ => True

instance (s : State cfg) (idx : Idx) : Decidable (KickQueued s idx) :=
  inferInstanceAs (Decidable (_ ∈ _))

instance (s : State cfg) (a : Action) : Decidable (KickKept s a) := by
  unfold KickKept
  split
  · split <;> infer_instance
  · split <;> infer_instance
  · split <;> infer_instance
  · infer_instance

def FlagCovered (s : State cfg) : Prop := ∀ idx, s.writeDone idx = true → KickPending s idx

def WillBeCounted (s : State cfg) (idx : Idx) : Prop :=
  s.writeDone idx = true ∨ (∃ t, s.sender t = .testAndSet idx) ∨
    ∃ caller, s.stack = .countRing idx caller

def UnseenCovered (s : State cfg) : Prop := ∀ idx, s.unseen idx = true → WillBeCounted s idx

end LightStack.Tx.Kick
