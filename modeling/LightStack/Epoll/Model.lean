import LightStack.Lib.Transition
import Mathlib

/-!
# Event delivery between the stack and `light_epoll_wait`

One epoll with a fixed set of sockets, one caller and any number of stack processes. Every access to
shared data is a step.
-/

namespace LightStack.Epoll

open Lib Function

abbrev Sock := Nat

inductive Event where
  | epollin
  | epollout
  | epollerr
  | epollhup
  deriving DecidableEq

/-- An entry of the event rings. -/
structure EventInfo where
  sockfd : Sock
  event : Event
  deriving DecidableEq

/-- The registration of a socket at the epoll. -/
structure Node where
  epollEvents : Event → Bool
  edgeTriggered : Bool

/-- What stays fixed: the number of stack processes and the registrations. -/
structure Config where
  numProcs : Nat
  node : Sock → Option Node

/-- The socket is registered for the event. -/
def Config.interested (cfg : Config) (info : EventInfo) : Bool :=
  (cfg.node info.sockfd).any fun node => node.epollEvents info.event

/-- The two loops of `light_epoll_wait` over its rings. -/
inductive Loop where
  | shadow
  | ready
  deriving DecidableEq

/-- Where `light_epoll_wait` is. -/
inductive WaitPc where
  | outside
  | testReady
  | testShadow
  | announce
  | blocked
  | drainFifo (proc : Nat) (slept : Bool)
  | clearSleeping
  | take (loop : Loop)
  | readBit (loop : Loop) (info : EventInfo)
  | testAvailable (loop : Loop) (info : EventInfo)
  | clearBit (loop : Loop) (info : EventInfo)
  | rearm (todo : List EventInfo)
  | rearmEnqueue (info : EventInfo) (todo : List EventInfo)
  | rearmSetBit (info : EventInfo) (todo : List EventInfo)
  | addKernelEvents
  deriving DecidableEq

/-- Where a stack process is in posting an event. -/
inductive PostPc where
  | idle
  | enqueue (info : EventInfo)
  | takeLock (info : EventInfo)
  | testSleeping (info : EventInfo)
  | writeFifo (info : EventInfo)
  | setBit (info : EventInfo)
  deriving DecidableEq

/-- `bit` is `ready_events` of the node, `backlog` the `batch_backlog` of a stack process, and
`hupPosted` says that a hangup was posted and is not yet reported. -/
structure State (cfg : Config) where
  ready : List EventInfo
  shadow : List EventInfo
  bit : EventInfo → Bool
  isSleeping : Bool
  fifo : Fin cfg.numProcs → Nat
  lock : Option (Fin cfg.numProcs)
  post : Fin cfg.numProcs → PostPc
  backlog : Fin cfg.numProcs → Int
  apppid : Fin cfg.numProcs → Sock → Bool
  rx : Sock → Nat
  txSpace : Sock → Bool
  wait : WaitPc
  timeout : Int
  maxevents : Nat
  events : List EventInfo
  hupPosted : Sock → Bool

/-- Why the inner `epoll_wait` returns. -/
inductive WakeReason (cfg : Config) where
  | fifo (proc : Fin cfg.numProcs)
  | kernelEvent
  | timedOut

/-- A call, a step inside it or of a stack process, and changes of what the sockets hold. -/
inductive Action (cfg : Config) where
  | call (timeout : Int) (maxevents : Nat)
  | app
  | wake (reason : WakeReason cfg)
  | rearmFails
  | finish (kernelEvents : Nat)
  | recv (sock : Sock)
  | setTxSpace (sock : Sock) (positive : Bool)
  | submitRxBuf (proc : Fin cfg.numProcs) (sock : Sock)
  | post (proc : Fin cfg.numProcs) (info : EventInfo)
  | stack (proc : Fin cfg.numProcs)
  | postFails (proc : Fin cfg.numProcs)
  | setAppPid (proc : Fin cfg.numProcs) (sock : Sock)

variable {cfg : Config}

def start (cfg : Config) : State cfg where
  ready := []
  shadow := []
  bit := fun _ => false
  isSleeping := false
  fifo := fun _ => 0
  lock := none
  post := fun _ => .idle
  backlog := fun _ => 0
  apppid := fun _ _ => false
  rx := fun _ => 0
  txSpace := fun _ => false
  wait := .outside
  timeout := 0
  maxevents := 0
  events := []
  hupPosted := fun _ => false

/-! ## The stack -/

/-- The backlog is a 32-bit `int`. -/
def backlogSucc (b : Int) : Int := Int.bmod (b + 1) (2 ^ 32)

/-- The event enters the ready ring if the socket is registered for it. -/
def enqueueEvent (s : State cfg) (p : Fin cfg.numProcs) (info : EventInfo) : State cfg :=
  if cfg.interested info then
    { s with
      ready := s.ready ++ [info]
      backlog := update s.backlog p (backlogSucc (s.backlog p))
      hupPosted := if info.event = .epollhup then
          update s.hupPosted info.sockfd true
        else s.hupPosted
      post := update s.post p (.takeLock info) }
  else
    { s with post := update s.post p .idle }

/-- Under the lock: the fifo is written only for a sleeping epoll. -/
def testSleeping (s : State cfg) (p : Fin cfg.numProcs) (info : EventInfo) : State cfg :=
  if s.isSleeping ∧ s.apppid p info.sockfd ∧ 1 ≤ s.backlog p then
    { s with
      backlog := update s.backlog p 0
      post := update s.post p (.writeFifo info) }
  else
    { s with post := update s.post p (.setBit info) }

/-- The next access of a stack process that posts an event. -/
def stackStep (s : State cfg) (p : Fin cfg.numProcs) : Option (State cfg) :=
  match s.post p with
  | .idle => none
  | .enqueue info => some (enqueueEvent s p info)
  | .takeLock info =>
    if s.lock = none then
      some { s with
        lock := some p
        post := update s.post p (.testSleeping info) }
    else none
  | .testSleeping info => some (testSleeping s p info)
  | .writeFifo info =>
    some { s with
      fifo := update s.fifo p (s.fifo p + 1)
      post := update s.post p (.setBit info) }
  | .setBit info =>
    some { s with
      bit := update s.bit info true
      lock := none
      post := update s.post p .idle }

/-- `_event_avaliable`, asked when the event is taken off its ring. -/
def eventAvailable (s : State cfg) (info : EventInfo) : Bool :=
  match info.event with
  | .epollin => decide (0 < s.rx info.sockfd)
  | .epollout => s.txSpace info.sockfd
  | .epollerr => true
  | .epollhup => true

/-- Events that are reported once: edge-triggered ones, hangups and errors. -/
def notRearmed (cfg : Config) (info : EventInfo) : Bool :=
  ((cfg.node info.sockfd).any fun node => node.edgeTriggered) ||
    decide (info.event = .epollhup) || decide (info.event = .epollerr)

def Loop.next (events : List EventInfo) : Loop → WaitPc
  | .shadow => .take .ready
  | .ready => .rearm events

def takeRing (s : State cfg) : Loop → List EventInfo
  | .shadow => s.shadow
  | .ready => s.ready

def setRing (s : State cfg) (ring : List EventInfo) : Loop → State cfg
  | .shadow => { s with shadow := ring }
  | .ready => { s with ready := ring }

/-- The next event of the ring, as long as the caller has room. -/
def takeEvent (s : State cfg) (loop : Loop) : State cfg :=
  if s.events.length < s.maxevents then
    match takeRing s loop with
    | info :: rest => { setRing s rest loop with wait := .readBit loop info }
    | [] => { s with wait := loop.next s.events }
  else { s with wait := loop.next s.events }

/-- The event is reported if the socket still has it. -/
def testAvailable (s : State cfg) (loop : Loop) (info : EventInfo) : State cfg :=
  if eventAvailable s info then
    { s with
      events := s.events ++ [info]
      hupPosted := if info.event = .epollhup then
          update s.hupPosted info.sockfd false
        else s.hupPosted
      wait := .clearBit loop info }
  else { s with wait := .clearBit loop info }

/-- At most 100 bytes are read from the fifo of each stack process. -/
def drainFifo (s : State cfg) (k : Nat) (slept : Bool) : State cfg :=
  if h : k < cfg.numProcs then
    { s with
      fifo := update s.fifo ⟨k, h⟩ (s.fifo ⟨k, h⟩ - 100)
      wait := .drainFifo (k + 1) slept }
  else
    { s with wait := if slept then .clearSleeping else .take .shadow }

/-- The next access of `light_epoll_wait`. -/
def appStep (s : State cfg) : Option (State cfg) :=
  match s.wait with
  | .outside => none
  | .testReady =>
    some { s with
      wait := if s.ready = [] then .testShadow else .drainFifo 0 false }
  | .testShadow =>
    some { s with
      wait := if s.shadow = [] ∧ s.timeout ≠ 0 then .announce
        else .drainFifo 0 false }
  | .announce => some { s with isSleeping := true, wait := .blocked }
  | .blocked => none
  | .drainFifo k slept => some (drainFifo s k slept)
  | .clearSleeping => some { s with isSleeping := false, wait := .take .shadow }
  | .take loop => some (takeEvent s loop)
  | .readBit loop info =>
    some { s with
      wait := if cfg.interested info && s.bit info then
          .testAvailable loop info
        else .clearBit loop info }
  | .testAvailable loop info => some (testAvailable s loop info)
  | .clearBit loop info =>
    if s.lock = none then
      some { s with
        bit := update s.bit info false
        wait := .take loop }
    else none
  | .rearm [] => some { s with wait := .addKernelEvents }
  | .rearm (info :: todo) =>
    some { s with
      wait := if s.bit info || notRearmed cfg info then .rearm todo
        else .rearmEnqueue info todo }
  | .rearmEnqueue info todo =>
    some { s with
      shadow := s.shadow ++ [info]
      wait := .rearmSetBit info todo }
  | .rearmSetBit info todo =>
    if s.lock = none then
      some { s with
        bit := update s.bit info true
        wait := .rearm todo }
    else none
  | .addKernelEvents => none

/-- What must hold for the inner `epoll_wait` to return. -/
def wakeEnabled (s : State cfg) : WakeReason cfg → Bool
  | .fifo p => decide (0 < s.fifo p)
  | .kernelEvent => true
  | .timedOut => decide (0 ≤ s.timeout)

/-- One access to shared data, by the caller, a stack process or a socket. -/
def step (s : State cfg) : Action cfg → Option (State cfg)
  | .call timeout maxevents =>
    if s.wait = .outside then
      some { s with
        timeout := timeout, maxevents := maxevents, events := []
        wait := .testReady }
    else none
  | .app => appStep s
  | .wake reason =>
    if s.wait = .blocked ∧ wakeEnabled s reason = true then
      some { s with wait := .drainFifo 0 true }
    else none
  -- no free `event_info`, or the shadow ring is full: the loop is left
  | .rearmFails =>
    match s.wait with
    | .rearmEnqueue _ _ => some { s with wait := .addKernelEvents }
    | _ => none
  -- the call returns if there is any event, else it waits again
  | .finish kernelEvents =>
    if s.wait = .addKernelEvents then
      some { s with
        wait := if s.events = [] ∧ kernelEvents = 0 then .testReady
          else .outside }
    else none
  | .recv sock => some { s with rx := update s.rx sock (s.rx sock - 1) }
  | .setTxSpace sock positive => some { s with txSpace := update s.txSpace sock positive }
  | .submitRxBuf p sock =>
    if s.post p = .idle then
      some { s with
        rx := update s.rx sock (s.rx sock + 1)
        post := update s.post p (.enqueue ⟨sock, .epollin⟩) }
    else none
  | .post p info =>
    if s.post p = .idle then
      some { s with post := update s.post p (.enqueue info) }
    else none
  | .stack p => stackStep s p
  | .postFails p =>
    match s.post p with
    | .enqueue _ => some { s with post := update s.post p .idle }
    | _ => none
  | .setAppPid p sock =>
    some { s with
      apppid := update s.apppid p (update (s.apppid p) sock true) }

def epollSystem (cfg : Config) : TransitionSystem (State cfg) (Action cfg) where
  init := fun s => s = start cfg
  step := step

/-- One socket, registered for data and hangups, and one stack process. -/
def oneSocket : Config where
  numProcs := 1
  node := fun sock =>
    if sock = 0 then
      some ⟨fun e => e = .epollin ∨ e = .epollhup, false⟩
    else none

def firstProc : Fin oneSocket.numProcs := ⟨0, Nat.one_pos⟩

end LightStack.Epoll
