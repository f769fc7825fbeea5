import LightStack.Conn.Reuse.Model

/-!
# The stack processes and their kernel sockets

A stack process carries out the commands of all applications. A `struct socket` is known by its
address, and freed memory keeps its contents.
-/

namespace LightStack.Service

open Lib Function
open Conn (Socket Local Call Command putFree realSocket)
open Conn.Reuse (isStack nextFree)
open Fd (fdRingCap)

/-- Why a stack process ends: `exit`, a pointer that is `NULL`, or one of another process. -/
inductive Halt where
  | exit
  | nullSocket
  | foreignPointer
  deriving DecidableEq

/-- The states of a TCP socket that the callbacks tell apart. -/
inductive TcpState where
  | close
  | listen
  | connection
  deriving DecidableEq

/-- A `struct socket` with its `struct sock`. `wakes` says that `sk_state_change` is
`app_glue_sock_wakeup`, `glued` that `sk_data_ready` is `app_glue_sock_readable`, and `listed` is
`buffers_available_notification_queue_present`. -/
structure KernelSocket where
  live : Bool
  sk : Bool
  stream : Bool
  unconnected : Bool
  state : TcpState
  userData : Option Nat
  readQueued : Bool
  writeQueued : Bool
  wakes : Bool
  glued : Bool
  listed : Bool

/-- What `sock_alloc` makes of a `struct socket`. -/
def KernelSocket.blank : KernelSocket :=
  ⟨false, false, false, false, .close, none, false, false, false, false, false⟩

/-- A stack process with `socket_satelite_data`, the lists of readable and writable sockets and the
list of the sockets that wait for buffers. -/
structure Proc where
  satellite : Nat → Option Nat
  memory : Nat → KernelSocket
  readQueue : List Nat
  readLen : Nat
  writeQueue : List Nat
  available : List Nat
  halted : Option Halt

/-- A command with the data it carries; `descr` is the process and address of a connection. -/
inductive Entry where
  | openSocket (i c : Nat) (stream : Bool)
  | bind (i c : Nat)
  | listen (c : Nat)
  | close (c : Nat)
  | shutdown (c : Nat) (how : Int)
  | txKick (c : Nat)
  | rxKick (c : Nat)
  | txPoolEmpty (c : Nat)
  | setsockopt (c : Nat)
  | setSocketRing (c : Nat) (descr : Nat × Nat)
  | decline (descr : Nat × Nat)
  deriving DecidableEq

/-- An application with its calls, as in the model of the connection indices. -/
structure App where
  locals : Nat → Local
  stream : Nat → Bool
  descriptors : List Nat
  mapped : Nat → Bool
  freeFds : Nat
  call : Call
  reply : Option Bool
  fault : Option Conn.Fault

/-- All applications and stack processes, with the commands under way and the accepted connections
on the rings of the listeners. -/
structure State where
  numProcs : Nat
  free : Ring (Option Nat) fdRingCap
  sockets : Nat → Socket
  apps : Nat → App
  ring : List (Nat × Entry)
  accepted : List (Nat × (Nat × Nat))
  procs : Nat → Proc

/-- Calls of the applications, and what happens in a stack process. -/
inductive Action where
  | call (i : Nat) (a : Conn.Action) (stream : Bool)
  | accept (i m k : Nat) (posted : Bool)
  | listen (i m posted : Nat)
  | send (i m : Nat) (kicked : Bool)
  | sendNothing (i m : Nat) (posted : Bool)
  | recv (i m : Nat) (kicked : Bool)
  | setsockopt (i m posted : Nat)
  | stack (k : Nat) (success : Bool) (address : Nat)
  | connects (k a b : Nat) (posted : Bool)
  | disconnects (k a : Nat)
  | closes (k a : Nat)
  | readable (k a : Nat)
  | reads (k : Nat)
  | writable (k a : Nat)
  | writes (k : Nat)
  | notifies (k : Nat) (room : Bool)
  deriving DecidableEq

/-! ## Kernel sockets -/

def Proc.halt (p : Proc) (h : Halt) : Proc := { p with halted := some h }

/-- A process that has ended does nothing more. -/
def Proc.andThen (p : Proc) (f : Proc → Proc) : Proc :=
  if p.halted.isSome then p else f p

def Proc.setMemory (p : Proc) (a : Nat) (x : KernelSocket) : Proc :=
  { p with memory := update p.memory a x }

def Proc.setSatellite (p : Proc) (c : Nat) (a : Option Nat) : Proc :=
  { p with satellite := update p.satellite c a }

/-- `app_glue_get_user_data`. -/
def getUserData (x : KernelSocket) : Option Nat :=
  if x.sk then x.userData else none

/-- `inet_listen`; `success` is that of `inet_csk_listen_start`. -/
def inetListen (x : KernelSocket) (success : Bool) : KernelSocket :=
  if x.unconnected && x.stream && decide (x.state ≠ .connection) &&
      (success || decide (x.state = .listen)) then
    { x with state := .listen }
  else x

/-- `app_glue_v4_listen`, which follows the socket and exits without a `struct sock`. -/
def appGlueListen (p : Proc) (socket : Option Nat) (success : Bool) : Proc :=
  match socket with
  | none => p.halt .nullSocket
  | some a =>
    if !(p.memory a).sk then p.halt .exit
    else p.setMemory a (inetListen { p.memory a with wakes := true } success)

/-- `app_glue_sock_wakeup` leaves the callbacks of a data socket, also on a listener. -/
def wakeup (x : KernelSocket) : KernelSocket := { x with glued := x.glued || x.wakes }

/-- `inet_shutdown`, which follows the socket also after it was closed. -/
def inetShutdown (p : Proc) (socket : Option Nat) (how : Int) : Proc :=
  match socket with
  | none => p.halt .nullSocket
  | some a =>
    if how < 0 ∨ 2 < how then p
    else if !(p.memory a).sk then p.halt .nullSocket
    else if (p.memory a).state = .listen ∧ how ≠ 1 then
      p.setMemory a (wakeup { p.memory a with state := .close, unconnected := true })
    else p.setMemory a (wakeup (p.memory a))

/-- `kernel_close` frees the `struct socket`, not what points to it. -/
def kernelClose (x : KernelSocket) : KernelSocket :=
  if x.sk then
    { x with live := false, state := if x.state = .listen then .close else x.state }
  else x

/-- `app_glue_close_socket` takes the socket off the lists of readable and writable sockets. -/
def appGlueCloseSocket (p : Proc) (a : Nat) : Proc :=
  let x := p.memory a
  { p.setMemory a
      (kernelClose { x with
        readQueued := false
        writeQueued := false
        userData := if x.sk then none else x.userData }) with
    readQueue := if x.readQueued then p.readQueue.erase a else p.readQueue
    readLen := if x.readQueued then p.readLen - 1 else p.readLen
    writeQueue := if x.writeQueued then p.writeQueue.erase a else p.writeQueue }

/-- A callback that finds a listener exits. -/
def serve (p : Proc) (a : Nat) : Proc :=
  match getUserData (p.memory a) with
  | none => p
  | some _ => if (p.memory a).state = .listen then p.halt .exit else p

def userOnTransmissionOpportunity (p : Proc) (a : Nat) : Proc := serve p a

def userDataAvailableCbk (p : Proc) (a : Nat) : Proc := serve p a

/-- The process follows `sock->sk`. -/
def useSk (p : Proc) (a : Nat) : Proc :=
  if (p.memory a).sk then p else p.halt .nullSocket

/-- A socket that `OPEN_SOCKET` has made. -/
def opened (c : Nat) (stream : Bool) : KernelSocket :=
  ⟨true, true, stream, true, .close, some c, false, false, false, !stream, false⟩

/-- A connection starts as a copy of its listener's `struct sock`, user data included. -/
def acceptedSocket (userData : Option Nat) : KernelSocket :=
  ⟨true, true, true, false, .connection, userData, false, false, true, true, false⟩

/-- `TX_POOL_EMPTY` puts the socket on the list that waits for buffers. -/
def waitForBuffers (p : Proc) (a : Nat) : Proc :=
  if (p.memory a).listed then p
  else
    let q := p.setMemory a { p.memory a with listed := true }
    let q := { q with available := q.available ++ [a] }
    if (p.memory a).stream then q else useSk q a

/-- What a command does in the process. -/
def processCommand (p : Proc) (k : Nat) (success : Bool) (address : Nat) : Entry → Proc
  | .openSocket _ c stream =>
    if success then (p.setMemory address (opened c stream)).setSatellite c (some address)
    else p.setMemory address .blank
  | .bind _ c =>
    match p.satellite c with
    | none => p
    | some a => useSk p a
  | .listen c => appGlueListen p (p.satellite c) success
  | .close c =>
    match p.satellite c with
    | none => p
    | some a => (appGlueCloseSocket p a).setSatellite c none
  | .shutdown c how =>
    match p.satellite c with
    | none => p
    | some a =>
      if how = 2 then
        inetShutdown ((appGlueCloseSocket p a).setSatellite c none) none how
      else inetShutdown p (some a) how
  | .txKick c =>
    match p.satellite c with
    | none => p
    | some a => (userOnTransmissionOpportunity p a).andThen fun q => useSk q a
  | .rxKick c =>
    match p.satellite c with
    | none => p
    | some a => userDataAvailableCbk p a
  | .txPoolEmpty c =>
    match p.satellite c with
    | none => p
    | some a => waitForBuffers p a
  | .setsockopt c =>
    match p.satellite c with
    | none => p
    | some a => useSk p a
  | .setSocketRing c (owner, a) =>
    if owner ≠ k then p.halt .foreignPointer
    else if !(p.memory a).sk then p.halt .nullSocket
    else
      userDataAvailableCbk
        ((p.setMemory a { p.memory a with userData := some c }).setSatellite c (some a)) a
  | .decline (owner, a) =>
    if owner ≠ k then p.halt .foreignPointer else appGlueCloseSocket p a

/-- The index a command returns to the free ring. -/
def frees (p : Proc) : Entry → Option Nat
  | .close c => (p.satellite c).map fun _ => c
  | .shutdown c how => if how = 2 then (p.satellite c).map fun _ => c else none
  | _ => none

/-- The application a command answers, and the answer. -/
def answer (p : Proc) (success : Bool) : Entry → Option (Nat × Bool)
  | .openSocket i _ _ => some (i, success)
  | .bind i c => some (i, (p.satellite c).isSome && success)
  | _ => none

def allocates : Entry → Bool
  | .openSocket _ _ _ => true
  | _ => false

/-- The process takes its next command; a socket is made in memory that is not in use. -/
def process (s : State) (k : Nat) (success : Bool) (address : Nat) : Option State :=
  match Mailbox.take k s.ring with
  | none => none
  | some (e, rest) =>
    let p := s.procs k
    if p.halted.isSome || allocates e && (p.memory address).live then none
    else some { s with
      ring := rest
      procs := update s.procs k (processCommand p k success address e)
      free := match frees p e with
        | none => s.free
        | some c => putFree s.free (some c)
      apps := match answer p success e with
        | none => s.apps
        | some (i, value) => update s.apps i { s.apps i with reply := some value } }

/-- One turn of the loop of `user_on_accept`: the new socket loses the user data of its listener
only if there is a command buffer for it. -/
def kernelAccept (s : State) (k a b : Nat) (posted : Bool) : Option (Nat × State) :=
  let p := s.procs k
  if p.halted.isSome || !(p.memory a).live || decide ((p.memory a).state ≠ .listen) ||
      (p.memory b).live then none
  else (getUserData (p.memory a)).map fun c =>
    (c, { s with
      procs := update s.procs k
        (p.setMemory b (acceptedSocket (if posted then none else some c))) })

def userOnAccept (s : State) (k a b : Nat) (posted : Bool) : Option State :=
  (kernelAccept s k a b posted).map fun x =>
    if posted then { x.2 with accepted := s.accepted ++ [(x.1, (k, b))] } else x.2

/-- One turn of the loop over the closed sockets. -/
def processClosed (p : Proc) (a : Nat) : Proc :=
  if (p.memory a).sk then p.setMemory a (kernelClose (p.memory a)) else p.halt .nullSocket

/-- Data can arrive at the socket. -/
def queueable (x : KernelSocket) : Bool := x.live && (!x.stream || decide (x.state = .connection))

/-- A new connection calls `sk_data_ready` of its listener. -/
def readableNow (x : KernelSocket) : Bool :=
  queueable x || x.live && x.glued && decide (x.state = .listen)

/-- `app_glue_sock_readable`, which exits if a flagged socket is on an empty list. -/
def appGlueSockReadable (p : Proc) (a : Nat) : Proc :=
  if (p.memory a).readQueued then
    if p.readLen = 0 then p.halt .exit else p
  else
    { p.setMemory a { p.memory a with readQueued := true } with
      readQueue := p.readQueue ++ [a]
      readLen := p.readLen + 1 }

def appGlueSockWriteSpace (p : Proc) (a : Nat) : Proc :=
  if (p.memory a).writeQueued then p
  else
    { p.setMemory a { p.memory a with writeQueued := true } with
      writeQueue := p.writeQueue ++ [a] }

/-- One turn of the loop over the readable sockets. -/
def processReadable (p : Proc) : Option Proc :=
  match p.readQueue with
  | [] => none
  | a :: rest =>
    let q := userDataAvailableCbk
      { p.setMemory a { p.memory a with readQueued := false } with readQueue := rest } a
    some (q.andThen fun q => { useSk q a with readLen := q.readLen - 1 })

/-- One turn of the loop over the writable sockets. -/
def processWritable (p : Proc) : Option Proc :=
  match p.writeQueue with
  | [] => none
  | a :: rest =>
    let q := userOnTransmissionOpportunity
      { p.setMemory a { p.memory a with writeQueued := false } with writeQueue := rest } a
    some (q.andThen fun q => useSk q a)

/-- The first socket that waits for buffers, with `room` for its event. If the memory was used again
`TAILQ_REMOVE` goes through links that `sock_alloc` has cleared. -/
def notifyFirst (p : Proc) (room : Bool) : Option Proc :=
  match p.available with
  | [] => none
  | a :: rest =>
    match getUserData (p.memory a) with
    | none => some p
    | some c =>
      match p.satellite c with
      | none => some (p.halt .nullSocket)
      | some b =>
        let q := if (p.memory b).stream then p else useSk p b
        some (q.andThen fun q =>
          if !room then q
          else if (q.memory a).listed then
            { q.setMemory a { q.memory a with listed := false } with available := rest }
          else q.halt .nullSocket)

def callback (s : State) (k : Nat) (f : Proc → Option Proc) : Option State :=
  if (s.procs k).halted.isSome then none
  else (f (s.procs k)).map fun p => { s with procs := update s.procs k p }

/-- An application as the model of the connection indices sees it. -/
def view (s : State) (i : Nat) : Conn.State where
  numProcs := s.numProcs
  free := s.free
  sockets := s.sockets
  locals := (s.apps i).locals
  descriptors := (s.apps i).descriptors
  mapped := (s.apps i).mapped
  freeFds := (s.apps i).freeFds
  pending := []
  kernel := fun _ => false
  down := fun _ => false
  call := (s.apps i).call
  reply := (s.apps i).reply
  fault := (s.apps i).fault

/-- The command as it is sent. -/
def ofCommand (i : Nat) (stream : Nat → Bool) (descr : Nat × Nat) : Command → Entry
  | .openSocket c => .openSocket i c (stream c)
  | .bind c => .bind i c
  | .close c => .close c
  | .shutdown c how => .shutdown c how
  | .setSocketRing c => .setSocketRing c descr
  | .decline => .decline descr

/-- The kind of the sockets, once a call has taken an index. -/
def callStream (s : State) (i : Nat) (stream : Bool) : Conn.Action → Nat → Bool
  | .openSocket => fun c =>
    if nextFree (view s i) = some c then stream else (s.apps i).stream c
  | .resume _ _ => fun c =>
    match (s.apps i).call with
    | .waitOpen main _ _ =>
      if nextFree (view s i) = some c then (s.apps i).stream main
      else (s.apps i).stream c
    | _ => (s.apps i).stream c
  | _ => (s.apps i).stream

/-- The service after a call of an application. -/
def absorb (s : State) (i : Nat) (stream : Nat → Bool) (descr : Nat × Nat)
    (t : Conn.State) : State :=
  { s with
    free := t.free
    sockets := t.sockets
    apps := update s.apps i
      ⟨t.locals, stream, t.descriptors, t.mapped, t.freeFds, t.call, t.reply, t.fault⟩
    ring := s.ring ++ t.pending.map fun x => (x.1, ofCommand i stream descr x.2) }

def isAccept : Conn.Action → Bool
  | .accept _ _ _ => true
  | _ => false

/-- A call that does not take a connection. -/
def call (s : State) (i : Nat) (a : Conn.Action) (stream : Bool) : Option State :=
  if isStack a || isAccept a then none
  else (Conn.step (view s i) a).map (absorb s i (callStream s i stream a) (0, 0))

/-- `light_accept` takes a connection from the ring of the copy for process `k`. -/
def accept (s : State) (i m k : Nat) (posted : Bool) : Option State :=
  match Mailbox.take ((s.sockets m).copies k) s.accepted with
  | none => none
  | some (descr, rest) =>
    (Conn.step (view s i) (.accept m k posted)).map fun t =>
      { absorb s i (s.apps i).stream descr t with accepted := rest }

def callable (s : State) (i m : Nat) : Bool :=
  Conn.ready (view s i) && decide (m ∈ (s.apps i).descriptors)

def postAll (s : State) (i m : Nat) (entries : List (Nat × Entry)) : Option State :=
  if callable s i m then some { s with ring := s.ring ++ entries } else none

/-- `light_listen_socket` tells all processes, as far as there are buffers. -/
def listenEntries (s : State) (m posted : Nat) : List (Nat × Entry) :=
  ((List.range s.numProcs).take posted).map fun k => (k, .listen ((s.sockets m).copies k))

/-- The kick of a send or receive, to the process of the descriptor. -/
def dataEntry (s : State) (i m : Nat) (posted : Bool) (e : Nat → Entry) : List (Nat × Entry) :=
  if posted then [(((s.apps i).locals m).procId, e (realSocket (view s i) m))] else []

def setsockoptEntries (s : State) (i m posted : Nat) : List (Nat × Entry) :=
  let told := if (s.sockets m).isMulticore then
      (List.range s.numProcs).map fun k => (k, (s.sockets m).copies k)
    else [(((s.apps i).locals m).procId, m)]
  ((told.filter fun x => ((s.apps i).locals x.2).isInit).take posted).map fun x =>
    (x.1, .setsockopt x.2)

/-- One step of the service. -/
def step (s : State) : Action → Option State
  | .call i a stream => call s i a stream
  | .accept i m k posted => accept s i m k posted
  | .listen i m posted => postAll s i m (listenEntries s m posted)
  | .send i m kicked => postAll s i m (dataEntry s i m kicked .txKick)
  | .sendNothing i m posted => postAll s i m (dataEntry s i m posted .txPoolEmpty)
  | .recv i m kicked => postAll s i m (dataEntry s i m kicked .rxKick)
  | .setsockopt i m posted => postAll s i m (setsockoptEntries s i m posted)
  | .stack k success address => process s k success address
  | .connects k a b posted => userOnAccept s k a b posted
  | .disconnects k a =>
    callback s k fun p =>
      if (p.memory a).state = .connection then
        some (p.setMemory a { p.memory a with state := .close })
      else none
  | .closes k a =>
    callback s k fun p =>
      if (p.memory a).live && (decide ((p.memory a).state ≠ .listen) || (p.memory a).glued) then
        some (processClosed p a)
      else none
  | .readable k a =>
    callback s k fun p =>
      if readableNow (p.memory a) then some (appGlueSockReadable p a) else none
  | .reads k => callback s k processReadable
  | .writable k a =>
    callback s k fun p =>
      if queueable (p.memory a) then some (appGlueSockWriteSpace p a) else none
  | .writes k => callback s k processWritable
  | .notifies k room => callback s k fun p => notifyFirst p room

structure Start (s : State) : Prop where
  free_eq : s.free = Conn.serviceFree
  apps_eq : ∀ i, ∃ stream, s.apps i =
    ⟨fun _ => ⟨false, false, 0⟩, stream, [], fun _ => false, Fd.trueFdNum, .idle, none, none⟩
  ring_eq : s.ring = []
  accepted_eq : s.accepted = []
  procs_eq : ∀ k, s.procs k = ⟨fun _ => none, fun _ => .blank, [], 0, [], [], none⟩

def descr : Entry → Option (Nat × Nat)
  | .setSocketRing _ d => some d
  | .decline d => some d
  | _ => none

end LightStack.Service
