import LightStack.Epoll.Model

/-!
# Epoll with whole calls as steps

Any number of sockets and epolls, with nodes that come and go; every call and every event is one
step.
-/

namespace LightStack.Epoll.Calls

open Lib Function

structure State where
  numProcs : Nat
  nodes : Sock → List Nat
  multicore : Sock → Bool
  copies : Sock → Nat → Sock
  rx : Sock → Nat
  leftover : Sock → Bool
  buffer : Sock → Bool
  interest : Nat → EventInfo → Bool
  edgeTriggered : Nat → Sock → Bool
  bit : Nat → EventInfo → Bool
  active : Nat → Bool
  readyConnections : Nat → List EventInfo
  shadowConnections : Nat → List EventInfo
  roundRobin : Nat → Int

namespace State

def resolve (s : State) (k : Nat) (i : Sock) : Sock := if s.multicore i then s.copies i k else i

def hasData (s : State) (i : Sock) : Bool := decide (0 < s.rx i) || s.leftover i

def checkData (s : State) (i : Sock) : Bool :=
  if s.multicore i then (List.range s.numProcs).any fun k => s.hasData (s.copies i k)
  else s.hasData i

def eventAvailable (s : State) (info : EventInfo) : Bool :=
  match info.event with
  | .epollin => s.checkData info.sockfd
  | .epollout => s.buffer info.sockfd
  | .epollerr => true
  | .epollhup => true

def queued (s : State) (e : Nat) : List EventInfo := s.shadowConnections e ++ s.readyConnections e

def setBit (s : State) (e : Nat) (info : EventInfo) (b : Bool) : State :=
  { s with bit := update s.bit e (update (s.bit e) info b) }

end State

def counterSucc (c : Int) : Int := Int.bmod (c + 1) (2 ^ 32)

def position (n : Nat) (counter : Int) : Option Nat :=
  match n with
  | 0 => none
  | 1 => some 0
  | n + 2 => if 0 ≤ counter.tmod (n + 2) then some (counter.tmod (n + 2)).toNat else none

def selected (s : State) (k : Nat) (j : Sock) : Option Nat :=
  (position (s.nodes j).length (s.roundRobin k)).bind fun p => (s.nodes j)[p]?

def countRound (s : State) (k : Nat) (j : Sock) : State :=
  if 2 ≤ (s.nodes j).length then
    { s with roundRobin := update s.roundRobin k (counterSucc (s.roundRobin k)) }
  else s

def queueReady (s : State) (e : Nat) (info : EventInfo) : State :=
  { s with
    readyConnections := update s.readyConnections e (s.readyConnections e ++ [info]) }

def addEpollEventToQueue (s : State) (k : Nat) (i : Sock) (event : Event) (room : Bool) :
    State × Int :=
  let j := s.resolve k i
  match selected s k j with
  | none => (countRound s k j, -1)
  | some e =>
    if s.interest e ⟨j, event⟩ && room then
      ((queueReady (countRound s k j) e ⟨j, event⟩).setBit e ⟨j, event⟩ true, 0)
    else (countRound s k j, -1)

def deliver (s : State) (k : Nat) (i : Sock) (room : Bool) : State :=
  (addEpollEventToQueue { s with rx := update s.rx i (s.rx i + 1) } k i .epollin room).1

def addEpollEventToShadow (s : State) (e : Nat) (info : EventInfo) (room : Bool) : State :=
  if e ∈ s.nodes info.sockfd ∧ s.bit e info = false ∧ room = true then
    State.setBit { s with
      shadowConnections :=
        update s.shadowConnections e (s.shadowConnections e ++ [info]) } e info true
  else s

def queueIfReady (s : State) (e : Nat) (info : EventInfo) (room : Bool) : State :=
  if s.interest e info && s.eventAvailable info then addEpollEventToShadow s e info room else s

def queueAvailable (s : State) (e : Nat) (j : Sock) (room : Event → Bool) : State :=
  queueIfReady (queueIfReady s e ⟨j, .epollin⟩ (room .epollin)) e ⟨j, .epollout⟩ (room .epollout)

def setEvents (s : State) (e : Nat) (j : Sock) (want : Event → Bool) (edge : Bool) : State :=
  { s with
    interest := update s.interest e fun info =>
      if info.sockfd = j then
        want info.event || decide (info.event = .epollerr) || decide (info.event = .epollhup)
      else s.interest e info
    edgeTriggered := update s.edgeTriggered e (update (s.edgeTriggered e) j edge) }

def pushNode (s : State) (e : Nat) (j : Sock) : State :=
  { s with
    nodes := update s.nodes j (e :: s.nodes j)
    bit := update s.bit e fun info => if info.sockfd = j then false else s.bit e info }

def ctlAdd (s : State) (p e : Nat) (i : Sock) (want : Event → Bool) (edge free : Bool)
    (room : Event → Bool) : State × Int :=
  let j := s.resolve p i
  if s.active e = false ∨ e ∈ s.nodes j then (s, -1)
  else if free then (queueAvailable (setEvents (pushNode s e j) e j want edge) e j room, 0)
  else (s, -2)

def ctlDel (s : State) (p e : Nat) (i : Sock) : State × Int :=
  let j := s.resolve p i
  if s.active e = false ∨ e ∉ s.nodes j then (s, -1)
  else ({ s with nodes := update s.nodes j ((s.nodes j).erase e) }, 0)

def ctlMod (s : State) (p e : Nat) (i : Sock) (want : Event → Bool) (edge : Bool)
    (room : Event → Bool) : State × Int :=
  let j := s.resolve p i
  if s.active e = false ∨ e ∉ s.nodes j then (s, -1)
  else (queueAvailable (setEvents s e j want edge) e j room, 0)

def takeEvent (s : State) (e : Nat) (acc : (EventInfo → Bool) × List EventInfo)
    (info : EventInfo) : (EventInfo → Bool) × List EventInfo :=
  if e ∈ s.nodes info.sockfd then
    (update acc.1 info false,
      if s.interest e info && acc.1 info && s.eventAvailable info then acc.2 ++ [info] else acc.2)
  else acc

def drain (s : State) (e maxevents : Nat) : List EventInfo → (EventInfo → Bool) × List EventInfo →
      ((EventInfo → Bool) × List EventInfo) × List EventInfo
  | [], acc => (acc, [])
  | info :: rest, acc =>
    if acc.2.length < maxevents then drain s e maxevents rest (takeEvent s e acc info)
    else (acc, info :: rest)

def notRearmed (s : State) (e : Nat) (info : EventInfo) : Bool :=
  s.bit e info || s.edgeTriggered e info.sockfd || decide (info.event = .epollhup) ||
    decide (info.event = .epollerr)

def rearm (e : Nat) : Nat → List EventInfo → State → State
  | _, [], s => s
  | rearms, info :: rest, s =>
    if e ∉ s.nodes info.sockfd ∨ notRearmed s e info = true then rearm e rearms rest s
    else
      match rearms with
      | 0 => s
      | rearms + 1 =>
        rearm e rearms rest (State.setBit { s with
          shadowConnections := update s.shadowConnections e (s.shadowConnections e ++ [info]) }
          e info true)

def collect (s : State) (e maxevents : Nat) : State × List EventInfo :=
  let shadow := drain s e maxevents (s.shadowConnections e) (s.bit e, [])
  let ready := drain s e maxevents (s.readyConnections e) shadow.1
  ({ s with
      bit := update s.bit e ready.1.1
      shadowConnections := update s.shadowConnections e shadow.2
      readyConnections := update s.readyConnections e ready.2 }, ready.1.2)

def lightEpollWait (s : State) (e maxevents rearms : Nat) : State × List EventInfo :=
  let collected := collect s e maxevents
  (rearm e rearms collected.2 collected.1, collected.2)

def lightRecv (s : State) (i : Sock) (more left : Bool) : Option State :=
  if s.leftover i then
    some { s with
      rx := update s.rx i (if more then s.rx i - 1 else s.rx i)
      leftover := update s.leftover i left }
  else if 0 < s.rx i then
    some { s with
      rx := update s.rx i (s.rx i - 1)
      leftover := update s.leftover i left }
  else none

def lightAccept (s : State) (p : Nat) (i : Sock) : Option State :=
  let j := s.resolve p i
  if 0 < s.rx j then some { s with rx := update s.rx j (s.rx j - 1) } else none

inductive Action where
  | add (p e : Nat) (i : Sock) (want : Event → Bool) (edge free : Bool) (room : Event → Bool)
  | del (p e : Nat) (i : Sock)
  | mod (p e : Nat) (i : Sock) (want : Event → Bool) (edge : Bool) (room : Event → Bool)
  | wait (e maxevents rearms : Nat)
  | recv (i : Sock) (more left : Bool)
  | accept (p : Nat) (i : Sock)
  | deliver (k : Nat) (i : Sock) (room : Bool)
  | raise (k : Nat) (i : Sock) (event : Event) (room : Bool)
  | setBuffer (i : Sock) (b : Bool)

def step (s : State) : Action → Option State
  | .add p e i want edge free room => some (ctlAdd s p e i want edge free room).1
  | .del p e i => some (ctlDel s p e i).1
  | .mod p e i want edge room => some (ctlMod s p e i want edge room).1
  | .wait e maxevents rearms =>
    if s.active e then some (lightEpollWait s e maxevents rearms).1 else none
  | .recv i more left => lightRecv s i more left
  | .accept p i => lightAccept s p i
  | .deliver k i room => some (deliver s k i room)
  | .raise k i event room => some (addEpollEventToQueue s k i event room).1
  | .setBuffer i b => some { s with buffer := update s.buffer i b }

structure Start (s : State) : Prop where
  nodes : ∀ i, s.nodes i = []
  ready : ∀ e, s.readyConnections e = []
  shadow : ∀ e, s.shadowConnections e = []

def system : TransitionSystem State Action where
  init := Start
  step := step

end LightStack.Epoll.Calls
