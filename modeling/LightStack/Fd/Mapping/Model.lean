import LightStack.Lib.Transition
import LightStack.Lib.PartialInverse
import LightStack.Fd.Tables

/-!
# Calls that hand out and take back descriptors

The calls of one process that change the descriptor tables.
-/

namespace LightStack.Fd.Mapping

open Lib Function

def epollRingCap : Nat := 63

structure State where
  tables : Tables
  shared : Shared
  freeConnections : Ring Nat fdRingCap
  epollRing : Ring Nat epollRingCap
  isInit : Nat → Bool
  closing : List Nat
  elsewhere : List Nat
  live : Nat → Bool
  fault : Option Fault

inductive EpollOutcome where
  | kernelFails
  | fifoFails
  | noCommand
  | enqueueFails
  | ctlFails
  | created
  deriving DecidableEq

inductive Action where
  | openSocket
  -- Whether a connection is queued at the listener, and whether the command for
  -- it can be enqueued.
  | accept (queued posted : Bool)
  | epollCreate (size : Int) (outcome : EpollOutcome)
  | close (fd : Int) (posted : Bool)
  | stackClose
  | otherTakes
  | otherReturns (index : Nat)
  | otherTakesEpoll

def State.handOut (s : State) (light : Nat) (tables : Tables) (shared : Shared) : State :=
  { s with
    tables := tables
    shared := shared
    live := update s.live light true }

def State.takeBack (s : State) (light : Nat) (tables : Tables) (shared : Shared) : State :=
  { s with
    tables := tables
    shared := shared
    live := update s.live light false }

def State.freeSocket (s : State) (index : Nat) : State :=
  match s.freeConnections.enqueue index with
  | some ring => { s with freeConnections := ring }
  | none => { s with elsewhere := index :: s.elsewhere }

def lightGetSocket (s : State) : Int × State :=
  match s.freeConnections.dequeue with
  | none => (-1, s)
  | some (index, ring) =>
    (index, { s with
      freeConnections := ring
      isInit := update s.isInit index false })

def lightOpenSocket (s : State) : Except Fault State := do
  let (sock, s) := lightGetSocket s
  let (_, tables, shared) ← getNewLightFd s.tables s.shared sock .socket
  if sock < 0 then
    return { s with tables := tables, shared := shared }
  else
    return s.handOut sock.toNat tables shared

def lightAccept (s : State) (queued posted : Bool) : Except Fault State :=
  if !queued then return s
  else
    match s.freeConnections.dequeue with
    | none => return s
    | some (index, ring) =>
      let s := { s with
        freeConnections := ring
        isInit := update s.isInit index false }
      if !posted then return { s with elsewhere := index :: s.elsewhere }
      else do
        let s := { s with isInit := update s.isInit index true }
        let (_, tables, shared) ← getNewLightFd s.tables s.shared index .socket
        return s.handOut index tables shared

def epollClose (s : State) (index : Int) : Except Fault State := do
  let e ← slot epollPoolSize index
  let fd ← socketEpollIndexToLightFd s.tables e .epoll
  let (tables, shared) ← putBackLightFd s.tables s.shared fd
  return s.takeBack (e + connectionPoolSize) tables shared

def finishEpollCreate (s : State) (index : Nat) (outcome : EpollOutcome) : Except Fault State :=
  match outcome with
  | .kernelFails => return s
  | .fifoFails => epollClose s index
  | .noCommand => return s
  | .enqueueFails => epollClose s index
  | .ctlFails => epollClose s index
  | .created => do
      let (_, tables, shared) ← getNewLightFd s.tables s.shared index .epoll
      return s.handOut (index + connectionPoolSize) tables shared

def lightEpollCreate (s : State) (size : Int) (outcome : EpollOutcome) : Except Fault State :=
  if size < 0 then return s
  else
    match s.epollRing.dequeue with
    | none => return s
    | some (index, ring) => finishEpollCreate { s with epollRing := ring } index outcome

def lightCloseSocket (s : State) (index : Int) (posted : Bool) : Except Fault State := do
  let fd ← socketEpollIndexToLightFd s.tables index .socket
  let (tables, shared) ← putBackLightFd s.tables s.shared fd
  let i ← slot connectionPoolSize index
  let s := s.takeBack i tables shared
  if !s.isInit i then return s.freeSocket i
  else if !posted then return { s with elsewhere := i :: s.elsewhere }
  else return { s with closing := s.closing ++ [i] }

def lightClose (s : State) (fd : Int) (posted : Bool) : Except Fault State := do
  if !(← isLightFd s.tables fd) then return s
  else
    let (index, kind) ← lightFdToSocketEpollIndex s.tables fd
    match kind with
    | .socket => lightCloseSocket s index posted
    | .epoll => epollClose s index

def State.after (s : State) : Except Fault State → State
  | .ok t => t
  | .error f => { s with fault := some f }

def step (s : State) (a : Action) : Option State :=
  if s.fault.isSome then none
  else
    match a with
    | .openSocket => some (s.after (lightOpenSocket s))
    | .accept queued posted => some (s.after (lightAccept s queued posted))
    | .epollCreate size outcome => some (s.after (lightEpollCreate s size outcome))
    | .close fd posted => some (s.after (lightClose s fd posted))
    | .stackClose =>
      match s.closing with
      | [] => none
      | index :: rest => some ({ s with closing := rest }.freeSocket index)
    | .otherTakes =>
      match s.freeConnections.dequeue with
      | none => none
      | some (index, ring) =>
        some { s with
          freeConnections := ring
          elsewhere := index :: s.elsewhere }
    | .otherReturns index =>
      if index ∈ s.elsewhere then
        some ({ s with elsewhere := s.elsewhere.erase index }.freeSocket index)
      else none
    | .otherTakesEpoll =>
      match s.epollRing.dequeue with
      | none => none
      | some (_, ring) => some { s with epollRing := ring }

structure Start (s : State) : Prop where
  placeholders : ∃ fds : List Nat, fds.length = trueFdNum ∧ fds.Nodup ∧
    (∀ fd ∈ fds, fd < trueFdMaxSize) ∧
    fdMappingInit (fds.map Int.ofNat) = .ok (s.tables, s.shared)
  connections : (s.freeConnections.items ++ s.elsewhere).Nodup ∧
    ∀ i ∈ s.freeConnections.items ++ s.elsewhere, i < connectionPoolSize
  epolls : s.epollRing.items.Nodup ∧ ∀ e ∈ s.epollRing.items, e < epollPoolSize
  nothing_closing : s.closing = []
  nothing_live : s.live = fun _ => false
  no_fault : s.fault = none

def system : TransitionSystem State Action where
  init := Start
  step := step

structure DescriptorBijection (s : State) : Prop where
  no_fault : s.fault = none
  inverse : PartialInverse s.tables.lightToTrue s.tables.trueToLight
  placed : ∀ fd, s.tables.fullTrueFd fd = true →
    (s.shared.ring.items.count (fd : Int) = 1 ∧ s.tables.trueToLight fd = none) ∨
    (s.shared.ring.items.count (fd : Int) = 0 ∧
      ∃ light, s.tables.trueToLight fd = some light ∧ s.live light = true)
  mapped_live : ∀ light fd, s.tables.lightToTrue light = some fd →
    s.tables.fullTrueFd fd = true ∧ s.live light = true

/-- There is a connection and a placeholder for every call that gets that far, epoll create fails
late only for want of a command buffer, and descriptors to close are within the tables, the
placeholders among them in use. -/
def Provided (s : State) : Action → Prop
  | .openSocket => s.freeConnections.items ≠ [] ∧ s.shared.ring.items ≠ []
  | .accept queued posted =>
    queued = true → posted = true → s.freeConnections.items ≠ [] → s.shared.ring.items ≠ []
  | .epollCreate size outcome =>
    0 ≤ size → s.epollRing.items ≠ [] → outcome = .kernelFails ∨ outcome = .noCommand ∨
        outcome = .created ∧ s.shared.ring.items ≠ []
  | .close fd _ =>
    0 ≤ fd ∧ fd < trueFdMaxSize ∧
      (s.tables.fullTrueFd fd.toNat = true → s.tables.trueToLight fd.toNat ≠ none)
  | _ => True

instance (s : State) (a : Action) : Decidable (Provided s a) := by
  cases a <;> dsimp only [Provided] <;> infer_instance

end LightStack.Fd.Mapping
