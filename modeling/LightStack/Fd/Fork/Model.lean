import LightStack.Lib.Transition
import LightStack.Lib.PartialInverse
import LightStack.Fd.Tables

/-!
# Descriptors inherited across `light_fork`

The child has the tables of its parent, while the rings and light sockets are shared.
-/

namespace LightStack.Fd.Fork

open Lib Function

structure Process where
  tables : Tables
  isInit : Nat → Bool

structure State where
  procs : List (Option Process)
  shared : Shared
  freeConnections : Ring Nat fdRingCap
  closing : List Nat
  socket : Nat → Bool
  isMulticore : Nat → Bool
  copies : Nat → List Nat
  placeholders : List Nat
  managed : List Nat

inductive Action where
  | fork (p : Nat)
  -- `posted` tells for how many `CLOSE` commands there is a buffer and room.
  | close (p : Nat) (fd : Nat) (posted : Nat)
  | stackClose

def bundle (s : State) (m : Nat) : List Nat :=
  if s.isMulticore m then s.copies m else [m]

def putFree (free : Ring Nat fdRingCap) (c : Nat) : Ring Nat fdRingCap := (free.enqueue c).getD free

structure CloseLoop where
  free : Ring Nat fdRingCap
  closing : List Nat
  isInit : Nat → Bool
  finished : Bool

def closeCopies : List Nat → Nat → CloseLoop → CloseLoop
  | [], _, l => { l with finished := true }
  | c :: rest, posted, l =>
    if !l.isInit c then
      closeCopies rest posted { l with free := putFree l.free c }
    else
      match posted with
      | 0 => l
      | posted + 1 =>
        closeCopies rest posted { l with
          closing := l.closing ++ [c]
          isInit := update l.isInit c false }

def lightCloseSocket (s : State) (p : Process) (index : Int) (posted : Nat) :
    Except Fault (Process × State) := do
  let fd ← socketEpollIndexToLightFd p.tables index .socket
  let (tables, shared) ← putBackLightFd p.tables s.shared fd
  let m ← slot connectionPoolSize index
  let l := closeCopies (bundle s m) posted ⟨s.freeConnections, s.closing, p.isInit, false⟩
  return (
    { tables := tables
      isInit := if s.isMulticore m then l.isInit else p.isInit },
    { s with
      shared := shared
      freeConnections := l.free
      closing := l.closing
      isMulticore := if l.finished then update s.isMulticore m false
        else s.isMulticore })

def epollClose (s : State) (p : Process) (index : Int) : Except Fault (Process × State) := do
  let e ← slot epollPoolSize index
  let fd ← socketEpollIndexToLightFd p.tables e .epoll
  let (tables, shared) ← putBackLightFd p.tables s.shared fd
  return ({ p with tables := tables }, { s with shared := shared })

def lightClose (s : State) (p : Process) (fd : Int) (posted : Nat) :
    Except Fault (Process × State) := do
  if !(← isLightFd p.tables fd) then return (p, s)
  else
    let (index, kind) ← lightFdToSocketEpollIndex p.tables fd
    match kind with
    | .socket => lightCloseSocket s p index posted
    | .epoll => epollClose s p index

def ProcAt (s : State) (q : Nat) (p : Process) : Prop := s.procs[q]? = some (some p)

def step (s : State) : Action → Option State
  | .fork q =>
    match s.procs[q]? with
    | some (some p) => some { s with procs := s.procs ++ [some p] }
    | _ => none
  | .close q fd posted =>
    match s.procs[q]? with
    | some (some p) =>
      if (p.tables.trueToLight fd).isSome then
        match lightClose s p fd posted with
        | .ok (p', t) => some { t with procs := s.procs.set q (some p') }
        | .error _ => some { s with procs := s.procs.set q none }
      else none
    | _ => none
  | .stackClose =>
    match s.closing with
    | [] => none
    | c :: rest =>
      if s.socket c then
        some { s with
          closing := rest
          socket := update s.socket c false
          freeConnections := putFree s.freeConnections c }
      else some { s with closing := rest }

def Held (s : State) (fd : Nat) : Prop := ∃ q p m, ProcAt s q p ∧ p.tables.trueToLight fd = some m

def HeldMain (s : State) (m : Nat) : Prop :=
  ∃ q p fd, ProcAt s q p ∧ p.tables.trueToLight fd = some m ∧
    m < connectionPoolSize

def HeldConnection (s : State) (c : Nat) : Prop := ∃ m, HeldMain s m ∧ c ∈ bundle s m

def released (s : State) (c : Nat) : Nat := s.freeConnections.items.count c + s.closing.count c

structure Start (s : State) : Prop where
  one_process : ∃ p, s.procs = [some p] ∧
    (∀ fd, p.tables.fullTrueFd fd = true ↔ fd ∈ s.placeholders) ∧
    PartialInverse p.tables.lightToTrue p.tables.trueToLight ∧
    (∀ fd m, p.tables.trueToLight fd = some m →
      fd ∈ s.placeholders ∧ m < connectionPoolSize + epollPoolSize) ∧
    (∀ c, p.isInit c = true → s.socket c = true)
  placeholders_nodup : s.placeholders.Nodup
  placeholders_length : s.placeholders.length = trueFdNum
  placeholders_lt : ∀ fd ∈ s.placeholders, fd < trueFdMaxSize
  ring_nodup : s.shared.ring.items.Nodup
  ring_iff : ∀ x : Int, x ∈ s.shared.ring.items ↔
    ∃ fd ∈ s.placeholders, x = (fd : Int) ∧ ¬Held s fd
  storage : s.shared.storage + s.shared.ring.items.length = trueFdNum
  managed_nodup : s.managed.Nodup
  managed_length : s.managed.length ≤ fdRingCap
  nothing_closing : s.closing = []
  free_nodup : s.freeConnections.items.Nodup
  free_iff : ∀ c, c ∈ s.freeConnections.items ↔ c ∈ s.managed ∧ ¬HeldConnection s c
  held_managed : ∀ c, HeldConnection s c → c ∈ s.managed
  bundle_nodup : ∀ m, HeldMain s m → (bundle s m).Nodup
  bundle_disjoint : ∀ m m' c, HeldMain s m → HeldMain s m' →
    c ∈ bundle s m → c ∈ bundle s m' → m = m'

def system : TransitionSystem State Action where
  init := Start
  step := step

structure ForkSafe (s : State) : Prop where
  ring_nodup : s.shared.ring.items.Nodup
  free_nodup : s.freeConnections.items.Nodup
  held_placeholder : ∀ fd ∈ s.placeholders, Held s fd → s.shared.ring.items.count (fd : Int) = 0
  released_placeholder : ∀ fd ∈ s.placeholders, ¬Held s fd →
    s.shared.ring.items.count (fd : Int) = 1
  held_connection : ∀ c ∈ s.managed, HeldConnection s c → released s c = 0
  released_connection : ∀ c ∈ s.managed, ¬HeldConnection s c → released s c = 1

def holdsAt (s : State) (q fd : Nat) : Bool :=
  match s.procs[q]? with
  | some (some p) => (p.tables.trueToLight fd).isSome
  | _ => false

def closesNeeded (s : State) (q fd : Nat) : Nat :=
  match s.procs[q]? with
  | some (some p) =>
    match p.tables.trueToLight fd with
    | some m => if m < connectionPoolSize then (bundle s m).countP p.isInit else 0
    | none => 0
  | _ => 0

def SoleHolder (s : State) : Action → Prop
  | .close q fd posted =>
    (∀ r < s.procs.length, r ≠ q → holdsAt s r fd = false) ∧
      closesNeeded s q fd ≤ posted
  | _ => True

instance (s : State) (a : Action) : Decidable (SoleHolder s a) := by
  cases a <;> dsimp only [SoleHolder] <;> infer_instance

end LightStack.Fd.Fork
