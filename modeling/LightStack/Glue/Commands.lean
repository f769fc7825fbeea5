import LightStack.Glue.Account

/-!
# Commands and the ends of connections

`socket_satelite_data` keeps pointing to a socket that the loop over the closed sockets has closed.
-/

namespace LightStack.Glue.Commands

open Lib Function

/-- How far a kernel socket has come on its way to an index. -/
inductive Stage where
  | fresh
  | ring
  | setting (c : Nat)
  | declining
  | bound (c : Nat)
  | gone
  deriving DecidableEq

/-- `satellite` is `socket_satelite_data`, `signal` the close signal of an index, `hungUp` and
`peerClosed` say that the loop has closed the socket and that the peer has. -/
structure State where
  glue : Glue.State
  satellite : Nat → Option Nat
  taken : Nat → Bool
  stage : Nat → Stage
  signal : Nat → Nat
  hungUp : Nat → Bool
  peerClosed : Nat → Bool

inductive Action where
  | glue (a : Glue.Action)
  | openSocket (c a : Nat) (stream : Bool)
  | userOnAccept (a : Nat) (posted : Bool)
  | lightAccept (a : Nat) (index : Option Nat)
  | setSocketRing (a : Nat)
  | decline (a : Nat) (dies : Bool)
  | close (c : Nat) (dies : Bool)
  | shutdown (c how : Nat) (dies : Bool)
  | txKick (c : Nat)
  | rxKick (c : Nat)
  | fin (a : Nat) (listener : Option Nat) (writeable : Bool)
  | reset (a : Nat) (listener : Option Nat) (writeable : Bool)

/-- Steps that no command causes. -/
def internal (s : State) : Glue.Action → Bool
  | .create _ _ | .graft _ | .setUserData _ _ | .close _ _ => false
  | .tcp a .closeWait | .tcp a .close => s.glue.released a
  | .tcp a .established => !s.peerClosed a
  | _ => true

/-- The socket that the loop over the closed sockets is about to close. -/
def hangsUp (s : Glue.State) : Glue.Action → Option Nat
  | .rx _ _ => if s.pc = .rxClosed then (s.list .closed).head? else none
  | _ => none

def connects (s : Glue.State) : Glue.Action → Option Nat
  | .wakeup a none _ =>
    if s.state a = .established ∧ s.attached a = true ∧ s.stream a = true then s.userData a
    else none
  | _ => none

def setSignal (signal : Nat → Nat) (index : Option Nat) (value : Nat) : Nat → Nat :=
  match index with
  | none => signal
  | some c => update signal c value

/-- `user_on_socket_fatal` tells the application of the index. -/
def userOnSocketFatal (s : State) (a : Nat) : State :=
  { s with
    signal := setSignal s.signal (s.glue.userData a) (if s.glue.state a = .closeWait then 3 else 4)
    hungUp := update s.hungUp a true }

def notify (s : State) (a : Glue.Action) : State :=
  match hangsUp s.glue a with
  | some b => userOnSocketFatal s b
  | none => { s with signal := setSignal s.signal (connects s.glue a) 2 }

def setState (g : Glue.State) (a : Nat) (state : TcpState) : Glue.State :=
  { g with state := update g.state a state }

def tcpFin (s : State) (a : Nat) (listener : Option Nat) (writeable : Bool) : State :=
  { s with
    glue := appGlueSockWakeup (setState s.glue a .closeWait) a listener writeable
    peerClosed := update s.peerClosed a true }

def tcpReset (s : State) (a : Nat) (listener : Option Nat) (writeable : Bool) : State :=
  { s with
    glue := appGlueSockWakeup (setState (appGlueSockErrorReport s.glue a) a .close) a listener
      writeable
    peerClosed := update s.peerClosed a true }

def userOnAccept (s : State) (a : Nat) (posted : Bool) : State :=
  { s with
    glue := graft s.glue a
    stage := update s.stage a (if posted then .ring else .gone) }

def lightAccept (s : State) (a : Nat) : Option Nat → State
  | none => { s with stage := update s.stage a .declining }
  | some c =>
    { s with
      taken := update s.taken c true
      signal := update s.signal c 0
      stage := update s.stage a (.setting c) }

def openSocket (s : State) (c a : Nat) (stream : Bool) : State :=
  let g := make s.glue a stream true .close
  { s with
    glue := { g with userData := update g.userData a (some c) }
    satellite := update s.satellite c (some a)
    taken := update s.taken c true
    stage := update s.stage a (.bound c)
    signal := update s.signal c 0 }

def setSocketRing (s : State) (a c : Nat) : State :=
  let g := touch s.glue a
  { s with
    glue := { g with userData := update g.userData a (some c) }
    satellite := update s.satellite c (some a)
    stage := update s.stage a (.bound c) }

def closeKernelSocket (s : State) (a : Nat) (dies : Bool) : State :=
  { s with
    glue := appGlueCloseSocket (touch s.glue a) a dies
    stage := update s.stage a .gone }

/-- `CLOSE` clears the satellite entry and frees the index. -/
def closeIndex (s : State) (c a : Nat) (dies : Bool) : State :=
  { closeKernelSocket s a dies with
    satellite := update s.satellite c none
    taken := update s.taken c false }

/-- A kick of a listener exits. -/
def kick (s : State) (a : Nat) : State :=
  let g := touch s.glue a
  { s with glue := if g.userData a ≠ none ∧ g.state a = .listen then crash g else g }

def onSatellite (s : State) (c : Nat) (f : Nat → State) : Option State :=
  if s.glue.pc = .idle then
    match s.satellite c with
    | none => some s
    | some a => some (f a)
  else none

theorem of_onSatellite {s t : State} {c : Nat} {f : Nat → State} (h : onSatellite s c f = some t) :
    s.glue.pc = .idle ∧ (t = s ∨ ∃ a, s.satellite c = some a ∧ t = f a) := by
  unfold onSatellite at h
  obtain ⟨hpc, h⟩ := Option.ite_none_right_eq_some.mp h
  refine ⟨hpc, ?_⟩
  cases ha : s.satellite c with
  | none =>
    rw [ha] at h
    exact .inl (Option.some.inj h).symm
  | some a =>
    rw [ha] at h
    exact .inr ⟨a, rfl, (Option.some.inj h).symm⟩

def step (s : State) (action : Action) : Option State :=
  if s.glue.crashed then none
  else match action with
  | .glue a =>
    if internal s a then
      (Glue.step s.glue a).map fun g => { notify s a with glue := g }
    else none
  | .openSocket c a stream =>
    if s.glue.pc = .idle ∧ s.taken c = false ∧ unused s.glue a = true then
      some (openSocket s c a stream)
    else none
  | .userOnAccept a posted =>
    if waiting s.glue a ∧ s.stage a = .fresh then some (userOnAccept s a posted) else none
  | .lightAccept a index =>
    if s.stage a = .ring ∧ ∀ c ∈ index, s.taken c = false then some (lightAccept s a index)
    else none
  | .setSocketRing a =>
    match s.stage a with
    | .setting c => if s.glue.pc = .idle then some (setSocketRing s a c) else none
    | _ => none
  | .decline a dies =>
    if s.glue.pc = .idle ∧ s.stage a = .declining then some (closeKernelSocket s a dies)
    else none
  | .close c dies => onSatellite s c fun a => closeIndex s c a dies
  -- `inet_shutdown` follows the pointer that was just cleared
  | .shutdown c how dies => onSatellite s c fun a =>
    if how = 2 then { closeIndex s c a dies with glue := crash (closeIndex s c a dies).glue }
    else { s with glue := touch s.glue a }
  | .txKick c => onSatellite s c (kick s)
  | .rxKick c => onSatellite s c (kick s)
  | .fin a listener writeable =>
    if callsBack s.glue a ∧ s.glue.state a = .established ∧ listening s.glue listener = true then
      some (tcpFin s a listener writeable)
    else none
  | .reset a listener writeable =>
    if callsBack s.glue a ∧ s.glue.state a ≠ .listen ∧ s.glue.state a ≠ .close ∧
        listening s.glue listener = true then
      some (tcpReset s a listener writeable)
    else none

structure Start (s : State) : Prop where
  glue : Glue.Start s.glue
  userData_eq : ∀ a, s.glue.userData a = none
  satellite_eq : ∀ c, s.satellite c = none
  taken_eq : ∀ c, s.taken c = false
  stage_eq : ∀ a, s.stage a = .fresh
  hungUp_eq : ∀ a, s.hungUp a = false
  peerClosed_eq : ∀ a, s.peerClosed a = false

def system : TransitionSystem State Action where
  init := Start
  step := step

end LightStack.Glue.Commands
