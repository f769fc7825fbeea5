import LightStack.Service.Model

/-!
# What the receive rings hold

The `rx_ring` of a listener holds accepted sockets, that of a data socket mbufs, and the entries do
not tell which.
-/

namespace LightStack.Service.Rings

open Lib
open Conn (realSocket)

inductive RxEntry where
  | command (descr : Nat × Nat)
  | mbuf
  deriving DecidableEq

def RxEntry.isCommand : RxEntry → Bool
  | .command _ => true
  | .mbuf => false

structure State where
  service : Service.State
  rx : List (Nat × RxEntry)
  mistaken : Bool

def rxRingFree (s : State) (c : Nat) : Bool :=
  decide (s.rx.countP (fun x => decide (x.1 = c)) < 1023)

def dequeueRxBuf (s : State) (c : Nat) : State :=
  match Mailbox.take c s.rx with
  | none => s
  | some (entry, rest) => { s with rx := rest, mistaken := s.mistaken || entry.isCommand }

def commandFor (c : Nat) (x : Nat × RxEntry) : Bool := decide (x.1 = c) && x.2.isCommand

def flushRx (s : State) (c : Nat) : State :=
  { s with
    rx := s.rx.filter fun x => decide (x.1 ≠ c)
    mistaken := s.mistaken || s.rx.any (commandFor c) }

def flushUser (s : State) : Option Nat → State
  | none => s
  | some c => flushRx s c

def closeIndex : Entry → Option Nat
  | .close c => some c
  | _ => none

def closesPosted (s t : Service.State) : List Nat :=
  (t.ring.drop s.ring.length).filterMap fun x => closeIndex x.2

def call (s : State) (i : Nat) (a : Conn.Action) (stream : Bool) : Option State :=
  (Service.call s.service i a stream).map fun t =>
    (closesPosted s.service t).foldl flushRx { s with service := t }

def accept (s : State) (i m k : Nat) (posted : Bool) : Option State :=
  match Mailbox.take ((s.service.sockets m).copies k) s.rx with
  | none => none
  | some (.command descr, rest) =>
    (Conn.step (view s.service i) (.accept m k posted)).map fun t =>
      { s with
        service := absorb s.service i (s.service.apps i).stream descr t
        rx := rest }
  | some (.mbuf, rest) =>
    if callable s.service i m then some { s with rx := rest, mistaken := true } else none

def recv (s : State) (i m : Nat) (kicked : Bool) : Option State :=
  (postAll s.service i m (dataEntry s.service i m kicked .rxKick)).map fun t =>
    dequeueRxBuf { s with service := t } (realSocket (view s.service i) m)

def flushed (p : Proc) (k : Nat) : Entry → Option Nat
  | .close c => (p.satellite c).bind fun a => getUserData (p.memory a)
  | .shutdown c how =>
    if how = 0 ∨ how = 2 then (p.satellite c).bind fun a => getUserData (p.memory a)
    else none
  | .decline (owner, a) => if owner = k then getUserData (p.memory a) else none
  | _ => none

def process (s : State) (k : Nat) (success : Bool) (address : Nat) : Option State :=
  match Mailbox.take k s.service.ring with
  | none => none
  | some (e, _) =>
    (Service.process s.service k success address).map fun t =>
      flushUser { s with service := t } (flushed (s.service.procs k) k e)

def userOnAccept (s : State) (k a b : Nat) (posted : Bool) : Option State :=
  (kernelAccept s.service k a b posted).bind fun x =>
    if rxRingFree s x.1 then
      some { s with
        service := x.2
        rx := if posted then s.rx ++ [(x.1, .command (k, b))] else s.rx }
    else none

def userDataAvailable (s : State) (k a : Nat) : Option State :=
  if (s.service.procs k).halted.isNone && queueable ((s.service.procs k).memory a) then
    match getUserData ((s.service.procs k).memory a) with
    | none => none
    | some c => if rxRingFree s c then some { s with rx := s.rx ++ [(c, .mbuf)] } else none
  else none

inductive Action where
  | service (a : Service.Action)
  | arrives (k a : Nat)

def actor : Service.Action → Option Nat
  | .stack k _ _ => some k
  | .connects k _ _ _ => some k
  | .disconnects k _ => some k
  | .closes k _ => some k
  | .readable k _ => some k
  | .reads k => some k
  | .writable k _ => some k
  | .writes k => some k
  | .notifies k _ => some k
  | _ => none

def serviceStep (s : State) : Service.Action → Option State
  | .call i a stream => call s i a stream
  | .accept i m k posted => accept s i m k posted
  | .recv i m kicked => recv s i m kicked
  | .stack k success address => process s k success address
  | .connects k a b posted => userOnAccept s k a b posted
  | a => (Service.step s.service a).map fun t => { s with service := t }

def runs (n : Nat) : Option Nat → Bool
  | none => true
  | some k => decide (k < n)

def step (s : State) : Action → Option State
  | .service a => if runs s.service.numProcs (actor a) then serviceStep s a else none
  | .arrives k a => if k < s.service.numProcs then userDataAvailable s k a else none

structure Start (s : State) : Prop where
  service : Service.Start s.service
  rx_eq : s.rx = []
  mistaken_eq : s.mistaken = false

def system : TransitionSystem State Action where
  init := Start
  step := step

end LightStack.Service.Rings
