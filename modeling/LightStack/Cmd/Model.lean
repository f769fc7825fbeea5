import LightStack.Lib.Mailbox
import LightStack.Lib.Transition

/-!
# Command buffers

An application enqueues a buffer of a stack process's pool on its ring, and the process puts it back
or lends it to the ring of a listener.
-/

namespace LightStack.Cmd

open Lib

def commandPoolSize : Nat := 32768

structure Buf where
  home : Nat
  number : Nat
deriving DecidableEq

/-- The commands that `_process_command` knows. Nothing sends the route commands and
`disconnectClient`, and `connectClient` is sent through the null pointer `free_command_pool`. -/
inductive Command where
  | addArp
  | epollCreate
  | epollClose
  | openSocket
  | bind
  | listen
  | close (c : Nat)
  | txKick
  | rxKick
  | txPoolEmpty
  | routeAdd
  | routeDel
  | connectClient
  | disconnectClient
  | setsockopt
  | shutdown (c how : Nat)
  | setSocketRing
  | decline
deriving DecidableEq

inductive Found where
  | noSocket
  | listener
  | other
deriving DecidableEq

structure State where
  numProcs : Nat
  pools : Buf → List Nat
  ring : List (Nat × Buf × Command)
  accepted : List (Nat × Buf)

def getFreeCommandBuf (s : State) (k : Nat) (b : Buf) : Option State :=
  if k ∈ s.pools b then
    some { s with pools := Function.update s.pools b ((s.pools b).erase k) }
  else none

def freeCommandBuf (s : State) (k : Nat) (b : Buf) : State :=
  { s with pools := Function.update s.pools b (k :: s.pools b) }

def full (s : State) (k : Nat) : Bool :=
  decide (commandPoolSize - 1 ≤ s.ring.countP fun x => decide (x.1 = k))

def enqueueCommandBuf (s : State) (k : Nat) (b : Buf) (cmd : Command) : Option State :=
  if full s k then none else some { s with ring := s.ring ++ [(k, b, cmd)] }

def submit (s : State) (k : Nat) (b : Buf) (cmd : Command) : State :=
  (enqueueCommandBuf s k b cmd).getD (freeCommandBuf s k b)

def post (s : State) (k : Nat) (b : Buf) (cmd : Command) : Option State :=
  (getFreeCommandBuf s k b).map fun s => submit s k b cmd

def postWithRes (s : State) (k : Nat) (b : Buf) (cmd : Command) (res : Bool) : Option State :=
  (getFreeCommandBuf s k b).map fun s =>
    if res then submit s k b cmd else freeCommandBuf s k b

def lightSocketInit (s : State) (k : Nat) (b : Buf) (res : Bool) : Option State :=
  postWithRes s k b .openSocket res

def lightBind (s : State) (k : Nat) (b : Buf) (res : Bool) : Option State :=
  postWithRes s k b .bind res

def lightListenSocket (s : State) (k : Nat) (b : Buf) : Option State := post s k b .listen

def lightClose (s : State) (k : Nat) (b : Buf) (c : Nat) : Option State := post s k b (.close c)

def lightNotifyEmptyTxBuffers (s : State) (k : Nat) (b : Buf) : Option State :=
  post s k b .txPoolEmpty

def lightSocketKick (s : State) (k : Nat) (b : Buf) : Option State := post s k b .txKick

def lightSetsockopt (s : State) (k : Nat) (b : Buf) : Option State := post s k b .setsockopt

def lightShutdown (s : State) (k : Nat) (b : Buf) (c how : Nat) : Option State :=
  post s k b (.shutdown c how)

def epollCreate (s : State) (k : Nat) (b : Buf) : Option State := post s k b .epollCreate

def epollClose (s : State) (k : Nat) (b : Buf) : Option State := post s k b .epollClose

/-- A stack process sends what it has learnt to another. -/
def arpProcess (s : State) (k : Nat) (b : Buf) : Option State := post s k b .addArp

def lightDequeueRxBufKick (s : State) (k : Nat) (b : Buf) : Option State :=
  (getFreeCommandBuf s k b).map fun s => (enqueueCommandBuf s k b .rxKick).getD s

def lightDequeueRxBuf (s : State) (c : Nat) : Option State :=
  (Mailbox.take c s.accepted).map fun taken => { s with accepted := taken.2 }

def flushRx (s : State) (c : Nat) : State :=
  { s with accepted := s.accepted.filter fun x => decide (x.1 ≠ c) }

def lightAccept (s : State) (c k : Nat) (connection : Bool) : Option State :=
  (Mailbox.take c s.accepted).map fun taken =>
    submit { s with accepted := taken.2 } k taken.1
      (if connection then .setSocketRing else .decline)

def userOnAccept (s : State) (k : Nat) (b : Buf) (c : Nat) (room : Bool) : Option State :=
  (getFreeCommandBuf s k b).map fun s =>
    if room then { s with accepted := s.accepted ++ [(c, b)] } else freeCommandBuf s k b

def processCommand (s : State) (k : Nat) (b : Buf) (opened : Bool) (found : Found) : Command → State
  | .epollCreate => if opened then freeCommandBuf s k b else s
  | .epollClose => s
  | .listen => if found = .noSocket then s else freeCommandBuf s k b
  | .close c => freeCommandBuf (if found = .noSocket then s else flushRx s c) k b
  | .txKick => if found = .listener then s else freeCommandBuf s k b
  | .rxKick => if found = .listener then s else freeCommandBuf s k b
  | .shutdown c how =>
    if found = .noSocket then freeCommandBuf s k b
    else if how = 0 then freeCommandBuf (flushRx s c) k b
    else if how = 2 then flushRx s c
    else freeCommandBuf s k b
  | .addArp | .openSocket | .bind | .txPoolEmpty | .routeAdd | .routeDel | .connectClient
  | .disconnectClient | .setsockopt | .setSocketRing | .decline => freeCommandBuf s k b

def process (s : State) (k : Nat) (opened : Bool) (found : Found) : Option State :=
  (Mailbox.take k s.ring).map fun taken =>
    processCommand { s with ring := taken.2 } k taken.1.1 opened found taken.1.2

inductive Call where
  | socketInit (res : Bool)
  | bind (res : Bool)
  | listen
  | close (c : Nat)
  | notifyEmptyTxBuffers
  | socketKick
  | setsockopt
  | shutdown (c how : Nat)
  | epollCreate
  | epollClose
  | arpProcess
  | dequeueRxBufKick
deriving DecidableEq

inductive Action where
  | call (k : Nat) (b : Buf) (a : Call)
  | dequeueRxBuf (c : Nat)
  | flushRx (c : Nat)
  | accept (c k : Nat) (connection : Bool)
  | connects (k : Nat) (b : Buf) (c : Nat) (room : Bool)
  | stack (k : Nat) (opened : Bool) (found : Found)
deriving DecidableEq

def call (s : State) (k : Nat) (b : Buf) : Call → Option State
  | .socketInit res => lightSocketInit s k b res
  | .bind res => lightBind s k b res
  | .listen => lightListenSocket s k b
  | .close c => lightClose s k b c
  | .notifyEmptyTxBuffers => lightNotifyEmptyTxBuffers s k b
  | .socketKick => lightSocketKick s k b
  | .setsockopt => lightSetsockopt s k b
  | .shutdown c how => lightShutdown s k b c how
  | .epollCreate => epollCreate s k b
  | .epollClose => epollClose s k b
  | .arpProcess => arpProcess s k b
  | .dequeueRxBufKick => lightDequeueRxBufKick s k b

def step (s : State) : Action → Option State
  | .call k b a => call s k b a
  | .dequeueRxBuf c => lightDequeueRxBuf s c
  | .flushRx c => some (flushRx s c)
  | .accept c k connection => lightAccept s c k connection
  | .connects k b c room => userOnAccept s k b c room
  | .stack k opened found => process s k opened found

def Created (s : State) (b : Buf) : Prop := b.home < s.numProcs ∧ b.number < commandPoolSize

instance (s : State) (b : Buf) : Decidable (Created s b) := inferInstanceAs (Decidable (_ ∧ _))

structure Start (s : State) : Prop where
  pools_eq : ∀ b, s.pools b = if Created s b then [b.home] else []
  ring_eq : s.ring = []
  accepted_eq : s.accepted = []

def system : TransitionSystem State Action where
  init := Start
  step := step

def whereabouts (s : State) (b : Buf) : List Nat :=
  s.pools b ++ (s.ring.filter fun x => decide (x.2.1 = b)).map Prod.fst ++
    (s.accepted.filter fun x => decide (x.2 = b)).map fun _ => b.home

def noneWaits (s : State) (c : Nat) : Bool := s.accepted.all fun x => decide (x.1 ≠ c)

def Completes (s : State) (opened : Bool) (found : Found) : Command → Prop
  | .epollCreate => opened = true
  | .epollClose => False
  | .listen => found ≠ .noSocket
  | .txKick => found ≠ .listener
  | .rxKick => found ≠ .listener
  | .close c => found = .noSocket ∨ noneWaits s c = true
  | .shutdown c how => found = .noSocket ∨ how ≠ 2 ∧ (how = 0 → noneWaits s c = true)
  | _ => True

instance (s : State) (opened : Bool) (found : Found) (cmd : Command) :
    Decidable (Completes s opened found cmd) := by
  cases cmd <;> unfold Completes <;> infer_instance

/-- A kick of a read finds room, a ring in which connections wait is neither flushed nor read, a
connection is accepted through its process, and commands are carried out to the end. -/
def Returning (s : State) : Action → Prop
  | .call k _ .dequeueRxBufKick => full s k = false
  | .call _ _ _ => True
  | .dequeueRxBuf c => noneWaits s c = true
  | .flushRx c => noneWaits s c = true
  | .accept c k _ => ∀ taken ∈ Mailbox.take c s.accepted, taken.1.home = k
  | .connects _ _ _ _ => True
  | .stack k opened found => ∀ taken ∈ Mailbox.take k s.ring, Completes s opened found taken.1.2

instance (s : State) (a : Action) : Decidable (Returning s a) := by
  unfold Returning
  split <;> infer_instance

end LightStack.Cmd
