import LightStack.Lib.Intrusive
import LightStack.Lib.Transition
import LightStack.Lib.Update

/-!
# The ready lists of `app_glue.c`

The callbacks of TCP put sockets on four lists, which two loops work off; being on a list is meant
to count as one reference.
-/

namespace LightStack.Glue

open Lib
open Function (update)

/-- The lists of `app_glue.c`. -/
inductive Ready where
  | read
  | write
  | accept
  | closed
  deriving DecidableEq

instance : Fintype Ready := ⟨{.read, .write, .accept, .closed}, by intro r; cases r <;> simp⟩

inductive TcpState where
  | listen
  | established
  | closeWait
  | close
  | other
  deriving DecidableEq

/-- Where the loops of `process_rx_ready_sockets` and `process_tx_ready_sockets` are. -/
inductive Pc where
  | idle
  | rxClosed
  | rxAccept (next : Option Nat)
  | rxRead (idx limit : Nat)
  | rxReading (a idx limit : Nat)
  | txWrite (idx limit : Nat)
  | txWriting (a idx limit : Nat)
  deriving DecidableEq

/-- The sockets, known by number. `refs` is `sk_refcnt`, of which `own` are those of TCP; `attached`
says that `sk_socket` is set and `released` that the `struct socket` was given back. -/
structure State where
  state : Nat → TcpState
  refs : Nat → Nat
  own : Nat → Nat
  attached : Nat → Bool
  userData : Nat → Option Nat
  stream : Nat → Bool
  present : Ready → Nat → Bool
  released : Nat → Bool
  closes : Nat → Nat
  list : Ready → List Nat
  readLen : Nat
  writeLen : Nat
  pc : Pc
  -- A `struct sock` was used after its last reference was dropped, a
  -- `struct socket` after it was given back.
  staleSk : Bool
  staleSocket : Bool
  crashed : Bool

/-! ## References -/

/-- `sock_hold`. -/
def hold (s : State) (a : Nat) : State :=
  { s with refs := update s.refs a (s.refs a + 1) }

/-- The socket is followed. -/
def touch (s : State) (a : Nat) : State :=
  { s with
    staleSk := s.staleSk || decide (s.refs a = 0)
    staleSocket := s.staleSocket || s.released a }

/-- `sock_put`. -/
def put (s : State) (a : Nat) : State :=
  { touch s a with refs := update s.refs a (s.refs a - 1) }

def setReady (s : State) (r : Ready) (a : Nat) (on : Bool) (list : List Nat) : State :=
  { s with
    present := update s.present r (update (s.present r) a on)
    list := update s.list r list }

/-- The socket enters a list and gets a reference for it. -/
def insert (s : State) (r : Ready) (a : Nat) : State :=
  { setReady (hold s a) r a true (s.list r ++ [a]) with
    readLen := if r = .read then s.readLen + 1 else s.readLen
    writeLen := if r = .write then s.writeLen + 1 else s.writeLen }

def remove (s : State) (r : Ready) (a : Nat) : State := setReady s r a false ((s.list r).erase a)

def crash (s : State) : State := { s with crashed := true }

/-- `app_glue_sock_readable`, which exits if a flagged socket is on an empty list. -/
def appGlueSockReadable (s : State) (a : Nat) : State :=
  if !s.attached a then s
  else if s.stream a ∧ s.state a ≠ .established ∧ s.state a ≠ .closeWait then s
  else if s.present .read a then
    if s.readLen = 0 then crash s else s
  else insert s .read a

def appGlueSockWriteSpace (s : State) (a : Nat) (writeable : Bool) : State :=
  if !s.attached a then s
  else if s.stream a ∧ s.state a ≠ .established then s
  else if !writeable || s.present .write a then s
  else insert s .write a

/-- `app_glue_sock_error_report`. -/
def appGlueSockErrorReport (s : State) (a : Nat) : State :=
  if !s.attached a || s.present .closed a then s else insert s .closed a

/-- The listener that `app_glue_sock_wakeup` looks up keeps the reference of the lookup. -/
def lookupListener (s : State) : Option Nat → State
  | none => s
  | some l => hold s l

/-- `app_glue_sock_wakeup`, the callback for changes of state. -/
def appGlueSockWakeup (s : State) (a : Nat) (listener : Option Nat) (writeable : Bool) : State :=
  let s := lookupListener s listener
  match listener, s.state a with
  | some l, .established => if s.present .accept l then s else insert s .accept l
  | none, .established =>
    if !s.attached a then crash s
    else if s.stream a then s
    else appGlueSockWriteSpace s a writeable
  | _, .closeWait | _, .close =>
    if !s.attached a then s
    else if s.present .closed a then s
    else insert s .closed a
  | _, _ => appGlueSockWriteSpace s a writeable

/-- TCP drops its reference in the close, or later. -/
def destroyed (s : State) (a : Nat) (dies : Bool) : Bool :=
  dies || !s.stream a || decide (s.state a = .listen) || decide (s.state a = .close)

def kernelClose (s : State) (a : Nat) (dies : Bool) : State :=
  let last := if destroyed s a dies then 1 else 0
  { touch s a with
    closes := update s.closes a (s.closes a + 1)
    released := update s.released a (s.released a || s.attached a)
    attached := update s.attached a false
    state := update s.state a (if destroyed s a dies then .close else .other)
    refs := update s.refs a (s.refs a - last)
    own := update s.own a (s.own a - last) }

def leave (s : State) (r : Ready) (a : Nat) (after : State → State) : State :=
  if s.present r a then after (remove s r a) else s

/-- The reference of the list of readable sockets is not dropped. -/
def leaveRead (s : State) (a : Nat) : State :=
  leave s .read a fun s => { s with readLen := s.readLen - 1 }

def leaveWrite (s : State) (a : Nat) : State :=
  leave s .write a fun s => { put s a with writeLen := s.writeLen - 1 }

def leaveAccept (s : State) (a : Nat) : State := leave s .accept a fun s => put s a

def leaveClosed (s : State) (a : Nat) : State := leave s .closed a id

/-- `app_glue_close_socket`, which takes the socket off its lists first. -/
def appGlueCloseSocket (s : State) (a : Nat) (dies : Bool) : State :=
  let s := leaveClosed (leaveAccept (leaveWrite (leaveRead (touch s a) a) a) a) a
  kernelClose { s with userData := update s.userData a none } a dies

def next : List Nat → Nat → Option Nat
  | [], _ => none
  | b :: rest, a => if b = a then rest.head? else next rest a

/-- One turn of the loops over closed, accepting and readable sockets. `kept` says that
`user_on_accept` wants the listener again. -/
def processRxReadySockets (s : State) (kept dies : Bool) : Option State :=
  match s.pc with
  | .idle => some { s with pc := .rxClosed }
  | .rxClosed =>
    match s.list .closed with
    | [] => some { s with pc := .rxAccept (s.list .accept).head? }
    | a :: _ => some (kernelClose (put (remove (touch s a) .closed a) a) a dies)
  | .rxAccept none => some { s with pc := .rxRead 0 s.readLen }
  | .rxAccept (some a) =>
    let next := next (s.list .accept) a
    let s := touch s a
    some { (if kept then s else put (remove s .accept a) a) with pc := .rxAccept next }
  | .rxRead idx limit =>
    match s.list .read with
    | [] => some { s with pc := .idle }
    | a :: _ =>
      if idx < limit then
        some { remove (touch s a) .read a with pc := .rxReading a idx limit }
      else some { s with pc := .idle }
  | .rxReading a idx limit =>
    some { put s a with readLen := s.readLen - 1, pc := .rxRead (idx + 1) limit }
  | _ => none

/-- One turn of the loop over the writable sockets. -/
def processTxReadySockets (s : State) : Option State :=
  match s.pc with
  | .idle => some { s with pc := .txWrite 0 s.writeLen }
  | .txWrite idx limit =>
    match s.list .write with
    | [] => some { s with pc := .idle }
    | a :: _ =>
      if idx < limit then
        some { remove (touch s a) .write a with pc := .txWriting a idx limit }
      else some { s with pc := .idle }
  | .txWriting a idx limit =>
    some { put s a with writeLen := s.writeLen - 1, pc := .txWrite (idx + 1) limit }
  | _ => none

/-- Sockets are made and grafted, TCP moves and calls back, and the loops run. -/
inductive Action where
  | create (a : Nat) (stream : Bool)
  | child (a : Nat)
  | tcp (a : Nat) (state : TcpState)
  | tcpHold (a : Nat)
  | tcpPut (a : Nat)
  | graft (a : Nat)
  | setUserData (a : Nat) (data : Option Nat)
  | readable (a : Nat)
  | writeSpace (a : Nat) (writeable : Bool)
  | errorReport (a : Nat)
  | wakeup (a : Nat) (listener : Option Nat) (writeable : Bool)
  | rx (kept dies : Bool)
  | tx
  | discard (a : Nat) (dies : Bool)
  | close (a : Nat) (dies : Bool)
  deriving DecidableEq

def unused (s : State) (a : Nat) : Bool :=
  decide (s.refs a = 0 ∧ s.own a = 0 ∧ s.closes a = 0) && !s.released a && !s.attached a

/-- A connection that was not accepted yet. -/
def waiting (s : State) (a : Nat) : Bool :=
  decide (0 < s.own a ∧ s.closes a = 0) && !s.released a && !s.attached a

/-- TCP still has a reference, and the socket was not given back. -/
def callsBack (s : State) (a : Nat) : Bool := decide (0 < s.own a) && !s.released a

def make (s : State) (a : Nat) (stream attached : Bool) (state : TcpState) : State :=
  { s with
    state := update s.state a state
    refs := update s.refs a 1
    own := update s.own a 1
    attached := update s.attached a attached
    userData := update s.userData a none
    stream := update s.stream a stream }

def graft (s : State) (a : Nat) : State :=
  { s with
    attached := update s.attached a true
    userData := update s.userData a none }

def listening (s : State) : Option Nat → Bool
  | none => true
  | some l => decide (s.state l = .listen) && s.attached l

def step (s : State) (action : Action) : Option State :=
  if s.crashed then none
  else match action with
  | .create a stream => if unused s a then some (make s a stream true .close) else none
  | .child a => if unused s a then some (make s a true false .established) else none
  | .tcp a state =>
    if 0 < s.own a then some { s with state := update s.state a state } else none
  | .tcpHold a =>
    if 0 < s.own a then
      some { hold s a with own := update s.own a (s.own a + 1) }
    else none
  -- the last reference is dropped only when the socket is not attached
  | .tcpPut a =>
    if 1 < s.own a ∨ 0 < s.own a ∧ s.attached a = false then
      some { s with
        refs := update s.refs a (s.refs a - 1)
        own := update s.own a (s.own a - 1) }
    else none
  | .graft a => if waiting s a then some (graft s a) else none
  | .setUserData a data =>
    if s.pc = .idle then some { s with userData := update s.userData a data }
    else none
  | .readable a => if callsBack s a then some (appGlueSockReadable s a) else none
  | .writeSpace a writeable =>
    if 0 < s.own a then some (appGlueSockWriteSpace s a writeable) else none
  | .errorReport a => if callsBack s a then some (appGlueSockErrorReport s a) else none
  | .wakeup a listener writeable =>
    if callsBack s a && listening s listener then
      some (appGlueSockWakeup s a listener writeable)
    else none
  | .rx kept dies => processRxReadySockets s kept dies
  | .tx => processTxReadySockets s
  | .discard a dies => if waiting s a then some (kernelClose (graft s a) a dies) else none
  | .close a dies => if s.pc = .idle then some (appGlueCloseSocket s a dies) else none

structure Start (s : State) : Prop where
  refs_eq : ∀ a, s.refs a = 0
  own_eq : ∀ a, s.own a = 0
  attached_eq : ∀ a, s.attached a = false
  present_eq : ∀ r a, s.present r a = false
  released_eq : ∀ a, s.released a = false
  closes_eq : ∀ a, s.closes a = 0
  list_eq : ∀ r, s.list r = []
  readLen_eq : s.readLen = 0
  writeLen_eq : s.writeLen = 0
  pc_eq : s.pc = .idle
  staleSk_eq : s.staleSk = false
  staleSocket_eq : s.staleSocket = false

def system : TransitionSystem State Action where
  init := Start
  step := step

end LightStack.Glue
