import LightStack.Lib.Transition
import LightStack.Lib.Mailbox
import LightStack.Fd.Tables

/-!
# The life of a connection index

Unused indices are in `free_connections_ring`. Calls are cut where they wait for the stack.
-/

namespace LightStack.Conn

open Lib Function
open Fd (connectionPoolSize trueFdNum fdRingCap)

/-- Why the process dies in a call. -/
inductive Fault where
  | outOfBounds
  | uninitialised
  | nullPointer

theorem of_bind_ok {α β : Type} {x : Except Fault α} {f : α → Except Fault β} {b : β}
    (h : x >>= f = .ok b) : ∃ a, x = .ok a ∧ f a = .ok b := by
  cases x with
  | error fault => cases h
  | ok a => exact ⟨a, rfl, h⟩

/-- The shared `light_socket_t`: the table of its copies has one index for each stack process. -/
structure Socket where
  isMulticore : Bool
  copies : Nat → Nat

/-- What the application has of an index: its `socket` pointer, `is_init` and `proc_id`. -/
structure Local where
  hasSocket : Bool
  isInit : Bool
  procId : Nat

/-- The commands about an index; `decline` closes an accepted socket that got none. -/
inductive Command where
  | openSocket (c : Nat)
  | bind (c : Nat)
  | close (c : Nat)
  | shutdown (c : Nat) (how : Int)
  | setSocketRing (c : Nat)
  | decline
  deriving DecidableEq

/-- How far `_light_socket_init` or a bind gets with its command. -/
inductive Alloc where
  | noCommand
  | noReturnValue
  | notQueued
  | posted
  deriving DecidableEq

/-- Where `light_bind` waits for the stack: the copy `i` is being opened or bound. -/
inductive Call where
  | idle
  | waitOpen (main current i : Nat)
  | waitBind (main i : Nat)
  deriving DecidableEq

/-- One application and all stack processes. `pending` holds the commands with their process, and
`kernel` the indices that have a kernel socket. -/
structure State where
  numProcs : Nat
  free : Ring (Option Nat) fdRingCap
  sockets : Nat → Socket
  locals : Nat → Local
  descriptors : List Nat
  mapped : Nat → Bool
  freeFds : Nat
  pending : List (Nat × Command)
  kernel : Nat → Bool
  down : Nat → Bool
  call : Call
  reply : Option Bool
  fault : Option Fault

/-- The calls of the application, the continuation of a bind, and a step of one stack process. -/
inductive Action where
  | openSocket
  | bind (m : Nat) (alloc : Alloc)
  | resume (alloc : Alloc) (posted : Nat)
  | connect (m : Nat) (inet : Bool)
  | accept (m k : Nat) (posted : Bool)
  | shutdown (m : Nat) (how : Int) (posted : Bool)
  | close (m : Nat) (posted : Nat)
  | stack (k : Nat) (success : Bool)
  deriving DecidableEq

/-! ## The application -/

/-- `rte_ring_enqueue` on `free_connections_ring`; a full ring drops the entry. -/
def putFree (free : Ring (Option Nat) fdRingCap) (x : Option Nat) : Ring (Option Nat) fdRingCap :=
  (free.enqueue x).getD free

/-- The pointer that is put back into the ring, which may be `NULL`. -/
def pointer (s : State) (c : Nat) : Option Nat :=
  if (s.locals c).hasSocket then some c else none

def setLocal (s : State) (c : Nat) (l : Local) : State :=
  { s with locals := update s.locals c l }

def setSocket (s : State) (c : Nat) (x : Socket) : State :=
  { s with sockets := update s.sockets c x }

def post (s : State) (k : Nat) (cmd : Command) : State :=
  { s with pending := s.pending ++ [(k, cmd)] }

/-- The descriptor of an index. -/
def getNewLightFd (s : State) (c : Nat) : Except Fault State :=
  if s.freeFds = 0 then .error .uninitialised
  else .ok { s with
    freeFds := s.freeFds - 1
    descriptors := s.descriptors ++ [c]
    mapped := update s.mapped c true }

/-- The descriptor is returned; an index without one gives `-1`, which is out of bounds. -/
def putBackLightFd (s : State) (c : Nat) : Except Fault State :=
  if s.mapped c then
    .ok { s with
      freeFds := s.freeFds + 1
      descriptors := s.descriptors.erase c
      mapped := update s.mapped c false }
  else .error .outOfBounds

/-- The next free index, or `none` where the ring is empty. -/
def lightGetSocket (s : State) : Except Fault (Option (Nat × State)) :=
  match s.free.dequeue with
  | none => .ok none
  | some (none, _) => .error .nullPointer
  | some (some c, free) =>
    let s := setSocket { s with free := free } c { s.sockets c with isMulticore := false }
    .ok (some (c, setLocal s c { s.locals c with hasSocket := true, isInit := false }))

/-- `light_open_socket`, which goes on with `-1` if there is no index. -/
def lightOpenSocket (s : State) : Except Fault State := do
  match ← lightGetSocket s with
  | none => .error (if s.freeFds = 0 then .uninitialised else .outOfBounds)
  | some (c, t) => getNewLightFd t c

/-- `_light_socket_init` up to the wait; without a return value the index is freed. -/
def lightSocketInit (s : State) (c procId : Nat) : Alloc → State × Bool
  | .noCommand => (s, false)
  | .noReturnValue => ({ s with free := putFree s.free (pointer s c) }, false)
  | .notQueued => (s, false)
  | .posted => ({ post s procId (.openSocket c) with reply := none }, true)

/-- One turn of the loop over the copies: an index without kernel socket is freed at once. -/
def closeCopy (s : State) (k c posted : Nat) : Option (State × Nat) :=
  if !(s.locals c).isInit then
    some ({ s with free := putFree s.free (pointer s c) }, posted)
  else
    match posted with
    | 0 => none
    | posted + 1 =>
      some (setLocal (post s k (.close c)) c { s.locals c with isInit := false }, posted)

/-- The loop over the copies, left early where there is no command buffer. -/
def closeCopies (main : Nat) : List Nat → Nat → State → State × Bool
  | [], _, s => (s, true)
  | k :: rest, posted, s =>
    match closeCopy s k ((s.sockets main).copies k) posted with
    | none => (s, false)
    | some (t, posted) => closeCopies main rest posted t

/-- `light_close` of a socket. -/
def lightClose (s : State) (m posted : Nat) : Except Fault State := do
  let s ← putBackLightFd s m
  if !(s.sockets m).isMulticore then
    if !(s.locals m).isInit then
      return { s with free := putFree s.free (pointer s m) }
    else
      match posted with
      | 0 => return s
      | _ + 1 =>
        return setLocal (post s (s.locals m).procId (.close m)) m { s.locals m with procId := 0 }
  else
    let (t, finished) := closeCopies m (List.range s.numProcs) posted s
    if finished then
      return setLocal (setSocket t m { t.sockets m with isMulticore := false }) m
        { t.locals m with procId := 0 }
    else return t

/-- `light_bind` up to the first wait. -/
def lightBind (s : State) (m : Nat) (alloc : Alloc) : State :=
  let s := setSocket s m ⟨true, update (s.sockets m).copies 0 m⟩
  let s := setLocal s m { s.locals m with procId := 0 }
  match lightSocketInit s m 0 alloc with
  | (t, true) => { t with call := .waitOpen m m 0 }
  | (t, false) => t

/-- The copies made so far are closed by `light_close`, although they have no descriptor. -/
def bindFail (s : State) (main i posted : Nat) : Except Fault State := do
  let t ← (List.range' 1 (i - 1)).foldlM
    (fun s j => lightClose s ((s.sockets main).copies j) posted) s
  return { setSocket t main { t.sockets main with isMulticore := false } with
    call := .idle }

/-- The new copy is entered into the table of the main socket. -/
def register (s : State) (main current i : Nat) : State :=
  let s := setSocket s main { s.sockets main with
    copies := update (s.sockets main).copies i current }
  let s := setLocal s current { s.locals current with procId := i }
  setSocket s current ⟨true, update (s.sockets current).copies 0 main⟩

/-- The table of the main socket is written into those of its copies. -/
def spread (s : State) (main : Nat) : State :=
  { s with sockets := fun c =>
      if c ∈ (List.range' 1 (s.numProcs - 1)).map (s.sockets main).copies then
        { s.sockets c with copies := fun j =>
            if 1 ≤ j ∧ j < s.numProcs then (s.sockets main).copies j
            else (s.sockets c).copies j }
      else s.sockets c }

/-- The `BIND` command to one process. -/
def lightBindCopy (s : State) (main i : Nat) : Alloc → State
  | .posted =>
    { post s i (.bind ((s.sockets main).copies i)) with
      reply := none
      call := .waitBind main i }
  | _ => { s with call := .idle }

/-- The socket of process `i` is open: the next one is opened, or all are bound. -/
def bindNext (s : State) (main current i : Nat) (alloc : Alloc) (posted : Nat) :
    Except Fault State := do
  let s := setLocal s current { s.locals current with isInit := true }
  let s := if i = 0 then s else register s main current i
  if i + 1 < s.numProcs then
    match ← lightGetSocket s with
    | none => bindFail s main (i + 1) posted
    | some (c, s) =>
      match lightSocketInit s c (i + 1) alloc with
      | (t, true) => return { t with call := .waitOpen main c (i + 1) }
      | (t, false) => bindFail t main (i + 1) posted
  else return lightBindCopy (spread s main) main 0 alloc

/-- `light_bind` goes on when the answer is there. -/
def lightBindResume (s : State) (alloc : Alloc) (posted : Nat) : Option (Except Fault State) :=
  match s.call, s.reply with
  | .waitOpen main current i, some success =>
    some (if success then bindNext s main current i alloc posted
      else do
        let t ← lightClose s current posted
        if i = 0 then return { t with call := .idle }
        else bindFail t main i posted)
  | .waitBind main i, some success =>
    some (.ok (if success && decide (i + 1 < s.numProcs) then
        lightBindCopy s main (i + 1) alloc
      else { s with call := .idle }))
  | _, _ => none

/-- `light_accept` with a connection of process `k`; without an index it is declined. -/
def lightAccept (s : State) (k : Nat) (posted : Bool) : Except Fault State :=
  match s.free.dequeue with
  | none => .ok (if posted then post s k .decline else s)
  | some (none, _) => .error .nullPointer
  | some (some c, free) =>
    let s := setSocket { s with free := free } c ⟨false, update (s.sockets c).copies k c⟩
    if posted then
      getNewLightFd (setLocal (post s k (.setSocketRing c)) c ⟨true, true, k⟩) c
    else .ok (setLocal s c ⟨true, false, k⟩)

def lightShutdown (s : State) (m : Nat) (how : Int) (posted : Bool) : State :=
  if posted then post s (s.locals m).procId (.shutdown m how) else s

def lightConnect (s : State) (inet : Bool) : Except Fault State :=
  if inet then .error .nullPointer else .ok s

/-- `light_free_socket` in the stack process. -/
def lightFreeSocket (s : State) (c : Nat) : State :=
  { s with
    kernel := update s.kernel c false
    free := putFree s.free (some c) }

/-- A stack process carries out a command; `SHUT_RDWR` ends the process. -/
def processCommand (s : State) (k : Nat) (success : Bool) : Command → State
  | .openSocket c =>
    if success then
      { s with kernel := update s.kernel c true, reply := some true }
    else { s with reply := some false }
  | .bind c => { s with reply := some (s.kernel c && success) }
  | .close c => if s.kernel c then lightFreeSocket s c else s
  | .shutdown c how =>
    if s.kernel c && decide (how = 2) then
      { lightFreeSocket s c with down := update s.down k true }
    else s
  | .setSocketRing c => { s with kernel := update s.kernel c true }
  | .decline => s

/-- The state after a call. -/
def settle (s : State) : Except Fault State → State
  | .ok t => t
  | .error f => { s with fault := some f }

/-- The application can make a call. -/
def ready (s : State) : Bool := s.fault.isNone && decide (s.call = .idle)

/-- One step of the application or of a stack process. -/
def step (s : State) : Action → Option State
  | .openSocket =>
    if ready s then some (settle s (lightOpenSocket s)) else none
  | .bind m alloc =>
    if ready s && decide (m ∈ s.descriptors) then some (lightBind s m alloc)
    else none
  | .resume alloc posted =>
    if s.fault.isNone then (lightBindResume s alloc posted).map (settle s)
    else none
  | .connect m inet =>
    if ready s && decide (m ∈ s.descriptors) then
      some (settle s (lightConnect s inet))
    else none
  | .accept m k posted =>
    if ready s && decide (m ∈ s.descriptors ∧ k < s.numProcs) then
      some (settle s (lightAccept s k posted))
    else none
  | .shutdown m how posted =>
    if ready s && decide (m ∈ s.descriptors) then
      some (lightShutdown s m how posted)
    else none
  | .close m posted =>
    if ready s && decide (m ∈ s.descriptors) then
      some (settle s (lightClose s m posted))
    else none
  | .stack k success =>
    if s.down k then none
    else
      (Mailbox.take k s.pending).map fun taken =>
        processCommand { s with pending := taken.2 } k success taken.1

/-- The ring as the service fills it with all the indices. -/
def serviceFree : Ring (Option Nat) fdRingCap :=
  (List.range connectionPoolSize).foldl (fun free c => putFree free (some c)) .empty

structure Start (s : State) : Prop where
  numProcs_pos : 0 < s.numProcs
  free_eq : s.free = serviceFree
  locals_eq : ∀ c, s.locals c = ⟨false, false, 0⟩
  descriptors_eq : s.descriptors = []
  mapped_eq : ∀ c, s.mapped c = false
  freeFds_eq : s.freeFds = trueFdNum
  pending_eq : s.pending = []
  kernel_eq : ∀ c, s.kernel c = false
  down_eq : ∀ k, s.down k = false
  call_eq : s.call = .idle
  reply_eq : s.reply = none
  fault_eq : s.fault = none

def system : TransitionSystem State Action where
  init := Start
  step := step

/-- The indices behind a descriptor: those of all copies once a bind is done. -/
def bundle (s : State) (m : Nat) : List Nat :=
  match s.call with
  | .waitOpen main _ _ =>
    if (s.sockets m).isMulticore && decide (m ≠ main) then
      (List.range s.numProcs).map (s.sockets m).copies
    else [m]
  | _ =>
    if (s.sockets m).isMulticore then
      (List.range s.numProcs).map (s.sockets m).copies
    else [m]

/-- The copies that a bind in progress has taken. -/
def inFlight (s : State) : List Nat :=
  match s.call with
  | .waitOpen main current i =>
    (List.range' 1 (i - 1)).map (s.sockets main).copies ++
      if i = 0 then [] else [current]
  | _ => []

/-- The indices that the application has. -/
def owned (s : State) : List Nat := s.descriptors.flatMap (bundle s) ++ inFlight s

/-- The index that the stack frees when it carries out a command. -/
def release : Command → Option Nat
  | .close c => some c
  | .shutdown c how => if how = 2 then some c else none
  | _ => none

def releases (s : State) : List Nat := s.pending.filterMap fun x => release x.2

/-- In how many places an index is: free, owned or about to be freed. -/
def places (s : State) (c : Nat) : Nat :=
  s.free.items.count (some c) + (owned s).count c + (releases s).count c

/-- How many command buffers a close takes. -/
def closesNeeded (s : State) (m : Nat) : Nat := (bundle s m).countP fun c => (s.locals c).isInit

def opensNext (s : State) : Bool :=
  match s.call with
  | .waitOpen _ _ i => decide (i + 1 < s.numProcs)
  | _ => false

def opens (s : State) (k : Nat) : Bool :=
  match Mailbox.take k s.pending with
  | some (.openSocket _, _) => true
  | _ => false

/-- Nothing a call asks for is missing, a socket is bound once, and none is shut down both ways. -/
def Supplied (s : State) : Action → Prop
  | .openSocket => s.free.items ≠ [] ∧ 0 < s.freeFds
  | .bind m alloc => (s.locals m).isInit = false ∧ alloc = .posted
  | .resume alloc _ => opensNext s = true → s.free.items ≠ [] ∧ alloc = .posted
  | .connect _ inet => inet = false
  | .accept _ _ posted => s.free.items = [] ∨ posted = true ∧ 0 < s.freeFds
  | .shutdown _ how posted => how ≠ 2 ∨ posted = false
  | .close m posted => closesNeeded s m ≤ posted
  | .stack k success => opens s k = true → success = true

instance (s : State) (a : Action) : Decidable (Supplied s a) := by
  cases a <;> dsimp only [Supplied] <;> infer_instance

end LightStack.Conn
