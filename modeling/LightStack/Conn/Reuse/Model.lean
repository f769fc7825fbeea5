import LightStack.Conn.Routing

/-!
# What a connection slot carries from one owner to the next

The contents of the slots are added to `Conn.Model`.
-/

namespace LightStack.Conn.Reuse

open Lib
open Function (update)

inductive Timeout where
  | zero
  | unlimited
  | set (sec usec : Int)
  deriving DecidableEq

structure Slot where
  isNonblock : Bool
  connectCloseSignal : Nat
  writeDone : Bool
  txRing : List Nat
  rxRing : List Nat
  epollNodes : List Nat
  presentedInChain : Bool
  sendTimeout : Timeout
  receiveTimeout : Timeout

inductive OptName where
  | sndTimeo
  | rcvTimeo
  | other
  deriving DecidableEq

structure SockOpt where
  name : OptName
  sec : Int
  usec : Int
  deriving DecidableEq

structure Private where
  shadow : List Nat
  isSetSockopt : Bool
  stored : Option SockOpt

inductive Entry where
  | command (cmd : Command)
  | txKick (c : Nat)

structure State where
  conn : Conn.State
  ring : List (Nat × Entry)
  slots : Nat → Slot
  privates : Nat → Private
  /-- The kernel socket of the index has the index as its user data. -/
  userData : Nat → Bool
  /-- A connection to the listener was left without a command, with the listener's user data. -/
  strayed : Nat → Bool

inductive Action where
  | call (a : Conn.Action)
  | setNonblock (m : Nat) (on : Bool)
  | setsockopt (m : Nat) (opt : SockOpt) (posted : Nat)
  | epollAdd (m k e : Nat) (allocated : Bool)
  | epollDel (m k e : Nat)
  | send (m : Nat) (mbufs : List Nat) (kicked : Bool)
  | recv (m n used : Nat)
  | stack (k : Nat) (success : Bool) (sent : Nat)
  | transmit (c sent : Nat)
  | deliver (c mbuf : Nat)
  | markClosed (c signal : Nat)
  | reclaim (c : Nat)
  | strays (c : Nat)

/-! ## The resets -/

def initSlot (x : Slot) : Slot :=
  { x with
    sendTimeout := .unlimited
    receiveTimeout := .unlimited
    epollNodes := []
    connectCloseSignal := 0 }

def acceptSlot (x : Slot) : Slot :=
  { x with
    sendTimeout := .unlimited
    receiveTimeout := .unlimited
    connectCloseSignal := 0
    isNonblock := false }

def closeSlot (unlink : Bool) (x : Slot) : Slot :=
  { x with
    rxRing := []
    connectCloseSignal := 0
    isNonblock := false
    sendTimeout := .unlimited
    receiveTimeout := .unlimited
    epollNodes := if unlink then [] else x.epollNodes }

def resetLocalDescriptor (p : Private) : Private :=
  { p with shadow := [], isSetSockopt := false }

def posted (s t : Conn.State) : List (Nat × Command) := t.pending.drop s.pending.length

def initSlots (cmds : List (Nat × Command)) (slots : Nat → Slot) : Nat → Slot :=
  fun c => if cmds.any fun x => decide (x.2 = .openSocket c) then initSlot (slots c)
    else slots c

def closedBy (cmds : List (Nat × Command)) (c : Nat) : Option Nat :=
  (cmds.find? fun x => decide (x.2 = .close c)).map Prod.fst

def closeSlots (mainProcId : Nat) (cmds : List (Nat × Command)) (slots : Nat → Slot) : Nat → Slot :=
  fun c => match closedBy cmds c with
    | some k => closeSlot (decide (k = mainProcId)) (slots c)
    | none => slots c

def closePrivates (cmds : List (Nat × Command)) (privates : Nat → Private) : Nat → Private :=
  fun c => match closedBy cmds c with
    | some _ => { privates c with shadow := [] }
    | none => privates c

def nextFree (s : Conn.State) : Option Nat :=
  match s.free.items with
  | some c :: _ => some c
  | _ => none

def updateNext {α : Type*} (s : Conn.State) (f : α → α) (x : Nat → α) : Nat → α :=
  fun c => if nextFree s = some c then f (x c) else x c

def copyOn (s : Conn.State) (m k : Nat) : Nat :=
  if (s.sockets m).isMulticore then (s.sockets m).copies k else m

def mapSlots (cs : List Nat) (f : Slot → Slot) (slots : Nat → Slot) : Nat → Slot :=
  fun c => if c ∈ cs then f (slots c) else slots c

def copyNonblock (main current i : Nat) (slots : Nat → Slot) : Nat → Slot :=
  fun c => if i ≠ 0 ∧ c = current then
      { slots c with isNonblock := (slots main).isNonblock }
    else slots c

def resumeSlots (s t : Conn.State) (slots : Nat → Slot) : Nat → Slot :=
  fun c => match s.call, s.reply with
    | .waitOpen main current i, some true =>
      initSlots (posted s t) (copyNonblock main current i slots) c
    | .waitOpen _ current _, some false => closeSlots (s.locals current).procId (posted s t) slots c
    | _, _ => slots c

def callSlots (s t : Conn.State) (slots : Nat → Slot) : Conn.Action → Nat → Slot
  | .bind _ _ => initSlots (posted s t) slots
  | .resume _ _ => resumeSlots s t slots
  | .accept m k _ =>
    updateNext s acceptSlot
      (mapSlots [(s.sockets m).copies k] (fun x => { x with rxRing := x.rxRing.drop 1 }) slots)
  | .close m _ => closeSlots (s.locals m).procId (posted s t) slots
  | _ => slots

def resumePrivates (s t : Conn.State) (privates : Nat → Private) : Nat → Private :=
  if s.reply = some true then
    if opensNext s then updateNext s resetLocalDescriptor privates else privates
  else closePrivates (posted s t) privates

def callPrivates (s t : Conn.State) (privates : Nat → Private) : Conn.Action → Nat → Private
  | .openSocket => updateNext s resetLocalDescriptor privates
  | .resume _ _ => resumePrivates s t privates
  | .accept _ _ _ => updateNext s resetLocalDescriptor privates
  | .close _ _ => closePrivates (posted s t) privates
  | _ => privates

def isStack : Conn.Action → Bool
  | .stack _ _ => true
  | _ => false

def call (s : State) (a : Conn.Action) : Option State :=
  if isStack a then none
  else (Conn.step s.conn a).map fun t =>
    { s with
      conn := t
      ring := s.ring ++ (posted s.conn t).map fun x => (x.1, .command x.2)
      slots := callSlots s.conn t s.slots a
      privates := callPrivates s.conn t s.privates a }

def targets (s : Conn.State) (m : Nat) : List Nat :=
  if (s.sockets m).isMulticore then (List.range s.numProcs).map (s.sockets m).copies
  else [m]

def setNonblock (s : State) (m : Nat) (on : Bool) : State :=
  { s with
    slots := mapSlots (targets s.conn m) (fun x => { x with isNonblock := on }) s.slots }

def applyOpt (opt : SockOpt) (x : Slot) : Slot :=
  match opt.name with
  | .sndTimeo => { x with sendTimeout := .set opt.sec opt.usec }
  | .rcvTimeo => { x with receiveTimeout := .set opt.sec opt.usec }
  | .other => x

def lightSetsockopt (s : State) (m : Nat) (opt : SockOpt) (posted : Nat) : State :=
  if !(s.conn.sockets m).isMulticore && !(s.conn.locals m).isInit then
    { s with
      privates := update s.privates m
        { s.privates m with isSetSockopt := true, stored := some opt } }
  else
    let told := (targets s.conn m).filter fun c => (s.conn.locals c).isInit
    { s with slots := mapSlots (told.take posted) (applyOpt opt) s.slots }

def epollAdd (s : State) (m k e : Nat) (allocated : Bool) : State :=
  { s with
    slots := mapSlots [copyOn s.conn m k] (fun x =>
      if allocated && decide (e ∉ x.epollNodes) then
        { x with epollNodes := x.epollNodes ++ [e] }
      else x) s.slots }

def epollDel (s : State) (m k e : Nat) : State :=
  { s with
    slots := mapSlots [copyOn s.conn m k]
      (fun x => { x with epollNodes := x.epollNodes.erase e }) s.slots }

def lightSend (s : State) (m : Nat) (mbufs : List Nat) (kicked : Bool) : State :=
  let real := realSocket s.conn m
  { s with
    slots := mapSlots [real]
      (fun x => { x with txRing := x.txRing ++ mbufs, writeDone := true }) s.slots
    ring := if !(s.slots real).writeDone && kicked then
        s.ring ++ [((s.conn.locals m).procId, .txKick real)]
      else s.ring }

def lightRecv (s : State) (m n used : Nat) : State :=
  let real := realSocket s.conn m
  { s with
    slots := mapSlots [real] (fun x => { x with rxRing := x.rxRing.drop n }) s.slots
    privates := update s.privates real { s.privates real with
        shadow := ((s.privates real).shadow ++ (s.slots real).rxRing.take n).drop used } }

def userOnTransmissionOpportunity (sent : Nat) (x : Slot) : Slot :=
  { x with writeDone := false, txRing := x.txRing.drop sent }

def userFlush (rx tx : Bool) (x : Slot) : Slot :=
  { x with
    rxRing := if rx then [] else x.rxRing
    txRing := if tx then [] else x.txRing }

def attached (s : State) (c : Nat) : Bool := s.conn.kernel c && s.userData c

/-- The callbacks of some kernel socket lead to the index. -/
def calledBack (s : State) (c : Nat) : Bool := attached s c || s.strayed c

def processSlots (s : State) : Command → Nat → Slot
  | .close c =>
    if attached s c then mapSlots [c] (userFlush true true) s.slots else s.slots
  | .shutdown c how =>
    if attached s c then
      mapSlots [c] (userFlush (how = 0 || how = 2) (how = 1 || how = 2)) s.slots
    else s.slots
  | _ => s.slots

def processUserData (s : State) (success : Bool) : Command → Nat → Bool
  | .openSocket c => if success then update s.userData c true else s.userData
  | .setSocketRing c => update s.userData c true
  | .close c => update s.userData c false
  | .shutdown c how => if how = 2 then update s.userData c false else s.userData
  | _ => s.userData

def process (s : State) (k : Nat) (success : Bool) (sent : Nat) : Option State :=
  if s.conn.down k then none
  else match Mailbox.take k s.ring with
    | none => none
    | some (.txKick c, rest) =>
      some { s with
        ring := rest
        slots := if attached s c then
            mapSlots [c] (userOnTransmissionOpportunity sent) s.slots
          else s.slots }
    | some (.command cmd, rest) =>
      (Conn.step s.conn (.stack k success)).map fun t =>
        { s with
          conn := t
          ring := rest
          slots := processSlots s cmd
          userData := processUserData s success cmd }

def callable (s : State) (m : Nat) : Bool := Conn.ready s.conn && decide (m ∈ s.conn.descriptors)

def step (s : State) : Action → Option State
  | .call a => call s a
  | .setNonblock m on => if callable s m then some (setNonblock s m on) else none
  | .setsockopt m opt posted =>
    if callable s m then some (lightSetsockopt s m opt posted) else none
  | .epollAdd m k e allocated =>
    if callable s m && decide (k < s.conn.numProcs) then
      some (epollAdd s m k e allocated)
    else none
  | .epollDel m k e =>
    if callable s m && decide (k < s.conn.numProcs) then some (epollDel s m k e)
    else none
  | .send m mbufs kicked =>
    if callable s m then some (lightSend s m mbufs kicked) else none
  | .recv m n used => if callable s m then some (lightRecv s m n used) else none
  | .stack k success sent => process s k success sent
  | .transmit c sent =>
    if calledBack s c then
      some { s with slots := mapSlots [c] (userOnTransmissionOpportunity sent) s.slots }
    else none
  | .deliver c mbuf =>
    if calledBack s c then
      some { s with
        slots := mapSlots [c] (fun x => { x with rxRing := x.rxRing ++ [mbuf] }) s.slots }
    else none
  | .markClosed c signal =>
    if calledBack s c then
      some { s with
        slots := mapSlots [c] (fun x => { x with connectCloseSignal := signal }) s.slots }
    else none
  | .reclaim c =>
    if attached s c then some { s with userData := update s.userData c false }
    else none
  | .strays c =>
    if attached s c then some { s with strayed := update s.strayed c true }
    else none

def zeroed : Slot := ⟨false, 0, false, [], [], [], false, .zero, .zero⟩

structure Start (s : State) : Prop where
  conn : Conn.Start s.conn
  ring_eq : s.ring = []
  slots_eq : ∀ c, s.slots c = zeroed
  privates_eq : ∀ c, s.privates c = ⟨[], false, none⟩
  userData_eq : ∀ c, s.userData c = false
  strayed_eq : ∀ c, s.strayed c = false

def system : TransitionSystem State Action where
  init := Start
  step := step

structure Clean (s : State) (c : Nat) : Prop where
  isNonblock : (s.slots c).isNonblock = false
  connectCloseSignal : (s.slots c).connectCloseSignal = 0
  writeDone : (s.slots c).writeDone = false
  txRing : (s.slots c).txRing = []
  rxRing : (s.slots c).rxRing = []
  shadow : (s.privates c).shadow = []
  epollNodes : (s.slots c).epollNodes = []
  presentedInChain : (s.slots c).presentedInChain = false
  stored : (s.privates c).stored = none
  timeouts : ∀ sec usec, (s.slots c).sendTimeout ≠ .set sec usec ∧
    (s.slots c).receiveTimeout ≠ .set sec usec

def HandsOut (s t : State) (c : Nat) : Prop := t.conn.descriptors = s.conn.descriptors ++ [c]

def Undone (s : State) (m : Nat) : Prop :=
  ∀ c ∈ bundle s.conn m, (c ≠ m ∨ (s.conn.locals c).isInit = false → (s.slots c).epollNodes = []) ∧
      ((s.conn.locals c).isInit = false → (s.slots c).isNonblock = false)

instance (s : State) (m : Nat) : Decidable (Undone s m) :=
  inferInstanceAs (Decidable (∀ c ∈ bundle s.conn m, _))

/-- Every step has what it asks for, options and data concern sockets that the stack knows, what
`_light_close` does not reset is undone before, nothing is done to a closed connection before its
`CLOSE` command is processed, and every connection gets a command. -/
def Tidy (s : State) : Action → Prop
  | .call (.close m posted) => Supplied s.conn (.close m posted) ∧ Undone s m
  | .call a => Supplied s.conn a
  | .setsockopt m _ _ => (s.conn.sockets m).isMulticore = true ∨ (s.conn.locals m).isInit = true
  | .send m _ kicked =>
    (s.conn.locals m).isInit = true ∧ ((s.slots m).writeDone = false → kicked = true)
  | .stack k success _ => Supplied s.conn (.stack k success)
  | .markClosed c _ => c ∉ releases s.conn
  | .reclaim _ | .strays _ => False
  | _ => True

instance (s : State) (a : Action) : Decidable (Tidy s a) := by
  cases_type Action <;> try (dsimp only [Tidy]; infer_instance)
  cases_type Conn.Action <;> dsimp only [Tidy] <;> infer_instance

end LightStack.Conn.Reuse
