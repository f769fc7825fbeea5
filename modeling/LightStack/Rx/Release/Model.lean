import LightStack.Lib.Chain
import LightStack.Lib.Transition
import LightStack.Mbuf

/-!
# Release of received buffers

What is unread hangs on `shadow` and `shadow_next`, and `light_close` releases it. A call is one
step.
-/

namespace LightStack.Rx.Release

open Lib Function

structure Heap where
  next : Nat → Option Nat
  dataLen : Nat → Nat
  released : Nat → Nat

namespace Heap

def setNext (h : Heap) (m : Nat) (p : Option Nat) : Heap :=
  { h with next := update h.next m p }

def setDataLen (h : Heap) (m len : Nat) : Heap :=
  { h with dataLen := update h.dataLen m len }

def freeSeg (h : Heap) (m : Nat) : Heap :=
  { h with
    next := update h.next m none
    released := update h.released m (h.released m + 1) }

def freeUntil (stop : Option Nat) : Nat → Heap → Option Nat → Heap
  | 0, h, _ => h
  | _ + 1, h, none => h
  | fuel + 1, h, some m =>
    if stop = some m then h else freeUntil stop fuel (h.freeSeg m) (h.next m)

def pktmbufFree (fuel : Nat) (h : Heap) (p : Option Nat) : Heap := freeUntil none fuel h p

def link (h : Heap) : List (Nat × Nat) → Heap
  | [] => h
  | (m, len) :: rest => ((link h rest).setNext m (rest.head?.map Prod.fst)).setDataLen m len

end Heap

structure State where
  heap : Heap
  rxRing : List Nat
  shadow : Option Nat
  shadowNext : Option Nat
  lenRemainder : Int
  lenDelivered : Int
  given : List Nat
  closed : Bool
  fault : Bool

def State.fuel (s : State) : Nat := s.given.length

def getFromShadow (s : State) (m : Nat) : State :=
  { s with
    shadow := none
    heap := (s.heap.setDataLen m (toUInt16 s.lenRemainder)).setNext m s.shadowNext
    shadowNext := none }

def passSegments (h : Heap) (totalLen : Int) :
    Nat → Int → Option Nat → Option Nat → Int × Option Nat × Option Nat
  | 0, currLen, prev, tmp => (currLen, prev, tmp)
  | _ + 1, currLen, prev, none => (currLen, prev, none)
  | fuel + 1, currLen, prev, some m =>
    if toInt32 (h.dataLen m + currLen) < totalLen then
      passSegments h totalLen fuel (toInt32 (currLen + h.dataLen m)) (some m) (h.next m)
    else (currLen, prev, some m)

def keepPart (s : State) (tmp : Nat) (currLen totalLen : Int) : State :=
  let remainder := toInt32 (toInt32 (currLen + s.heap.dataLen tmp) - totalLen)
  let delivered := toInt32 (s.heap.dataLen tmp - remainder)
  { s with
    shadow := some tmp
    shadowNext := s.heap.next tmp
    lenRemainder := remainder
    lenDelivered := delivered
    heap := s.heap.setDataLen tmp (toUInt16 delivered) }

def keepBehind (s : State) (tmp : Nat) : State :=
  match s.heap.next tmp with
  | none => s
  | some m =>
    { s with
      shadow := some m
      shadowNext := s.heap.next m
      lenRemainder := s.heap.dataLen m
      lenDelivered := 0 }

def cutAtPrev (h : Heap) (currLen totalLen : Int) (prev : Option Nat) : Heap :=
  if currLen = totalLen then
    match prev with
    | none => h
    | some m => h.setNext m none
  else h

def tryReadExactAmount (s : State) (mbuf : Nat) (totalLen : Int) : State × Int :=
  match passSegments s.heap totalLen s.fuel 0 none (some mbuf) with
  | (currLen, _, none) => (s, currLen)
  | (currLen, prev, some tmp) =>
    let t :=
      if totalLen < toInt32 (currLen + s.heap.dataLen tmp) then
        keepPart s tmp currLen totalLen
      else keepBehind s tmp
    ({ t with heap := cutAtPrev (t.heap.setNext tmp none) currLen totalLen prev }, totalLen)

def linkBehind (s : State) (mbuf : Nat) (mbuf2 : Option Nat) : State :=
  { s with heap := s.heap.setNext (Chain.last s.heap.next s.fuel mbuf) mbuf2 }

def releaseRxBuffer (s : State) (p : Option Nat) : State :=
  { s with heap := s.heap.freeUntil s.shadow s.fuel p }

def readMore (s : State) (mbuf : Nat) (totalLen : Int) : State :=
  match s.rxRing with
  | [] => s
  | mbuf2 :: ring =>
    linkBehind (tryReadExactAmount { s with rxRing := ring } mbuf2 totalLen).1 mbuf (some mbuf2)

def recvShadow (s : State) (mbuf : Nat) (tempBytes : Int) : State :=
  if 0 < tempBytes then
    let r := tryReadExactAmount s mbuf tempBytes
    if 0 < r.2 ∧ r.2 < tempBytes then
      readMore r.1 mbuf (toInt32 (tempBytes - r.2))
    else r.1
  else linkBehind { s with rxRing := s.rxRing.tail } mbuf s.rxRing.head?

def lightRecv (s : State) (nbytes : Nat) : State :=
  match s.shadow with
  | some m => releaseRxBuffer (recvShadow (getFromShadow s m) m (toInt32 nbytes)) (some m)
  | none =>
    match s.rxRing with
    | [] => s
    | mbuf :: ring =>
      let s := { s with rxRing := ring }
      releaseRxBuffer
        (if 0 < toInt32 nbytes then (tryReadExactAmount s mbuf (toInt32 nbytes)).1 else s)
        (some mbuf)

def lightRecvfrom (s : State) (signalled : Bool) : State :=
  match s.shadow, s.shadowNext with
  | none, _ => if signalled then s else { s with fault := true }
  | some _, none => { s with fault := true }
  | some m, some y =>
    match s.heap.next y with
    | none =>
      releaseRxBuffer { s with shadow := none, shadowNext := none, lenDelivered := 0 } (some m)
    | some z => { s with shadowNext := some z, lenDelivered := s.heap.dataLen z }

def lightFlushRx (s : State) : State :=
  let heap := s.rxRing.foldl (fun h m => h.pktmbufFree s.fuel (some m)) s.heap
  let heap := heap.pktmbufFree s.fuel s.shadow
  { s with
    heap := heap.pktmbufFree s.fuel s.shadowNext
    rxRing := []
    shadow := none
    shadowNext := none
    lenRemainder := 0
    lenDelivered := 0 }

def lightClose (s : State) (posted : Bool) : State :=
  if posted then { lightFlushRx s with closed := true } else s

inductive Action where
  | queue (chain : List (Nat × Nat))
  | recv (nbytes : Nat)
  | recvfrom (signalled : Bool)
  | close (posted : Bool)
deriving DecidableEq

def queue (s : State) (chain : List (Nat × Nat)) : Option State :=
  match chain with
  | [] => none
  | (m, _) :: _ =>
    if (chain.map Prod.fst).Nodup ∧ ∀ x ∈ chain, x.1 ∉ s.given then
      some { s with
        heap := s.heap.link chain
        rxRing := s.rxRing ++ [m]
        given := s.given ++ chain.map Prod.fst }
    else none

def step (s : State) (a : Action) : Option State :=
  if s.closed || s.fault then none
  else match a with
    | .queue chain => queue s chain
    | .recv nbytes => some (lightRecv s nbytes)
    | .recvfrom signalled => some (lightRecvfrom s signalled)
    | .close posted => some (lightClose s posted)

structure Start (s : State) : Prop where
  rxRing_eq : s.rxRing = []
  shadow_eq : s.shadow = none
  shadowNext_eq : s.shadowNext = none
  given_eq : s.given = []
  released_eq : ∀ m, s.heap.released m = 0
  fault_eq : s.fault = false
  closed_eq : s.closed = false

def system : TransitionSystem State Action where
  init := Start
  step := step

def queued (s : State) : List Nat :=
  s.rxRing.flatMap fun m => Chain.cells s.heap.next s.fuel (some m)

def unread (s : State) : List Nat :=
  match s.shadow with
  | none => []
  | some m =>
    m :: match s.heap.next m with
      | none => Chain.cells s.heap.next s.fuel s.shadowNext
      | some z => Chain.cells s.heap.next s.fuel (some z)

/-- A read needs `shadow_next` to be what follows the shadow, `light_recvfrom` a shadow that is
linked to a further segment, and `light_close` one that is not. -/
def Manageable (s : State) : Action → Prop
  | .queue _ => True
  | .recv _ => ∀ m ∈ s.shadow, s.heap.next m = none ∨ s.heap.next m = s.shadowNext
  | .recvfrom signalled =>
    match s.shadow with
    | none => signalled = true
    | some m => s.heap.next m ≠ none ∧ s.shadowNext ≠ none
  | .close posted => posted = true → ∀ m ∈ s.shadow, s.heap.next m = none ∨ s.shadowNext = none

instance (s : State) (a : Action) : Decidable (Manageable s a) := by
  unfold Manageable
  split
  · infer_instance
  · infer_instance
  · split <;> infer_instance
  · infer_instance

end LightStack.Rx.Release
