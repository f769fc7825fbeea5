import LightStack.Lib.Ring
import LightStack.Lib.Transition
import LightStack.Mbuf

/-!
# From `light_send` to the TCP write queue

The calls of the two processes interleave. `alloc n` is the outcome of the `n`-th
`sk_stream_alloc_skb`.
-/

namespace LightStack.Tx.Send

open Lib

def payloadMax : Nat := 1448

structure Buffer where
  data : List UInt8
  deriving DecidableEq

def Buffer.dataLen (b : Buffer) : Nat := b.data.length

abbrev TxRing := Ring Buffer 1023

def bytesOf (bufs : List Buffer) : List UInt8 := bufs.flatMap Buffer.data

def getSocketTxSpace (ring : TxRing) (freeBufs : Nat) (txSpace : Int) : Int :=
  min (min ring.freeCount freeBufs) (txSpace.tdiv payloadMax)

def bufCount (nbytes : Nat) (space : Int) : Int :=
  let count := toInt32 (nbytes / payloadMax : Nat)
  let count := if 0 < nbytes % payloadMax then count + 1 else count
  min count space

def fillBuffers : Nat → List UInt8 → List Buffer
  | 0, _ => []
  | count + 1, data =>
    if payloadMax < data.length then
      ⟨data.take payloadMax⟩ :: fillBuffers count (data.drop payloadMax)
    else [⟨data⟩]

def lightSend (ring : TxRing) (closeSignal : Nat) (data : List UInt8)
    (freeBufs : Nat) (txSpace : Int) : Option (List Buffer) :=
  let space := getSocketTxSpace ring freeBufs txSpace
  if space = 0 ∨ 3 ≤ closeSignal then none
  else
    let count := bufCount data.length space
    if count < 0 then none else some (fillBuffers count.toNat data)

inductive TcpState where
  | connecting
  | established
  | closeWait
  | closing
  | closed
  deriving DecidableEq

structure TxSkb where
  seq : Nat
  endSeq : Nat
  len : Nat
  frags : List Buffer

/-- `sending` are buffers not enqueued yet; `enqueued` and `appended` record all buffers and
sk_buffs ever, and `allocs` counts calls of `sk_stream_alloc_skb`. -/
structure Sock where
  txRing : TxRing
  sending : Option (List Buffer)
  closeSignal : Nat
  state : TcpState
  skErr : Nat
  sendShutdown : Bool
  hasSocket : Bool
  writeSeq : Nat
  wmemQueued : Int
  sndbuf : Int
  inLoop : Bool
  allocs : Nat
  enqueued : List Buffer
  appended : List TxSkb

def Sock.appendedBufs (s : Sock) : List Buffer := s.appended.flatMap TxSkb.frags

def Sock.wspace (s : Sock) : Int := s.sndbuf - s.wmemQueued

def userGetBuffer : Nat → TxRing → Int → List Buffer × TxRing × Int
  | 0, ring, copy => ([], ring, copy)
  | fuel + 1, ring, copy =>
    if copy < payloadMax then ([], ring, copy)
    else
      match ring.dequeue with
      | none => ([], ring, copy)
      | some (mbuf, ring) =>
        let r := userGetBuffer fuel ring (copy - mbuf.dataLen)
        (mbuf :: r.1, r.2)

def skbEntail (s : Sock) (frags : List Buffer) (truesize copied : Nat) : Sock :=
  let endSeq := (s.writeSeq + copied) % 2 ^ 32
  { s with
    appended := s.appended ++ [⟨s.writeSeq, endSeq, copied, frags⟩]
    writeSeq := endSeq
    wmemQueued := s.wmemQueued + truesize + copied }

def packBuffers (alloc : Nat → Option Nat) (copy : Int) :
    List Buffer → Option (List Buffer × Nat) → Nat → Nat → Sock → Sock × Int
  | [], _, _, _, s => (s, copy)
  | mbuf :: next, skb, i, copied, s =>
    let s' := if skb.isNone then { s with allocs := s.allocs + 1 } else s
    match skb.or ((alloc s.allocs).map fun truesize => ([], truesize)) with
    | none => (s', 0)
    | some (frags, truesize) =>
      let frags := frags ++ [mbuf]
      let copied := copied + mbuf.dataLen
      if maxSkbFrags ≤ i + 1 ∨ next = [] then
        packBuffers alloc copy next none 0 0 (skbEntail s' frags truesize copied)
      else packBuffers alloc copy next (some (frags, truesize)) (i + 1) copied s'

def skStreamError (s : Sock) : Sock × Int :=
  if s.skErr = 0 then (s, -32) else ({ s with skErr := 0 }, -s.skErr)

def doTcpSendpages (alloc : Nat → Option Nat) (s : Sock) : Sock × Int :=
  if s.state = .connecting ∧ s.skErr = 0 then (s, -11)
  else if s.state ≠ .established ∧ s.state ≠ .closeWait then skStreamError s
  else if s.skErr ≠ 0 ∨ s.sendShutdown then skStreamError s
  else if ¬ s.hasSocket then (s, 0)
  else
    let r := userGetBuffer (s.txRing.count + 1) s.txRing payloadMax
    if r.1 = [] then (s, 0)
    else packBuffers alloc (payloadMax - r.2.2) r.1 none 0 0 { s with txRing := r.2.1 }

def userOnTransmissionOpportunity (s : Sock) : Sock :=
  { s with inLoop := s.txRing.count ≠ 0 }

inductive TxAction where
  | fill (data : List UInt8) (freeBufs : Nat) (txSpace : Int)
  | enqueue
  | opportunity
  | sendpage
  | release (n : Nat)
  | setSndbuf (n : Int)

def txStep (alloc : Nat → Option Nat) (s : Sock) : TxAction → Option Sock
  | .fill data freeBufs txSpace =>
    if s.sending.isSome then none
    else (lightSend s.txRing s.closeSignal data freeBufs txSpace).map fun bufs =>
      { s with sending := some bufs }
  | .enqueue =>
    match s.sending with
    | none => none
    | some bufs =>
      match s.txRing.enqueueBulk bufs with
      | none => some { s with sending := none }
      | some ring => some { s with
          txRing := ring
          sending := none
          enqueued := s.enqueued ++ bufs }
  | .opportunity =>
    if s.inLoop then none else some (userOnTransmissionOpportunity s)
  | .sendpage =>
    if s.inLoop then
      if 0 < s.wspace then
        let r := doTcpSendpages alloc s
        some { r.1 with inLoop := 0 < r.2 }
      else some { s with inLoop := false }
    else none
  | .release n =>
    if s.inLoop then none else some { s with wmemQueued := s.wmemQueued - n }
  | .setSndbuf n => if s.inLoop then none else some { s with sndbuf := n }

def Sock.start (isn : Nat) (sndbuf : Int) : Sock :=
  { txRing := Ring.empty, sending := none, closeSignal := 2,
    state := .established, skErr := 0, sendShutdown := false, hasSocket := true,
    writeSeq := isn, wmemQueued := 0, sndbuf := sndbuf, inLoop := false,
    allocs := 0, enqueued := [], appended := [] }

end LightStack.Tx.Send
