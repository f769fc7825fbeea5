import LightStack.Lib.Ring
import LightStack.Lib.Transition
import LightStack.Mbuf

/-!
# The receive call of the application

What is not handed out stays as the *shadow*. `local_cache` and `rx_ring` are the same ring.
-/

namespace LightStack.Rx.Recv

open Lib

structure Shadow where
  mbuf : Mbuf
  next : List Mbuf
  lenRemainder : Int
  lenDelivered : Int
  deriving DecidableEq

def getFromShadow (sh : Shadow) : MbufChain :=
  let dataLen := toUInt16 sh.lenRemainder
  { head :=
      { sh.mbuf with
        dataLen := dataLen
        dataOff := toUInt16 (sh.mbuf.dataOff + sh.lenDelivered)
        pktLen := match sh.next with
          | [] => dataLen
          | m :: _ => toUInt32 (dataLen + m.pktLen) }
    next := sh.next }

def passSegments (totalLen : Int) : Int → List Mbuf → Int × List Mbuf × List Mbuf
  | currLen, [] => (currLen, [], [])
  | currLen, tmp :: rest =>
    if toInt32 (tmp.dataLen + currLen) < totalLen then
      let r := passSegments totalLen (toInt32 (currLen + tmp.dataLen)) rest
      (r.1, tmp :: r.2.1, r.2.2)
    else (currLen, [], tmp :: rest)

structure ExactAmount where
  chain : MbufChain
  shadow : Option Shadow
  totalLen : Int
  firstSegmentLen : Nat
  deriving DecidableEq

def keepBehind (shadow : Option Shadow) : List Mbuf → Option Shadow
  | [] => shadow
  | m :: rest => some ⟨m, rest, m.dataLen, 0⟩

def cutAtPrev (currLen totalLen : Int) (passed : List Mbuf) (chain : MbufChain) : MbufChain :=
  match passed with
  | [] => chain
  | m :: ms => if currLen = totalLen then ⟨m, ms⟩ else chain

def tryReadExactAmount (c : MbufChain) (shadow : Option Shadow) (totalLen : Int) : ExactAmount :=
  let r := passSegments totalLen 0 c.segs
  let currLen := r.1
  match r.2.2 with
  | [] =>
    { chain := c, shadow := shadow, totalLen := currLen, firstSegmentLen := c.head.dataLen }
  | tmp :: next =>
    let cut : MbufChain × Option Shadow :=
      if totalLen < toInt32 (currLen + tmp.dataLen) then
        let remainder := toInt32 (toInt32 (currLen + tmp.dataLen) - totalLen)
        let delivered := toInt32 (tmp.dataLen - remainder)
        let tmp' := { tmp with dataLen := toUInt16 delivered }
        (.ofLast r.2.1 tmp', some ⟨tmp', next, remainder, delivered⟩)
      else
        (.ofLast r.2.1 tmp, keepBehind shadow next)
    { chain := cutAtPrev currLen totalLen r.2.1 cut.1, shadow := cut.2,
      totalLen := totalLen, firstSegmentLen := c.head.dataLen }

structure Request where
  nbytes : Nat
  isNonblock : Bool
  deriving DecidableEq

def Request.tempBytes (req : Request) : Int := toInt32 req.nbytes

inductive Purpose where
  | fresh
  | more (left : ExactAmount)
  | all (left : MbufChain)
  deriving DecidableEq

def Purpose.blocks (p : Purpose) (req : Request) : Bool :=
  match p with
  | .fresh => !req.isNonblock
  | _ => false

inductive RecvPc where
  | idle
  | kick (req : Request) (p : Purpose)
  | testCache (req : Request) (p : Purpose)
  | testRing (req : Request) (p : Purpose)
  | testSignal (req : Request) (p : Purpose)
  | dequeue (req : Request) (p : Purpose)
  | lastCache (req : Request)
  | lastRing (req : Request)
  | lastSignal (req : Request)
  deriving DecidableEq

structure Call where
  nbytes : Nat
  ret : Int
  written : List UInt8
  deriving DecidableEq

def Call.returned (c : Call) : List UInt8 := c.written.take c.ret.toNat

structure Sock (cap : Nat) where
  rxRing : Ring RxChain cap
  signal : Nat
  rxKicks : Nat
  shadow : Option Shadow
  pc : RecvPc
  calls : List Call

variable {cap : Nat}

def copyChain (firstSegLen : Nat) (c : MbufChain) : List UInt8 :=
  c.head.read firstSegLen ++ payload c.next

def finishData (s : Sock cap) (req : Request) (r : ExactAmount) : Sock cap :=
  { s with
    shadow := r.shadow
    pc := .idle
    calls := s.calls ++ [⟨req.nbytes, r.totalLen,
      if 0 < r.totalLen then copyChain r.firstSegmentLen r.chain else []⟩] }

def finishEmpty (s : Sock cap) (req : Request) (ret : Int) : Sock cap :=
  { s with pc := .idle, calls := s.calls ++ [⟨req.nbytes, ret, []⟩] }

def callRecv (s : Sock cap) (req : Request) : Sock cap :=
  match s.shadow with
  | none => { s with pc := .kick req .fresh }
  | some sh =>
    let c := getFromShadow sh
    if 0 < req.tempBytes then
      let r := tryReadExactAmount c none req.tempBytes
      if 0 < r.totalLen ∧ r.totalLen < req.tempBytes then
        { s with shadow := r.shadow, pc := .kick req (.more r) }
      else
        finishData s req { r with totalLen := req.tempBytes }
    else
      { s with shadow := none, pc := .kick req (.all c) }

def readAll (c : MbufChain) : ExactAmount :=
  { chain := c, shadow := none, totalLen := toInt32 c.head.pktLen,
    firstSegmentLen := c.head.dataLen }

def linkAll (c c' : MbufChain) : MbufChain :=
  MbufChain.append { c with head :=
        { c.head with pktLen := toUInt32 (c.head.pktLen + c'.head.pktLen) } }
    c'

def useChain (s : Sock cap) (req : Request) (p : Purpose) (c : MbufChain) : Sock cap :=
  match p with
  | .fresh =>
    if 0 < req.tempBytes then
      finishData s req (tryReadExactAmount c s.shadow req.tempBytes)
    else finishData s req (readAll c)
  | .more left =>
    let r := tryReadExactAmount c s.shadow (toInt32 (req.tempBytes - left.totalLen))
    finishData s req
      { chain := left.chain.append r.chain, shadow := r.shadow,
        totalLen := toInt32 (left.totalLen + r.totalLen),
        firstSegmentLen := left.firstSegmentLen }
  | .all left => finishData s req (readAll (linkAll left c))

def noChain (s : Sock cap) (req : Request) (p : Purpose) : Sock cap :=
  match p with
  | .fresh => { s with pc := .lastCache req }
  | .more left => finishData s req left
  | .all left => finishData s req (readAll left)

inductive AppAction where
  | call (req : Request)
  | kick (sent : Bool)
  | next

def appNext (s : Sock cap) : Option (Sock cap) :=
  match s.pc with
  | .testCache req p =>
    if s.rxRing.items = [] then some { s with pc := .testRing req p }
    else some { s with pc := .dequeue req p }
  | .testRing req p =>
    if s.rxRing.items = [] then some { s with pc := .testSignal req p }
    else some { s with pc := .dequeue req p }
  | .testSignal req p =>
    if s.signal < 3 then
      -- the blocking variant spins, the non-blocking one returns `NULL`
      if p.blocks req then some { s with pc := .testCache req p }
      else some (noChain s req p)
    else some { s with pc := .dequeue req p }
  | .dequeue req p =>
    match s.rxRing.dequeue with
    | some (c, ring) => some (useChain { s with rxRing := ring } req p c.toMbufChain)
    | none => some (noChain s req p)
  | .lastCache req =>
    if s.rxRing.items = [] then some { s with pc := .lastRing req }
    else some (finishEmpty s req (-1))
  | .lastRing req =>
    if s.rxRing.items = [] then some { s with pc := .lastSignal req }
    else some (finishEmpty s req (-1))
  | .lastSignal req =>
    if 3 ≤ s.signal then some (finishEmpty s req 0)
    else some (finishEmpty s req (-1))
  | _ => none

def appStep (s : Sock cap) : AppAction → Option (Sock cap)
  | .call req => if s.pc = .idle then some (callRecv s req) else none
  | .kick sent =>
    match s.pc with
    | .kick req p =>
      some { s with
        pc := .testCache req p
        rxKicks := if sent then s.rxKicks + 1 else s.rxKicks }
    | _ => none
  | .next => appNext s

def Sock.fresh : Sock cap :=
  { rxRing := Ring.empty, signal := 0, rxKicks := 0, shadow := none, pc := .idle, calls := [] }

end LightStack.Rx.Recv
