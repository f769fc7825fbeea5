import LightStack.Lib.Chain
import LightStack.Lib.Transition
import LightStack.Lib.Window
import LightStack.Mbuf

/-!
# Frames made of socket buffers

The NIC goes by `data_off` and `data_len` of the mbufs. `rte_raw_cksum` is a parameter.
-/

namespace LightStack.Tx.Frame

open Lib Function

def pktmbufHeadroom : Nat := 128

structure Heap where
  mbuf : Nat → Mbuf
  next : Nat → Option Nat
  nbSegs : Nat → Nat

def Heap.setMbuf (h : Heap) (m : Nat) (x : Mbuf) : Heap :=
  { h with mbuf := update h.mbuf m x }

def Heap.write (h : Heap) (m off : Nat) (bytes : List UInt8) : Heap :=
  h.setMbuf m { h.mbuf m with buf := overwrite (h.mbuf m).buf off bytes }

structure Frag where
  mbuf : Nat
  pageOffset : Nat
  size : Nat
deriving DecidableEq

structure SkBuff where
  headerMbuf : Nat
  data : Nat
  len : Nat
  dataLen : Nat
  frags : List Frag
  networkHeader : Nat
  transportHeader : Nat
  partialChecksum : Bool
  gsoSize : Nat
deriving DecidableEq

def headOff (m : Mbuf) : Nat :=
  if pktmbufHeadroom ≤ m.buf.length then pktmbufHeadroom else m.buf.length

def Frag.bytes (h : Heap) (f : Frag) : List UInt8 :=
  window (h.mbuf f.mbuf).buf ((h.mbuf f.mbuf).dataOff + f.pageOffset) f.size

namespace SkBuff

def headlen (skb : SkBuff) : Nat := skb.len - skb.dataLen

def start (h : Heap) (skb : SkBuff) : Nat := headOff (h.mbuf skb.headerMbuf) + skb.data

def linear (h : Heap) (skb : SkBuff) : List UInt8 :=
  window (h.mbuf skb.headerMbuf).buf (skb.start h) skb.headlen

def bytes (h : Heap) (skb : SkBuff) : List UInt8 := skb.linear h ++ skb.frags.flatMap (Frag.bytes h)

def pages (skb : SkBuff) : List Nat := skb.frags.map Frag.mbuf

@[mk_iff]
structure Valid (h : Heap) (skb : SkBuff) : Prop where
  linear_fits : skb.start h + skb.headlen ≤ (h.mbuf skb.headerMbuf).buf.length
  header_small : (h.mbuf skb.headerMbuf).buf.length < 2 ^ 16
  frag_fits : ∀ f ∈ skb.frags, f.pageOffset + f.size ≤ (h.mbuf f.mbuf).dataLen
  page_fits : ∀ f ∈ skb.frags,
    (h.mbuf f.mbuf).dataOff + (h.mbuf f.mbuf).dataLen ≤ (h.mbuf f.mbuf).buf.length
  page_small : ∀ f ∈ skb.frags, (h.mbuf f.mbuf).buf.length < 2 ^ 16
  dataLen_eq : skb.dataLen = (skb.frags.map Frag.size).sum
  dataLen_le : skb.dataLen ≤ skb.len
  frags_le : skb.frags.length ≤ maxSkbFrags
  header_notMem : skb.headerMbuf ∉ skb.pages

instance decidableValid (h : Heap) (skb : SkBuff) : Decidable (skb.Valid h) :=
  decidable_of_iff' _ (valid_iff h skb)

end SkBuff

/-! ## `dpdk_xmit_frame` -/

section Xmit

variable (rawCksum : List UInt8 → UInt8 × UInt8)

def psdHdr (buf : List UInt8) (ip proto len : Nat) : List UInt8 :=
  window buf (ip + 12) 8 ++ [0, .ofNat proto, .ofNat (len / 256), .ofNat len]

def l4Len (buf : List UInt8) (ip l3Len : Nat) : Nat :=
  (256 * (buf.getD (ip + 2) 0).toNat + (buf.getD (ip + 3) 0).toNat + 65536 - l3Len % 65536) % 65536

def checks (h : Heap) (skb : SkBuff) : List (Nat × List UInt8) :=
  let buf := (h.mbuf skb.headerMbuf).buf
  let ip := headOff (h.mbuf skb.headerMbuf) + skb.networkHeader
  let transport := headOff (h.mbuf skb.headerMbuf) + skb.transportHeader
  let l3Len := skb.transportHeader - skb.networkHeader
  if skb.partialChecksum then
    if buf.getD (ip + 9) 0 = 6 then
      let len := if skb.gsoSize = 0 then l4Len buf ip l3Len else 0
      let sum := rawCksum (psdHdr buf ip 6 len)
      [(ip + 10, [0, 0]), (transport + 16, [sum.1, sum.2])]
    else if buf.getD (ip + 9) 0 = 17 then
      let sum := rawCksum (psdHdr buf ip 17 (l4Len buf ip l3Len))
      [(ip + 10, [0, 0]), (transport + 6, [sum.1, sum.2])]
    else [(ip + 10, [0, 0])]
  else []

def linkFrags : (Nat → Option Nat) → Nat → List Frag → Nat → Option Nat
  | next, prev, [] => update next prev none
  | next, prev, f :: rest => linkFrags (update next prev (some f.mbuf)) f.mbuf rest

def sumLens (h : Heap) : Int → List Frag → Int
  | pktLen, [] => pktLen
  | pktLen, f :: rest => sumLens h (toInt32 (pktLen + (h.mbuf f.mbuf).dataLen)) rest

def setHead (h : Heap) (skb : SkBuff) : Heap :=
  h.setMbuf skb.headerMbuf { h.mbuf skb.headerMbuf with
    dataLen := toUInt16 skb.headlen
    dataOff := skb.start h }

def dpdkXmitFrame (h : Heap) (skb : SkBuff) : Heap :=
  let head := skb.headerMbuf
  let h' := setHead h skb
  let m := h'.mbuf head
  { mbuf := update h'.mbuf head { m with
      pktLen := toUInt32 (sumLens h' m.dataLen skb.frags)
      buf := (checks rawCksum h skb).foldl (fun buf w => overwrite buf w.1 w.2) m.buf }
    next := linkFrags h'.next head skb.frags
    nbSegs := update h'.nbSegs head ((1 + skb.frags.length) % 256) }

end Xmit

structure Sent where
  bytes : List UInt8
  len : Nat
  carried : List UInt8
  segs : Nat
  nbSegs : Nat
  pktLen : Nat
deriving DecidableEq

def sent (h : Heap) (skb : SkBuff) : Sent :=
  let chain := Chain.cells h.next (maxSkbFrags + 1) (some skb.headerMbuf)
  { bytes := skb.bytes h
    len := skb.len
    carried := payload (chain.map h.mbuf)
    segs := chain.length
    nbSegs := h.nbSegs skb.headerMbuf
    pktLen := (h.mbuf skb.headerMbuf).pktLen }

def splitFrags (len : Nat) : Nat → List Frag → List Frag × List Frag
  | _, [] => ([], [])
  | pos, f :: rest =>
    let r := splitFrags len (pos + f.size) rest
    if len < pos + f.size then
      if pos < len then
        ({ f with size := len - pos } :: r.1,
          { f with pageOffset := f.pageOffset + (len - pos), size := f.size - (len - pos) } :: r.2)
      else (r.1, f :: r.2)
    else (f :: r.1, r.2)

def skbSplitInsideHeader (h : Heap) (skb skb1 : SkBuff) (len pos : Nat) : Heap × SkBuff × SkBuff :=
  (h.write skb1.headerMbuf (skb1.start h + skb1.headlen)
      (window (h.mbuf skb.headerMbuf).buf (skb.start h + len) (pos - len)),
    { skb with frags := [], dataLen := 0, len := len },
    { skb1 with
      frags := skb.frags
      dataLen := skb.dataLen
      len := skb1.len + (pos - len) + skb.dataLen })

def skbSplitNoHeader (h : Heap) (skb skb1 : SkBuff) (len pos : Nat) : Heap × SkBuff × SkBuff :=
  (h, { skb with frags := (splitFrags len pos skb.frags).1, dataLen := len - pos, len := len },
    { skb1 with
      frags := (splitFrags len pos skb.frags).2
      dataLen := skb.len - len
      len := skb.len - len })

def skbSplit (h : Heap) (skb skb1 : SkBuff) (len : Nat) : Heap × SkBuff × SkBuff :=
  if len < skb.headlen then skbSplitInsideHeader h skb skb1 len skb.headlen
  else skbSplitNoHeader h skb skb1 len skb.headlen

def trimFrags : Nat → List Frag → List Frag
  | _, [] => []
  | eat, f :: rest =>
    if f.size ≤ eat then trimFrags (eat - f.size) rest
    else
      { f with pageOffset := f.pageOffset + eat, size := f.size - eat } :: trimFrags 0 rest

def pskbTrimHead (skb : SkBuff) (len : Nat) : SkBuff :=
  let eat := min len skb.headlen
  let skb' := { skb with data := skb.data + eat, len := skb.len - eat }
  if eat ≠ 0 ∧ len - eat = 0 then skb'
  else
    { skb' with
      frags := trimFrags (len - eat) skb.frags
      dataLen := skb.dataLen - (len - eat)
      len := skb.dataLen - (len - eat) }

structure State where
  heap : Heap
  skbs : List SkBuff
  nic : List Sent

def blank (header data : Nat) : SkBuff where
  headerMbuf := header
  data := data
  len := 0
  dataLen := 0
  frags := []
  networkHeader := 0
  transportHeader := 0
  partialChecksum := false
  gsoSize := 0

def Unused (s : State) (m : Nat) : Prop := ∀ o ∈ s.skbs, m ∉ o.headerMbuf :: o.pages

instance decidableUnused (s : State) (m : Nat) : Decidable (Unused s m) :=
  inferInstanceAs (Decidable (∀ o ∈ s.skbs, _))

def Apart (o o' : SkBuff) : Prop := o.headerMbuf ∉ o'.pages ∧ o'.headerMbuf ∉ o.pages

instance decidableApart (o o' : SkBuff) : Decidable (Apart o o') :=
  inferInstanceAs (Decidable (_ ∧ _))

def Room (s : State) (m data n : Nat) : Prop :=
  Unused s m ∧ headOff (s.heap.mbuf m) + data + n ≤ (s.heap.mbuf m).buf.length ∧
    (s.heap.mbuf m).buf.length < 2 ^ 16

instance decidableRoom (s : State) (m data n : Nat) : Decidable (Room s m data n) :=
  inferInstanceAs (Decidable (_ ∧ _))

inductive Action where
  | fill (m : Nat) (x : Mbuf)
  | put (skb : SkBuff)
  | split (k header data len : Nat)
  | trim (k len : Nat)
  | clone (k : Nat)
  | copy (k header data : Nat)
  | push (k : Nat) (hdr : List UInt8) (network transport : Nat) (partialChecksum : Bool)
      (gsoSize : Nat)
  | xmit (k : Nat)
deriving DecidableEq

section

variable (rawCksum : List UInt8 → UInt8 × UInt8)

def split (s : State) (skb : SkBuff) (k header data len : Nat) : State :=
  let r := skbSplit s.heap skb (blank header data) len
  { s with heap := r.1, skbs := s.skbs.set k r.2.1 ++ [r.2.2] }

def pskbCopy (s : State) (skb : SkBuff) (header data : Nat) : State :=
  { s with
    heap := s.heap.write header (headOff (s.heap.mbuf header) + data) (skb.linear s.heap)
    skbs := s.skbs ++ [{ skb with headerMbuf := header, data := data }] }

def skbPush (s : State) (skb : SkBuff) (k : Nat) (hdr : List UInt8) (network transport : Nat)
    (partialChecksum : Bool) (gsoSize : Nat) : State :=
  let skb' := { skb with
    data := skb.data - hdr.length
    len := skb.len + hdr.length
    networkHeader := network
    transportHeader := transport
    partialChecksum := partialChecksum
    gsoSize := gsoSize }
  { s with
    heap := s.heap.write skb.headerMbuf (skb'.start s.heap) hdr
    skbs := s.skbs.set k skb' }

def xmit (s : State) (skb : SkBuff) (k : Nat) : State :=
  let h := dpdkXmitFrame rawCksum s.heap skb
  { heap := h
    skbs := s.skbs.eraseIdx k
    nic := s.nic ++ [sent h skb] }

def step (s : State) : Action → Option State
  | .fill m x => if Unused s m then some { s with heap := s.heap.setMbuf m x } else none
  | .put skb =>
    if skb.Valid s.heap ∧ ∀ o ∈ s.skbs, Apart o skb then
      some { s with skbs := s.skbs ++ [skb] }
    else none
  | .split k header data len =>
    (s.skbs[k]?).bind fun skb =>
      if len ≤ skb.len ∧ Room s header data (skb.headlen - len) then
        some (split s skb k header data len)
      else none
  | .trim k len =>
    (s.skbs[k]?).bind fun skb =>
      if len ≤ skb.len then some { s with skbs := s.skbs.set k (pskbTrimHead skb len) }
      else none
  | .clone k => (s.skbs[k]?).map fun skb => { s with skbs := s.skbs ++ [skb] }
  | .copy k header data =>
    (s.skbs[k]?).bind fun skb =>
      if Room s header data skb.headlen then some (pskbCopy s skb header data) else none
  | .push k hdr network transport partialChecksum gsoSize =>
    (s.skbs[k]?).bind fun skb =>
      if hdr.length ≤ skb.data then
        some (skbPush s skb k hdr network transport partialChecksum gsoSize)
      else none
  | .xmit k => (s.skbs[k]?).map fun skb => xmit rawCksum s skb k

def system : TransitionSystem State Action where
  init := fun s => s.skbs = [] ∧ s.nic = []
  step := step rawCksum

end

end LightStack.Tx.Frame
