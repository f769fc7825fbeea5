import Mathlib

/-!
# Packet buffers

An `rte_mbuf` describes a window of `data_len` bytes at `data_off` in a buffer of its own.
-/

namespace LightStack

def toInt32 (x : Int) : Int := Int.bmod x (2 ^ 32)

def toUInt16 (x : Int) : Nat := (x % 2 ^ 16).toNat

def toUInt32 (x : Int) : Nat := (x % 2 ^ 32).toNat

/-- `MAX_SKB_FRAGS`; the Makefile defines `OFFLOAD_NOT_YET`. -/
def maxSkbFrags : Nat := 1

def maxTcpHeader : Nat := 128 + 32

def skbDataAlign (size : Nat) : Nat := (size + 63) / 64 * 64

/-- The bytes from `head` to `end`: `__alloc_skb` never gives more than `MAX_TCP_HEADER`. -/
def allocSkb (size : Nat) : Nat := skbDataAlign (min size maxTcpHeader)

variable {x : Int} {m : Mbuf}

theorem toInt32_of_lt (hlow : 0 ≤ x) (hhigh : x < 2 ^ 31) : toInt32 x = x := by
  unfold toInt32
  exact Int.bmod_eq_of_le (by omega) (by omega)

theorem toInt32_lt (x : Int) : toInt32 x < 2 ^ 31 := by
  have := Int.bmod_lt (x := x) (m := 2 ^ 32) (by decide)
  unfold toInt32
  omega

theorem toUInt16_of_lt (hlow : 0 ≤ x) (hhigh : x < 2 ^ 16) : (toUInt16 x : Int) = x := by
  unfold toUInt16
  omega

theorem toUInt32_of_lt (hlow : 0 ≤ x) (hhigh : x < 2 ^ 32) : (toUInt32 x : Int) = x := by
  unfold toUInt32
  omega

theorem toUInt32_add (x y : Int) : toUInt32 (toUInt32 x + toUInt32 y) = toUInt32 (x + y) := by
  unfold toUInt32
  omega

structure Mbuf where
  buf : List UInt8
  dataOff : Nat
  dataLen : Nat
  pktLen : Nat
  deriving DecidableEq

namespace Mbuf

def read (m : Mbuf) (len : Nat) : List UInt8 := (m.buf.drop m.dataOff).take len

def data (m : Mbuf) : List UInt8 := m.read m.dataLen

@[mk_iff]
structure WellFormed (m : Mbuf) : Prop where
  pos : 0 < m.dataLen
  within : m.dataOff + m.dataLen ≤ m.buf.length
  small : m.buf.length < 2 ^ 16

instance (m : Mbuf) : Decidable m.WellFormed := decidable_of_iff' _ (wellFormed_iff m)

theorem WellFormed.length_read (hm : m.WellFormed) {len : Nat}
    (hlen : len ≤ m.dataLen) : (m.read len).length = len := by
  have hwithin := hm.within
  simp only [read, List.length_take, List.length_drop]
  omega

theorem WellFormed.length_data (hm : m.WellFormed) : m.data.length = m.dataLen :=
  hm.length_read (Nat.le_refl _)

theorem WellFormed.dataLen_lt (hm : m.WellFormed) : m.dataLen < 2 ^ 16 := by
  have hwithin := hm.within
  have hsmall := hm.small
  omega

theorem read_append_read (m m' : Mbuf) (n k : Nat) (hbuf : m'.buf = m.buf)
    (hoff : m'.dataOff = m.dataOff + n) : m.read n ++ m'.read k = m.read (n + k) := by
  simp only [read, hbuf, hoff, List.take_add, List.drop_drop]

end Mbuf

def payload (segs : List Mbuf) : List UInt8 := segs.flatMap Mbuf.data

@[simp]
theorem payload_nil : payload [] = [] := rfl

@[simp]
theorem payload_cons (m : Mbuf) (segs : List Mbuf) :
    payload (m :: segs) = m.data ++ payload segs := by
  simp [payload]

@[simp]
theorem payload_append (segs segs' : List Mbuf) :
    payload (segs ++ segs') = payload segs ++ payload segs' := by
  simp [payload]

structure MbufChain where
  head : Mbuf
  next : List Mbuf
  deriving DecidableEq

namespace MbufChain

def segs (c : MbufChain) : List Mbuf := c.head :: c.next

def WellFormed (c : MbufChain) : Prop := ∀ m ∈ c.segs, m.WellFormed

instance (c : MbufChain) : Decidable c.WellFormed :=
  inferInstanceAs (Decidable (∀ m ∈ c.segs, m.WellFormed))

def Counted (c : MbufChain) : Prop := c.head.pktLen = toUInt32 (payload c.segs).length

instance (c : MbufChain) : Decidable c.Counted := inferInstanceAs (Decidable (_ = _))

def ofLast (passed : List Mbuf) (last : Mbuf) : MbufChain :=
  match passed with
  | [] => ⟨last, []⟩
  | m :: ms => ⟨m, ms ++ [last]⟩

@[simp]
theorem segs_ofLast (passed : List Mbuf) (last : Mbuf) :
    (ofLast passed last).segs = passed ++ [last] := by
  cases passed <;> rfl

def append (c c' : MbufChain) : MbufChain := ⟨c.head, c.next ++ c'.segs⟩

@[simp]
theorem segs_append (c c' : MbufChain) : (c.append c').segs = c.segs ++ c'.segs := rfl

end MbufChain

structure RxChain extends MbufChain where
  wellFormed : toMbufChain.WellFormed

end LightStack
