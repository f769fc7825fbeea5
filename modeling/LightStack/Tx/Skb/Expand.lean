import Mathlib.Data.List.Basic
import Mathlib.Logic.Function.Basic
import Mathlib.Tactic.Common

/-!
# A larger header

`pskb_expand_head` does not set `header_mbuf`.
-/

namespace LightStack.Tx.Skb.Expand

open Function List

/-- An `sk_buff`. `headBuf` is the mbuf that `head`, `data` and `tail` point into. -/
structure SkBuff where
  headerMbuf : Nat
  headBuf : Nat
  head : Nat
  data : Nat
  tail : Nat
  endOffset : Nat
  shinfo : Nat
  cloned : Bool
  nohdr : Bool
  hdrLen : Nat
  deriving DecidableEq

structure State where
  buf : Nat → List UInt8
  refcnt : Nat → Nat
  dataref : Nat → Nat
  frags : Nat → List Nat
  skbs : List SkBuff

def State.bytes (s : State) (skb : SkBuff) : List UInt8 :=
  ((s.buf skb.headBuf).drop skb.data).take (skb.tail - skb.data)

def overwrite (buf : List UInt8) (pos : Nat) (new : List UInt8) : List UInt8 :=
  buf.take pos ++ new ++ buf.drop (pos + new.length)

/-- `size` after `SKB_DATA_ALIGN` and `SKB_WITH_OVERHEAD`. -/
def expandedSize (overhead nhead endOffset ntail : Nat) : Nat :=
  (nhead + endOffset + ntail + 63) / 64 * 64 - overhead

def SkBuff.expand (skb : SkBuff) (newHead overhead nhead ntail : Nat) : SkBuff :=
  { skb with
    headBuf := newHead
    head := 0
    data := nhead + (skb.data - skb.head)
    tail := nhead + (skb.tail - skb.head)
    endOffset := expandedSize overhead nhead skb.endOffset ntail
    cloned := false
    nohdr := false
    hdrLen := 0 }

/-- `newHead` is what `rte_pktmbuf_alloc` returns. -/
def pskbExpandHead (s : State) (i : Nat) (skb : SkBuff) (overhead nhead ntail : Nat)
    (newHead : Option Nat) : State × Bool :=
  match newHead with
  | none => (s, false)
  | some m =>
    let header := ((s.buf skb.headBuf).drop skb.head).take (skb.tail - skb.head)
    let refcnt := update s.refcnt m 1
    ({ buf := update s.buf m (overwrite (s.buf m) nhead header)
       refcnt := update refcnt skb.headerMbuf (refcnt skb.headerMbuf - 1)
       dataref := update s.dataref skb.shinfo 1
       frags := s.frags
       skbs := s.skbs.set i (skb.expand m overhead nhead ntail) }, true)

/-- The pointers lie in the buffer of `header_mbuf`. -/
structure SkBuff.Sound (s : State) (skb : SkBuff) : Prop where
  buffer : skb.headBuf = skb.headerMbuf
  data : skb.head ≤ skb.data
  tail : skb.data ≤ skb.tail
  within : skb.tail ≤ (s.buf skb.headerMbuf).length
  held : 0 < s.refcnt skb.headerMbuf

/-- `dataref` counts the sk_buffs that share a block. -/
def Accounted (s : State) : Prop :=
  ∀ skb ∈ s.skbs, s.dataref skb.shinfo = s.skbs.countP fun other => other.shinfo = skb.shinfo

structure Expanded (s t : State) (i : Nat) (skb skb' : SkBuff) : Prop where
  sound : skb'.Sound t
  single : t.refcnt skb'.headerMbuf = 1
  bytes : t.bytes skb' = s.bytes skb
  old : t.refcnt skb.headerMbuf = s.refcnt skb.headerMbuf - 1
  clones : ∀ other ∈ s.skbs.eraseIdx i,
    t.bytes other = s.bytes other ∧ t.frags other.shinfo = s.frags other.shinfo
  accounted : Accounted s → Accounted t

variable {s : State} {i m overhead nhead ntail : Nat} {skb : SkBuff}

theorem read_overwrite {buf new : List UInt8} {pos k : Nat} (hpos : pos ≤ buf.length)
    (hk : k ≤ new.length) :
    ((overwrite buf pos new).drop (pos + k)).take (new.length - k) = new.drop k := by
  have htake : (buf.take pos).length = pos := by rw [length_take, Nat.min_eq_left hpos]
  rw [overwrite, append_assoc, ← drop_drop, drop_left' htake,
    drop_append_of_le_length hk, take_left' length_drop]

theorem bytes_expand (hsound : skb.Sound s) (hfits : nhead ≤ (s.buf m).length) :
    (pskbExpandHead s i skb overhead nhead ntail (some m)).1.bytes
      (skb.expand m overhead nhead ntail) = s.bytes skb := by
  have hbuffer := hsound.buffer
  have hdata := hsound.data
  have htail := hsound.tail
  have hwithin := hsound.within
  rw [← hbuffer] at hwithin
  have hlength : (((s.buf skb.headBuf).drop skb.head).take (skb.tail - skb.head)).length =
      skb.tail - skb.head := by
    rw [length_take, length_drop]
    omega
  have hused : nhead + (skb.tail - skb.head) - (nhead + (skb.data - skb.head)) =
      skb.tail - skb.head - (skb.data - skb.head) := by omega
  simp only [State.bytes, pskbExpandHead, SkBuff.expand, update_self, hused]
  generalize hheader : ((s.buf skb.headBuf).drop skb.head).take (skb.tail - skb.head) = header
    at hlength ⊢
  have hdrop : skb.head + (skb.data - skb.head) = skb.data := by omega
  have htake : skb.tail - skb.head - (skb.data - skb.head) = skb.tail - skb.data := by omega
  rw [← hlength, read_overwrite hfits (by omega), ← hheader, drop_take, drop_drop,
    hdrop, htake]

theorem headBuf_ne (hsound : skb.Sound s) (hfree : s.refcnt m = 0) : skb.headBuf ≠ m := by
  intro h
  have hheld := hsound.held
  rw [← hsound.buffer, h, hfree] at hheld
  exact absurd hheld (by decide)

/-- `pskb_expand_head` keeps the bytes and the other packets, yet `header_mbuf` still names the old
buffer. -/
theorem expand_head_outcomes (s : State) (i : Nat) (skb : SkBuff) (overhead nhead ntail : Nat)
    (newHead : Option Nat) (hskb : s.skbs[i]? = some skb) (hsound : ∀ skb ∈ s.skbs, skb.Sound s)
    (hfree : ∀ m, newHead = some m → s.refcnt m = 0) :
    let r := pskbExpandHead s i skb overhead nhead ntail newHead
    (newHead = none → r = (s, false)) ∧ ∀ m, newHead = some m →
      r.2 = true ∧ ¬Expanded s r.1 i skb (skb.expand m overhead nhead ntail) ∧
      (nhead + (skb.tail - skb.head) ≤ (s.buf m).length →
        r.1.bytes (skb.expand m overhead nhead ntail) = s.bytes skb ∧
        r.1.refcnt skb.headerMbuf = s.refcnt skb.headerMbuf - 1 ∧
        ∀ other ∈ s.skbs.eraseIdx i,
          r.1.bytes other = s.bytes other ∧ r.1.frags other.shinfo = s.frags other.shinfo) := by
  refine ⟨?_, ?_⟩
  · rintro rfl
    rfl
  · rintro m rfl
    have hskb := hsound skb (mem_of_getElem? hskb)
    have hne := headBuf_ne hskb (hfree m rfl)
    refine ⟨rfl, fun h => ?_, fun hfits => ⟨?_, ?_, fun other hother => ⟨?_, rfl⟩⟩⟩
    · exact hne (hskb.buffer.trans h.sound.buffer.symm)
    · exact bytes_expand hskb (Nat.le_trans (Nat.le_add_right ..) hfits)
    · rw [hskb.buffer] at hne
      simp only [pskbExpandHead, update_self, update_of_ne hne]
    · have hother := headBuf_ne (hsound other (mem_of_mem_eraseIdx hother)) (hfree m rfl)
      simp only [State.bytes, pskbExpandHead, update_of_ne hother]

def cloned : SkBuff := ⟨0, 0, 0, 0, 2, 64, 0, true, false, 0⟩

def twoSkbs : State where
  buf m := if m = 0 then [7, 8] else [0, 0, 0, 0]
  refcnt m := if m = 0 then 2 else 0
  dataref _ := 2
  frags _ := []
  skbs := [cloned, cloned]

theorem sound_twoSkbs : ∀ skb ∈ twoSkbs.skbs, skb.Sound twoSkbs := by
  intro skb hskb
  obtain rfl : skb = cloned := by simpa [twoSkbs] using hskb
  exact ⟨rfl, by decide, by decide, by decide, by decide⟩

theorem expand_head_outcomes_cloned :
    pskbExpandHead twoSkbs 0 cloned 0 2 0 none = (twoSkbs, false) ∧
      (pskbExpandHead twoSkbs 0 cloned 0 2 0 (some 1)).1.bytes (cloned.expand 1 0 2 0) =
        [7, 8] := by
  refine ⟨(expand_head_outcomes twoSkbs 0 cloned 0 2 0 none rfl sound_twoSkbs nofun).1 rfl, ?_⟩
  have hfree (m : Nat) (hm : some 1 = some m) : twoSkbs.refcnt m = 0 := by
    cases hm
    rfl
  exact (((expand_head_outcomes twoSkbs 0 cloned 0 2 0 (some 1) rfl sound_twoSkbs hfree).2 1
    rfl).2.2 (by decide)).1

/-- The new mbuf has a reference that nobody holds, and the block of two sk_buffs counts one. -/
theorem expand_head_keeps_header_mbuf :
    let t := (pskbExpandHead twoSkbs 0 cloned 0 2 0 (some 1)).1
    t.skbs.map (fun skb => (skb.headBuf, skb.headerMbuf, skb.shinfo)) = [(1, 0, 0), (0, 0, 0)] ∧
      t.refcnt 0 = 1 ∧ t.refcnt 1 = 1 ∧ t.dataref 0 = 1 ∧
      ¬Expanded twoSkbs t 0 cloned (cloned.expand 1 0 2 0) := by
  refine ⟨by decide, by decide, by decide, by decide, fun hexpanded => ?_⟩
  exact absurd hexpanded.sound.buffer (by decide)

end LightStack.Tx.Skb.Expand
