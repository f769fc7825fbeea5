import LightStack.Mbuf

/-!
# The payload of a datagram

`ip_generic_getfrag` skips to the beginning of its range but goes on to the end of the chain.
-/

namespace LightStack.Tx.Getfrag

open List

structure Frag where
  mbuf : Mbuf
  pageOffset : Nat
  size : Nat

def Frag.bytes (f : Frag) : List UInt8 := (f.mbuf.data.drop f.pageOffset).take f.size

structure SkBuff where
  frags : List Frag
  len : Nat
  dataLen : Nat
  csum : UInt32
  csumPartial : Bool

/-- `skb_fill_page_desc` for the data of a segment from `offset` on, and the two lengths. -/
def SkBuff.attach (skb : SkBuff) (m : Mbuf) (offset : Nat) : SkBuff :=
  { skb with
    frags := skb.frags ++ [⟨m, offset, m.dataLen - offset⟩]
    len := skb.len + (m.dataLen - offset)
    dataLen := skb.dataLen + (m.dataLen - offset) }

def memcpyFromiovecend (skb : SkBuff) : List Mbuf → Nat → SkBuff
  | [], _ => skb
  | m :: rest, offset =>
    if offset < m.dataLen then memcpyFromiovecend (skb.attach m offset) rest 0
    else memcpyFromiovecend skb rest (offset - m.dataLen)

section

variable (csumPartial : List UInt8 → UInt32 → UInt32)

def csumPartialCopyFromiovecend (skb : SkBuff) (csum : UInt32) :
    List Mbuf → Nat → UInt32 → SkBuff × UInt32
  | [], _, _ => (skb, csum)
  | m :: rest, offset, csump =>
    if offset < m.dataLen then
      csumPartialCopyFromiovecend (skb.attach m offset) csum rest 0
        (csumPartial (m.data.drop offset) csum)
    else csumPartialCopyFromiovecend skb csum rest (offset - m.dataLen) csump

def csumAdd (csum addend : UInt32) : UInt32 :=
  csum + addend + if csum + addend < addend then 1 else 0

def csumBlockAdd (csum csum2 : UInt32) (odd : Bool) : UInt32 :=
  csumAdd csum (if odd then ((csum2 &&& 0xFF00FF) <<< 8) + ((csum2 >>> 8) &&& 0xFF00FF) else csum2)

/-- The length of the range is not used. -/
def ipGenericGetfrag (skb : SkBuff) (iov : List Mbuf) (offset _len : Nat) (odd : Bool) : SkBuff :=
  if skb.csumPartial then memcpyFromiovecend skb iov offset
  else
    let r := csumPartialCopyFromiovecend csumPartial skb 0 iov offset 0
    { r.1 with csum := csumBlockAdd skb.csum r.2 odd }

/-- How many segments have bytes from `offset` on. -/
def segmentsFrom : List Mbuf → Nat → Nat
  | [], _ => 0
  | m :: rest, offset =>
    (if offset < m.dataLen then 1 else 0) + segmentsFrom rest (offset - m.dataLen)

/-- The sum of the 16-bit words of a range, as they lie in memory. -/
def wordSum : List UInt8 → Nat
  | [] => 0
  | [a] => a.toNat
  | a :: b :: rest => a.toNat + 256 * b.toNat + wordSum rest

/-- Sums in one's complement are equal if they are modulo `0xFFFF`. -/
structure Attached (skb skb' : SkBuff) (range : List UInt8) (odd : Bool) : Prop where
  bytes : skb'.frags.flatMap Frag.bytes = skb.frags.flatMap Frag.bytes ++ range
  room : skb'.frags.length ≤ maxSkbFrags
  len : skb'.len = skb.len + range.length
  dataLen : skb'.dataLen = skb.dataLen + range.length
  csum : skb.csumPartial = false → skb'.csum.toNat % 65535 =
    (skb.csum.toNat + (if odd then 256 else 1) * wordSum range) % 65535

variable {csumPartial}

theorem copy_eq (skb : SkBuff) (csum : UInt32) (iov : List Mbuf) (offset : Nat) (csump : UInt32) :
    csumPartialCopyFromiovecend csumPartial skb csum iov offset csump =
      (memcpyFromiovecend skb iov offset, csum) := by
  induction iov generalizing skb offset csump with
  | nil => rfl
  | cons m rest ih =>
    rw [csumPartialCopyFromiovecend, memcpyFromiovecend]
    split
    · exact ih ..
    · exact ih ..

theorem csumBlockAdd_zero (csum : UInt32) (odd : Bool) : csumBlockAdd csum 0 odd = csum := by
  cases odd <;> simp [csumBlockAdd, csumAdd]

theorem csum_memcpy (skb : SkBuff) (iov : List Mbuf) (offset : Nat) :
    (memcpyFromiovecend skb iov offset).csum = skb.csum := by
  fun_induction memcpyFromiovecend skb iov offset with
  | case1 => rfl
  | case2 skb m rest offset hlt ih => exact ih
  | case3 skb m rest offset hge ih => exact ih

theorem ipGenericGetfrag_eq (skb : SkBuff) (iov : List Mbuf) (offset len : Nat) (odd : Bool) :
    ipGenericGetfrag csumPartial skb iov offset len odd = memcpyFromiovecend skb iov offset := by
  unfold ipGenericGetfrag
  split
  · rfl
  · simp only [copy_eq, csumBlockAdd_zero, ← csum_memcpy skb iov offset]

theorem frag_bytes_tail {m : Mbuf} (hm : m.data.length = m.dataLen) (offset : Nat) :
    (Frag.mk m offset (m.dataLen - offset)).bytes = m.data.drop offset := by
  refine take_of_length_le ?_
  rw [length_drop, hm]

theorem bytes_memcpy {iov : List Mbuf} (hiov : ∀ m ∈ iov, m.data.length = m.dataLen)
    (skb : SkBuff) (offset : Nat) :
    (memcpyFromiovecend skb iov offset).frags.flatMap Frag.bytes =
      skb.frags.flatMap Frag.bytes ++ (payload iov).drop offset := by
  fun_induction memcpyFromiovecend skb iov offset with
  | case1 skb offset => simp
  | case2 skb m rest offset hlt ih =>
    obtain ⟨hm, hrest⟩ := forall_mem_cons.mp hiov
    rw [ih hrest, payload_cons, drop_append_of_le_length (by omega)]
    simp [SkBuff.attach, frag_bytes_tail hm]
  | case3 skb m rest offset hge ih =>
    obtain ⟨hm, hrest⟩ := forall_mem_cons.mp hiov
    rw [ih hrest, payload_cons, drop_append,
      drop_eq_nil_of_le (show m.data.length ≤ offset by omega), hm,
      nil_append]

theorem len_memcpy {iov : List Mbuf} (hiov : ∀ m ∈ iov, m.data.length = m.dataLen)
    (skb : SkBuff) (offset : Nat) :
    (memcpyFromiovecend skb iov offset).len = skb.len + ((payload iov).length - offset) ∧
      (memcpyFromiovecend skb iov offset).dataLen =
        skb.dataLen + ((payload iov).length - offset) := by
  fun_induction memcpyFromiovecend skb iov offset with
  | case1 skb offset => simp
  | case2 skb m rest offset hlt ih =>
    obtain ⟨hm, hrest⟩ := forall_mem_cons.mp hiov
    rw [(ih hrest).1, (ih hrest).2, payload_cons, length_append, hm]
    simp only [SkBuff.attach]
    omega
  | case3 skb m rest offset hge ih =>
    obtain ⟨hm, hrest⟩ := forall_mem_cons.mp hiov
    rw [(ih hrest).1, (ih hrest).2, payload_cons, length_append, hm]
    omega

theorem length_frags_memcpy (skb : SkBuff) (iov : List Mbuf) (offset : Nat) :
    (memcpyFromiovecend skb iov offset).frags.length =
      skb.frags.length + segmentsFrom iov offset := by
  fun_induction memcpyFromiovecend skb iov offset with
  | case1 skb offset => rfl
  | case2 skb m rest offset hlt ih =>
    rw [ih, SkBuff.attach, length_append, length_singleton, segmentsFrom, if_pos hlt,
      Nat.sub_eq_zero_of_le hlt.le, Nat.add_assoc]
  | case3 skb m rest offset hge ih =>
    rw [ih, segmentsFrom, if_neg hge, Nat.zero_add]

theorem sum_kept_iff (csum sum : Nat) (odd : Bool) :
    csum % 65535 = (csum + (if odd then 256 else 1) * sum) % 65535 ↔ 65535 ∣ sum := by
  cases odd
  · simp only [Bool.false_eq_true, if_false]
    omega
  · simp only [if_true]
    omega

end

/-- The range is attached as it should be exactly if it reaches to the end of the chain, its
segments fit the table, and in software it has sum zero. -/
theorem getfrag_attached_iff (csumPartial : List UInt8 → UInt32 → UInt32) (skb : SkBuff)
    (iov : List Mbuf) (offset len : Nat) (odd : Bool)
    (hiov : ∀ m ∈ iov, m.data.length = m.dataLen)
    (hrange : offset + len ≤ (payload iov).length) :
    Attached skb (ipGenericGetfrag csumPartial skb iov offset len odd)
        (((payload iov).drop offset).take len) odd ↔
      offset + len = (payload iov).length ∧
        skb.frags.length + segmentsFrom iov offset ≤ maxSkbFrags ∧
        (skb.csumPartial = false → 65535 ∣ wordSum (((payload iov).drop offset).take len)) := by
  have hlength : (((payload iov).drop offset).take len).length = len := by
    rw [length_take, length_drop]
    omega
  obtain ⟨hlen, hdataLen⟩ := len_memcpy hiov skb offset
  rw [ipGenericGetfrag_eq, ← length_frags_memcpy]
  constructor
  · intro h
    have hall := h.len
    rw [hlen, hlength] at hall
    refine ⟨by omega, h.room, fun hsoft => ?_⟩
    have hsum := h.csum hsoft
    rwa [csum_memcpy, sum_kept_iff] at hsum
  · rintro ⟨hend, hroom, hsum⟩
    have hall : ((payload iov).drop offset).take len = (payload iov).drop offset :=
      take_of_length_le (by rw [length_drop]; omega)
    refine ⟨by rw [bytes_memcpy hiov, hall], hroom, ?_, ?_, fun hsoft => ?_⟩
    · rw [hlen, hlength]
      omega
    · rw [hdataLen, hlength]
      omega
    · rw [csum_memcpy, sum_kept_iff]
      exact hsum hsoft

def emptySkb (csumPartial : Bool) : SkBuff := ⟨[], 0, 0, 0, csumPartial⟩

def addWords (bytes : List UInt8) (sum : UInt32) : UInt32 := sum + UInt32.ofNat (wordSum bytes)

theorem getfrag_attached_tail :
    Attached (emptySkb true) (ipGenericGetfrag addWords (emptySkb true)
      [⟨[1, 2], 0, 2, 2⟩, ⟨[3, 4], 0, 2, 2⟩] 2 2 false) [3, 4] false :=
  (getfrag_attached_iff addWords (emptySkb true) [⟨[1, 2], 0, 2, 2⟩, ⟨[3, 4], 0, 2, 2⟩] 2 2 false
    (by decide) (by decide)).mpr ⟨rfl, by decide, fun h => nomatch h⟩

theorem getfrag_beyond_range :
    let skb := ipGenericGetfrag addWords (emptySkb false) [⟨[1, 2, 3, 4], 0, 4, 4⟩] 0 2 false
    skb.len = 4 ∧ skb.frags.flatMap Frag.bytes = [1, 2, 3, 4] ∧ skb.csum = 0 ∧
      wordSum [1, 2, 3, 4] % 65535 = 1540 := by
  decide

/-! ## Copying a range -/

/-- The loop of `memcpy_fromiovecend2`. `kdata` is what it has stored, `copied` its length. -/
def copyRange (kdata : List UInt8) : List Mbuf → Nat → Nat → List UInt8
  | [], _, _ => kdata
  | m :: rest, offset, len =>
    if kdata.length < len then
      if offset < m.dataLen then copyRange (kdata ++ m.data.drop offset) rest 0 len
      else copyRange kdata rest (offset - m.dataLen) len
    else kdata

def memcpyFromiovecend2 (iov : List Mbuf) (offset len : Nat) : List UInt8 × Bool :=
  let kdata := copyRange [] iov offset len
  (kdata, kdata.length = len)

/-- The end of the segment that has the last of the first `n` bytes. -/
def segmentEnd : List Mbuf → Nat → Nat
  | [], _ => 0
  | m :: rest, n => if n ≤ m.dataLen then m.dataLen else m.dataLen + segmentEnd rest (n - m.dataLen)

theorem segmentEnd_bounds {iov : List Mbuf} (hiov : ∀ m ∈ iov, m.data.length = m.dataLen) {n : Nat}
    (hn : n ≤ (payload iov).length) :
    n ≤ segmentEnd iov n ∧ segmentEnd iov n ≤ (payload iov).length := by
  induction iov generalizing n with
  | nil => simpa [segmentEnd] using hn
  | cons m rest ih =>
    obtain ⟨hm, hrest⟩ := forall_mem_cons.mp hiov
    rw [payload_cons, length_append, hm] at hn ⊢
    rw [segmentEnd]
    split
    · omega
    · have hbounds := ih hrest (n := n - m.dataLen) (by omega)
      omega

theorem copyRange_of_done (kdata : List UInt8) (iov : List Mbuf) (offset : Nat) {len : Nat}
    (hdone : len ≤ kdata.length) : copyRange kdata iov offset len = kdata := by
  cases iov with
  | nil => rfl
  | cons m rest => rw [copyRange, if_neg (by omega)]

theorem copyRange_eq {iov : List Mbuf} (hiov : ∀ m ∈ iov, m.data.length = m.dataLen)
    (kdata : List UInt8) (offset n : Nat) (hn : 0 < n)
    (hrange : offset + n ≤ (payload iov).length) :
    copyRange kdata iov offset (kdata.length + n) =
      kdata ++ ((payload iov).drop offset).take (segmentEnd iov (offset + n) - offset) := by
  induction iov generalizing kdata offset n with
  | nil =>
    rw [payload_nil, length_nil] at hrange
    omega
  | cons m rest ih =>
    obtain ⟨hm, hrest⟩ := forall_mem_cons.mp hiov
    rw [payload_cons, length_append, hm] at hrange
    rw [copyRange, if_pos (by omega), segmentEnd, payload_cons]
    by_cases hinside : offset < m.dataLen
    · have hdrop : (m.data.drop offset).length = m.dataLen - offset := by rw [length_drop, hm]
      have hstored :
          (kdata ++ m.data.drop offset).length = kdata.length + (m.dataLen - offset) := by
        rw [length_append, hdrop]
      rw [if_pos hinside, drop_append_of_le_length (by omega)]
      by_cases hlast : offset + n ≤ m.dataLen
      · rw [if_pos hlast, copyRange_of_done _ _ _ (by omega), ← hdrop, take_left]
      · have hnext := ih hrest (kdata ++ m.data.drop offset) 0 (offset + n - m.dataLen) (by omega)
          (by omega)
        have hmore : m.dataLen + segmentEnd rest (offset + n - m.dataLen) - offset =
            (m.data.drop offset).length + segmentEnd rest (offset + n - m.dataLen) := by omega
        rw [hstored, show kdata.length + (m.dataLen - offset) + (offset + n - m.dataLen) =
          kdata.length + n by omega, Nat.zero_add, drop_zero, Nat.sub_zero] at hnext
        rw [hnext, if_neg hlast, hmore, take_length_add_append, append_assoc]
    · have hskip :
          (m.data ++ payload rest).drop offset = (payload rest).drop (offset - m.dataLen) := by
        rw [drop_append, drop_eq_nil_of_le (by omega), nil_append, hm]
      have hend : m.dataLen + segmentEnd rest (offset + n - m.dataLen) - offset =
          segmentEnd rest (offset + n - m.dataLen) - (offset - m.dataLen) := by omega
      rw [if_neg hinside, ih hrest kdata _ n hn (by omega), if_neg (by omega), hskip, hend,
        Nat.sub_add_comm (by omega)]

/-- A range is copied as it should be exactly if it is empty or ends where a segment does. -/
theorem range_copied_iff (iov : List Mbuf) (offset len : Nat)
    (hiov : ∀ m ∈ iov, m.data.length = m.dataLen)
    (hrange : offset + len ≤ (payload iov).length) :
    memcpyFromiovecend2 iov offset len = (((payload iov).drop offset).take len, true) ↔
      len = 0 ∨ segmentEnd iov (offset + len) = offset + len := by
  rcases Nat.eq_zero_or_pos len with rfl | hpos
  · simp [memcpyFromiovecend2, copyRange_of_done]
  have hcopy := copyRange_eq hiov [] offset len hpos hrange
  rw [length_nil, Nat.zero_add, nil_append] at hcopy
  obtain ⟨hlow, hhigh⟩ := segmentEnd_bounds hiov hrange
  simp only [memcpyFromiovecend2, hcopy, Prod.mk.injEq, decide_eq_true_eq, length_take,
    length_drop]
  constructor
  · rintro ⟨-, hlength⟩
    omega
  · rintro (hzero | hend)
    · omega
    · rw [hend, Nat.add_sub_cancel_left]
      exact ⟨rfl, by omega⟩

theorem range_copied_inner_segment :
    memcpyFromiovecend2 [⟨[1, 2], 0, 2, 2⟩, ⟨[3], 0, 1, 1⟩, ⟨[4], 0, 1, 1⟩] 1 2 = ([2, 3], true) :=
  (range_copied_iff [⟨[1, 2], 0, 2, 2⟩, ⟨[3], 0, 1, 1⟩, ⟨[4], 0, 1, 1⟩] 1 2
    (by decide) (by decide)).mpr (.inr rfl)

theorem range_copied_beyond : memcpyFromiovecend2 [⟨[1, 2], 0, 2, 2⟩] 0 1 = ([1, 2], false) := by
  decide

end LightStack.Tx.Getfrag
