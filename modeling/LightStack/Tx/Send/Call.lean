import LightStack.Tx.Send.Model

/-!
# A call of `light_send`

The call is one step; `tx_bufs_pool` is a queue without caches.
-/

namespace LightStack.Tx.Send.Call

open Lib List

structure Desc where
  mbuf : Nat
  buffer : Buffer
deriving DecidableEq

/-- What a call finds. `kickRc` is what `_light_socket_kick_by_proc_id` returns when it has set
`write_done_from_app`: `-1` without a command buffer, and anything at all on a full command ring,
where the function ends without a return value. -/
structure Conn where
  txRing : Ring Desc 1023
  pool : List Nat
  txSpace : Int
  closeSignal : Nat
  writeDone : Bool
  kickRc : Int

def contents (ring : Ring Desc 1023) : TxRing where
  items := ring.items.map Desc.buffer
  bounded := (length_map Desc.buffer).symm ▸ ring.bounded

def getBuffersBulk (pool : List Nat) (count : Int) : Option (List Nat × List Nat) :=
  if 0 ≤ count ∧ count.toNat ≤ pool.length then
    some (pool.take count.toNat, pool.drop count.toNat)
  else none

def describe (mbufs : List Nat) (filled : List Buffer) (stale : Nat → Buffer) : List Desc :=
  mbufs.zipIdx.map fun x => ⟨x.1, filled.getD x.2 (stale x.2)⟩

def totalLength (descs : List Desc) : Nat := (bytesOf (descs.map Desc.buffer)).length

def lightSendBulk (c : Conn) (descs : List Desc) : Option Conn :=
  (c.txRing.enqueueBulk descs).map fun ring =>
    { c with txRing := ring, txSpace := c.txSpace - totalLength descs }

def socketKick (c : Conn) : Conn × Int :=
  if c.writeDone then (c, 0) else ({ c with writeDone := true }, c.kickRc)

/-- The loop that kicks until the result is not `-1`. -/
def kickLoop : Nat → Conn → Option Conn
  | 0, _ => none
  | fuel + 1, c =>
    if (socketKick c).2 = -1 then kickLoop fuel (socketKick c).1 else some (socketKick c).1

inductive Outcome where
  | waits
  | returns (c : Conn) (rc : Int)
  | outOfBounds

def lightSend (c : Conn) (data : List UInt8) (stale : Nat → Buffer) : Outcome :=
  let space := getSocketTxSpace (contents c.txRing) c.pool.length c.txSpace
  let count := bufCount data.length space
  if space = 0 ∧ c.closeSignal < 3 then .waits
  else if 3 ≤ c.closeSignal then .returns c (-1)
  else
    match getBuffersBulk c.pool count with
    | none => .returns c (-1)
    | some (mbufs, pool) =>
      let filled := fillBuffers count.toNat data
      match lightSendBulk { c with pool := pool } (describe mbufs filled stale) with
      | some c =>
        match kickLoop 2 c with
        | some c => .returns c (bytesOf filled).length
        | none => .waits
      | none =>
        if space ≤ count then .returns { c with pool := pool ++ mbufs.take space.toNat } (-1)
        else .outOfBounds

theorem kickLoop_eq (fuel : Nat) (c : Conn) :
    kickLoop (fuel + 2) c = some { c with writeDone := true } := by
  cases hdone : c.writeDone with
  | true => simp [kickLoop, socketKick, ← hdone]
  | false =>
    -- the second kick finds the flag set
    by_cases hrc : c.kickRc = -1 <;> simp [kickLoop, socketKick, hdone, hrc]

/-! ## The copying loop -/

theorem fillBuffers_spec (count : Nat) (data : List UInt8)
    (hneeded : count * payloadMax < data.length + payloadMax) :
    (fillBuffers count data).length = count ∧
      bytesOf (fillBuffers count data) = data.take (count * payloadMax) ∧
      ∀ b ∈ fillBuffers count data, 1 ≤ b.dataLen ∧ b.dataLen ≤ payloadMax := by
  induction count generalizing data with
  | zero => simp [fillBuffers, bytesOf]
  | succ count ih =>
    rw [Nat.succ_mul] at hneeded
    by_cases hlong : payloadMax < data.length
    · have hrest : count * payloadMax < (data.drop payloadMax).length + payloadMax := by
        rw [length_drop]
        omega
      obtain ⟨hlength, hbytes, hsizes⟩ := ih (data.drop payloadMax) hrest
      rw [fillBuffers, if_pos hlong]
      refine ⟨?_, ?_, ?_⟩
      · rw [length_cons, hlength]
      · rw [bytesOf, flatMap_cons, ← bytesOf, hbytes, Nat.succ_mul, Nat.add_comm,
          take_add]
      · intro b hb
        rcases mem_cons.mp hb with rfl | hb
        · have hfull : (data.take payloadMax).length = payloadMax :=
            length_take_of_le (Nat.le_of_lt hlong)
          rw [Buffer.dataLen, hfull]
          exact ⟨by decide, Nat.le_refl _⟩
        · exact hsizes b hb
    · have hlast : count = 0 := by
        have hshort : count * payloadMax < 1 * payloadMax := by omega
        exact Nat.lt_one_iff.mp (Nat.lt_of_mul_lt_mul_right hshort)
      subst hlast
      rw [fillBuffers, if_neg hlong]
      refine ⟨rfl, ?_, ?_⟩
      · rw [Nat.zero_add, Nat.one_mul, take_of_length_le (Nat.le_of_not_lt hlong)]
        exact append_nil data
      · intro b hb
        rw [mem_singleton.mp hb, Buffer.dataLen]
        have hpos : 1 ≤ data.length := by omega
        exact ⟨hpos, Nat.le_of_not_lt hlong⟩

theorem describe_eq {mbufs : List Nat} {filled : List Buffer} (stale : Nat → Buffer)
    (hlength : filled.length = mbufs.length) :
    (describe mbufs filled stale).map Desc.mbuf = mbufs ∧
      (describe mbufs filled stale).map Desc.buffer = filled := by
  constructor
  · apply ext_getElem
    · simp [describe]
    · intro i _ _
      simp [describe]
  · apply ext_getElem
    · simp [describe, hlength]
    · intro i _ hi
      simp [describe, hi]

def limit (c : Conn) : Nat :=
  min (min c.txRing.freeCount c.pool.length) (c.txSpace.toNat / payloadMax)

theorem getSocketTxSpace_eq (c : Conn) (hcredit : 0 ≤ c.txSpace) :
    getSocketTxSpace (contents c.txRing) c.pool.length c.txSpace = limit c := by
  have hfree : (contents c.txRing).freeCount = c.txRing.freeCount := by
    simp [Ring.freeCount, Ring.count, contents]
  have hdiv : c.txSpace.tdiv payloadMax = ((c.txSpace.toNat / payloadMax : Nat) : Int) := by
    rw [Int.tdiv_eq_ediv_of_nonneg hcredit, Int.natCast_ediv, Int.toNat_of_nonneg hcredit]
  rw [getSocketTxSpace, hfree, hdiv, limit]
  omega

theorem bufCount_eq {nbytes s : Nat} (hbytes : nbytes < 2 ^ 31) :
    bufCount nbytes s = ((min nbytes (payloadMax * s) + (payloadMax - 1)) / payloadMax : Nat) := by
  have hint : toInt32 ((nbytes / payloadMax : Nat) : Int) =
      ((nbytes / payloadMax : Nat) : Int) := by
    apply toInt32_of_lt (Int.natCast_nonneg _)
    have := Nat.div_le_self nbytes payloadMax
    omega
  rw [bufCount, hint]
  by_cases hrest : 0 < nbytes % payloadMax
  · rw [if_pos hrest]
    simp only [payloadMax] at hrest ⊢
    omega
  · rw [if_neg hrest]
    simp only [payloadMax] at hrest ⊢
    omega

/-- With room for a buffer, `light_send` fills as many buffers as the ring, the pool and the credit
of the socket allow, and returns the number of bytes that it took from the front of the data. -/
theorem light_send_chunks (c : Conn) (data : List UInt8) (stale : Nat → Buffer) (n : Nat)
    (hopen : c.closeSignal < 3) (hbytes : data.length < 2 ^ 31) (hcredit : 0 ≤ c.txSpace)
    (hroom : 0 < limit c) (hn : n = min data.length (payloadMax * limit c)) :
    ∃ (sent : List Desc) (ring : Ring Desc 1023), lightSend c data stale =
        .returns { c with
          txRing := ring, pool := c.pool.drop sent.length, txSpace := c.txSpace - n
          writeDone := true } n ∧
      ring.items = c.txRing.items ++ sent ∧
      sent.length = (n + (payloadMax - 1)) / payloadMax ∧
      sent.map Desc.mbuf = c.pool.take sent.length ∧
      bytesOf (sent.map Desc.buffer) = data.take n ∧
      (∀ d ∈ sent, 1 ≤ d.buffer.dataLen ∧ d.buffer.dataLen ≤ payloadMax) ∧
      0 ≤ c.txSpace - n := by
  have hspace := getSocketTxSpace_eq c hcredit
  have hcount := bufCount_eq (s := limit c) hbytes
  rw [← hn] at hcount
  obtain ⟨k, hk⟩ : ∃ k, k = (n + (payloadMax - 1)) / payloadMax := ⟨_, rfl⟩
  rw [← hk] at hcount
  have hklimit : k ≤ limit c := by
    simp only [payloadMax] at hk hn
    omega
  have hkneeded : k * payloadMax < data.length + payloadMax := by
    simp only [payloadMax] at hk hn ⊢
    omega
  have hkbytes : data.take (k * payloadMax) = data.take n := by
    rw [take_eq_take_iff]
    simp only [payloadMax] at hk hn ⊢
    omega
  have hcreditLeft : (n : Int) ≤ c.txSpace := by
    have hdiv : limit c ≤ c.txSpace.toNat / payloadMax := Nat.min_le_right _ _
    simp only [payloadMax] at hn hdiv
    omega
  obtain ⟨hlength, hfilled, hsizes⟩ := fillBuffers_spec k data hkneeded
  rw [hkbytes] at hfilled
  have hpool : k ≤ c.pool.length :=
    Nat.le_trans hklimit (Nat.le_trans (Nat.min_le_left _ _) (Nat.min_le_right _ _))
  have hfree : k ≤ c.txRing.freeCount :=
    Nat.le_trans hklimit (Nat.le_trans (Nat.min_le_left _ _) (Nat.min_le_left _ _))
  have hget : getBuffersBulk c.pool k = some (c.pool.take k, c.pool.drop k) := by
    rw [getBuffersBulk, if_pos ⟨Int.natCast_nonneg k, hpool⟩]
    rfl
  have htaken : (c.pool.take k).length = k := length_take_of_le hpool
  obtain ⟨hmbufs, hbuffers⟩ := describe_eq stale (hlength.trans htaken.symm)
  obtain ⟨sent, hsent⟩ : ∃ sent, sent = describe (c.pool.take k) (fillBuffers k data) stale :=
    ⟨_, rfl⟩
  rw [← hsent] at hmbufs hbuffers
  have hsentLength : sent.length = k := by rw [← length_map Desc.mbuf, hmbufs, htaken]
  have htotal : totalLength sent = n := by
    rw [totalLength, hbuffers, hfilled, length_take]
    omega
  obtain ⟨ring, hring⟩ : ∃ ring, c.txRing.enqueueBulk sent = some ring := by
    rw [Ring.enqueueBulk, dif_pos]
    · exact ⟨_, rfl⟩
    · have hbounded := c.txRing.bounded
      rw [Ring.freeCount, Ring.count] at hfree
      omega
  refine ⟨sent, ring, ?_, Ring.items_of_enqueueBulk hring, hsentLength.trans hk, ?_, ?_, ?_, ?_⟩
  · have hbusy : ¬ ((limit c : Int) = 0 ∧ c.closeSignal < 3) := by omega
    rw [lightSend, hspace, hcount, if_neg hbusy, if_neg (Nat.not_le_of_lt hopen), hget]
    dsimp only
    rw [Int.toNat_natCast, ← hsent, lightSendBulk, hring, Option.map_some, htotal, hsentLength,
      hfilled, length_take_of_le (by omega)]
    dsimp only
    rw [kickLoop_eq 0]
  · rw [hmbufs, hsentLength]
  · rw [hbuffers, hfilled]
  · intro d hd
    exact hsizes d.buffer (hbuffers ▸ mem_map_of_mem hd)
  · omega

theorem light_send_chunks_two :
    ∃ sent ring, lightSend ⟨Ring.empty, [5, 6, 7], 4344, 2, false, -1⟩ (List.replicate 2000 0)
        (fun _ => ⟨[]⟩) = .returns ⟨ring, [7], 2344, 2, true, -1⟩ 2000 ∧
      ring.items = sent ∧ sent.map Desc.mbuf = [5, 6] ∧
      bytesOf (sent.map Desc.buffer) = List.replicate 2000 0 := by
  obtain ⟨sent, ring, hcall, hring, hlength, hmbufs, hbytes, -⟩ :=
    light_send_chunks ⟨Ring.empty, [5, 6, 7], 4344, 2, false, -1⟩ (List.replicate 2000 0)
      (fun _ => ⟨[]⟩) 2000 (by decide) (by rw [length_replicate]; decide) (by decide) (by decide)
      (by rw [length_replicate]; decide)
  have htwo : sent.length = 2 := hlength
  rw [htwo] at hcall hmbufs
  rw [take_of_length_le (by rw [length_replicate])] at hbytes
  exact ⟨sent, ring, hcall, hring, hmbufs, hbytes⟩

end LightStack.Tx.Send.Call
