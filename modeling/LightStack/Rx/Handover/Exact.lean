import LightStack.Rx.Handover.Model

/-!
# The chain holds exactly the payload

The data of an mbuf that was handed over ends where the frame ended, with its padding.
-/

namespace LightStack.Rx.Handover

open Function List

/-- An arrival with data that was not received before. -/
structure Segment extends Arrival where
  fresh : overlap < frame.payloadLen

def total (as : List Segment) : Nat := (as.map fun a => a.newLen).sum

@[simp]
theorem total_nil : total [] = 0 := rfl

@[simp]
theorem total_cons (a : Segment) (as : List Segment) : total (a :: as) = a.newLen + total as :=
  sum_cons

@[simp]
theorem total_append (as bs : List Segment) : total (as ++ bs) = total as + total bs := by
  simp [total]

/-! ## Copying one sk_buff -/

structure SameWindow (m m' : Mbuf) : Prop where
  buf : m'.buf = m.buf
  dataOff : m'.dataOff = m.dataOff
  dataLen : m'.dataLen = m.dataLen

theorem SameWindow.refl (m : Mbuf) : SameWindow m m := ⟨rfl, rfl, rfl⟩

variable {m : Mbuf} {n k r : Nat} {done : List Segment} {iov : Iovec} {c : Conn}

theorem SameWindow.data {m' : Mbuf} (h : SameWindow m m') : m'.data = m.data := by
  simp only [Mbuf.data, Mbuf.read, h.buf, h.dataOff, h.dataLen]

theorem toUInt16_nat (h : n < 2 ^ 16) : toUInt16 n = n := by
  have := toUInt16_of_lt (x := n) (by omega) (by omega)
  omega

theorem adj_eq_some (m : Mbuf) (len : Nat) (hlen : len ≤ m.dataLen) (hsmall : len < 2 ^ 16) :
    adj m len = some { m with
      dataLen := m.dataLen - len
      dataOff := m.dataOff + len
      pktLen := toUInt32 (m.pktLen - len) } := by
  have hnot : ¬ m.dataLen < len := by omega
  simp only [adj, toUInt16_nat hsmall, if_neg hnot]

theorem memcpyToiovec_spec (heap : Heap) (iov : Iovec) (id offset len : Nat)
    (hoffset : offset ≤ (heap id).dataLen) (hsmall : offset < 2 ^ 16) (hnew : id ∉ iov.segs) :
    ∃ heap', memcpyToiovec heap iov id offset len =
        some (heap', ⟨iov.segs ++ [id], iov.len + len⟩) ∧
      SameWindow { heap id with
          dataOff := (heap id).dataOff + offset
          dataLen := (heap id).dataLen - offset } (heap' id) ∧
      (∀ j, j ≠ id → SameWindow (heap j) (heap' j)) ∧
      (iov.segs = [] → (heap' id).pktLen = (heap' id).dataLen) ∧
      ∀ head rest, iov.segs = head :: rest → (heap' head).pktLen =
          toUInt32 ((heap head).pktLen + (heap' id).dataLen) := by
  simp only [memcpyToiovec, adj_eq_some _ _ hoffset hsmall]
  cases hsegs : iov.segs with
  | nil =>
    refine ⟨_, rfl, ?_, ?_, ?_, ?_⟩
    · rw [update_self]
      exact ⟨rfl, rfl, rfl⟩
    · intro j hj
      rw [update_of_ne hj]
      exact SameWindow.refl _
    · intro _
      rw [update_self]
    · intro head rest h
      cases h
  | cons head rest =>
    rw [hsegs] at hnew
    have hhead : head ≠ id := fun h => hnew (h ▸ mem_cons_self)
    have hlast : (head :: rest).getLast? ≠ some id := fun h => hnew (List.mem_of_getLast? h)
    simp only [if_neg hlast]
    refine ⟨_, rfl, ?_, ?_, ?_, ?_⟩
    · rw [update_of_ne hhead.symm, update_self]
      exact ⟨rfl, rfl, rfl⟩
    · intro j hj
      by_cases hj' : j = head
      · rw [hj', update_self, update_of_ne hhead]
        exact ⟨rfl, rfl, rfl⟩
      · rw [update_of_ne hj', update_of_ne hj]
        exact SameWindow.refl _
    · intro h
      cases h
    · intro head' rest' h
      cases h
      rw [update_self, update_of_ne hhead, update_of_ne hhead.symm, update_self]

theorem skbCopyDatagramIovec_spec (heap : Heap) (iov : Iovec) (skb : SkBuff) (offset : Nat)
    (hlow : (heap skb.headerMbuf).dataOff ≤ skb.data)
    (hhigh : skb.data + skb.len ≤ (heap skb.headerMbuf).dataOff + (heap skb.headerMbuf).dataLen)
    (hsmall : (heap skb.headerMbuf).dataLen < 2 ^ 16) (hoffset : offset < skb.len)
    (hnew : skb.headerMbuf ∉ iov.segs) :
    ∃ heap', skbCopyDatagramIovec heap iov skb offset (skb.len - offset) = some (heap',
          ⟨iov.segs ++ [skb.headerMbuf], iov.len + (skb.len - offset)⟩,
          { skb with data := skb.data + (skb.len - offset) }) ∧
      SameWindow { heap skb.headerMbuf with
          dataOff := skb.data + offset
          dataLen := (heap skb.headerMbuf).dataOff +
            (heap skb.headerMbuf).dataLen - (skb.data + offset) }
        (heap' skb.headerMbuf) ∧
      (∀ j, j ≠ skb.headerMbuf → SameWindow (heap j) (heap' j)) ∧
      (iov.segs = [] → (heap' skb.headerMbuf).pktLen = (heap' skb.headerMbuf).dataLen) ∧
      ∀ head rest, iov.segs = head :: rest → (heap' head).pktLen =
          toUInt32 ((heap head).pktLen + (heap' skb.headerMbuf).dataLen) := by
  generalize hid : skb.headerMbuf = id at *
  have hcast : (skb.data : Int) - (heap id).dataOff =
      ((skb.data - (heap id).dataOff : Nat) : Int) := by omega
  have hadj := adj_eq_some (heap id) (skb.data - (heap id).dataOff) (by omega) (by omega)
  generalize hm : ({ heap id with
    dataLen := (heap id).dataLen - (skb.data - (heap id).dataOff)
    dataOff := (heap id).dataOff + (skb.data - (heap id).dataOff)
    pktLen := toUInt32 ((heap id).pktLen -
      ((skb.data - (heap id).dataOff : Nat) : Int)) } : Mbuf) = m at hadj
  have hmLen : m.dataLen = (heap id).dataLen - (skb.data - (heap id).dataOff) := by rw [← hm]
  have hmOff : m.dataOff = skb.data := by
    rw [← hm]
    show (heap id).dataOff + (skb.data - (heap id).dataOff) = skb.data
    omega
  have hmBuf : m.buf = (heap id).buf := by rw [← hm]
  obtain ⟨heap', hcopy, hwindow, hothers, hfirst, hlater⟩ :=
    memcpyToiovec_spec (update heap id m) iov id offset
      (skb.len - offset) (by rw [update_self, hmLen]; omega) (by omega)
      hnew
  rw [update_self] at hwindow
  refine ⟨heap', ?_, ?_, ?_, hfirst, ?_⟩
  · simp only [skbCopyDatagramIovec, hid, hcast, hadj, if_pos hoffset, Nat.min_self, hcopy, if_true]
  · refine ⟨hwindow.buf.trans hmBuf, ?_, ?_⟩
    · rw [hwindow.dataOff]
      show m.dataOff + offset = skb.data + offset
      rw [hmOff]
    · rw [hwindow.dataLen]
      show m.dataLen - offset = _ - (skb.data + offset)
      omega
  · intro j hj
    have hj' := hothers j hj
    rw [update_of_ne hj] at hj'
    exact hj'
  · intro head rest hsegs
    have hne : head ≠ id := by
      rintro rfl
      exact hnew (hsegs ▸ mem_cons_self)
    have := hlater head rest hsegs
    rw [update_of_ne hne] at this
    exact this

def Arrival.carried (a : Arrival) : List UInt8 :=
  (a.frame.mbuf.buf.drop (a.frame.payloadStart + a.overlap)).take (a.newLen + a.frame.padding)

theorem Frame.WellFormed.end_eq {f : Frame} (hf : f.WellFormed) : f.mbuf.dataOff + f.mbuf.dataLen =
      f.payloadStart + f.payloadLen + f.padding := by
  have hcomplete := hf.complete
  have hheaders := hf.headers
  unfold Frame.payloadStart Frame.payloadLen Frame.padding
  omega

theorem Segment.length_carried (a : Segment) : a.carried.length = a.newLen + a.frame.padding := by
  have hend := a.wellFormed.end_eq
  have hwithin := a.wellFormed.within
  have hfresh := a.fresh
  simp only [Arrival.carried, length_take, length_drop, Arrival.newLen]
  omega

theorem Segment.carried_eq (a : Segment) : a.carried = a.unconsumed ++
      (a.frame.mbuf.buf.drop (a.frame.payloadStart + a.frame.payloadLen)).take a.frame.padding := by
  have hfresh := a.fresh
  have hsum : a.frame.payloadStart + a.overlap + a.newLen =
      a.frame.payloadStart + a.frame.payloadLen := by
    unfold Arrival.newLen
    omega
  unfold Arrival.carried Arrival.unconsumed Frame.payload
  rw [take_add, drop_drop, hsum, drop_take, drop_drop]
  rfl

structure Carries (m : Mbuf) (skb : SkBuff) (offset : Nat) (a : Segment) :
    Prop where
  low : m.dataOff ≤ skb.data
  start : skb.data + offset = a.frame.payloadStart + a.overlap
  stop : skb.data + skb.len = a.frame.payloadStart + a.frame.payloadLen
  ends : m.dataOff + m.dataLen = a.frame.payloadStart + a.frame.payloadLen + a.frame.padding
  bytes : m.buf.drop a.frame.payloadStart = a.frame.mbuf.buf.drop a.frame.payloadStart
  small : m.dataLen < 2 ^ 16

variable {skb : SkBuff} {a : Segment}

theorem Carries.congr {m' : Mbuf} {offset : Nat} (h : Carries m skb offset a)
    (hw : SameWindow m m') : Carries m' skb offset a where
  low := by rw [hw.dataOff]; exact h.low
  start := h.start
  stop := h.stop
  ends := by rw [hw.dataOff, hw.dataLen]; exact h.ends
  bytes := by rw [hw.buf]; exact h.bytes
  small := by rw [hw.dataLen]; exact h.small

structure IovHolds (heap : Heap) (iov : Iovec) (done : List Segment) : Prop where
  segs : List.Forall₂ (fun id a => (heap id).data = a.carried ∧
    (heap id).dataLen = a.carried.length) iov.segs done
  len : iov.len = total done
  pktLen : ∀ head rest, iov.segs = head :: rest → (heap head).pktLen =
      (done.map fun a => a.carried.length).sum % 2 ^ 32

theorem toUInt32_nat (n : Nat) : toUInt32 n = n % 2 ^ 32 := by
  unfold toUInt32
  omega

theorem forall₂_congr_heap {heap heap' : Heap} {segs : List Nat}
    (h : List.Forall₂ (fun id a => (heap id).data = a.carried ∧
      (heap id).dataLen = a.carried.length) segs done)
    (hw : ∀ j ∈ segs, SameWindow (heap j) (heap' j)) :
    List.Forall₂ (fun id a => (heap' id).data = a.carried ∧
      (heap' id).dataLen = a.carried.length) segs done := by
  induction h with
  | nil => exact .nil
  | cons hhead htail ih =>
    have hsame := hw _ mem_cons_self
    refine .cons ?_ (ih fun j hj => hw j (mem_cons_of_mem _ hj))
    rw [hsame.data, hsame.dataLen]
    exact hhead

theorem IovHolds.congr {heap heap' : Heap} (h : IovHolds heap iov done)
    (hsame : ∀ j ∈ iov.segs, heap' j = heap j) : IovHolds heap' iov done where
  segs := forall₂_congr_heap h.segs fun j hj => by
    rw [hsame j hj]
    exact SameWindow.refl _
  len := h.len
  pktLen := by
    intro head rest hsegs
    rw [hsame head (hsegs ▸ mem_cons_self)]
    exact h.pktLen head rest hsegs

theorem IovHolds.copy {heap : Heap} (hiov : IovHolds heap iov done) (skb : SkBuff) {offset : Nat}
    (ha : Carries (heap skb.headerMbuf) skb offset a) (hnew : skb.headerMbuf ∉ iov.segs) :
    ∃ heap' iov', skbCopyDatagramIovec heap iov skb offset (skb.len - offset) =
        some (heap', iov', { skb with data := skb.data + (skb.len - offset) }) ∧
      iov'.segs = iov.segs ++ [skb.headerMbuf] ∧
      IovHolds heap' iov' (done ++ [a]) ∧
      ∀ j, j ≠ skb.headerMbuf → SameWindow (heap j) (heap' j) := by
  have hstart := ha.start
  have hstop := ha.stop
  have hends := ha.ends
  have hfresh := a.fresh
  obtain ⟨heap', hcopy, hwindow, hothers, hfirst, hlater⟩ :=
    skbCopyDatagramIovec_spec heap iov skb offset ha.low (by omega) ha.small (by omega) hnew
  have hlen : (heap' skb.headerMbuf).dataLen = a.carried.length := by
    rw [hwindow.dataLen, a.length_carried, Arrival.newLen]
    show _ - (skb.data + offset) = _
    omega
  have hbytes : (heap skb.headerMbuf).buf.drop (skb.data + offset) =
      a.frame.mbuf.buf.drop (a.frame.payloadStart + a.overlap) := by
    rw [hstart, ← drop_drop, ha.bytes, drop_drop]
  have hdata : (heap' skb.headerMbuf).data = a.carried := by
    rw [Mbuf.data, hlen, a.length_carried, Mbuf.read, hwindow.buf, hwindow.dataOff]
    show ((heap skb.headerMbuf).buf.drop (skb.data + offset)).take _ = _
    rw [hbytes]
    rfl
  have hchunk : skb.len - offset = a.newLen := by
    unfold Arrival.newLen
    omega
  refine ⟨heap', _, hcopy, rfl, ⟨?_, ?_, ?_⟩, hothers⟩
  · refine rel_append (forall₂_congr_heap hiov.segs ?_) (.cons ⟨hdata, hlen⟩ .nil)
    intro j hj
    exact hothers j fun h => hnew (h ▸ hj)
  · show iov.len + (skb.len - offset) = _
    simp [hiov.len, hchunk]
  · intro head rest hsegs
    cases hold : iov.segs with
    | nil =>
      have hdone : done = [] := by
        have := hiov.segs
        rw [hold] at this
        exact List.forall₂_nil_left_iff.mp this
      have hhead : head = skb.headerMbuf := by
        rw [hold] at hsegs
        exact (List.cons.inj hsegs).1.symm
      have hsmall := a.wellFormed.small
      have hwithin := a.wellFormed.within
      have hend := a.wellFormed.end_eq
      have hcarried := a.length_carried
      rw [hhead, hfirst hold, hlen, hdone]
      simp only [nil_append, map_cons, map_nil, sum_cons,
        sum_nil, Nat.add_zero]
      rw [Nat.mod_eq_of_lt]
      unfold Arrival.newLen at hcarried
      omega
    | cons head' rest' =>
      have hhead : head = head' := by
        rw [hold] at hsegs
        exact (List.cons.inj hsegs).1.symm
      rw [hhead, hlater head' rest' hold, hiov.pktLen head' rest' hold, hlen]
      rw [← Int.natCast_add, toUInt32_nat, Nat.mod_add_mod]
      simp

theorem drop_moveAddresses (hlen : m.dataOff + 16 ≤ m.buf.length)
    (hk : m.dataOff + 16 ≤ k) : (moveAddresses m).drop k = m.buf.drop k := by
  have hfront : (m.buf.take (m.dataOff + 4) ++ m.read 12).length = m.dataOff + 16 := by
    simp only [Mbuf.read, length_append, length_take, length_drop]
    omega
  obtain ⟨n, rfl⟩ : ∃ n, k = m.dataOff + 16 + n := ⟨k - (m.dataOff + 16), by omega⟩
  rw [moveAddresses, drop_append, hfront, drop_eq_nil_of_le (by omega),
    nil_append, drop_drop]
  congr 1
  omega

structure AtTcp (f : Frame) (id seq : Nat) (fin : Bool) (m : Mbuf)
    (skb : SkBuff) : Prop where
  headerMbuf : skb.headerMbuf = id
  data : skb.data = f.mbuf.dataOff + f.linkLen + f.ipHeaderLen
  len : skb.len = f.totLen - f.ipHeaderLen
  endSeq : skb.endSeq = seqAdd seq (f.payloadLen + if fin then 1 else 0)
  seq : skb.seq = seq
  syn : skb.syn = false
  fin : skb.fin = fin
  dataOff : m.dataOff = f.mbuf.dataOff
  dataLen : m.dataLen = f.mbuf.dataLen
  bytes : m.buf.drop f.payloadStart = f.mbuf.buf.drop f.payloadStart

theorem rxConstructSkb_spec {f : Frame} (hf : f.WellFormed) (heap : Heap)
    (id : Nat) (hid : heap id = f.mbuf) (seq : Nat) (fin : Bool) :
    let r := rxConstructSkb heap id seq fin
    AtTcp f id seq fin (r.1 id) (tcpV4Rcv (ipInput r.2 f) f.tcpHeaderLen) ∧
      ∀ j, j ≠ id → r.1 j = heap j := by
  have hcomplete := hf.complete
  have hheaders := hf.headers
  have hwithin := hf.within
  have hstart : f.payloadStart = f.mbuf.dataOff + f.linkLen + f.ipHeaderLen + f.tcpHeaderLen := rfl
  cases htag : vlanTagged f.mbuf with
  | false =>
    have hlink : f.linkLen = 14 := by simp [Frame.linkLen, htag]
    have hlen : min (f.mbuf.dataLen - 14) f.totLen = f.totLen := by omega
    simp only [rxConstructSkb, hid, htag, Bool.false_eq_true, if_false, ipInput,
      tcpV4Rcv, SkBuff.pull, SkBuff.trim, hlen]
    refine ⟨?_, fun j _ => trivial⟩
    exact ⟨rfl, by rw [hlink], rfl, rfl, rfl, rfl, rfl, rfl, rfl, rfl⟩
  | true =>
    have hlink : f.linkLen = 18 := by simp [Frame.linkLen, htag]
    have hlen : min (f.mbuf.dataLen - 4 - 14) f.totLen = f.totLen := by omega
    have hdrop := drop_moveAddresses (m := f.mbuf) (k := f.payloadStart) (by omega) (by omega)
    simp only [rxConstructSkb, hid, htag, if_true, ipInput, tcpV4Rcv,
      SkBuff.pull, SkBuff.trim, hlen, update_self]
    refine ⟨?_, fun j hj => update_of_ne hj _ _⟩
    exact ⟨rfl, by rw [hlink], rfl, rfl, rfl, rfl, rfl, rfl, rfl, hdrop⟩

theorem AtTcp.carries {id seq : Nat} (h : AtTcp a.frame id seq a.fin m skb) :
    Carries m skb (a.frame.tcpHeaderLen + a.overlap) a where
  low := by rw [h.data, h.dataOff]; omega
  start := by rw [h.data, Frame.payloadStart]; omega
  stop := by
    have hheaders := a.wellFormed.headers
    rw [h.data, h.len, Frame.payloadStart, Frame.payloadLen]
    omega
  ends := by rw [h.dataOff, h.dataLen]; exact a.wellFormed.end_eq
  bytes := h.bytes
  small := by
    have hwithin := a.wellFormed.within
    have hsmall := a.wellFormed.small
    rw [h.dataLen]
    omega

theorem Carries.pull (h : Carries m skb (n + k) a) (hn : n ≤ skb.len) :
    Carries m (skb.pull n) k a where
  low := Nat.le_trans h.low (Nat.le_add_right _ _)
  start := by
    have hstart := h.start
    show skb.data + n + k = _
    omega
  stop := by
    have hstop := h.stop
    show skb.data + n + (skb.len - n) = _
    omega
  ends := h.ends
  bytes := h.bytes
  small := h.small

theorem seqSub_seqSub (hr : r < 2 ^ 32) (hn : n < 2 ^ 32) : seqSub r (seqSub r n) = n := by
  unfold seqSub
  omega

theorem seqAdd_seqAdd (r n k : Nat) : seqAdd (seqAdd r n) k = seqAdd r (n + k) := by
  unfold seqAdd
  rw [Nat.mod_add_mod, Nat.add_assoc]

structure SkbWaits (heap : Heap) (seq : Nat) (skb : SkBuff) (a : Segment) :
    Prop where
  carries : Carries (heap skb.headerMbuf) skb a.overlap a
  offset : seqSub seq skb.seq = a.overlap
  syn : skb.syn = false
  fin : skb.fin = a.fin

inductive QueueHolds (heap : Heap) : Nat → List SkBuff → List Segment → Prop
  | nil (seq : Nat) : QueueHolds heap seq [] []
  | fin (seq : Nat) (skb : SkBuff) (hbefore : before seq skb.seq = false)
      (hend : skb.len ≤ seqSub seq skb.seq) (hsyn : skb.syn = false) (hfin : skb.fin = true) :
      QueueHolds heap seq [skb] []
  | cons (seq : Nat) (skb : SkBuff) (queue : List SkBuff) (a : Segment)
      (waiting : List Segment) (hskb : SkbWaits heap seq skb a)
      (hfin : a.fin = true → queue = [])
      (hrest : QueueHolds heap (seqAdd seq a.newLen) queue waiting) :
      QueueHolds heap seq (skb :: queue) (a :: waiting)

variable {heap heap' : Heap} {seq : Nat} {queue : List SkBuff}
  {done waiting : List Segment} {c : Conn}

section

variable (h : QueueHolds heap seq queue waiting)

include h

theorem QueueHolds.congr
    (hw : ∀ skb ∈ queue, SameWindow (heap skb.headerMbuf) (heap' skb.headerMbuf)) :
    QueueHolds heap' seq queue waiting := by
  induction h with
  | nil seq => exact .nil seq
  | fin seq skb hbefore hend hsyn hfin => exact .fin seq skb hbefore hend hsyn hfin
  | cons seq skb queue a waiting hskb hfin hrest ih =>
    have hsame := hw skb mem_cons_self
    exact .cons seq skb queue a waiting
      ⟨hskb.carries.congr hsame, hskb.offset, hskb.syn, hskb.fin⟩ hfin
      (ih fun x hx => hw x (mem_cons_of_mem _ hx))

theorem QueueHolds.length_le : waiting.length ≤ queue.length := by
  induction h with
  | nil seq => exact Nat.le_refl _
  | fin seq skb hbefore hend hsyn hfin => exact Nat.zero_le _
  | cons seq skb queue a waiting hskb hfin hrest ih => exact Nat.succ_le_succ ih

theorem QueueHolds.append {last : List SkBuff} {more : List Segment} (hseq : seq < 2 ^ 32)
    (hnofin : ∀ w ∈ waiting, w.fin = false) (hlength : queue.length = waiting.length)
    (hlast : QueueHolds heap (seqAdd seq (total waiting)) last more) :
    QueueHolds heap seq (queue ++ last) (waiting ++ more) := by
  induction h with
  | nil seq =>
    have hsame : seqAdd seq 0 = seq := Nat.mod_eq_of_lt hseq
    rw [total_nil, hsame] at hlast
    exact hlast
  | fin seq skb hbefore hend hsyn hfin => cases hlength
  | cons seq skb queue w waiting hw hfin hrest ih =>
    refine .cons seq skb (queue ++ last) w (waiting ++ more) hw ?_ ?_
    · intro htrue
      rw [hnofin w mem_cons_self] at htrue
      cases htrue
    · refine ih (Nat.mod_lt _ (by decide)) (fun x hx => hnofin x (mem_cons_of_mem _ hx))
        (Nat.succ.inj hlength) ?_
      rw [seqAdd_seqAdd]
      exact hlast

end

/-! ## `tcp_recvmsg` -/

structure Handing (c : Conn) (done waiting : List Segment) : Prop where
  iov : IovHolds c.heap c.ucopy done
  queue : QueueHolds c.heap c.copiedSeq c.queue waiting
  distinct : (c.ucopy.segs ++ c.queue.map SkBuff.headerMbuf).Nodup
  bound : ∀ id ∈ c.ucopy.segs ++ c.queue.map SkBuff.headerMbuf, id < c.nextId
  noUrgent : c.urgSeq = none

structure Expecting (c : Conn) (waiting : List Segment) : Prop where
  rcvNxt : c.rcvNxt = seqAdd c.copiedSeq (total waiting)
  copiedSeq : c.copiedSeq < 2 ^ 32
  noFin : ∀ w ∈ waiting, w.fin = false
  length : c.queue.length = waiting.length

theorem findSkb_front (hskb : SkbWaits heap seq skb a) (rest : List SkBuff) :
    findSkb seq [] (skb :: rest) = .data [] skb a.overlap rest := by
  have hstart := hskb.carries.start
  have hstop := hskb.carries.stop
  have hsmall := hskb.carries.small
  have hends := hskb.carries.ends
  have hlow := hskb.carries.low
  have hfresh := a.fresh
  have hbefore : before seq skb.seq = false := by
    simp only [before, hskb.offset, decide_eq_false_iff_not]
    omega
  have hlt : a.overlap < skb.len := by omega
  simp only [findSkb, hbefore, hskb.offset, hskb.syn, Bool.false_eq_true, if_false, if_pos hlt]

theorem recvIteration_spec (h : Handing c done (a :: waiting)) (copied : Bool) :
    Handing (recvIteration c copied).1 (done ++ [a]) waiting ∧
      (Expecting c (a :: waiting) → Expecting (recvIteration c copied).1 waiting) ∧
      ((recvIteration c copied).2 = false → waiting = []) := by
  obtain ⟨hiov, hqueue, hdistinct, hbound, hurgent⟩ := h
  generalize hq : c.queue = q at hqueue hdistinct hbound
  cases hqueue with
  | cons _ skb queue _ _ hskb hfin hrest =>
    have hstart := hskb.carries.start
    have hstop := hskb.carries.stop
    have hends := hskb.carries.ends
    have hlow := hskb.carries.low
    have hfresh := a.fresh
    have hall := hdistinct
    rw [map_cons, nodup_append] at hdistinct
    obtain ⟨_, hrestNodup, hapart⟩ := hdistinct
    have hnew : skb.headerMbuf ∉ c.ucopy.segs := fun hmem => hapart _ hmem _ mem_cons_self rfl
    obtain ⟨heap', iov', hcopy, hsegs, hiov', hothers⟩ := hiov.copy skb hskb.carries hnew
    have hchunk : skb.len - a.overlap = a.newLen := by
      unfold Arrival.newLen
      omega
    have hused : min (skb.len - a.overlap) (c.heap skb.headerMbuf).dataLen = a.newLen := by omega
    have hpos : a.newLen ≠ 0 := by
      unfold Arrival.newLen
      omega
    have hend : ¬ a.newLen + a.overlap < skb.len := by omega
    rw [hchunk] at hcopy
    have hiter : recvIteration c copied = ({ c with
            heap := heap'
            ucopy := iov'
            queue := queue
            copiedSeq := if skb.fin then
              seqAdd (seqAdd c.copiedSeq a.newLen) 1
              else seqAdd c.copiedSeq a.newLen }, !skb.fin) := by
      simp only [recvIteration, hq, findSkb_front hskb queue, hused, urgentRange,
        hurgent, if_neg hpos, hcopy, afterCopy, passUrgent, if_neg hend]
      cases skb.fin <;> simp
    rw [hiter]
    have hwaiting : a.fin = true → queue = [] ∧ waiting = [] := by
      intro htrue
      have hempty := hfin htrue
      have hlen := hrest.length_le
      rw [hempty] at hlen
      exact ⟨hempty, length_eq_zero_iff.mp (Nat.le_zero.mp hlen)⟩
    have hqueue' : QueueHolds heap' (if skb.fin then
        seqAdd (seqAdd c.copiedSeq a.newLen) 1
        else seqAdd c.copiedSeq a.newLen) queue waiting := by
      rw [hskb.fin]
      cases hlast : a.fin with
      | true =>
        obtain ⟨hempty, hnone⟩ := hwaiting hlast
        rw [hempty, hnone]
        exact .nil _
      | false =>
        refine hrest.congr fun x hx => hothers _ ?_
        intro heq
        exact (nodup_cons.mp hrestNodup).1 (heq ▸ mem_map_of_mem hx)
    have hids : iov'.segs ++ queue.map SkBuff.headerMbuf =
        c.ucopy.segs ++ (skb :: queue).map SkBuff.headerMbuf := by
      rw [hsegs, append_assoc]
      rfl
    refine ⟨⟨hiov', hqueue', by rw [hids]; exact hall, by rw [hids]; exact hbound, hurgent⟩,
      ?_, ?_⟩
    · intro hexp
      have hnofin : skb.fin = false := by
        rw [hskb.fin]
        exact hexp.noFin a mem_cons_self
      have hnext := hexp.rcvNxt
      have hlength := hexp.length
      rw [hq] at hlength
      rw [total_cons, ← seqAdd_seqAdd] at hnext
      rw [hnofin, if_neg (by decide)]
      exact ⟨hnext, Nat.mod_lt _ (by decide),
        fun w hw => hexp.noFin w (mem_cons_of_mem _ hw), Nat.succ.inj hlength⟩
    · intro hstop
      rw [hskb.fin] at hstop
      exact (hwaiting (by simpa using hstop)).2

theorem recvIteration_last (h : Handing c done []) (copied : Bool) :
    (recvIteration c copied).2 = false ∧ Handing (recvIteration c copied).1 done [] ∧
      (Expecting c [] → Expecting (recvIteration c copied).1 []) := by
  have hqueue := h.queue
  have hdistinct := h.distinct
  have hbound := h.bound
  generalize hq : c.queue = q at hqueue hdistinct hbound
  cases hqueue with
  | nil =>
    have hiter : recvIteration c copied = (c, false) := by
      simp [recvIteration, h.noUrgent, hq, findSkb]
    rw [hiter]
    exact ⟨rfl, h, id⟩
  | fin _ skb hbefore hend hsyn hfin =>
    have hiter : recvIteration c copied =
        ({ c with queue := [], copiedSeq := seqAdd c.copiedSeq 1 }, false) := by
      simp [recvIteration, h.noUrgent, hq, findSkb, hbefore, Nat.not_lt.mpr hend, hsyn, hfin]
    rw [hiter]
    refine ⟨rfl, ⟨h.iov, .nil _, ?_, ?_, h.noUrgent⟩, fun hexp => ?_⟩
    · rw [map_nil, append_nil]
      exact (nodup_append.mp hdistinct).1
    · exact fun x hx => hbound x (mem_append_left _ (by simpa using hx))
    · have hlength := hexp.length
      rw [hq] at hlength
      cases hlength

theorem recvLoop_spec (waiting : List Segment) (copied : Bool) {fuel : Nat}
    (h : Handing c done waiting) (hfuel : waiting.length < fuel) :
    Handing (recvLoop copied fuel c) (done ++ waiting) [] ∧
      (Expecting c waiting → Expecting (recvLoop copied fuel c) []) := by
  induction waiting generalizing copied fuel c done with
  | nil =>
    obtain ⟨fuel, rfl⟩ : ∃ k, fuel = k + 1 := ⟨fuel - 1, by omega⟩
    obtain ⟨hstop, hlast, hexp⟩ := recvIteration_last h copied
    simp only [recvLoop, hstop, Bool.false_eq_true, if_false, append_nil]
    exact ⟨hlast, hexp⟩
  | cons a waiting ih =>
    obtain ⟨fuel, rfl⟩ : ∃ k, fuel = k + 1 := ⟨fuel - 1, by omega⟩
    obtain ⟨hnext, hexp, hlast⟩ := recvIteration_spec h copied
    rw [append_cons]
    cases hmore : (recvIteration c copied).2 with
    | true =>
      simp only [recvLoop, hmore, if_true]
      obtain ⟨hloop, hexp'⟩ := ih true hnext (Nat.lt_of_succ_lt_succ hfuel)
      exact ⟨hloop, fun h => hexp' (hexp h)⟩
    | false =>
      have hnone := hlast hmore
      simp only [recvLoop, hmore, Bool.false_eq_true, if_false]
      rw [hnone] at hnext hexp ⊢
      rw [append_nil]
      exact ⟨hnext, hexp⟩

theorem length_lt_recvFuel (queue : List SkBuff) : queue.length < recvFuel queue := by
  unfold recvFuel
  induction queue with
  | nil => simp
  | cons skb queue ih =>
    simp only [length_cons, map_cons, sum_cons]
    omega

theorem Handing.give (h : Handing c done []) : Handing { c with ucopy := ⟨[], 0⟩ } [] [] where
  iov := ⟨.nil, rfl, by simp⟩
  queue := h.queue
  distinct := (nodup_append.mp h.distinct).2.1
  bound := fun id hid => h.bound id (mem_append_right _ hid)
  noUrgent := h.noUrgent

theorem Expecting.give (h : Expecting c waiting) : Expecting { c with ucopy := ⟨[], 0⟩ } waiting :=
  ⟨h.rcvNxt, h.copiedSeq, h.noFin, h.length⟩

theorem tcpRecvmsg_spec (h : Handing c done waiting) :
    IovHolds (tcpRecvmsg c).1.heap (tcpRecvmsg c).1.iov (done ++ waiting) ∧
      Handing (tcpRecvmsg c).2 [] [] ∧
      (Expecting c waiting → Expecting (tcpRecvmsg c).2 []) := by
  by_cases hempty : c.queue = []
  · have hnone : waiting = [] := by
      have hlen := h.queue.length_le
      rw [hempty] at hlen
      exact length_eq_zero_iff.mp (Nat.le_zero.mp hlen)
    rw [hnone] at h ⊢
    simp only [tcpRecvmsg, if_pos hempty, append_nil]
    exact ⟨h.iov, h.give, Expecting.give⟩
  · have hfuel : waiting.length < recvFuel c.queue := by
      exact Nat.lt_of_le_of_lt h.queue.length_le (length_lt_recvFuel c.queue)
    obtain ⟨hloop, hexp⟩ := recvLoop_spec waiting false h hfuel
    simp only [tcpRecvmsg, if_neg hempty]
    exact ⟨hloop.iov, hloop.give, fun hc => (hexp hc).give⟩

/-! ## Arrivals -/

theorem Segment.newLen_pos (a : Segment) : 0 < a.newLen := by
  have hfresh := a.fresh
  unfold Arrival.newLen
  omega

theorem Expecting.none_waiting (h : Expecting c waiting)
    (hwindow : total waiting < 2 ^ 31)
    (hcopied : c.copiedSeq = c.rcvNxt) : waiting = [] := by
  have hnext := h.rcvNxt
  have hbound := h.copiedSeq
  rw [← hcopied] at hnext
  cases waiting with
  | nil => rfl
  | cons a waiting =>
    have hpos := a.newLen_pos
    rw [total_cons] at hnext hwindow
    unfold seqAdd at hnext
    omega

theorem seqAdd_seqSub (hr : r < 2 ^ 32) (hn : n ≤ k)
    (hk : k < 2 ^ 16) : seqAdd (seqSub r n) k = seqAdd r (k - n) := by
  unfold seqAdd seqSub
  omega

theorem Arrival.payloadLen_lt (a : Arrival) : a.frame.payloadLen < 2 ^ 16 := by
  have hend := a.wellFormed.end_eq
  have hwithin := a.wellFormed.within
  have hsmall := a.wellFormed.small
  omega

theorem directCopy_cases {id : Nat} (hiov : IovHolds c.heap c.ucopy done)
    (hexp : Expecting c waiting) (hwindow : total waiting < 2 ^ 31)
    (htcp : AtTcp a.frame id (seqSub c.rcvNxt a.overlap) a.fin (c.heap id) skb)
    (hnew : id ∉ c.ucopy.segs) :
    directCopy c skb a.frame.tcpHeaderLen a.path = none ∨
    (waiting = [] ∧ a.overlap = 0 ∧
      ∃ heap' iov' skb', directCopy c skb a.frame.tcpHeaderLen a.path = some (heap', iov', skb') ∧
        iov'.segs = c.ucopy.segs ++ [id] ∧ IovHolds heap' iov' (done ++ [a])) := by
  have hrange : c.rcvNxt < 2 ^ 32 := by
    rw [hexp.rcvNxt]
    exact Nat.mod_lt _ (by decide)
  have hfresh := a.fresh
  have hsmall := a.payloadLen_lt
  have hheaders := a.wellFormed.headers
  by_cases hnext : skb.seq = c.rcvNxt ∧ c.copiedSeq = c.rcvNxt ∧ c.urgSeq = none
  · have hoverlap : a.overlap = 0 := by
      have hseq := hnext.1
      rw [htcp.seq] at hseq
      unfold seqSub at hseq
      omega
    have hnone := hexp.none_waiting hwindow hnext.2.1
    have hcarries := htcp.carries
    rw [hoverlap] at hcarries
    have hid := htcp.headerMbuf
    unfold directCopy
    rw [if_pos hnext]
    cases a.path with
    | fast room =>
      cases room with
      | false => exact Or.inl rfl
      | true =>
        obtain ⟨heap', iov', hcopy, hsegs, hholds, _⟩ :=
          hiov.copy skb (by rw [hid]; exact hcarries) (by rw [hid]; exact hnew)
        rw [hid] at hsegs
        exact Or.inr ⟨hnone, hoverlap, heap', iov', _, hcopy, hsegs, hholds⟩
    | slow pressure =>
      have hlen : a.frame.tcpHeaderLen ≤ skb.len := by
        rw [htcp.len]
        omega
      have hpull := hcarries.pull hlen
      obtain ⟨heap', iov', hcopy, hsegs, hholds, _⟩ :=
        hiov.copy (skb.pull a.frame.tcpHeaderLen)
          (by show Carries (c.heap skb.headerMbuf) _ _ _; rw [hid]; exact hpull)
          (by show skb.headerMbuf ∉ _; rw [hid]; exact hnew)
      change iov'.segs = c.ucopy.segs ++ [skb.headerMbuf] at hsegs
      rw [hid] at hsegs
      exact Or.inr ⟨hnone, hoverlap, heap', iov', _, hcopy, hsegs, hholds⟩
  · left
    unfold directCopy
    rw [if_neg hnext]

section TcpReceive

variable {a : Segment} {b : Arrival} {id : Nat} {skb : SkBuff}

theorem Expecting.rcvNxt_lt (hexp : Expecting c waiting) : c.rcvNxt < 2 ^ 32 := by
  rw [hexp.rcvNxt]
  exact Nat.mod_lt _ (by decide)

theorem AtTcp.chunk_eq {f : Frame} {fin : Bool} (htcp : AtTcp f id seq fin m skb) :
    skb.len - f.tcpHeaderLen = f.payloadLen := by
  rw [htcp.len]
  rfl

theorem AtTcp.before_endSeq (htcp : AtTcp b.frame id (seqSub r b.overlap) b.fin m skb) :
    before r skb.endSeq = b.isNew := by
  have hsmall := b.payloadLen_lt
  have hrecent := b.recent
  rw [htcp.endSeq]
  unfold before Arrival.isNew seqAdd seqSub
  rw [decide_eq_decide]
  split <;> omega

theorem Segment.isNew (a : Segment) : a.toArrival.isNew = true :=
  decide_eq_true (Nat.lt_of_lt_of_le a.fresh (Nat.le_add_right _ _))

theorem AtTcp.end_eq (htcp : AtTcp a.frame id (seqSub r a.overlap) a.fin m skb)
    (hr : r < 2 ^ 32) (hfin : a.fin = false) : skb.endSeq = seqAdd r a.newLen := by
  have hfresh := a.fresh
  rw [htcp.endSeq, hfin]
  exact seqAdd_seqSub hr (by omega) a.payloadLen_lt

theorem queueOrDrop_eq (hfits : b.fits = true) (n : Nat) :
    queueOrDrop c skb n b.path = tcpQueueRcv c skb n := by
  unfold Arrival.fits at hfits
  split at hfits
  · cases hfits
  · rename_i hpath
    rw [hpath]
    rfl
  · rename_i hpath
    rw [hpath]
    rfl

theorem tcpReceive_none (hbefore : before c.rcvNxt skb.endSeq = true) (hfits : b.fits = true)
    {n : Nat} (hqueued : directCopy c skb n b.path = none) :
    tcpReceive c skb n b.path = tcpQueueRcv c skb n := by
  simp [tcpReceive, hbefore, hqueued, queueOrDrop_eq hfits]

theorem Handing.queued (h : Handing c done waiting) (hexp : Expecting c waiting)
    (hid : c.nextId = id + 1) (hnew : id ∉ c.ucopy.segs ++ c.queue.map SkBuff.headerMbuf)
    (hskb : skb.headerMbuf = id) {more : List Segment}
    (hlast : QueueHolds c.heap c.rcvNxt [skb.pull n] more) :
    Handing (tcpQueueRcv c skb n) done (waiting ++ more) := by
  have hids : c.ucopy.segs ++ (c.queue ++ [skb.pull n]).map SkBuff.headerMbuf =
      (c.ucopy.segs ++ c.queue.map SkBuff.headerMbuf) ++ [id] := by
    rw [map_append, ← hskb, append_assoc]
    rfl
  rw [hexp.rcvNxt] at hlast
  refine ⟨h.iov, h.queue.append hexp.copiedSeq hexp.noFin hexp.length hlast, ?_, ?_, h.noUrgent⟩
  · simp only [tcpQueueRcv, hids]
    exact nodup_append.mpr ⟨h.distinct, by simp, fun x hx y hy hxy =>
      hnew (mem_singleton.mp hy ▸ hxy ▸ hx)⟩
  · simp only [tcpQueueRcv, hids]
    intro x hx
    rcases mem_append.mp hx with hx | hx
    · exact h.bound x hx
    · rw [mem_singleton.mp hx]
      omega

theorem tcpReceive_queued (h : Handing c done waiting) (hexp : Expecting c waiting)
    (htcp : AtTcp a.frame id (seqSub c.rcvNxt a.overlap) a.fin (c.heap id) skb)
    (hid : c.nextId = id + 1) (hnew : id ∉ c.ucopy.segs ++ c.queue.map SkBuff.headerMbuf) :
    Handing (tcpQueueRcv c skb a.frame.tcpHeaderLen) done (waiting ++ [a]) ∧
      (a.fin = false → Expecting (tcpQueueRcv c skb a.frame.tcpHeaderLen) (waiting ++ [a])) := by
  have hfresh := a.fresh
  have hsmall := a.payloadLen_lt
  have hheaders := a.wellFormed.headers
  have hwaits : SkbWaits c.heap c.rcvNxt (skb.pull a.frame.tcpHeaderLen) a := by
    refine ⟨?_, ?_, htcp.syn, htcp.fin⟩
    · show Carries (c.heap skb.headerMbuf) _ _ _
      rw [htcp.headerMbuf]
      exact htcp.carries.pull (by rw [htcp.len]; omega)
    · show seqSub _ skb.seq = _
      rw [htcp.seq]
      exact seqSub_seqSub hexp.rcvNxt_lt (by omega)
  refine ⟨h.queued hexp hid hnew htcp.headerMbuf (.cons _ _ _ _ _ hwaits (fun _ => rfl) (.nil _)),
    fun hfin => ⟨?_, hexp.copiedSeq, ?_, ?_⟩⟩
  · show skb.endSeq = seqAdd c.copiedSeq _
    rw [htcp.end_eq hexp.rcvNxt_lt hfin, hexp.rcvNxt, seqAdd_seqAdd]
    simp
  · intro w hw
    rcases mem_append.mp hw with hw | hw
    · exact hexp.noFin w hw
    · rw [mem_singleton.mp hw]
      exact hfin
  · simp [tcpQueueRcv, hexp.length]

variable {heap' : Heap} {iov' : Iovec} {skb' : SkBuff}

theorem tcpReceive_copied (h : Handing c done []) (hexp : Expecting c [])
    (htcp : AtTcp a.frame id (seqSub c.rcvNxt a.overlap) a.fin (c.heap id) skb)
    (hid : c.nextId = id + 1) (hnew : id ∉ c.ucopy.segs) (hoverlap : a.overlap = 0)
    (hcopied : directCopy c skb a.frame.tcpHeaderLen a.path = some (heap', iov', skb'))
    (hsegs : iov'.segs = c.ucopy.segs ++ [id]) (hholds : IovHolds heap' iov' (done ++ [a])) :
    Handing (tcpReceive c skb a.frame.tcpHeaderLen a.path) (done ++ [a]) [] ∧
      (a.fin = false → Expecting (tcpReceive c skb a.frame.tcpHeaderLen a.path) []) := by
  have hempty : c.queue = [] := length_eq_zero_iff.mp hexp.length
  have hbefore : before c.rcvNxt skb.endSeq = true := htcp.before_endSeq.trans a.isNew
  have hnewLen : a.frame.payloadLen = a.newLen := by
    unfold Arrival.newLen
    omega
  have hdistinct := h.distinct
  have hbound := h.bound
  rw [hempty, map_nil, append_nil] at hdistinct hbound
  simp only [tcpReceive, hbefore, hcopied, htcp.chunk_eq, hempty, Bool.not_true,
    Bool.false_eq_true, if_false]
  refine ⟨⟨hholds, .nil _, ?_, ?_, h.noUrgent⟩, fun hfin => ⟨?_, ?_, by simp, rfl⟩⟩
  · rw [map_nil, append_nil, hsegs]
    exact nodup_append.mpr ⟨hdistinct, by simp, fun x hx y hy hxy =>
      hnew (mem_singleton.mp hy ▸ hxy ▸ hx)⟩
  · intro x hx
    rw [map_nil, append_nil, hsegs] at hx
    show x < c.nextId
    rcases mem_append.mp hx with hx | hx
    · exact hbound x hx
    · rw [mem_singleton.mp hx]
      omega
  · show skb.endSeq = seqAdd (seqAdd c.copiedSeq _) 0
    rw [htcp.end_eq hexp.rcvNxt_lt hfin, hexp.rcvNxt, hnewLen, seqAdd_seqAdd, seqAdd_seqAdd]
    simp
  · exact Nat.mod_lt _ (by decide)

theorem skbCopyDatagramIovec_empty {offset : Nat} (hlen : skb.len ≤ offset)
    (hcopy : skbCopyDatagramIovec heap iov skb offset 0 = some (heap', iov', skb')) :
    iov' = iov ∧ ∀ j, j ≠ skb.headerMbuf → heap' j = heap j := by
  unfold skbCopyDatagramIovec at hcopy
  dsimp only at hcopy
  split at hcopy
  · cases hcopy
  · rw [if_neg (Nat.not_lt.mpr hlen), if_pos rfl] at hcopy
    cases hcopy
    exact ⟨rfl, fun j hj => update_of_ne hj _ _⟩

theorem directCopy_empty (hlen : skb.len = n) {path : Path}
    (hcopied : directCopy c skb n path = some (heap', iov', skb')) :
    iov' = c.ucopy ∧ ∀ j, j ≠ skb.headerMbuf → heap' j = c.heap j := by
  obtain ⟨-, hcopied⟩ := Option.ite_none_right_eq_some.mp hcopied
  rw [hlen, Nat.sub_self] at hcopied
  split at hcopied
  · exact skbCopyDatagramIovec_empty (Nat.le_of_eq hlen) hcopied
  · cases hcopied
  · have hpulled : (skb.pull n).len ≤ 0 := by simp [SkBuff.pull, hlen]
    have hsame := skbCopyDatagramIovec_empty hpulled hcopied
    exact hsame

/-- A `FIN` without new data adds nothing to the chain, whether it is queued or eaten at once. -/
theorem tcpReceive_fin (h : Handing c done waiting) (hexp : Expecting c waiting)
    (hwindow : total waiting < 2 ^ 31)
    (htcp : AtTcp b.frame id (seqSub c.rcvNxt b.overlap) b.fin (c.heap id) skb)
    (hid : c.nextId = id + 1) (hnew : id ∉ c.ucopy.segs ++ c.queue.map SkBuff.headerMbuf)
    (hfits : b.fits = true) (hfin : b.fin = true) (hold : b.overlap = b.frame.payloadLen) :
    Handing (tcpReceive c skb b.frame.tcpHeaderLen b.path) done waiting := by
  have hsmall := b.payloadLen_lt
  have hheaders := b.wellFormed.headers
  have hbefore : before c.rcvNxt skb.endSeq = true := by
    rw [htcp.before_endSeq]
    simp [Arrival.isNew, hfin, hold]
  cases hcopied : directCopy c skb b.frame.tcpHeaderLen b.path with
  | none =>
    have hoffset : seqSub c.rcvNxt skb.seq = b.frame.payloadLen := by
      rw [htcp.seq, hold]
      exact seqSub_seqSub hexp.rcvNxt_lt (by omega)
    rw [tcpReceive_none hbefore hfits hcopied, ← append_nil waiting]
    refine h.queued hexp hid hnew htcp.headerMbuf (.fin _ _ ?_ ?_ htcp.syn (htcp.fin.trans hfin))
    · show before c.rcvNxt skb.seq = false
      simp only [before, hoffset, decide_eq_false_iff_not]
      omega
    · show skb.len - b.frame.tcpHeaderLen ≤ seqSub c.rcvNxt skb.seq
      rw [hoffset, htcp.chunk_eq]
  | some copied =>
    obtain ⟨heap', iov', skb'⟩ := copied
    have hcond := (Option.ite_none_right_eq_some.mp hcopied).1
    have hempty : b.frame.payloadLen = 0 := by
      have hseq := hcond.1
      rw [htcp.seq] at hseq
      have hlt := hexp.rcvNxt_lt
      unfold seqSub at hseq
      omega
    obtain rfl := hexp.none_waiting hwindow hcond.2.1
    have hqueue : c.queue = [] := length_eq_zero_iff.mp hexp.length
    have hlen : skb.len = b.frame.tcpHeaderLen := by
      have hchunk := htcp.chunk_eq
      rw [htcp.len] at hchunk ⊢
      omega
    obtain ⟨rfl, hsame⟩ := directCopy_empty hlen hcopied
    have hother : ∀ j ∈ c.ucopy.segs, heap' j = c.heap j := fun j hj =>
      hsame j fun heq => hnew (htcp.headerMbuf ▸ heq ▸ mem_append_left _ hj)
    simp only [tcpReceive, hbefore, hcopied, Bool.not_true, Bool.false_eq_true, if_false]
    exact ⟨h.iov.congr hother, by rw [hqueue]; exact .nil _, h.distinct, h.bound, h.noUrgent⟩

end TcpReceive

def Arrival.segments (a : Arrival) : List Segment :=
  if h : a.overlap < a.frame.payloadLen then [⟨a, h⟩] else []

def segments (as : List Arrival) : List Segment := as.flatMap Arrival.segments

theorem receiveArrival_spec (h : Handing c done waiting) (a : Arrival)
    (hexp : a.isNew = true → Expecting c waiting) (hfits : a.fits = true)
    (hwindow : total waiting < 2 ^ 31) :
    ∃ done' waiting', done' ++ waiting' = done ++ waiting ++ a.segments ∧
      Handing (receiveArrival c a) done' waiting' ∧
      (Expecting c waiting → a.fin = false → Expecting (receiveArrival c a) waiting') := by
  obtain ⟨htcp, hsame⟩ := rxConstructSkb_spec a.wellFormed
    (update c.heap c.nextId a.frame.mbuf) c.nextId
    (update_self _ _ _) (seqSub c.rcvNxt a.overlap) a.fin
  simp only [receiveArrival, receive]
  generalize rxConstructSkb (update c.heap c.nextId a.frame.mbuf)
    c.nextId (seqSub c.rcvNxt a.overlap) a.fin = r at htcp hsame
  have hnew : c.nextId ∉ c.ucopy.segs ++ c.queue.map SkBuff.headerMbuf :=
    fun hmem => Nat.lt_irrefl _ (h.bound _ hmem)
  have hheap : ∀ j ∈ c.ucopy.segs ++ c.queue.map SkBuff.headerMbuf, r.1 j = c.heap j := by
    intro j hj
    have hne : j ≠ c.nextId := fun heq => hnew (heq ▸ hj)
    rw [hsame j hne, update_of_ne hne]
  have h' : Handing { c with heap := r.1, nextId := c.nextId + 1 } done waiting := by
    refine ⟨h.iov.congr fun j hj => hheap j (mem_append_left _ hj),
      h.queue.congr ?_, h.distinct, fun x hx => Nat.lt_succ_of_lt (h.bound x hx), h.noUrgent⟩
    intro skb hskb
    have hmem := mem_append_right c.ucopy.segs
      (mem_map_of_mem (f := SkBuff.headerMbuf) hskb)
    show SameWindow _ (r.1 skb.headerMbuf)
    rw [hheap _ hmem]
    exact SameWindow.refl _
  have hexp' : Expecting c waiting →
      Expecting { c with heap := r.1, nextId := c.nextId + 1 } waiting :=
    fun hexp => ⟨hexp.rcvNxt, hexp.copiedSeq, hexp.noFin, hexp.length⟩
  have hnewSegs : c.nextId ∉ c.ucopy.segs := fun hmem => hnew (mem_append_left _ hmem)
  have hbefore := htcp.before_endSeq
  by_cases hfresh : a.overlap < a.frame.payloadLen
  · have hexp := hexp (Segment.isNew ⟨a, hfresh⟩)
    rw [Arrival.segments, dif_pos hfresh]
    rcases directCopy_cases (a := ⟨a, hfresh⟩) h'.iov (hexp' hexp) hwindow htcp hnewSegs with
      hqueued | ⟨rfl, hoverlap, heap', iov', skb', hcopied, hsegs, hholds⟩
    · rw [tcpReceive_none (c := { c with heap := r.1, nextId := c.nextId + 1 })
        (hbefore.trans (Segment.isNew ⟨a, hfresh⟩)) hfits hqueued]
      obtain ⟨hhanding, hnext⟩ :=
        tcpReceive_queued (a := ⟨a, hfresh⟩) h' (hexp' hexp) htcp rfl hnew
      exact ⟨done, waiting ++ [⟨a, hfresh⟩], (append_assoc _ _ _).symm, hhanding, fun _ => hnext⟩
    · obtain ⟨hhanding, hnext⟩ := tcpReceive_copied (a := ⟨a, hfresh⟩) h' (hexp' hexp) htcp rfl
        hnewSegs hoverlap hcopied hsegs hholds
      exact ⟨done ++ [⟨a, hfresh⟩], [], by simp, hhanding, fun _ => hnext⟩
  · rw [Arrival.segments, dif_neg hfresh, append_nil]
    refine ⟨done, waiting, rfl, ?_⟩
    cases hisNew : a.isNew with
    | false =>
      rw [tcpReceive, hbefore.trans hisNew]
      exact ⟨h', fun hexp _ => hexp' hexp⟩
    | true =>
      have hbare : a.fin = true ∧ a.overlap = a.frame.payloadLen := by
        unfold Arrival.isNew at hisNew
        cases hfin : a.fin with
        | false => simp [hfin, hfresh] at hisNew
        | true =>
          simp only [hfin, if_true, decide_eq_true_eq] at hisNew
          exact ⟨rfl, by omega⟩
      refine ⟨tcpReceive_fin h' (hexp' (hexp hisNew)) hwindow htcp rfl hnew hfits hbare.1 hbare.2,
        fun _ hfin => ?_⟩
      rw [hbare.1] at hfin
      cases hfin

theorem receiveAll_cons (c : Conn) (a : Arrival) (as : List Arrival) :
    receiveAll c (a :: as) = receiveAll (receiveArrival c a) as := rfl

theorem segments_cons (a : Arrival) (as : List Arrival) :
    segments (a :: as) = a.segments ++ segments as := rfl

theorem receiveAll_spec (as : List Arrival) {waiting : List Segment}
    (h : Handing c done waiting) (hexp : (∃ a ∈ as, a.isNew = true) → Expecting c waiting)
    (hfin : FinLast as) (hfits : ∀ a ∈ as, a.fits = true)
    (hwindow : total (done ++ waiting ++ segments as) < 2 ^ 31) :
    ∃ done' waiting', done' ++ waiting' = done ++ waiting ++ segments as ∧
      Handing (receiveAll c as) done' waiting' ∧
      (Expecting c waiting → (∀ a ∈ as, a.fin = false) → Expecting (receiveAll c as) waiting') := by
  induction as generalizing c done waiting with
  | nil => exact ⟨done, waiting, (append_nil _).symm, h, fun he _ => he⟩
  | cons a as ih =>
    have hsum : total waiting < 2 ^ 31 := by
      simp only [total_append] at hwindow
      omega
    obtain ⟨done', waiting', hsplit, hnext, hmore⟩ :=
      receiveArrival_spec h a (fun hnew => hexp ⟨a, mem_cons_self, hnew⟩)
        (hfits a mem_cons_self) hsum
    have hwhole : done' ++ waiting' ++ segments as = done ++ waiting ++ segments (a :: as) := by
      rw [hsplit, append_assoc, segments_cons]
    rw [← hwhole] at hwindow
    have hexp' : (∃ b ∈ as, b.isNew = true) → Expecting (receiveArrival c a) waiting' := by
      rintro ⟨b, hb, hnew⟩
      refine hmore (hexp ⟨b, mem_cons_of_mem _ hb, hnew⟩) (Bool.eq_false_iff.mpr fun hlast => ?_)
      rw [hfin.1 hlast b hb] at hnew
      cases hnew
    obtain ⟨done'', waiting'', hsplit', hall, hexp''⟩ := ih hnext hexp' hfin.2
      (fun b hb => hfits b (mem_cons_of_mem _ hb)) hwindow
    rw [receiveAll_cons]
    refine ⟨done'', waiting'', hsplit'.trans hwhole, hall, fun hfirst hnofin => ?_⟩
    exact hexp'' (hmore hfirst (hnofin a mem_cons_self))
      (fun x hx => hnofin x (mem_cons_of_mem _ hx))

structure Handed.Exact (h : Handed) (bytes : List UInt8) : Prop where
  bytes : (h.iov.segs.flatMap fun id => (h.heap id).data) = bytes
  dataLen : (h.iov.segs.map fun id => (h.heap id).dataLen).sum = h.iov.len
  pktLen : ∀ head rest, h.iov.segs = head :: rest → (h.heap head).pktLen = h.iov.len

theorem IovHolds.bytes_eq (h : IovHolds heap iov done) :
    (iov.segs.flatMap fun id => (heap id).data) = done.flatMap (·.carried) := by
  have hsegs := h.segs
  clear h
  generalize iov.segs = segs at hsegs
  induction hsegs with
  | nil => rfl
  | cons hhead htail ih => rw [flatMap_cons, flatMap_cons, hhead.1, ih]

theorem IovHolds.dataLen_eq (h : IovHolds heap iov done) :
    (iov.segs.map fun id => (heap id).dataLen).sum = (done.map fun a => a.carried.length).sum := by
  have hsegs := h.segs
  clear h
  generalize iov.segs = segs at hsegs
  induction hsegs with
  | nil => rfl
  | cons hhead htail ih =>
    rw [map_cons, map_cons, sum_cons, sum_cons, hhead.2, ih]

theorem carried_of_unpadded (ha : a.frame.padding = 0) : a.carried = a.unconsumed := by
  rw [a.carried_eq, ha, take_zero, append_nil]

theorem sum_carried (as : List Segment) : (as.map fun a => a.carried.length).sum =
      total as + (as.map fun a => a.frame.padding).sum := by
  induction as with
  | nil => rfl
  | cons a as ih =>
    simp only [map_cons, sum_cons, ih, a.length_carried, total_cons]
    omega

theorem sum_padding_eq_zero_iff (as : List Segment) : (as.map fun a => a.frame.padding).sum = 0 ↔
      ∀ a ∈ as, a.frame.padding = 0 := by
  induction as with
  | nil => simp
  | cons a as ih => simp [ih]

theorem IovHolds.exact_iff {h : Handed} {as : List Segment} (hholds : IovHolds h.heap h.iov as)
    (hwindow : total as < 2 ^ 31) :
    h.Exact (as.flatMap (·.unconsumed)) ↔ ∀ a ∈ as, a.frame.padding = 0 := by
  have hsum := sum_carried as
  constructor
  · intro hexact
    have hlen := hexact.dataLen
    rw [hholds.dataLen_eq, hholds.len] at hlen
    exact (sum_padding_eq_zero_iff as).mp (by omega)
  · intro hpad
    have hzero := (sum_padding_eq_zero_iff as).mpr hpad
    refine ⟨?_, ?_, ?_⟩
    · rw [hholds.bytes_eq]
      exact flatMap_congr fun a ha => carried_of_unpadded (hpad a ha)
    · rw [hholds.dataLen_eq, hholds.len]
      omega
    · intro head rest hsegs
      rw [hholds.pktLen head rest hsegs, hholds.len]
      omega

theorem FinLast.append {as bs : List Arrival} (h : FinLast (as ++ bs)) :
    FinLast as ∧ FinLast bs ∧ ((∃ b ∈ bs, b.isNew = true) → ∀ a ∈ as, a.fin = false) := by
  induction as with
  | nil => exact ⟨trivial, h, by simp⟩
  | cons a as ih =>
    obtain ⟨hhead, htail⟩ := h
    obtain ⟨hfirst, hsecond, hnofin⟩ := ih htail
    refine ⟨⟨fun hfin b hb => hhead hfin b (mem_append_left _ hb), hfirst⟩, hsecond, ?_⟩
    rintro ⟨b, hb, hnew⟩ x hx
    rcases mem_cons.mp hx with rfl | hx
    · refine Bool.eq_false_iff.mpr fun hfin => ?_
      rw [hhead hfin b (mem_append_right _ hb)] at hnew
      cases hnew
    · exact hnofin ⟨b, hb, hnew⟩ x hx

theorem unconsumed_segments (as : List Arrival) :
    (segments as).flatMap (·.unconsumed) = as.flatMap Arrival.unconsumed := by
  induction as with
  | nil => rfl
  | cons a as ih =>
    rw [segments_cons, flatMap_append, ih, flatMap_cons]
    congr 1
    unfold Arrival.segments
    split
    · simp
    · rw [flatMap_nil, Arrival.unconsumed, drop_eq_nil_of_le]
      simp only [Frame.payload, length_take]
      omega

theorem total_segments (as : List Arrival) :
    total (segments as) = (as.map Arrival.newLen).sum := by
  induction as with
  | nil => rfl
  | cons a as ih =>
    rw [segments_cons, total_append, ih, map_cons, sum_cons]
    congr 1
    unfold Arrival.segments
    split
    · simp
    · simp only [total_nil, Arrival.newLen]
      omega

theorem mem_segments {as : List Arrival} {s : Segment} : s ∈ segments as ↔ s.toArrival ∈ as := by
  simp only [segments, mem_flatMap, Arrival.segments]
  constructor
  · rintro ⟨a, ha, hs⟩
    split at hs
    · rw [mem_singleton.mp hs]
      exact ha
    · cases hs
  · intro hs
    refine ⟨s.toArrival, hs, ?_⟩
    rw [dif_pos s.fresh]
    exact mem_singleton.mpr rfl

theorem recvRounds_spec (rounds : List (List Arrival)) (h : Handing c [] [])
    (hexp : (∃ a ∈ rounds.flatten, a.isNew = true) → Expecting c [])
    (hfin : FinLast rounds.flatten) (hfits : ∀ as ∈ rounds, ∀ a ∈ as, a.fits = true)
    (hwindow : ∀ as ∈ rounds, (as.map Arrival.newLen).sum < 2 ^ 31) :
    List.Forall₂ (fun h as => IovHolds h.heap h.iov (segments as)) (recvRounds c rounds)
      rounds := by
  induction rounds generalizing c with
  | nil => exact .nil
  | cons as rounds ih =>
    rw [flatten_cons] at hexp hfin
    obtain ⟨hfirst, hrest, hnofin⟩ := hfin.append
    obtain ⟨done, waiting, hsplit, hhanding, hexp'⟩ := receiveAll_spec as h
      (fun ⟨a, ha, hnew⟩ => hexp ⟨a, mem_append_left _ ha, hnew⟩) hfirst
      (hfits as mem_cons_self) (by
        rw [append_nil, nil_append, total_segments]
        exact hwindow as mem_cons_self)
    obtain ⟨hchain, hidle, hexp''⟩ := tcpRecvmsg_spec hhanding
    rw [hsplit] at hchain
    refine .cons hchain (ih hidle ?_ hrest (fun x hx => hfits x (mem_cons_of_mem _ hx))
      fun x hx => hwindow x (mem_cons_of_mem _ hx))
    rintro ⟨a, ha, hnew⟩
    exact hexp'' (hexp' (hexp ⟨a, mem_append_right _ ha, hnew⟩) (hnofin ⟨a, ha, hnew⟩))

theorem handing_start {isn : Nat} (hisn : isn < 2 ^ 32) :
    Handing (Conn.start isn) [] [] ∧ Expecting (Conn.start isn) [] :=
  ⟨⟨⟨.nil, rfl, by simp [Conn.start]⟩, .nil _, nodup_nil, by simp [Conn.start], rfl⟩,
    ⟨(Nat.mod_eq_of_lt hisn).symm, hisn, by simp, rfl⟩⟩

def ethernetFrame (payload padding : List UInt8) : Frame where
  mbuf :=
    { buf := List.replicate 54 0 ++ payload ++ padding
      dataOff := 0
      dataLen := 54 + payload.length + padding.length
      pktLen := 54 + payload.length + padding.length }
  ipHeaderLen := 20
  tcpHeaderLen := 20
  totLen := 40 + payload.length

def unpaddedRounds : List (List Arrival) :=
  [[⟨ethernetFrame [1, 2, 3] [], 0, false, .fast true, by decide, by decide⟩,
    ⟨ethernetFrame [] [0, 0, 0, 0, 0, 0], 0, false, .fast true, by decide, by decide⟩,
    ⟨ethernetFrame [3, 4] [], 1, false, .slow none, by decide, by decide⟩],
   [⟨ethernetFrame [5] [], 0, false, .slow none, by decide, by decide⟩,
    ⟨ethernetFrame [] [], 0, true, .slow none, by decide, by decide⟩,
    ⟨ethernetFrame [5] [], 2, true, .slow none, by decide, by decide⟩]]

def paddedArrival : Arrival :=
  ⟨ethernetFrame [1] [0, 0, 0, 0, 0], 0, false, .fast true, by decide, by decide⟩

def collapsedRound : List Arrival :=
  [⟨ethernetFrame [1] [], 0, false, .fast false, by decide, by decide⟩,
    ⟨ethernetFrame [2] [], 0, false, .slow (some ⟨256, 320, 1, false⟩), by decide, by decide⟩]

end LightStack.Rx.Handover
