import LightStack.Tx.Send.Model

/-!
# Sent bytes reach TCP once and in order
-/

namespace LightStack.Tx.Send

open Lib List

/-! ## Buffers are not empty -/

theorem fillBuffers_pos (count : Nat) {data : List UInt8} (hdata : 0 < data.length) :
    ∀ b ∈ fillBuffers count data, 0 < b.dataLen := by
  induction count generalizing data with
  | zero => simp [fillBuffers]
  | succ count ih =>
    intro b hb
    unfold fillBuffers at hb
    split at hb
    · rename_i hlong
      have hpos : 0 < payloadMax := by decide
      rcases mem_cons.mp hb with rfl | hb
      · simp only [Buffer.dataLen, length_take]
        omega
      · exact ih (by rw [length_drop]; omega) b hb
    · rw [mem_singleton.mp hb]
      exact hdata

variable {ring : TxRing} {b : Buffer} {r : Sock × Int} {a : TxAction}

theorem lightSend_pos {closeSignal freeBufs : Nat} {data : List UInt8} {txSpace : Int}
    {bufs : List Buffer} (h : lightSend ring closeSignal data freeBufs txSpace = some bufs) :
    ∀ b ∈ bufs, 0 < b.dataLen := by
  unfold lightSend at h
  simp only at h
  split at h
  · cases h
  · split at h
    · cases h
    · cases h
      rcases Nat.eq_zero_or_pos data.length with hnil | hpos
      · have hcount : (bufCount data.length
            (getSocketTxSpace ring freeBufs txSpace)).toNat = 0 := by
          have hzero : toInt32 ((0 / payloadMax : Nat) : Int) = 0 := by decide
          simp only [bufCount, hnil, Nat.zero_mod, hzero, Nat.lt_irrefl, if_false]
          omega
        rw [hcount]
        simp [fillBuffers]
      · exact fillBuffers_pos _ hpos

variable {alloc : Nat → Option Nat} {s s' : Sock}

theorem userGetBuffer_nil (fuel : Nat) (copy : Int) (hring : ring.items = []) :
    (userGetBuffer fuel ring copy).1 = [] := by
  cases fuel with
  | zero => rfl
  | succ fuel =>
    simp only [userGetBuffer, Ring.dequeue_eq_none_iff.mpr hring]
    split <;> rfl

theorem userGetBuffer_cons {ring' : TxRing} (fuel : Nat)
    (hring : ring.items = b :: ring'.items) (hb : 0 < b.dataLen) :
    userGetBuffer (fuel + 1) ring payloadMax = ([b], ring', (payloadMax : Int) - b.dataLen) := by
  have hstop : userGetBuffer fuel ring' (payloadMax - b.dataLen) =
      ([], ring', (payloadMax : Int) - b.dataLen) := by
    have hlt : (payloadMax : Int) - b.dataLen < payloadMax := by omega
    cases fuel with
    | zero => rfl
    | succ fuel => simp only [userGetBuffer, if_pos hlt]
  simp only [userGetBuffer, Ring.dequeue_eq_some_iff.mpr hring, hstop, Int.lt_irrefl, if_false]

inductive SendPages (alloc : Nat → Option Nat) (s : Sock) : Sock × Int → Prop
  | refused (skErr : Nat) (ret : Int) (hskErr : skErr ≤ s.skErr)
      (hret : ret ≤ 0) : SendPages alloc s ({ s with skErr := skErr }, ret)
  | appended (b : Buffer) (ring : TxRing) (truesize : Nat)
      (hring : s.txRing.items = b :: ring.items)
      (halloc : alloc s.allocs = some truesize) :
      SendPages alloc s (skbEntail { s with txRing := ring, allocs := s.allocs + 1 } [b]
          truesize b.dataLen, b.dataLen)
  | lost (b : Buffer) (ring : TxRing) (hring : s.txRing.items = b :: ring.items)
      (halloc : alloc s.allocs = none) :
      SendPages alloc s ({ s with txRing := ring, allocs := s.allocs + 1 }, 0)

structure Ready (s : Sock) : Prop where
  state : s.state = .established ∨ s.state = .closeWait
  skErr : s.skErr = 0
  sendShutdown : s.sendShutdown = false
  hasSocket : s.hasSocket = true

theorem refused_same {ret : Int} (hret : ret ≤ 0) : SendPages alloc s (s, ret) :=
  .refused s.skErr ret (Nat.le_refl _) hret

theorem skStreamError_sendPages : SendPages alloc s (skStreamError s) := by
  unfold skStreamError
  split
  · exact refused_same (by decide)
  · exact .refused 0 _ (Nat.zero_le _) (by omega)

theorem doTcpSendpages_of_ready (h : Ready s) : doTcpSendpages alloc s =
      let r := userGetBuffer (s.txRing.count + 1) s.txRing payloadMax
      if r.1 = [] then (s, 0)
      else packBuffers alloc (payloadMax - r.2.2) r.1 none 0 0 { s with txRing := r.2.1 } := by
  rcases h.state with hstate | hstate <;>
    simp [doTcpSendpages, hstate, h.skErr, h.sendShutdown, h.hasSocket]

theorem doTcpSendpages_cons (h : Ready s) (hring : s.txRing.items = b :: ring.items)
    (hb : 0 < b.dataLen) :
    doTcpSendpages alloc s =
      packBuffers alloc b.dataLen [b] none 0 0 { s with txRing := ring } := by
  have hcopy : (payloadMax : Int) - (payloadMax - b.dataLen) = b.dataLen := by omega
  simp only [doTcpSendpages_of_ready h, userGetBuffer_cons _ hring hb, hcopy,
    cons_ne_nil, if_false]

theorem doTcpSendpages_of_not_ready (h : ¬ Ready s) :
    SendPages alloc s (doTcpSendpages alloc s) := by
  unfold doTcpSendpages
  split
  · exact refused_same (by decide)
  split
  · exact skStreamError_sendPages
  split
  · exact skStreamError_sendPages
  split
  · exact refused_same (Int.le_refl 0)
  · rename_i _ hstate herr hsocket
    refine absurd ⟨?_, ?_, ?_, ?_⟩ h
    · exact (Decidable.not_and_iff_not_or_not.mp hstate).imp
        Decidable.not_not.mp Decidable.not_not.mp
    · exact Decidable.not_not.mp fun hne => herr (Or.inl hne)
    · exact Bool.eq_false_iff.mpr fun htrue => herr (Or.inr htrue)
    · exact Decidable.not_not.mp hsocket

theorem packBuffers_appended {truesize : Nat} (halloc : alloc s.allocs = some truesize) :
    packBuffers alloc b.dataLen [b] none 0 0 { s with txRing := ring } =
      (skbEntail { s with txRing := ring, allocs := s.allocs + 1 } [b]
        truesize b.dataLen, (b.dataLen : Int)) := by
  simp only [packBuffers, halloc, Option.map_some, Option.none_or,
    Option.isNone_none, if_true, nil_append, Nat.zero_add, or_true]

theorem packBuffers_lost (halloc : alloc s.allocs = none) :
    packBuffers alloc b.dataLen [b] none 0 0 { s with txRing := ring } =
      ({ s with txRing := ring, allocs := s.allocs + 1 }, 0) := by
  simp only [packBuffers, halloc, Option.map_none, Option.or_none, Option.isNone_none, if_true]

theorem doTcpSendpages_sendPages (hpos : ∀ b ∈ s.txRing.items, 0 < b.dataLen) :
    SendPages alloc s (doTcpSendpages alloc s) := by
  by_cases hready : Ready s
  · cases hdequeue : s.txRing.dequeue with
    | none =>
      have hempty := Ring.dequeue_eq_none_iff.mp hdequeue
      simp only [doTcpSendpages_of_ready hready, userGetBuffer_nil _ _ hempty, if_true]
      exact refused_same (Int.le_refl 0)
    | some r =>
      obtain ⟨b, ring⟩ := r
      have hring := Ring.dequeue_eq_some_iff.mp hdequeue
      have hb : 0 < b.dataLen := hpos b (by rw [hring]; exact mem_cons_self)
      rw [doTcpSendpages_cons hready hring hb]
      cases halloc : alloc s.allocs with
      | none =>
        rw [packBuffers_lost halloc]
        exact .lost b ring hring halloc
      | some truesize =>
        rw [packBuffers_appended halloc]
        exact .appended b ring truesize hring halloc
  · exact doTcpSendpages_of_not_ready hready

structure Appends (s : Sock) (r : Sock × Int) (bytes : List UInt8) : Prop where
  appended : bytesOf r.1.appendedBufs = bytesOf s.appendedBufs ++ bytes
  writeSeq : r.1.writeSeq = (s.writeSeq + bytes.length) % 2 ^ 32
  ret : r.2 = bytes.length ∨ r.2 < 0 ∧ bytes = []

theorem SendPages.appends (h : SendPages alloc s r)
    (hseq : s.writeSeq < 2 ^ 32) : ∃ bytes, Appends s r bytes := by
  cases h with
  | refused skErr ret hskErr hret =>
    refine ⟨[], (append_nil _).symm, (Nat.mod_eq_of_lt hseq).symm, ?_⟩
    rcases Int.lt_or_eq_of_le hret with hneg | hzero
    · exact Or.inr ⟨hneg, rfl⟩
    · exact Or.inl hzero
  | appended b ring truesize hring halloc =>
    refine ⟨b.data, ?_, rfl, Or.inl rfl⟩
    simp [skbEntail, Sock.appendedBufs, bytesOf]
  | lost b ring hring halloc =>
    exact ⟨[], (append_nil _).symm, (Nat.mod_eq_of_lt hseq).symm, Or.inl rfl⟩

inductive TxMove (alloc : Nat → Option Nat) (s : Sock) (a : TxAction)
    (s' : Sock) : Prop
  | quiet (hring : s'.txRing = s.txRing) (henqueued : s'.enqueued = s.enqueued)
      (happended : s'.appended = s.appended) (hallocs : s'.allocs = s.allocs)
  | sent (bufs : List Buffer) (hring : s'.txRing.items = s.txRing.items ++ bufs)
      (henqueued : s'.enqueued = s.enqueued ++ bufs)
      (happended : s'.appended = s.appended) (hallocs : s'.allocs = s.allocs)
  | appended (b : Buffer) (hring : s.txRing.items = b :: s'.txRing.items)
      (henqueued : s'.enqueued = s.enqueued)
      (happended : s'.appendedBufs = s.appendedBufs ++ [b])
      (hallocs : s'.allocs = s.allocs + 1) (halloc : alloc s.allocs ≠ none)
  | lost (b : Buffer) (ha : a = .sendpage) (hring : s.txRing.items = b :: s'.txRing.items)
      (henqueued : s'.enqueued = s.enqueued)
      (happended : s'.appended = s.appended) (hallocs : s'.allocs = s.allocs + 1)
      (halloc : alloc s.allocs = none)

theorem TxMove.appended_le (h : TxMove alloc s a s') : s.appendedBufs <+: s'.appendedBufs := by
  cases h with
  | quiet hring henqueued happended hallocs
  | sent bufs hring henqueued happended hallocs
  | lost b ha hring henqueued happended hallocs halloc =>
    rw [Sock.appendedBufs, Sock.appendedBufs, happended]
  | appended b hring henqueued happended hallocs halloc =>
    rw [happended]
    exact prefix_append _ _

structure Filled (s : Sock) : Prop where
  ring : ∀ b ∈ s.txRing.items, 0 < b.dataLen
  sending : ∀ bufs, s.sending = some bufs → ∀ b ∈ bufs, 0 < b.dataLen
  writeSeq : s.writeSeq < 2 ^ 32

theorem SendPages.txMove (h : SendPages alloc s r) (hfilled : Filled s) (inLoop : Bool) :
    TxMove alloc s .sendpage { r.1 with inLoop := inLoop } ∧
      Filled { r.1 with inLoop := inLoop } := by
  cases h with
  | refused skErr ret hskErr hret =>
    exact ⟨.quiet rfl rfl rfl rfl, hfilled.ring, hfilled.sending, hfilled.writeSeq⟩
  | appended b ring truesize hring halloc =>
    refine ⟨.appended b hring rfl ?_ rfl (by rw [halloc]; nofun), ?_,
      hfilled.sending, Nat.mod_lt _ (by decide)⟩
    · simp [skbEntail, Sock.appendedBufs]
    · intro x hx
      exact hfilled.ring x (by rw [hring]; exact mem_cons_of_mem _ hx)
  | lost b ring hring halloc =>
    refine ⟨.lost b rfl hring rfl rfl rfl halloc, ?_, hfilled.sending, hfilled.writeSeq⟩
    intro x hx
    exact hfilled.ring x (by rw [hring]; exact mem_cons_of_mem _ hx)

theorem enqueue_txMove {bufs : List Buffer} (hfilled : Filled s) (hsending : s.sending = some bufs)
    (h : txStep alloc s .enqueue = some s') : TxMove alloc s .enqueue s' ∧ Filled s' := by
  simp only [txStep, hsending] at h
  cases hring : s.txRing.enqueueBulk bufs with
  | none =>
    rw [hring] at h
    cases h
    exact ⟨.quiet rfl rfl rfl rfl, hfilled.ring, nofun, hfilled.writeSeq⟩
  | some ring =>
    rw [hring] at h
    cases h
    have hitems := Ring.items_of_enqueueBulk hring
    refine ⟨.sent bufs hitems rfl rfl rfl, ?_, nofun, hfilled.writeSeq⟩
    intro b hb
    rw [hitems] at hb
    rcases mem_append.mp hb with hb | hb
    · exact hfilled.ring b hb
    · exact hfilled.sending bufs hsending b hb

theorem txStep_txMove (hfilled : Filled s)
    (h : txStep alloc s a = some s') : TxMove alloc s a s' ∧ Filled s' := by
  cases a with
  | fill data freeBufs txSpace =>
    simp only [txStep] at h
    split at h
    · cases h
    · obtain ⟨bufs, hbufs, rfl⟩ := Option.map_eq_some_iff.mp h
      refine ⟨.quiet rfl rfl rfl rfl, hfilled.ring, ?_, hfilled.writeSeq⟩
      rintro _ ⟨rfl⟩
      exact lightSend_pos hbufs
  | enqueue =>
    cases hsending : s.sending with
    | none => simp [txStep, hsending] at h
    | some bufs => exact enqueue_txMove hfilled hsending h
  | sendpage =>
    simp only [txStep] at h
    split at h
    · split at h
      · cases h
        exact (doTcpSendpages_sendPages hfilled.ring).txMove hfilled _
      · cases h
        exact ⟨.quiet rfl rfl rfl rfl, hfilled.ring, hfilled.sending, hfilled.writeSeq⟩
    · cases h
  | opportunity | release n | setSndbuf n =>
    simp only [txStep] at h
    split at h
    · cases h
    · cases h
      exact ⟨.quiet rfl rfl rfl rfl, hfilled.ring, hfilled.sending, hfilled.writeSeq⟩

structure SameConn (s s' : Sock) : Prop where
  state : s'.state = s.state
  sendShutdown : s'.sendShutdown = s.sendShutdown
  hasSocket : s'.hasSocket = s.hasSocket
  skErr : s'.skErr ≤ s.skErr

theorem SameConn.ready {k k' : Sock} (h : SameConn k k') (hready : Ready k) : Ready k' := by
  refine ⟨?_, ?_, ?_, ?_⟩
  · rw [h.state]
    exact hready.state
  · exact Nat.le_zero.mp (hready.skErr ▸ h.skErr)
  · rw [h.sendShutdown]
    exact hready.sendShutdown
  · rw [h.hasSocket]
    exact hready.hasSocket

theorem SendPages.sameConn (h : SendPages alloc s r)
    (inLoop : Bool) : SameConn s { r.1 with inLoop := inLoop } := by
  cases h with
  | refused skErr ret hskErr hret => exact ⟨rfl, rfl, rfl, hskErr⟩
  | appended b ring truesize hring halloc => exact ⟨rfl, rfl, rfl, Nat.le_refl _⟩
  | lost b ring hring halloc => exact ⟨rfl, rfl, rfl, Nat.le_refl _⟩

theorem txStep_sameConn (hfilled : Filled s) (h : txStep alloc s a = some s') : SameConn s s' := by
  cases a with
  | fill data freeBufs txSpace =>
    simp only [txStep] at h
    split at h
    · cases h
    · obtain ⟨bufs, hbufs, rfl⟩ := Option.map_eq_some_iff.mp h
      exact ⟨rfl, rfl, rfl, Nat.le_refl _⟩
  | enqueue =>
    simp only [txStep] at h
    split at h
    · cases h
    · split at h <;> cases h <;> exact ⟨rfl, rfl, rfl, Nat.le_refl _⟩
  | sendpage =>
    simp only [txStep] at h
    split at h
    · split at h
      · cases h
        exact (doTcpSendpages_sendPages hfilled.ring).sameConn _
      · cases h
        exact ⟨rfl, rfl, rfl, Nat.le_refl _⟩
    · cases h
  | opportunity | release n | setSndbuf n =>
    simp only [txStep] at h
    split at h
    · cases h
    · cases h
      exact ⟨rfl, rfl, rfl, Nat.le_refl _⟩

theorem sendpage_appends (hfilled : Filled s) (hready : Ready s) (hwspace : 0 < s.wspace)
    (hring : s.txRing.items = b :: ring.items) (halloc : alloc s.allocs ≠ none)
    (h : txStep alloc s .sendpage = some s') : s'.appendedBufs = s.appendedBufs ++ [b] := by
  have hb : 0 < b.dataLen := hfilled.ring b (by rw [hring]; exact mem_cons_self)
  obtain ⟨truesize, halloc⟩ := Option.ne_none_iff_exists'.mp halloc
  simp only [txStep, if_pos hwspace, doTcpSendpages_cons hready hring hb,
    packBuffers_appended halloc] at h
  split at h
  · cases h
    simp [skbEntail, Sock.appendedBufs]
  · cases h

inductive Action where
  | tx (a : TxAction)
  | conn (state : TcpState) (skErr : Nat) (sendShutdown hasSocket : Bool) (closeSignal : Nat)

def step (alloc : Nat → Option Nat) (s : Sock) : Action → Option Sock
  | .tx a => txStep alloc s a
  | .conn state skErr sendShutdown hasSocket closeSignal =>
    if s.inLoop then none
    else some { s with
      state := state
      skErr := skErr
      sendShutdown := sendShutdown
      hasSocket := hasSocket
      closeSignal := closeSignal }

def sendSystem (alloc : Nat → Option Nat) : TransitionSystem Sock Action where
  init s := ∃ isn sndbuf, isn < 2 ^ 32 ∧ s = Sock.start isn sndbuf
  step := step alloc

def AllocsOk (alloc : Nat → Option Nat) (s : Sock) : Prop := ∀ n < s.allocs, alloc n ≠ none

structure SentOnce (s : Sock) : Prop where
  inOrder : bytesOf s.appendedBufs <+: bytesOf s.enqueued
  once : s.appendedBufs ++ s.txRing.items = s.enqueued

structure Tracked (alloc : Nat → Option Nat) (s : Sock) : Prop where
  filled : Filled s
  once : AllocsOk alloc s → s.appendedBufs ++ s.txRing.items = s.enqueued
  missing : ¬ AllocsOk alloc s → s.appendedBufs.length + s.txRing.items.length < s.enqueued.length

theorem allocsOk_succ (alloc : Nat → Option Nat) (hallocs : s'.allocs = s.allocs + 1) :
    AllocsOk alloc s' ↔ AllocsOk alloc s ∧ alloc s.allocs ≠ none := by
  unfold AllocsOk
  rw [hallocs]
  constructor
  · intro h
    exact ⟨fun n hn => h n (Nat.lt_succ_of_lt hn), h _ (Nat.lt_succ_self _)⟩
  · rintro ⟨h, hlast⟩ n hn
    rcases Nat.lt_succ_iff_lt_or_eq.mp hn with hn | rfl
    · exact h n hn
    · exact hlast

theorem TxMove.tracked (hmove : TxMove alloc s a s')
    (h : Tracked alloc s) (hfilled : Filled s') : Tracked alloc s' := by
  cases hmove with
  | quiet hring henqueued happended hallocs =>
    have hok : AllocsOk alloc s' ↔ AllocsOk alloc s := by
      unfold AllocsOk
      rw [hallocs]
    refine ⟨hfilled, ?_, ?_⟩
    · rw [hok, Sock.appendedBufs, happended, hring, henqueued]
      exact h.once
    · rw [hok, Sock.appendedBufs, happended, hring, henqueued]
      exact h.missing
  | sent bufs hring henqueued happended hallocs =>
    have hok : AllocsOk alloc s' ↔ AllocsOk alloc s := by
      unfold AllocsOk
      rw [hallocs]
    refine ⟨hfilled, ?_, ?_⟩
    · rw [hok, Sock.appendedBufs, happended, hring, henqueued, ← append_assoc]
      intro hall
      rw [← h.once hall, Sock.appendedBufs]
    · rw [hok, Sock.appendedBufs, happended, hring, henqueued]
      intro hsome
      have hlt := h.missing hsome
      simp only [Sock.appendedBufs] at hlt
      simp only [length_append]
      omega
  | appended b hring henqueued happended hallocs halloc =>
    have hok := allocsOk_succ alloc hallocs
    refine ⟨hfilled, ?_, ?_⟩
    · rw [hok, happended, henqueued, append_assoc]
      rintro ⟨hall, _⟩
      rw [← h.once hall, hring]
      rfl
    · rw [hok, happended, henqueued]
      intro hsome
      have hlt := h.missing fun hall => hsome ⟨hall, halloc⟩
      rw [hring] at hlt
      simp only [length_append, length_cons, length_nil] at hlt ⊢
      omega
  | lost b ha hring henqueued happended hallocs halloc =>
    have hok := allocsOk_succ alloc hallocs
    refine ⟨hfilled, fun hall => absurd halloc (hok.mp hall).2, fun _ => ?_⟩
    have hle : s.appendedBufs.length + s.txRing.items.length ≤ s.enqueued.length := by
      by_cases hall : AllocsOk alloc s
      · exact Nat.le_of_eq (by rw [← h.once hall, length_append])
      · exact Nat.le_of_lt (h.missing hall)
    rw [henqueued, Sock.appendedBufs, happended]
    rw [hring, Sock.appendedBufs] at hle
    simp only [length_cons] at hle
    omega

theorem step_tracked {a : Action} (h : Tracked alloc s)
    (hstep : step alloc s a = some s') : Tracked alloc s' := by
  cases a with
  | tx a =>
    obtain ⟨hmove, hfilled⟩ := txStep_txMove h.filled hstep
    exact hmove.tracked h hfilled
  | conn state skErr sendShutdown hasSocket closeSignal =>
    simp only [step] at hstep
    split at hstep
    · cases hstep
    · cases hstep
      exact ⟨⟨h.filled.ring, h.filled.sending, h.filled.writeSeq⟩, h.once, h.missing⟩

theorem tracked_start {isn : Nat} (hisn : isn < 2 ^ 32) (sndbuf : Int) :
    Tracked alloc (Sock.start isn sndbuf) :=
  ⟨⟨nofun, nofun, hisn⟩, fun _ => rfl, fun h => absurd nofun h⟩

theorem Tracked.sentOnce_iff (h : Tracked alloc s) : SentOnce s ↔ AllocsOk alloc s := by
  constructor
  · intro hsent
    by_contra hsome
    have hlt := h.missing hsome
    rw [← hsent.once, length_append] at hlt
    exact Nat.lt_irrefl _ hlt
  · intro hall
    refine ⟨?_, h.once hall⟩
    rw [← h.once hall]
    exact ⟨bytesOf s.txRing.items, by simp [bytesOf]⟩

/-- The buffers sent reach the write queue once and in order exactly as long as every allocation
succeeds. -/
theorem sent_once_iff_allocs_ok (alloc : Nat → Option Nat) {s : Sock}
    (hreach : (sendSystem alloc).Reachable s) :
    (SentOnce s ↔ ∀ n < s.allocs, alloc n ≠ none) ∧
      ∃ bytes, Appends s (doTcpSendpages alloc s) bytes := by
  have htracked : Tracked alloc s := by
    refine hreach.invariant ?_ ?_
    · rintro _ ⟨isn, sndbuf, hisn, rfl⟩
      exact tracked_start hisn sndbuf
    · intro s a t hs hstep
      exact step_tracked hs hstep
  exact ⟨htracked.sentOnce_iff, (doTcpSendpages_sendPages htracked.filled.ring).appends
      htracked.filled.writeSeq⟩

def twoSends : List Action :=
  [.tx (.fill [1, 2] 10 1000000), .tx .enqueue, .tx (.fill [3] 10 1000000),
    .tx .enqueue, .tx .opportunity, .tx .sendpage]

theorem sent_once_twoSends : ∃ s, (sendSystem fun _ => some 768).Reachable s ∧
      bytesOf s.appendedBufs = [1, 2] ∧ SentOnce s := by
  obtain ⟨s, hreach, htest⟩ := TransitionSystem.exists_reachable
    (sendSystem fun _ => some 768) (Sock.start 5 100000) twoSends
    (P := fun s => bytesOf s.appendedBufs = [1, 2]) ⟨5, 100000, by decide, rfl⟩
    (by decide)
  refine ⟨s, hreach, htest, ?_⟩
  exact (sent_once_iff_allocs_ok _ hreach).1.mpr fun _ _ => nofun

theorem sent_lost_on_failed_alloc :
    ∃ s, (sendSystem fun n => if n = 0 then none else some 768).Reachable s ∧
      ¬ SentOnce s := by
  obtain ⟨s, hreach, htest⟩ := TransitionSystem.exists_reachable
    (sendSystem fun n => if n = 0 then none else some 768)
    (Sock.start 5 100000) twoSends
    (P := fun s => s.appendedBufs ++ s.txRing.items ≠ s.enqueued)
    ⟨5, 100000, by decide, rfl⟩ (by decide)
  exact ⟨s, hreach, fun h => htest h.once⟩

end LightStack.Tx.Send
