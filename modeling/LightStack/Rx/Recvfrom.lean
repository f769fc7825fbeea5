import LightStack.Lib.Ring
import LightStack.Lib.Transition
import Mathlib.Data.List.Forall2

/-!
# Datagrams and `light_recvfrom`

`light_recvfrom` moves a burst of entries to a "local cache" that is the same ring.
-/

namespace LightStack.Rx.Recvfrom

open Lib List

def maxPktBurst : Nat := 32

structure SockaddrIn where
  sinAddr : Nat
  sinPort : Nat
deriving DecidableEq

structure Segment where
  data : List UInt8
  front : SockaddrIn
deriving DecidableEq

structure Chain where
  mbuf : Segment
  next : List Segment
deriving DecidableEq

structure Datagram where
  source : SockaddrIn
  chain : Chain
deriving DecidableEq

namespace Datagram

def bytes (d : Datagram) : List UInt8 := d.chain.mbuf.data ++ d.chain.next.flatMap Segment.data

def queued (d : Datagram) : Chain :=
  { d.chain with mbuf := { d.chain.mbuf with front := d.source } }

end Datagram

structure Call where
  len : Nat
  addr : Bool
deriving DecidableEq

structure Reply where
  len : Nat
  retLen : Nat
  bytes : List UInt8
  source : SockaddrIn
deriving DecidableEq

inductive Pc where
  | idle
  | wait (c : Call)
  | taken (c : Call) (mbuf : Option Chain)
  | again (c : Call) (mbuf : Option Chain)
  | room (c : Call) (mbuf : Option Chain) (dequeued : Nat)
  | sized (c : Call) (mbuf : Option Chain) (dequeued : Nat)
  | holding (c : Call) (mbuf : Option Chain) (mbufs : List Chain)
  | last (c : Call) (mbuf : Option Chain)
deriving DecidableEq

structure State (cap : Nat) where
  rxRing : Ring Chain cap
  signalled : Bool
  commandPool : Bool
  commandRing : Bool
  shadow : Option Chain
  shadowNext : List Segment
  shadowLenDelivered : Nat
  pc : Pc
  fault : Bool
  arrived : List Datagram
  replies : List Reply

variable {cap : Nat}

def reply (c : Call) (mbuf : Segment) (retLen : Nat) : Reply where
  len := c.len
  retLen := min retLen c.len
  bytes := mbuf.data.take (min retLen c.len)
  source := mbuf.front

def recvShadow (s : State cap) (c : Call) : State cap :=
  match s.shadowNext with
  | [] => { s with fault := true }
  | mbuf :: next =>
    if c.addr then
      let s := { s with replies := s.replies ++ [reply c mbuf s.shadowLenDelivered] }
      match next with
      | [] => { s with shadow := none, shadowNext := [], shadowLenDelivered := 0 }
      | m :: _ => { s with shadowNext := next, shadowLenDelivered := m.data.length }
    else { s with fault := true }

/-- `free` says that the pool has a command buffer. Both globals are null pointers in an application
that has not set them: without the pool no buffer can be asked for, and a buffer that was found goes
to `command_ring`. -/
def lightRecvfrom (s : State cap) (c : Call) (free : Bool) : State cap :=
  if s.shadow.isSome then recvShadow s c
  else if s.signalled then s
  else if s.commandPool && (!free || s.commandRing) then { s with pc := .wait c }
  else { s with fault := true }

def deliver (s : State cap) (c : Call) (m : Chain) : State cap :=
  if c.addr then
    let s := { s with
      pc := .idle
      replies := s.replies ++ [reply c m.mbuf m.mbuf.data.length] }
    match m.next with
    | [] => s
    | n :: _ =>
      { s with shadow := some m, shadowNext := m.next, shadowLenDelivered := n.data.length }
  else { s with fault := true }

def proceed (s : State cap) : Option (State cap) :=
  match s.pc with
  | .idle => none
  | .wait c =>
    match s.rxRing.dequeue with
    | some (m, ring) => some { s with rxRing := ring, pc := .taken c (some m) }
    | none => if s.signalled then some { s with pc := .taken c none } else none
  | .taken c mbuf =>
    some { s with
      pc := if maxPktBurst < s.rxRing.freeCount then .room c mbuf maxPktBurst
        else .again c mbuf }
  | .again c mbuf => some { s with pc := .room c mbuf s.rxRing.freeCount }
  | .room c mbuf dequeued =>
    let dequeued := if dequeued < s.rxRing.count then dequeued else s.rxRing.count
    some { s with pc := if 0 < dequeued then .sized c mbuf dequeued else .last c mbuf }
  | .sized c mbuf dequeued =>
    let r := s.rxRing.dequeueBurst dequeued
    some { s with rxRing := r.2, pc := .holding c mbuf r.1 }
  | .holding c mbuf mbufs =>
    some { s with rxRing := s.rxRing.enqueueBurst mbufs, pc := .last c mbuf }
  | .last c (some m) => some (deliver s c m)
  | .last c none =>
    match s.rxRing.dequeue with
    | some (m, ring) => some (deliver { s with rxRing := ring } c m)
    | none => some { s with pc := .idle }

inductive Action where
  | arrive (d : Datagram)
  | signal
  | recvfrom (c : Call) (free : Bool)
  | proceed
deriving DecidableEq

def step (s : State cap) (a : Action) : Option (State cap) :=
  if s.fault then none
  else match a with
    | .arrive d =>
      (s.rxRing.enqueue d.queued).map fun ring =>
        { s with rxRing := ring, arrived := s.arrived ++ [d] }
    | .signal => some { s with signalled := true }
    | .recvfrom c free => if s.pc = .idle then some (lightRecvfrom s c free) else none
    | .proceed => proceed s

structure Start (s : State cap) : Prop where
  items_eq : s.rxRing.items = []
  shadow_eq : s.shadow = none
  pc_eq : s.pc = .idle
  fault_eq : s.fault = false
  arrived_eq : s.arrived = []
  replies_eq : s.replies = []

def system (cap : Nat) : TransitionSystem (State cap) Action where
  init := Start
  step := step

/-! ## What a receive should do -/

structure Answers (d : Datagram) (r : Reply) : Prop where
  retLen_eq : r.retLen = min d.bytes.length r.len
  bytes_eq : r.bytes = d.bytes.take r.len
  source_eq : r.source = d.source

structure Faithful (s : State cap) : Prop where
  running : s.fault = false
  in_turn : List.Forall₂ Answers (s.arrived.take s.replies.length) s.replies
  no_leftover : s.shadow = none

def Pc.burst : Pc → List Chain
  | .holding _ _ mbufs => mbufs
  | _ => []

def Pc.takesAll (count : Nat) : Pc → Bool
  | .sized _ _ dequeued => decide (count ≤ dequeued)
  | _ => true

def Undisturbed (s : State cap) : Action → Prop
  | .arrive d => d.chain.next = [] ∧ s.pc.burst = []
  | .signal => True
  | .recvfrom c free => s.signalled = false →
    (s.commandPool && (!free || s.commandRing)) = true ∧ c.addr = true
  | .proceed => s.pc.takesAll s.rxRing.count = true

instance decidableUndisturbed (s : State cap) (a : Action) : Decidable (Undisturbed s a) := by
  cases a <;> dsimp only [Undisturbed] <;> infer_instance

/-! ## Order and boundaries -/

def Pc.call : Pc → Option Call
  | .idle => none
  | .wait c | .taken c _ | .again c _ | .room c _ _ | .sized c _ _ | .holding c _ _ | .last c _ =>
    some c

def Pc.mbuf : Pc → Option Chain
  | .idle | .wait _ => none
  | .taken _ m | .again _ m | .room _ m _ | .sized _ m _ | .holding _ m _ | .last _ m => m

def pending (s : State cap) : List Chain := s.pc.mbuf.toList ++ (s.pc.burst ++ s.rxRing.items)

structure InTurn (s : State cap) (rest : List Datagram) : Prop where
  running : s.fault = false
  no_leftover : s.shadow = none
  answered : ∃ done, s.arrived = done ++ rest ∧ List.Forall₂ Answers done s.replies
  pending_eq : pending s = rest.map Datagram.queued
  single : ∀ d ∈ rest, d.chain.next = []
  fits : s.rxRing.items.length + s.pc.burst.length ≤ cap
  alone : s.pc.burst = [] ∨ s.rxRing.items = []
  addr : ∀ c ∈ s.pc.call, c.addr = true

variable {c : Call} {mbuf : Option Chain}

namespace InTurn

variable {s t : State cap} {rest : List Datagram}

theorem of_start (h : Start s) : InTurn s [] := by
  constructor
  · exact h.fault_eq
  · exact h.shadow_eq
  · exact ⟨[], h.arrived_eq, h.replies_eq ▸ .nil⟩
  · simp [pending, h.pc_eq, h.items_eq, Pc.mbuf, Pc.burst]
  · simp
  · simp [h.items_eq, h.pc_eq, Pc.burst]
  · exact .inr h.items_eq
  · simp [h.pc_eq, Pc.call]

section

variable (h : InTurn s rest)

include h

theorem faithful : Faithful s := by
  obtain ⟨done, harrived, hanswers⟩ := h.answered
  constructor
  · exact h.running
  · rw [harrived, ← hanswers.length_eq, take_left]
    exact hanswers
  · exact h.no_leftover

theorem arrive {d : Datagram} {ring : Ring Chain cap} (hsingle : d.chain.next = [])
    (hburst : s.pc.burst = []) (hring : s.rxRing.enqueue d.queued = some ring) :
    InTurn { s with rxRing := ring, arrived := s.arrived ++ [d] } (rest ++ [d]) := by
  obtain ⟨done, harrived, hanswers⟩ := h.answered
  obtain ⟨hroom, hitems⟩ := Ring.enqueue_eq_some_iff.mp hring
  have hpending := h.pending_eq
  refine { h with
    answered := ⟨done, by simp [harrived], hanswers⟩, pending_eq := ?_, single := ?_, fits := ?_
    alone := .inl hburst }
  · simp only [pending, hburst, nil_append] at hpending ⊢
    rw [hitems, ← append_assoc, hpending]
    simp
  · intro e he
    rcases mem_append.mp he with he | he
    · exact h.single e he
    · rwa [mem_singleton.mp he]
  · simpa [hburst, hitems] using Nat.succ_le_of_lt hroom

theorem of_pending {ring : Ring Chain cap} {pc : Pc}
    (hpending : pending { s with rxRing := ring, pc := pc } = pending s)
    (hcall : ∀ c ∈ pc.call, c ∈ s.pc.call) (hfits : ring.items.length + pc.burst.length ≤ cap)
    (halone : pc.burst = [] ∨ ring.items = []) : InTurn { s with rxRing := ring, pc := pc } rest :=
  { h with
    pending_eq := hpending.trans h.pending_eq
    fits := hfits
    alone := halone
    addr := fun c hc => h.addr c (hcall c hc) }

theorem deliver {m : Chain} {ring : Ring Chain cap} (hpc : s.pc.call = some c)
    (hpending : pending s = m :: ring.items) :
    ∃ rest', InTurn (deliver { s with rxRing := ring } c m) rest' := by
  have haddr : c.addr = true := h.addr c hpc
  obtain ⟨done, harrived, hanswers⟩ := h.answered
  obtain ⟨d, rest', hrest, hd, hrest'⟩ := map_eq_cons_iff.mp (h.pending_eq.symm.trans hpending)
  subst hrest
  have hsingle : d.chain.next = [] := h.single d mem_cons_self
  have hbytes : d.bytes = m.mbuf.data := by
    subst hd
    simp [Datagram.bytes, hsingle, Datagram.queued]
  have hnext : m.next = [] := by
    subst hd
    exact hsingle
  have hanswer : Answers d (reply c m.mbuf m.mbuf.data.length) := by
    constructor
    · rw [hbytes]
      rfl
    · rw [hbytes]
      simp [reply, take_eq_take_iff, Nat.min_comm]
    · subst hd
      rfl
  refine ⟨rest', ?_⟩
  unfold Recvfrom.deliver
  rw [if_pos haddr, hnext]
  exact { h with
    answered := ⟨done ++ [d], by simp [harrived], rel_append hanswers (.cons hanswer .nil)⟩
    pending_eq := by simp [pending, Pc.mbuf, Pc.burst, hrest']
    single := fun e he => h.single e (mem_cons_of_mem d he)
    fits := ring.bounded
    alone := .inl rfl
    addr := by simp [Pc.call] }

theorem recvfrom {free : Bool} (hpc : s.pc = .idle)
    (hguard : s.signalled = false →
      (s.commandPool && (!free || s.commandRing)) = true ∧ c.addr = true) :
    InTurn (lightRecvfrom s c free) rest := by
  have hshadow : ¬s.shadow.isSome = true := by simp [h.no_leftover]
  unfold lightRecvfrom
  rw [if_neg hshadow]
  by_cases hsignal : s.signalled = true
  · rw [if_pos hsignal]
    exact h
  · obtain ⟨hpool, haddr⟩ := hguard (eq_false_of_ne_true hsignal)
    rw [if_neg hsignal, if_pos hpool]
    have hpending := h.pending_eq
    refine { h with
      pending_eq := ?_, fits := s.rxRing.bounded, alone := .inl rfl, addr := ?_ }
    · rw [← hpending]
      simp [pending, hpc, Pc.mbuf, Pc.burst]
    · intro c' hc'
      rwa [← Option.some.inj hc']

theorem wait (hpc : s.pc = .wait c) (hstep : proceed s = some t) : InTurn t rest := by
  simp only [proceed, hpc] at hstep
  split at hstep
  · rename_i m ring hring
    cases hstep
    have hitems := Ring.dequeue_eq_some_iff.mp hring
    refine h.of_pending ?_ ?_ ring.bounded (.inl rfl)
    · simp [pending, hpc, hitems, Pc.mbuf, Pc.burst]
    · simp [hpc, Pc.call]
  · obtain ⟨-, rfl⟩ := of_guard hstep
    refine h.of_pending ?_ ?_ s.rxRing.bounded (.inl rfl)
    · simp [pending, hpc, Pc.mbuf, Pc.burst]
    · simp [hpc, Pc.call]

theorem read {pc pc' : Pc} {m : Option Chain} (hpc : s.pc = pc)
    (hold : pc.call = some c ∧ pc.mbuf = m ∧ pc.burst = [])
    (hnew : pc'.call = some c ∧ pc'.mbuf = m ∧ pc'.burst = []) :
    InTurn { s with pc := pc' } rest := by
  subst hpc
  obtain ⟨hcall, hmbuf, hburst⟩ := hnew
  refine h.of_pending ?_ ?_ ?_ (.inl hburst)
  · simp [pending, hmbuf, hburst, hold]
  · simp [hcall, hold]
  · simp [hburst, s.rxRing.bounded]

theorem sized {n : Nat} (hpc : s.pc = .sized c mbuf n) (hall : s.rxRing.count ≤ n) :
    InTurn { s with
      rxRing := (s.rxRing.dequeueBurst n).2
      pc := .holding c mbuf (s.rxRing.dequeueBurst n).1 } rest := by
  obtain ⟨htaken, hleft⟩ := Ring.dequeueBurst_of_le hall
  refine h.of_pending ?_ ?_ ?_ (.inr hleft)
  · simp [pending, hpc, Pc.mbuf, Pc.burst, htaken, hleft]
  · simp [hpc, Pc.call]
  · simp [Pc.burst, htaken, hleft, s.rxRing.bounded]

theorem holding {mbufs : List Chain} (hpc : s.pc = .holding c mbuf mbufs) :
    InTurn { s with rxRing := s.rxRing.enqueueBurst mbufs, pc := .last c mbuf } rest := by
  have hfits : s.rxRing.items.length + mbufs.length ≤ cap := by
    have := h.fits
    rwa [hpc] at this
  have hitems := Ring.items_enqueueBurst_of_le hfits
  have halone := h.alone
  rw [hpc] at halone
  refine h.of_pending ?_ ?_ (s.rxRing.enqueueBurst mbufs).bounded (.inl rfl)
  · simp only [pending, hpc, Pc.mbuf, Pc.burst, hitems, nil_append]
    rcases halone with hburst | hring
    · simp only [Pc.burst] at hburst
      simp [hburst]
    · simp [hring]
  · simp [hpc, Pc.call]

theorem last (hpc : s.pc = .last c mbuf) (hstep : proceed s = some t) :
    ∃ rest', InTurn t rest' := by
  have hcall : s.pc.call = some c := by simp [hpc, Pc.call]
  cases mbuf with
  | some m =>
    simp only [proceed, hpc] at hstep
    cases hstep
    refine h.deliver hcall ?_
    simp [pending, hpc, Pc.mbuf, Pc.burst]
  | none =>
    simp only [proceed, hpc] at hstep
    split at hstep
    · rename_i m ring hring
      cases hstep
      have hitems := Ring.dequeue_eq_some_iff.mp hring
      rw [← hpc]
      refine h.deliver hcall ?_
      simp [pending, hpc, Pc.mbuf, Pc.burst, hitems]
    · cases hstep
      refine ⟨rest, h.of_pending ?_ ?_ s.rxRing.bounded (.inl rfl)⟩
      · simp [pending, hpc, Pc.mbuf, Pc.burst]
      · simp [Pc.call]

theorem proceed (hguard : Undisturbed s .proceed) (hstep : proceed s = some t) :
    ∃ rest', InTurn t rest' := by
  cases hpc : s.pc with
  | idle => simp [Recvfrom.proceed, hpc] at hstep
  | wait c => exact ⟨rest, h.wait hpc hstep⟩
  | taken c mbuf =>
    simp only [Recvfrom.proceed, hpc] at hstep
    cases hstep
    split
    · exact ⟨rest, h.read hpc ⟨rfl, rfl, rfl⟩ ⟨rfl, rfl, rfl⟩⟩
    · exact ⟨rest, h.read hpc ⟨rfl, rfl, rfl⟩ ⟨rfl, rfl, rfl⟩⟩
  | again c mbuf =>
    simp only [Recvfrom.proceed, hpc] at hstep
    cases hstep
    exact ⟨rest, h.read hpc ⟨rfl, rfl, rfl⟩ ⟨rfl, rfl, rfl⟩⟩
  | room c mbuf dequeued =>
    simp only [Recvfrom.proceed, hpc] at hstep
    generalize (if dequeued < s.rxRing.count then dequeued else s.rxRing.count) = n at hstep
    cases hstep
    split
    · exact ⟨rest, h.read hpc ⟨rfl, rfl, rfl⟩ ⟨rfl, rfl, rfl⟩⟩
    · exact ⟨rest, h.read hpc ⟨rfl, rfl, rfl⟩ ⟨rfl, rfl, rfl⟩⟩
  | sized c mbuf dequeued =>
    have hall : s.rxRing.count ≤ dequeued := by simpa [Undisturbed, hpc, Pc.takesAll] using hguard
    simp only [Recvfrom.proceed, hpc] at hstep
    cases hstep
    exact ⟨rest, h.sized hpc hall⟩
  | holding c mbuf mbufs =>
    simp only [Recvfrom.proceed, hpc] at hstep
    cases hstep
    exact ⟨rest, h.holding hpc⟩
  | last c mbuf => exact h.last hpc hstep

theorem step {a : Action} (hguard : Undisturbed s a) (hstep : step s a = some t) :
    ∃ rest', InTurn t rest' := by
  unfold Recvfrom.step at hstep
  rw [if_neg (by simp [h.running])] at hstep
  cases a with
  | arrive d =>
    obtain ⟨ring, hring, rfl⟩ := Option.map_eq_some_iff.mp hstep
    exact ⟨_, h.arrive hguard.1 hguard.2 hring⟩
  | signal =>
    cases hstep
    exact ⟨rest, { h with }⟩
  | recvfrom c free =>
    obtain ⟨hpc, rfl⟩ := of_guard hstep
    exact ⟨rest, h.recvfrom hpc hguard⟩
  | proceed => exact h.proceed hguard hstep

end

end InTurn

/-- If calls are undisturbed, none faults, and the `k`-th that returns data has received the `k`-th
datagram, as far as it has asked, with its source address. -/
theorem recvfrom_faithful (s : State cap)
    (hreach : (system cap).ReachableUnder Undisturbed s) : Faithful s := by
  have hturn : ∃ rest, InTurn s rest := by
    apply hreach.invariant
    · intro s hinit
      exact ⟨[], InTurn.of_start hinit⟩
    · rintro s a t ⟨rest, hs⟩ hguard hstep
      exact hs.step hguard hstep
  obtain ⟨rest, hrest⟩ := hturn
  exact hrest.faithful

def fresh (commandPool commandRing : Bool) : State 1023 where
  rxRing := .empty
  signalled := false
  commandPool := commandPool
  commandRing := commandRing
  shadow := none
  shadowNext := []
  shadowLenDelivered := 0
  pc := .idle
  fault := false
  arrived := []
  replies := []

theorem fresh_start (commandPool commandRing : Bool) : Start (fresh commandPool commandRing) :=
  ⟨rfl, rfl, rfl, rfl, rfl, rfl⟩

def single (port : Nat) (data : List UInt8) : Datagram := ⟨⟨0x0a000001, port⟩, ⟨⟨data, ⟨0, 0⟩⟩, []⟩⟩

def upTo (len i : Nat) : List Action := .recvfrom ⟨len, true⟩ true :: List.replicate i .proceed

theorem recvfrom_faithful_two_calls : ∃ s, (system 1023).ReachableUnder Undisturbed s ∧
      s.replies = [⟨2, 2, [1, 2], ⟨0x0a000001, 7⟩⟩, ⟨9, 1, [4], ⟨0x0a000001, 8⟩⟩] ∧
      s.arrived.length = 3 ∧ Faithful s := by
  obtain ⟨s, hreach, hreplies, harrived⟩ :=
    (system 1023).exists_reachableUnder Undisturbed (fresh true true)
    ([Action.arrive (single 7 [1, 2, 3]), .arrive (single 8 [4])] ++ upTo 2 6 ++
      [Action.arrive (single 9 [5])] ++ upTo 9 6)
    (P := fun s => s.replies =
      [⟨2, 2, [1, 2], ⟨0x0a000001, 7⟩⟩, ⟨9, 1, [4], ⟨0x0a000001, 8⟩⟩] ∧ s.arrived.length = 3)
    (fresh_start true true) (by decide +kernel)
  exact ⟨s, hreach, hreplies, harrived, recvfrom_faithful s hreach⟩

/-- A call without the pool, or with a command buffer and without the ring; a datagram of two mbufs;
and an arrival between the two halves of a burst. -/
theorem recvfrom_unfaithful : (∀ pool ring, (pool && ring) = false →
      ∃ s, (system 1023).Reachable s ∧ s.commandPool = pool ∧ s.commandRing = ring ∧
        s.arrived = [single 7 [1]] ∧ s.replies = [] ∧ ¬Faithful s) ∧
    (∃ s, (system 1023).Reachable s ∧
      s.arrived = [⟨⟨0x0a000001, 7⟩, ⟨⟨[1, 2], ⟨0, 0⟩⟩, [⟨[3], ⟨0, 0⟩⟩]⟩⟩, single 8 [4]] ∧
      s.replies = [⟨9, 2, [1, 2], ⟨0x0a000001, 7⟩⟩, ⟨9, 1, [3], ⟨0, 0⟩⟩] ∧ ¬Faithful s) ∧
    ∃ s, (system 1023).Reachable s ∧
      s.arrived = [single 7 [1], single 8 [2], single 9 [3]] ∧
      s.replies = [⟨9, 1, [1], ⟨0x0a000001, 7⟩⟩, ⟨9, 1, [3], ⟨0x0a000001, 9⟩⟩] ∧ ¬Faithful s := by
  refine ⟨?_, ?_, ?_⟩
  · intro pool ring hnull
    obtain ⟨s, hreach, hpool, hring, harrived, hreplies, hfault⟩ :=
      (system 1023).exists_reachable (fresh pool ring)
        [.arrive (single 7 [1]), .recvfrom ⟨9, true⟩ true]
        (P := fun s => s.commandPool = pool ∧ s.commandRing = ring ∧
          s.arrived = [single 7 [1]] ∧ s.replies = [] ∧ s.fault = true)
        (fresh_start pool ring) (by revert hnull; revert pool ring; decide +kernel)
    refine ⟨s, hreach, hpool, hring, harrived, hreplies, fun hfaithful => ?_⟩
    exact absurd (hfault.symm.trans hfaithful.running) (by decide)
  · obtain ⟨s, hreach, harrived, hreplies⟩ :=
      (system 1023).exists_reachable (fresh true true)
        ([Action.arrive ⟨⟨0x0a000001, 7⟩, ⟨⟨[1, 2], ⟨0, 0⟩⟩, [⟨[3], ⟨0, 0⟩⟩]⟩⟩,
          .arrive (single 8 [4])] ++ upTo 9 6 ++ [Action.recvfrom ⟨9, true⟩ true])
        (P := fun s =>
          s.arrived = [⟨⟨0x0a000001, 7⟩, ⟨⟨[1, 2], ⟨0, 0⟩⟩, [⟨[3], ⟨0, 0⟩⟩]⟩⟩, single 8 [4]] ∧
          s.replies = [⟨9, 2, [1, 2], ⟨0x0a000001, 7⟩⟩, ⟨9, 1, [3], ⟨0, 0⟩⟩])
        (fresh_start true true) (by decide +kernel)
    refine ⟨s, hreach, harrived, hreplies, fun hfaithful => ?_⟩
    have hturn := hfaithful.in_turn
    rw [harrived, hreplies] at hturn
    cases hturn with
    | cons hfirst _ => exact absurd hfirst.bytes_eq (by decide)
  · obtain ⟨s, hreach, harrived, hreplies⟩ := (system 1023).exists_reachable (fresh true true)
      ([Action.arrive (single 7 [1]), .arrive (single 8 [2])] ++ upTo 9 4 ++
        [Action.arrive (single 9 [3]), .proceed, .proceed] ++ upTo 9 6)
      (P := fun s => s.arrived = [single 7 [1], single 8 [2], single 9 [3]] ∧
        s.replies = [⟨9, 1, [1], ⟨0x0a000001, 7⟩⟩, ⟨9, 1, [3], ⟨0x0a000001, 9⟩⟩])
      (fresh_start true true) (by decide +kernel)
    refine ⟨s, hreach, harrived, hreplies, fun hfaithful => ?_⟩
    have hturn := hfaithful.in_turn
    rw [harrived, hreplies] at hturn
    cases hturn with
    | cons _ hrest =>
      cases hrest with
      | cons hsecond _ => exact absurd hsecond.bytes_eq (by decide)

end LightStack.Rx.Recvfrom
