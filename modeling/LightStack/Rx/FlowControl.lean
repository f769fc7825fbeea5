import LightStack.Lib.Transition
import Mathlib

/-!
# How much received data the stack holds

While the `rx_ring` is full, what the peer sends stays in the stack; the chain of `ucopy` is charged
to nobody.
-/

namespace LightStack.Rx.FlowControl

open Lib

structure State where
  rcvbuf : Nat
  rmemMax : Nat
  rmemAlloc : Nat
  forwardAlloc : Nat
  queued : Nat
  ucopied : Nat
  ucopyLen : Nat
  copiedSeq : Nat
  rcvNxt : Nat
  urgData : Bool
  rcvWup : Nat
  rcvWnd : Nat
  offered : Nat
  rcvWscale : Nat
  rcvMss : Nat
  advMss : Nat
  rcvSsthresh : Nat
  windowClamp : Nat
  advWinScale : Int
  signedWindows : Bool

structure Segment where
  len : Nat
  truesize : Nat
  predicted : Bool
  urgent : Bool
  deriving DecidableEq

structure Memory where
  pages : Bool
  clamps : Bool
  collapsed : Nat
  pagesAfter : Bool
  deriving DecidableEq

def State.inside (s : State) : Nat := s.queued + s.ucopied

/-! ## Windows -/

def tcpReceiveWindow (s : State) : Nat := s.rcvWup + s.rcvWnd - s.rcvNxt

def tcpWinFromSpace (scale space : Int) : Int :=
  if scale ≤ 0 then space >>> (-scale).toNat else space - space >>> scale.toNat

def tcpSpace (s : State) : Int := tcpWinFromSpace s.advWinScale (s.rcvbuf - s.rmemAlloc)

def tcpFullSpace (s : State) : Int := tcpWinFromSpace s.advWinScale s.rcvbuf

def roundWindow (s : State) (full mss free : Int) : Int :=
  if s.rcvWscale ≠ 0 then
    let scaled := free >>> s.rcvWscale
    if scaled <<< s.rcvWscale ≠ free then (scaled + 1) <<< s.rcvWscale else free
  else
    let window : Int := s.rcvWnd
    if window ≤ free - mss ∨ free < window then free / mss * mss
    else if mss = full ∧ window + full >>> 1 < free then free
    else window

def rawSelectWindow (s : State) : Int :=
  let full := min (s.windowClamp : Int) (tcpFullSpace s)
  let mss := min (s.rcvMss : Int) full
  let free := tcpSpace s
  if free < full >>> 1 ∧ free < mss then 0
  else roundWindow s full mss (min free s.rcvSsthresh)

def alignWindow (wscale win : Nat) : Nat := (win + (1 <<< wscale - 1)) >>> wscale <<< wscale

def maxWindow (s : State) : Nat :=
  if s.rcvWscale = 0 ∧ s.signedWindows then 32767 else 65535 <<< s.rcvWscale

def tcpSelectWindow (s : State) : State :=
  let cur := tcpReceiveWindow s
  let raw := (rawSelectWindow s).toNat
  let new := if raw < cur then alignWindow s.rcvWscale cur else raw
  { s with
    rcvWnd := new
    rcvWup := s.rcvNxt
    offered := s.rcvNxt + min new (maxWindow s) >>> s.rcvWscale <<< s.rcvWscale }

def skRmemSchedule (s : State) (size : Nat) (pages : Bool) : Option State :=
  if size ≤ s.forwardAlloc then some s
  else if pages then
    some { s with forwardAlloc := s.forwardAlloc + (size + 4095) / 4096 * 4096 }
  else none

def tcpClampWindow (s : State) (clamps : Bool) : State :=
  let s := if s.rcvbuf < s.rmemMax ∧ clamps then
    { s with rcvbuf := min s.rmemAlloc s.rmemMax } else s
  if s.rcvbuf < s.rmemAlloc then
    { s with rcvSsthresh := min s.windowClamp (2 * s.advMss) } else s

def tcpPruneQueue (s : State) (mem : Memory) : Option State :=
  let s := if s.rcvbuf ≤ s.rmemAlloc then tcpClampWindow s mem.clamps else s
  let s := { s with rmemAlloc := max s.queued (min s.rmemAlloc mem.collapsed) }
  if s.rmemAlloc ≤ s.rcvbuf then some s else none

def tcpTryRmemSchedule (s : State) (size : Nat) (mem : Memory) : Option State :=
  match if s.rcvbuf < s.rmemAlloc then none else skRmemSchedule s size mem.pages with
  | some t => some t
  | none => (tcpPruneQueue s mem).bind fun t => skRmemSchedule t size mem.pagesAfter

def tcpQueueRcv (s : State) (seg : Segment) : State :=
  { s with
    queued := s.queued + seg.len
    rmemAlloc := s.rmemAlloc + seg.truesize
    forwardAlloc := s.forwardAlloc - seg.truesize
    rcvNxt := s.rcvNxt + seg.len }

def copyDatagram (s : State) (seg : Segment) : State :=
  { s with
    ucopied := s.ucopied + seg.len
    copiedSeq := s.copiedSeq + seg.len
    rcvNxt := s.rcvNxt + seg.len }

def tcpCopyToIovec (s : State) (seg : Segment) : State :=
  { copyDatagram s seg with ucopyLen := s.ucopyLen - seg.len }

def tcpDataQueue (s : State) (seg : Segment) (mem : Memory) : State :=
  if tcpReceiveWindow s = 0 then s
  else if s.copiedSeq = s.rcvNxt ∧ s.urgData = false then copyDatagram s seg
  else
    match tcpTryRmemSchedule s seg.truesize mem with
    | none => s
    | some t => tcpQueueRcv t seg

inductive Route where
  -- Fast path, to `tcp_copy_to_iovec`.
  | copied
  | queued
  -- `step5`, from either path.
  | dataQueue

def route (s : State) (seg : Segment) : Route :=
  if seg.predicted then
    if s.copiedSeq = s.rcvNxt ∧ seg.len ≤ s.ucopyLen then .copied
    else if s.forwardAlloc < seg.truesize then .dataQueue
    else .queued
  else .dataQueue

def tcpUrg (s : State) (seg : Segment) : State :=
  { s with urgData := s.urgData || (!seg.predicted && seg.urgent) }

def tcpRcvEstablished (s : State) (seg : Segment) (mem : Memory) : State :=
  match route s seg with
  | .copied => tcpCopyToIovec s seg
  | .queued => tcpQueueRcv s seg
  | .dataQueue => tcpDataQueue (tcpUrg s seg) seg mem

inductive Action where
  | segment (seg : Segment) (mem : Memory)
  | ack
  | adjust (rcvbuf clamp : Nat)
  | tune (mss ssthresh : Nat)
  | transmit (forwardAlloc : Nat)

def Allowed (maxTruesize : Nat) (s : State) (seg : Segment) : Prop :=
  0 < seg.len ∧ seg.len ≤ seg.truesize ∧ seg.truesize ≤ maxTruesize ∧
    s.rcvNxt + seg.len ≤ s.offered

instance (maxTruesize : Nat) (s : State) (seg : Segment) : Decidable (Allowed maxTruesize s seg) :=
  inferInstanceAs (Decidable (_ ∧ _))

def step (maxTruesize : Nat) (s : State) : Action → Option State
  | .segment seg mem =>
    if Allowed maxTruesize s seg then some (tcpRcvEstablished s seg mem) else none
  | .ack => some (tcpSelectWindow s)
  | .adjust rcvbuf clamp => some { s with rcvbuf := rcvbuf, windowClamp := clamp }
  | .tune mss ssthresh => some { s with rcvMss := mss, rcvSsthresh := ssthresh }
  | .transmit forwardAlloc => some { s with forwardAlloc := forwardAlloc }

structure Start (s : State) : Prop where
  ucopied : s.ucopied = 0
  ucopyLen : s.ucopyLen ≤ s.rcvbuf
  queued : s.queued ≤ s.rmemAlloc
  rmemAlloc : s.rmemAlloc ≤ s.rcvbuf
  copiedSeq : s.copiedSeq + s.queued = s.rcvNxt

def system (maxTruesize : Nat) : TransitionSystem State Action where
  init := Start
  step := step maxTruesize

def ChargedOn (s : State) (seg : Segment) : Route → Prop
  | .copied => True
  | .queued => s.rmemAlloc ≤ s.rcvbuf
  | .dataQueue => s.copiedSeq ≠ s.rcvNxt ∨ (tcpUrg s seg).urgData = true

/-- Every segment is charged, and `sk_rcvbuf` is not lowered. -/
def Charged (s : State) : Action → Prop
  | .segment seg _ => ChargedOn s seg (route s seg)
  | .adjust rcvbuf _ => s.rcvbuf ≤ rcvbuf
  | _ => True

instance (s : State) (seg : Segment) : (r : Route) → Decidable (ChargedOn s seg r)
  | .copied => .isTrue trivial
  | .queued => inferInstanceAs (Decidable (_ ≤ _))
  | .dataQueue => inferInstanceAs (Decidable (_ ∨ _))

instance (s : State) (a : Action) : Decidable (Charged s a) := by
  cases a <;> dsimp only [Charged] <;> infer_instance

/-! ## The bound -/

structure Bounded (maxTruesize : Nat) (s : State) : Prop where
  chain : s.ucopied + s.ucopyLen ≤ s.rcvbuf
  queued : s.queued ≤ s.rmemAlloc
  rmemAlloc : s.rmemAlloc ≤ s.rcvbuf + maxTruesize

variable {mem : Memory}

namespace Bounded

variable {maxTruesize : Nat} {s t : State} {seg : Segment}

theorem start (h : Start s) : Bounded maxTruesize s where
  chain := by
    rw [h.ucopied, Nat.zero_add]
    exact h.ucopyLen
  queued := h.queued
  rmemAlloc := h.rmemAlloc.trans (Nat.le_add_right _ _)

section

variable (h : Bounded maxTruesize s)

include h

theorem tcpCopyToIovec (hlen : seg.len ≤ s.ucopyLen) :
    Bounded maxTruesize (tcpCopyToIovec s seg) where
  chain := by
    have hchain := h.chain
    simp only [FlowControl.tcpCopyToIovec, copyDatagram]
    omega
  queued := h.queued
  rmemAlloc := h.rmemAlloc

theorem tcpQueueRcv (hroom : s.rmemAlloc ≤ s.rcvbuf) (hlen : seg.len ≤ seg.truesize)
    (hmax : seg.truesize ≤ maxTruesize) :
    Bounded maxTruesize (tcpQueueRcv s seg) where
  chain := h.chain
  queued := Nat.add_le_add h.queued hlen
  rmemAlloc := Nat.add_le_add hroom hmax

theorem skRmemSchedule {size : Nat} {pages : Bool}
    (hschedule : skRmemSchedule s size pages = some t) :
    Bounded maxTruesize t ∧ t.rmemAlloc = s.rmemAlloc ∧ t.rcvbuf = s.rcvbuf := by
  unfold FlowControl.skRmemSchedule at hschedule
  split at hschedule
  · cases hschedule
    exact ⟨h, rfl, rfl⟩
  · split at hschedule
    · cases hschedule
      exact ⟨⟨h.chain, h.queued, h.rmemAlloc⟩, rfl, rfl⟩
    · cases hschedule

theorem tcpClampWindow (hfull : s.rcvbuf ≤ s.rmemAlloc) (clamps : Bool) :
    Bounded maxTruesize (tcpClampWindow s clamps) := by
  have hraised : ∀ u : State, Bounded maxTruesize u → Bounded maxTruesize
      (if u.rcvbuf < u.rmemAlloc then
        { u with rcvSsthresh := min u.windowClamp (2 * u.advMss) } else u) := by
    intro u hu
    split
    · exact ⟨hu.chain, hu.queued, hu.rmemAlloc⟩
    · exact hu
  unfold FlowControl.tcpClampWindow
  dsimp only
  apply hraised
  split
  · rename_i hclamp
    have hle : s.rcvbuf ≤ min s.rmemAlloc s.rmemMax := le_min hfull hclamp.1.le
    have hchain := h.chain
    have hrmem := h.rmemAlloc
    refine ⟨?_, h.queued, ?_⟩
    · show s.ucopied + s.ucopyLen ≤ min s.rmemAlloc s.rmemMax
      omega
    · show s.rmemAlloc ≤ min s.rmemAlloc s.rmemMax + maxTruesize
      omega
  · exact h

theorem tcpPruneQueue (hprune : tcpPruneQueue s mem = some t) :
    Bounded maxTruesize t ∧ t.rmemAlloc ≤ t.rcvbuf := by
  unfold FlowControl.tcpPruneQueue at hprune
  dsimp only at hprune
  have hclamped : Bounded maxTruesize
      (if s.rcvbuf ≤ s.rmemAlloc then FlowControl.tcpClampWindow s mem.clamps else s) := by
    split
    · exact h.tcpClampWindow ‹_› mem.clamps
    · exact h
  generalize (if s.rcvbuf ≤ s.rmemAlloc then FlowControl.tcpClampWindow s mem.clamps else s) = u
    at hprune hclamped
  obtain ⟨hroom, rfl⟩ := of_guard hprune
  exact ⟨⟨hclamped.chain, le_max_left _ _, hroom.trans (Nat.le_add_right _ _)⟩, hroom⟩

theorem tcpTryRmemSchedule {size : Nat} (hschedule : tcpTryRmemSchedule s size mem = some t) :
    Bounded maxTruesize t ∧ t.rmemAlloc ≤ t.rcvbuf := by
  unfold FlowControl.tcpTryRmemSchedule at hschedule
  split at hschedule
  · rename_i u hfirst
    cases hschedule
    split at hfirst
    · cases hfirst
    · rename_i hroom
      obtain ⟨hu, hrmem, hrcvbuf⟩ := h.skRmemSchedule hfirst
      exact ⟨hu, by omega⟩
  · obtain ⟨u, hprune, hsecond⟩ := Option.bind_eq_some_iff.mp hschedule
    obtain ⟨hu, hroom⟩ := h.tcpPruneQueue hprune
    obtain ⟨ht, hrmem, hrcvbuf⟩ := hu.skRmemSchedule hsecond
    exact ⟨ht, by omega⟩

theorem tcpDataQueue (hcharged : s.copiedSeq ≠ s.rcvNxt ∨ s.urgData = true)
    (hlen : seg.len ≤ seg.truesize) (hmax : seg.truesize ≤ maxTruesize) :
    Bounded maxTruesize (tcpDataQueue s seg mem) := by
  unfold FlowControl.tcpDataQueue
  split
  · exact h
  split
  · rename_i hdirect
    rcases hcharged with hseq | hurg
    · exact (hseq hdirect.1).elim
    · rw [hdirect.2] at hurg
      cases hurg
  split
  · exact h
  · rename_i t hschedule
    obtain ⟨ht, hroom⟩ := h.tcpTryRmemSchedule hschedule
    exact ht.tcpQueueRcv hroom hlen hmax

theorem tcpRcvEstablished (hallowed : Allowed maxTruesize s seg)
    (hcharged : Charged s (.segment seg mem)) :
    Bounded maxTruesize (tcpRcvEstablished s seg mem) := by
  obtain ⟨-, hlen, hmax, -⟩ := hallowed
  have hcharged : ChargedOn s seg (route s seg) := hcharged
  unfold FlowControl.tcpRcvEstablished
  cases hroute : route s seg with
  | copied =>
    refine h.tcpCopyToIovec ?_
    unfold route at hroute
    split at hroute
    · split at hroute
      · rename_i hfits
        exact hfits.2
      · split at hroute
        · cases hroute
        · cases hroute
    · cases hroute
  | queued =>
    rw [hroute] at hcharged
    exact h.tcpQueueRcv hcharged hlen hmax
  | dataQueue =>
    rw [hroute] at hcharged
    have hurg : Bounded maxTruesize (tcpUrg s seg) := ⟨h.chain, h.queued, h.rmemAlloc⟩
    exact hurg.tcpDataQueue hcharged hlen hmax

theorem step {a : Action} (hcharged : Charged s a) (hstep : step maxTruesize s a = some t) :
    Bounded maxTruesize t := by
  cases a with
  | segment seg mem =>
    obtain ⟨hallowed, rfl⟩ := of_guard hstep
    exact h.tcpRcvEstablished hallowed hcharged
  | ack | tune | transmit =>
    cases hstep
    exact ⟨h.chain, h.queued, h.rmemAlloc⟩
  | adjust rcvbuf clamp =>
    cases hstep
    have hraised : s.rcvbuf ≤ rcvbuf := hcharged
    exact ⟨h.chain.trans hraised, h.queued, h.rmemAlloc.trans (Nat.add_le_add_right hraised _)⟩

end

theorem of_reachable (hreach : (system maxTruesize).ReachableUnder Charged s) :
    Bounded maxTruesize s :=
  hreach.invariant (fun _ => start) fun _ _ _ h hcharged hstep => h.step hcharged hstep

end Bounded

/-- If `tcp_data_queue` appends no segment to the chain, none is queued on the fast path when
`sk_rcvbuf` is used up, and `sk_rcvbuf` is never lowered, the stack never holds more than twice
`sk_rcvbuf` and one segment. -/
theorem inside_bounded_by_rcvbuf (maxTruesize : Nat) (s : State)
    (hreach : (system maxTruesize).ReachableUnder Charged s) :
    s.inside ≤ 2 * s.rcvbuf + maxTruesize := by
  have h := Bounded.of_reachable hreach
  have hchain := h.chain
  have hqueued := h.queued
  have hrmem := h.rmemAlloc
  unfold State.inside
  omega

def afterSegments (n : Nat) : State where
  rcvbuf := 87380
  rmemMax := 6291456
  rmemAlloc := 0
  forwardAlloc := 0
  queued := 0
  ucopied := 1460 * n
  ucopyLen := 87380
  copiedSeq := 1460 * n
  rcvNxt := 1460 * n
  urgData := false
  rcvWup := 1460 * n
  rcvWnd := 42340
  offered := 1460 * n + 42340
  rcvWscale := 0
  rcvMss := 1460
  advMss := 1460
  rcvSsthresh := 65535
  windowClamp := 43690
  advWinScale := 1
  signedWindows := false

def fullSegment (predicted : Bool) : Action :=
  .segment ⟨1460, 1716, predicted, false⟩ ⟨true, false, 0, true⟩

theorem inside_bounded_by_rcvbuf_filled :
    ∃ s, (system 2048).ReachableUnder Charged s ∧ (s.ucopied = 86140 ∧ s.queued = 2920) ∧
      s.inside ≤ 2 * s.rcvbuf + 2048 := by
  obtain ⟨s, hreach, htest⟩ := (system 2048).exists_reachableUnder
    Charged { afterSegments 0 with forwardAlloc := 8192 }
    ((List.replicate 60 [fullSegment true, .ack]).flatten ++ [fullSegment false])
    (P := fun s => s.ucopied = 86140 ∧ s.queued = 2920)
    ⟨rfl, by decide, by decide, by decide, rfl⟩ (by decide +kernel)
  exact ⟨s, hreach, htest, inside_bounded_by_rcvbuf 2048 s hreach⟩

theorem rawSelectWindow_afterSegments (n : Nat) : rawSelectWindow (afterSegments n) = 42340 := by
  have hspace : tcpWinFromSpace 1 87380 = 43690 := by decide
  simp [rawSelectWindow, roundWindow, tcpSpace, tcpFullSpace, afterSegments, hspace]

theorem step_afterSegments (n : Nat) : step 2048 (afterSegments n) (fullSegment false) =
      some (copyDatagram (afterSegments n) ⟨1460, 1716, false, false⟩) := by
  have hallowed : Allowed 2048 (afterSegments n) ⟨1460, 1716, false, false⟩ := by
    refine ⟨by decide, by decide, by decide, ?_⟩
    simp only [afterSegments]
    omega
  have hopen : tcpReceiveWindow (afterSegments n) ≠ 0 := by
    simp only [tcpReceiveWindow, afterSegments]
    omega
  have hdirect : (afterSegments n).copiedSeq = (afterSegments n).rcvNxt ∧
      (afterSegments n).urgData = false := ⟨rfl, rfl⟩
  have hroute : route (afterSegments n) ⟨1460, 1716, false, false⟩ = .dataQueue := rfl
  have hurg : tcpUrg (afterSegments n) ⟨1460, 1716, false, false⟩ = afterSegments n := rfl
  simp only [fullSegment, step, if_pos hallowed, tcpRcvEstablished, hroute, hurg, tcpDataQueue,
    if_neg hopen, if_pos hdirect]

theorem ack_afterSegments (n : Nat) :
    step 2048 (copyDatagram (afterSegments n) ⟨1460, 1716, false, false⟩) .ack =
      some (afterSegments (n + 1)) := by
  have hraw : (rawSelectWindow (copyDatagram (afterSegments n) ⟨1460, 1716, false, false⟩)).toNat =
      42340 := by
    have hsame : rawSelectWindow (copyDatagram (afterSegments n) ⟨1460, 1716, false, false⟩) =
        rawSelectWindow (afterSegments n) := rfl
    rw [hsame, rawSelectWindow_afterSegments]
    rfl
  have hcur : ¬ 42340 < tcpReceiveWindow (copyDatagram (afterSegments n)
      ⟨1460, 1716, false, false⟩) := by
    simp only [tcpReceiveWindow, copyDatagram, afterSegments]
    omega
  simp only [step, tcpSelectWindow, hraw, if_neg hcur]
  simp [copyDatagram, afterSegments, maxWindow, Nat.mul_succ]

theorem afterSegments_reachable (n : Nat) : (system 2048).Reachable (afterSegments n) := by
  induction n with
  | zero => exact .start ⟨rfl, by decide, by decide, by decide, rfl⟩
  | succ n ih =>
    have hexec : (system 2048).exec (afterSegments n) [fullSegment false, .ack] =
        some (afterSegments (n + 1)) := by
      simp only [TransitionSystem.exec, system, step_afterSegments, ack_afterSegments,
        Option.bind_some]
    exact TransitionSystem.Reachable.exec ih hexec

theorem inside_unbounded_on_slow_path :
    ¬ ∃ bound : Nat → Nat, ∀ s, (system 2048).Reachable s → s.inside ≤ bound s.rcvbuf := by
  rintro ⟨bound, hbound⟩
  have h := hbound _ (afterSegments_reachable (bound 87380 + 1))
  have hinside : (afterSegments (bound 87380 + 1)).inside = 0 + 1460 * (bound 87380 + 1) := rfl
  have hrcvbuf : (afterSegments (bound 87380 + 1)).rcvbuf = 87380 := rfl
  rw [hinside, hrcvbuf] at h
  omega

end LightStack.Rx.FlowControl
