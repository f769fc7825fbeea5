import LightStack.Tx.Flow.Model

/-!
# The send credit of a datagram socket

The driver that frees the buffers returns no credit.
-/

namespace LightStack.Tx.Udp

open Lib
open Tx.Flow (Config defaultConfig)
open Tx.Send (payloadMax bufCount)

structure State where
  txSpace : Int
  ring : Ring Nat 1023
  inFlight : Nat
  senders : List Nat
  sndbuf : Int
  poolEmpty : Nat
  notified : Bool

/-! ## `light_sendto` -/

def getSocketTxSpace (s : State) (freeBufs : Nat) : Int :=
  min (min s.ring.freeCount freeBufs) (s.txSpace.tdiv payloadMax)

def fillLengths : Nat → Nat → List Nat
  | 0, _ => []
  | count + 1, nbytes =>
    if payloadMax < nbytes then payloadMax :: fillLengths count (nbytes - payloadMax)
    else [nbytes]

def sendto (s : State) (nbytes freeBufs : Nat) (got posted : Bool) : Option State :=
  let space := getSocketTxSpace s freeBufs
  let count := bufCount nbytes space
  if space = 0 ∨ count < 0 then none
  else if got then
    let lengths := fillLengths count.toNat nbytes
    match s.ring.enqueueBulk lengths with
    | none => some s
    | some ring => some { s with ring := ring, senders := lengths.sum :: s.senders }
  else if posted then some { s with poolEmpty := s.poolEmpty + 1 }
  else some s

def burst (s : State) (n : Nat) : State :=
  { s with ring := .empty, inFlight := s.inFlight + min n s.ring.count }

def setTxSpace (s : State) : State := { s with txSpace := s.sndbuf }

def setsockopt (cfg : Config) (s : State) : Flow.Sock.Opt → State
  | .sndbuf val => { s with sndbuf := cfg.sndbufFor (min (val % 2 ^ 32) cfg.wmemMax) }
  | .sndbufForce val => { s with sndbuf := cfg.sndbufFor val }
  | .other => s

inductive Action where
  | sendto (nbytes freeBufs : Nat) (got posted : Bool)
  | subtract (bytes : Nat)
  | burst (n : Nat)
  | free
  | poolEmpty
  | notify (marked : Bool)
  | setsockopt (opt : Flow.Sock.Opt)

def step (cfg : Config) (s : State) : Action → Option State
  | .sendto nbytes freeBufs got posted => sendto s nbytes freeBufs got posted
  | .subtract bytes =>
    if bytes ∈ s.senders then
      some { s with txSpace := s.txSpace - bytes, senders := s.senders.erase bytes }
    else none
  | .burst n => some (burst s n)
  | .free => if 0 < s.inFlight then some { s with inFlight := s.inFlight - 1 } else none
  | .poolEmpty =>
    if 0 < s.poolEmpty then
      let s := { s with poolEmpty := s.poolEmpty - 1 }
      some (if s.notified then s else setTxSpace { s with notified := true })
    else none
  | .notify marked =>
    if s.notified then some (setTxSpace { s with notified := !marked }) else none
  | .setsockopt opt => some (setTxSpace (setsockopt cfg s opt))

structure Start (s : State) : Prop where
  txSpace : s.txSpace = s.sndbuf
  ring : s.ring.items = []
  inFlight : s.inFlight = 0
  senders : s.senders = []
  poolEmpty : s.poolEmpty = 0
  notified : s.notified = false

def system (cfg : Config) : TransitionSystem State Action where
  init := Start
  step := step cfg

def AllFree (s : State) : Prop := s.ring.items = [] ∧ s.inFlight = 0 ∧ s.senders = []

instance (s : State) : Decidable (AllFree s) := inferInstanceAs (Decidable (_ ∧ _ ∧ _))

def setsCredit (s : State) : Action → Bool
  | .poolEmpty => !s.notified
  | .notify _ => true
  | .setsockopt _ => true
  | _ => false

def taken : Action → Nat
  | .subtract bytes => bytes
  | _ => 0

def owedAfter (s : State) (owed : Nat) (a : Action) : Nat :=
  if setsCredit s a then 0 else owed + taken a

def unreturned (cfg : Config) : State → Nat → List Action → Nat
  | _, owed, [] => owed
  | s, owed, a :: rest =>
    match step cfg s a with
    | none => owed
    | some t => unreturned cfg t (owedAfter s owed a) rest

def Owes (s : State) (owed : Nat) : Prop := s.txSpace = s.sndbuf - owed

variable {s t : State} {owed : Nat} {cfg : Config}

theorem Owes.subtract {bytes : Nat} {senders : List Nat} (h : Owes s owed) :
    Owes { s with txSpace := s.txSpace - bytes, senders := senders } (owed + bytes) := by
  unfold Owes at h ⊢
  change s.txSpace - bytes = s.sndbuf - (owed + bytes : Nat)
  omega

theorem owes_setTxSpace (s : State) : Owes (setTxSpace s) 0 := by simp [Owes, setTxSpace]

theorem Owes.sendto {nbytes freeBufs : Nat} {got posted : Bool}
    (h : Owes s owed) (hstep : sendto s nbytes freeBufs got posted = some t) : Owes t owed := by
  unfold Udp.sendto at hstep
  dsimp only at hstep
  split at hstep
  · cases hstep
  · split at hstep
    · split at hstep
      · cases hstep
        exact h
      · cases hstep
        exact h
    · split at hstep
      · cases hstep
        exact h
      · cases hstep
        exact h

theorem Owes.step {a : Action} (h : Owes s owed)
    (hstep : step cfg s a = some t) : Owes t (owedAfter s owed a) := by
  cases a with
  | sendto nbytes freeBufs got posted => exact h.sendto hstep
  | subtract bytes =>
    obtain ⟨hmem, rfl⟩ := of_guard hstep
    exact h.subtract
  | burst n =>
    cases hstep
    exact h
  | free =>
    obtain ⟨hflight, rfl⟩ := of_guard hstep
    exact h
  | poolEmpty =>
    obtain ⟨hcommand, rfl⟩ := of_guard hstep
    unfold owedAfter setsCredit
    by_cases hnotified : s.notified = true
    · simp only [hnotified, if_true]
      exact h
    · simp only [hnotified]
      exact owes_setTxSpace _
  | notify marked =>
    obtain ⟨hnotified, rfl⟩ := of_guard hstep
    exact owes_setTxSpace _
  | setsockopt opt =>
    cases hstep
    exact owes_setTxSpace _

theorem Owes.exec {run : List Action} (h : Owes s owed)
    (hrun : (system cfg).exec s run = some t) : Owes t (unreturned cfg s owed run) := by
  induction run generalizing s owed with
  | nil =>
    cases hrun
    exact h
  | cons a rest ih =>
    obtain ⟨u, hstep, hrest⟩ := Option.bind_eq_some_iff.mp hrun
    have hstep' : Udp.step cfg s a = some u := hstep
    simp only [unreturned, hstep']
    exact ih (h.step hstep) hrest

theorem getSocketTxSpace_pos {freeBufs : Nat} (hring : s.ring.items = [])
    (hcredit : payloadMax ≤ s.txSpace) (hfree : 0 < freeBufs) :
    0 < getSocketTxSpace s freeBufs := by
  have hcount : s.ring.freeCount = 1023 := by simp [Ring.freeCount, Ring.count, hring]
  have hdiv : 0 < s.txSpace.tdiv payloadMax := by
    rw [Int.tdiv_eq_ediv_of_nonneg (by unfold payloadMax at hcredit; omega)]
    unfold payloadMax at hcredit ⊢
    omega
  unfold getSocketTxSpace
  rw [hcount]
  omega

/-- When every buffer is free, `tx_space` is back to the size of the send buffer exactly if nothing
was taken off it after the last step that set it. -/
theorem udp_credit_returned_iff (cfg : Config) (s t : State) (run : List Action) (hstart : Start s)
    (hrun : (system cfg).exec s run = some t) (hfree : AllFree t) :
    (t.txSpace = t.sndbuf ↔ unreturned cfg s 0 run = 0) ∧
      (unreturned cfg s 0 run = 0 → payloadMax ≤ t.sndbuf →
        ∀ freeBufs, 0 < freeBufs → 0 < getSocketTxSpace t freeBufs) := by
  have howes : Owes s 0 := by simp [Owes, hstart.txSpace]
  have hend : t.txSpace = t.sndbuf - unreturned cfg s 0 run := howes.exec hrun
  refine ⟨?_, fun hnone hsize freeBufs hbufs => ?_⟩
  · constructor
    · intro hback
      omega
    · intro hnone
      omega
  · exact getSocketTxSpace_pos hfree.1 (by omega) hbufs

structure Waits (s : State) : Prop where
  credit : s.txSpace.tdiv payloadMax = 0
  senders : s.senders = []
  poolEmpty : s.poolEmpty = 0
  notified : s.notified = false

theorem Waits.getSocketTxSpace (h : Waits s) (freeBufs : Nat) :
    getSocketTxSpace s freeBufs = 0 := by
  unfold Udp.getSocketTxSpace
  rw [h.credit]
  omega

theorem Waits.step {a : Action} (h : Waits s)
    (ha : ∀ opt, a ≠ .setsockopt opt) (hstep : step cfg s a = some t) : Waits t := by
  cases a with
  | sendto nbytes freeBufs got posted => simp [Udp.step, sendto, h.getSocketTxSpace] at hstep
  | subtract bytes => simp [Udp.step, h.senders] at hstep
  | burst n =>
    cases hstep
    exact ⟨h.credit, h.senders, h.poolEmpty, h.notified⟩
  | free =>
    obtain ⟨hflight, rfl⟩ := of_guard hstep
    exact ⟨h.credit, h.senders, h.poolEmpty, h.notified⟩
  | poolEmpty => simp [Udp.step, h.poolEmpty] at hstep
  | notify marked => simp [Udp.step, h.notified] at hstep
  | setsockopt opt => exact absurd rfl (ha opt)

theorem Waits.exec {run : List Action} (h : Waits s) (hrun : ∀ a ∈ run, ∀ opt, a ≠ .setsockopt opt)
    (hexec : (system cfg).exec s run = some t) : Waits t := by
  induction run generalizing s with
  | nil =>
    cases hexec
    exact h
  | cons a rest ih =>
    obtain ⟨u, hstep, hrest⟩ := Option.bind_eq_some_iff.mp hexec
    have hu := h.step (hrun a List.mem_cons_self) hstep
    exact ih hu (fun b hb => hrun b (List.mem_cons_of_mem a hb)) hrest

def opened : State where
  txSpace := 212992
  ring := .empty
  inFlight := 0
  senders := []
  sndbuf := 212992
  poolEmpty := 0
  notified := false

theorem start_opened : Start opened := ⟨rfl, rfl, rfl, rfl, rfl, rfl⟩

def sentAndFreed (n count : Nat) : List Action :=
  [Action.sendto n 4096 true false, .subtract n, .burst count] ++ List.replicate count Action.free

theorem udp_credit_returned_notified : ∃ t, (system defaultConfig).exec opened
        (sentAndFreed 1000 1 ++ [.sendto 1000 1 false true, .poolEmpty, .notify true]) = some t ∧
      AllFree t ∧ t.txSpace = t.sndbuf ∧ 0 < getSocketTxSpace t 1 := by
  obtain ⟨t, hrun, htest⟩ := (Option.any_eq_true _ _).mp (show ((system defaultConfig).exec opened
      (sentAndFreed 1000 1 ++ [.sendto 1000 1 false true, .poolEmpty, .notify true])).any
        (fun t => decide (AllFree t ∧ payloadMax ≤ t.sndbuf)) = true by decide +kernel)
  obtain ⟨hfree, hsize⟩ := of_decide_eq_true htest
  have hback := udp_credit_returned_iff defaultConfig opened t _ start_opened hrun hfree
  have hnone : unreturned defaultConfig opened 0
      (sentAndFreed 1000 1 ++ [.sendto 1000 1 false true, .poolEmpty, .notify true]) = 0 := by
    decide +kernel
  exact ⟨t, hrun, hfree, hback.1.mpr hnone, hback.2 hnone hsize 1 Nat.one_pos⟩

theorem udp_credit_exhausted :
    ∃ t, (system defaultConfig).exec opened (sentAndFreed (147 * 1448) 147) = some t ∧
      AllFree t ∧ t.txSpace ≠ t.sndbuf ∧
      ∀ run u, (∀ a ∈ run, ∀ opt, a ≠ .setsockopt opt) →
        (system defaultConfig).exec t run = some u →
          ∀ freeBufs, getSocketTxSpace u freeBufs = 0 := by
  obtain ⟨t, hrun, htest⟩ := (Option.any_eq_true _ _).mp
    (show ((system defaultConfig).exec opened (sentAndFreed (147 * 1448) 147)).any
      (fun t => decide (AllFree t ∧ t.txSpace ≠ t.sndbuf ∧ t.txSpace.tdiv payloadMax = 0 ∧
        t.poolEmpty = 0 ∧ t.notified = false)) = true by decide +kernel)
  obtain ⟨hfree, hshort, hcredit, hpool, hnotified⟩ := of_decide_eq_true htest
  have hwaits : Waits t := ⟨hcredit, hfree.2.2, hpool, hnotified⟩
  refine ⟨t, hrun, hfree, hshort, fun run u hrun' hexec freeBufs => ?_⟩
  exact (hwaits.exec hrun' hexec).getSocketTxSpace freeBufs

end LightStack.Tx.Udp
