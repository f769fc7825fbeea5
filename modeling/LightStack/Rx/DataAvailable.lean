import LightStack.Lib.Ring
import LightStack.Mbuf

/-!
# Handing received chains to the application

`ring_free` is decremented only when `kernel_recvmsg` gave no chain.
-/

namespace LightStack.Rx.DataAvailable

open Lib List

variable {cap : Nat}

structure Handover (cap : Nat) where
  ring : Ring RxChain cap
  backlog : List RxChain
  obtained : List RxChain
  freed : List RxChain

def budgetAfter (ringFree : Nat) (head : Option RxChain) : Nat :=
  if head.isNone then ringFree - 1 else ringFree

def submitLoop (ringFree : Nat) (ring : Ring RxChain cap) (obtained : List RxChain) :
    List RxChain → Handover cap
  | [] => ⟨ring, [], obtained, []⟩
  | c :: backlog =>
    if 0 < ringFree then
      let ringFree := budgetAfter ringFree (some c)
      match ring.enqueue c with
      | some ring => submitLoop ringFree ring (obtained ++ [c]) backlog
      | none => ⟨ring, backlog, obtained ++ [c], [c]⟩
    else ⟨ring, c :: backlog, obtained, []⟩

def userDataAvailableCbk (ring : Ring RxChain cap) (backlog : List RxChain) : Handover cap :=
  submitLoop ring.freeCount ring [] backlog

structure Handover.Complete (h : Handover cap) (ring : Ring RxChain cap) :
    Prop where
  inRing : h.ring.items = ring.items ++ h.obtained
  noneFreed : h.freed = []

theorem submitLoop_zero (ring : Ring RxChain cap) (obtained backlog : List RxChain) :
    submitLoop 0 ring obtained backlog = ⟨ring, backlog, obtained, []⟩ := by
  cases backlog <;> simp [submitLoop]

theorem submitLoop_of_fits {ringFree : Nat} (hpos : 0 < ringFree) (ring : Ring RxChain cap)
    (obtained backlog : List RxChain) (hfits : backlog.length ≤ ring.freeCount) :
    let h := submitLoop ringFree ring obtained backlog
    h.ring.items = ring.items ++ backlog ∧
      h.obtained = obtained ++ backlog ∧ h.freed = [] ∧ h.backlog = [] := by
  induction backlog generalizing ring obtained with
  | nil => simp [submitLoop]
  | cons c backlog ih =>
    have hroom : ring.items.length < cap := by
      simp only [Ring.freeCount, Ring.count, length_cons] at hfits
      omega
    obtain ⟨ring', henq⟩ : ∃ ring', ring.enqueue c = some ring' := by simp [Ring.enqueue, hroom]
    have hitems := (Ring.enqueue_eq_some_iff.mp henq).2
    have hrest : backlog.length ≤ ring'.freeCount := by
      simp only [Ring.freeCount, Ring.count, hitems, length_cons,
        length_append, length_nil] at hfits ⊢
      omega
    obtain ⟨hring, hobt, hfreed, hback⟩ := ih ring' (obtained ++ [c]) hrest
    simp only [submitLoop, if_pos hpos, henq, budgetAfter, Option.isNone_some,
      Bool.false_eq_true, if_false]
    exact ⟨by rw [hring, hitems]; simp, by rw [hobt]; simp, hfreed, hback⟩

theorem submitLoop_of_exceeds {ringFree : Nat} (hpos : 0 < ringFree) (ring : Ring RxChain cap)
    (obtained backlog : List RxChain) (hexceeds : ring.freeCount < backlog.length) :
    let h := submitLoop ringFree ring obtained backlog
    h.freed.length = 1 ∧
      h.ring.items.length + obtained.length + 1 = ring.items.length + h.obtained.length := by
  induction backlog generalizing ring obtained with
  | nil => simp at hexceeds
  | cons c backlog ih =>
    simp only [submitLoop, if_pos hpos, budgetAfter, Option.isNone_some,
      Bool.false_eq_true, if_false]
    rcases Option.eq_none_or_eq_some (ring.enqueue c) with henq | ⟨ring', henq⟩
    · simp only [henq]
      simp
      omega
    · obtain ⟨hroom, hitems⟩ := Ring.enqueue_eq_some_iff.mp henq
      have hrest : ring'.freeCount < backlog.length := by
        simp only [Ring.freeCount, Ring.count, hitems, length_cons,
          length_append, length_nil] at hexceeds ⊢
        omega
      obtain ⟨hfreed, hcount⟩ := ih ring' (obtained ++ [c]) hrest
      simp only [henq]
      refine ⟨hfreed, ?_⟩
      simp only [hitems, length_append, length_cons, length_nil] at hcount
      omega

theorem not_complete_of_exceeds {ring : Ring RxChain cap} {backlog : List RxChain}
    (hpos : 0 < ring.freeCount) (hexceeds : ring.freeCount < backlog.length) :
    ¬ (userDataAvailableCbk ring backlog).Complete ring := by
  intro hcomplete
  obtain ⟨hfreed, _⟩ := submitLoop_of_exceeds hpos ring [] backlog hexceeds
  have hnone := hcomplete.noneFreed
  rw [userDataAvailableCbk] at hnone
  rw [hnone] at hfreed
  cases hfreed

/-- Every chain obtained is handed over exactly when the ring is full from the start or has room for
the whole backlog. -/
theorem handover_complete_iff (ring : Ring RxChain cap) (backlog : List RxChain) :
    (userDataAvailableCbk ring backlog).Complete ring ↔
      ring.freeCount = 0 ∨ backlog.length ≤ ring.freeCount := by
  constructor
  · intro hcomplete
    by_contra hnot
    have hpos : 0 < ring.freeCount := by omega
    exact not_complete_of_exceeds hpos (by omega) hcomplete
  · intro hroom
    rcases Nat.eq_zero_or_pos ring.freeCount with hfull | hpos
    · rw [userDataAvailableCbk, hfull, submitLoop_zero]
      exact ⟨by simp, rfl⟩
    · have hfits : backlog.length ≤ ring.freeCount := by omega
      obtain ⟨hring, hobtained, hfreed, _⟩ := submitLoop_of_fits hpos ring [] backlog hfits
      refine ⟨?_, hfreed⟩
      rw [userDataAvailableCbk, hring, hobtained, nil_append]

def datagram : RxChain := ⟨⟨⟨[0], 0, 1, 1⟩, []⟩, by decide⟩

def almostFull : Ring RxChain 1023 :=
  ⟨List.replicate 1022 datagram, by rw [length_replicate]; decide⟩

theorem handover_loses_second_datagram :
    ¬ (userDataAvailableCbk almostFull [datagram, datagram]).Complete almostFull := by
  have hfree : almostFull.freeCount = 1 := by
    simp only [Ring.freeCount, Ring.count, almostFull, length_replicate]
  apply not_complete_of_exceeds
  · omega
  · simp [hfree]

end LightStack.Rx.DataAvailable
