import Mathlib

/-!
# Datagrams on their way to IP

IP consumes the skb whatever it answers; the caller frees the mbuf and those behind it.
-/

namespace LightStack.Tx.Datagram

open List

inductive Course where
  -- An error before `light_make_skb`, such as a missing route.
  | refused (errno : Nat)
  -- `sock_alloc_send_skb` fails and `light_make_skb` returns `NULL`.
  | noSkb
  -- `udp_send_skb` reports an error of `ip_send_skb`.
  | failed (errno : Nat)
  | sent
  deriving DecidableEq

structure Packet where
  dataLen : Nat
  course : Course

inductive Fate where
  | handed
  | freed
  deriving DecidableEq

def udpSendmsg (d : Packet) : Int × List Fate :=
  -- `memcpy_fromiovecend` adds no fragment for an empty mbuf
  let attached := if 0 < d.dataLen then [.handed] else []
  match d.course with
  | .refused errno => (Int.negSucc errno, [])
  -- `PTR_ERR(NULL)` is no error
  | .noSkb => (d.dataLen, [])
  | .failed errno => (Int.negSucc errno, attached)
  | .sent => (d.dataLen, attached)

def sendBurst : List Packet → List (List Fate) × Bool
  | [] => ([], false)
  | d :: rest =>
    if 0 < (udpSendmsg d).1 then
      ((udpSendmsg d).2 :: (sendBurst rest).1, (sendBurst rest).2)
    else (((udpSendmsg d).2 ++ [.freed]) :: rest.map fun _ => [.freed], true)

def onTransmissionOpportunity : List (List Packet) → List (List Fate)
  | [] => []
  | burst :: rest =>
    if burst = [] ∨ (sendBurst burst).2 then (sendBurst burst).1
    else (sendBurst burst).1 ++ onTransmissionOpportunity rest

def OwnedOnce (fates : List (List Fate)) : Prop := ∀ f ∈ fates, f.length = 1

def Packet.Plain (d : Packet) : Prop :=
  d.dataLen = 0 ∨ d.course = .sent ∨ ∃ errno, d.course = .refused errno

def Packet.Sent (d : Packet) : Prop := 0 < d.dataLen ∧ d.course = .sent

def PlainRun : List Packet → Prop
  | [] => True
  | d :: rest => d.Plain ∧ (d.Sent → PlainRun rest)

theorem plainRun_append (l l' : List Packet) :
    PlainRun (l ++ l') ↔ PlainRun l ∧ ((∀ d ∈ l, d.Sent) → PlainRun l') := by
  induction l with
  | nil => simp [PlainRun]
  | cons d l ih =>
    simp only [cons_append, PlainRun, ih, forall_mem_cons]
    tauto

theorem udpSendmsg_spec (d : Packet) :
    (0 < (udpSendmsg d).1 → ((udpSendmsg d).2.length = 1 ↔ d.Plain) ∧ (d.Plain ↔ d.Sent)) ∧
      (¬ 0 < (udpSendmsg d).1 → (((udpSendmsg d).2 ++ [Fate.freed]).length = 1 ↔ d.Plain) ∧
        ¬ d.Sent) := by
  obtain ⟨len, course⟩ := d
  by_cases hlen : 0 < len
  · cases course <;> simp [udpSendmsg, Packet.Plain, Packet.Sent, hlen, Nat.ne_of_gt hlen]
  · obtain rfl : len = 0 := by omega
    cases course <;> simp [udpSendmsg, Packet.Plain, Packet.Sent]

theorem sendBurst_ownedOnce (burst : List Packet) :
    OwnedOnce (sendBurst burst).1 ↔ PlainRun burst := by
  induction burst with
  | nil => simp [sendBurst, PlainRun, OwnedOnce]
  | cons d rest ih =>
    obtain ⟨hsent, hstop⟩ := udpSendmsg_spec d
    unfold OwnedOnce at ih ⊢
    by_cases hrc : 0 < (udpSendmsg d).1
    · obtain ⟨hone, hplain⟩ := hsent hrc
      rw [sendBurst, if_pos hrc, forall_mem_cons, hone, ih, PlainRun, hplain]
      tauto
    · obtain ⟨hone, hnot⟩ := hstop hrc
      rw [sendBurst, if_neg hrc, forall_mem_cons, hone, PlainRun]
      simp [hnot]

theorem exhausted_eq_false_iff {burst : List Packet} (hplain : PlainRun burst) :
    (sendBurst burst).2 = false ↔ ∀ d ∈ burst, d.Sent := by
  induction burst with
  | nil => simp [sendBurst]
  | cons d rest ih =>
    obtain ⟨hsent, hstop⟩ := udpSendmsg_spec d
    by_cases hrc : 0 < (udpSendmsg d).1
    · have hd := (hsent hrc).2.mp hplain.1
      rw [sendBurst, if_pos hrc, ih (hplain.2 hd), forall_mem_cons]
      exact (and_iff_right hd).symm
    · rw [sendBurst, if_neg hrc, forall_mem_cons]
      simp [(hstop hrc).2]

/-- Each mbuf is in one skb or freed once exactly if, up to the first datagram that does not go out,
none with data lacks an skb or is refused by IP. -/
theorem datagrams_owned_once (bursts : List (List Packet)) :
    OwnedOnce (onTransmissionOpportunity bursts) ↔
      PlainRun (bursts.takeWhile (· ≠ [])).flatten := by
  induction bursts with
  | nil => simp [onTransmissionOpportunity, OwnedOnce, PlainRun]
  | cons burst rest ih =>
    by_cases hempty : burst = []
    · simp [hempty, onTransmissionOpportunity, sendBurst, OwnedOnce, PlainRun]
    rw [takeWhile_cons_of_pos (by simpa using hempty), flatten_cons, plainRun_append,
      ← ih, onTransmissionOpportunity]
    have hburst := sendBurst_ownedOnce burst
    cases hexhausted : (sendBurst burst).2 with
    | true =>
      rw [if_pos (.inr rfl), hburst]
      refine ⟨fun hplain => ⟨hplain, fun hall => ?_⟩, And.left⟩
      have := (exhausted_eq_false_iff hplain).mpr hall
      simp [hexhausted] at this
    | false =>
      rw [if_neg (by simp [hempty])]
      unfold OwnedOnce at hburst ⊢
      rw [forall_mem_append, hburst]
      refine and_congr_right fun hplain => ?_
      have hall := (exhausted_eq_false_iff hplain).mp hexhausted
      exact ⟨fun howned _ => howned, fun howned => howned hall⟩

theorem datagram_lost_and_freed_twice :
    onTransmissionOpportunity [[⟨100, .noSkb⟩, ⟨100, .failed 104⟩]] = [[], [.handed, .freed]] ∧
      ¬ OwnedOnce (onTransmissionOpportunity [[⟨100, .noSkb⟩, ⟨100, .failed 104⟩]]) := by
  constructor
  · decide
  · intro howned
    exact absurd (howned [] (by decide)) (by decide)

end LightStack.Tx.Datagram
