import LightStack.Tx.Flow.Model

/-!
# The send credit of a TCP connection
-/

namespace LightStack.Tx.Flow

open Lib List

@[mk_iff]
structure InCredit (s : State) : Prop where
  balanced : s.txSpace + s.txRing.sum + payload s.sock.queue = s.sock.sndbuf + unsubtracted s
  nonneg : 0 ≤ s.txSpace
  le_sndbuf : s.txSpace ≤ s.sock.sndbuf

instance (s : State) : Decidable (InCredit s) := decidable_of_iff' _ (inCredit_iff s)

def WithinCredit (s : State) : Action → Prop
  | .send bufs => (bufs.sum + unsubtracted s : Nat) ≤ s.txSpace
  | _ => True

/-- Sends keep to the credit, sk_buffs are never split, trimmed or missing, the send buffer changes
while nothing is on its way, and no data is acknowledged before its `light_send` has taken it off
`tx_space`. -/
def Accounted (s : State) (a : Action) : Prop :=
  WithinCredit s a ∧
    match a with
    | .setSocketRing => s.txRing = [] ∧ s.sock.queue = [] ∧ unsubtracted s = 0
    | .setsockopt opt =>
      (s.txRing = [] ∧ s.sock.queue = [] ∧ unsubtracted s = 0) ∧
        match opt with
        | .sndbufForce val => val < 2 ^ 30
        | _ => True
    | .proceed overhead =>
      match s.stack with
      | .dequeue _ => overhead.isSome = true ∨ s.txRing = []
      | _ => True
    | .establish => unsubtracted s = 0
    | .ack _ => unsubtracted s = 0
    | .trim _ => False
    | .split _ _ _ => False
    | .expand sndmem => s.sock.locked = true ∨ sndmem ≤ s.sock.sndbuf
    | .moderate => s.sock.locked = true
    | _ => True

/-! ## The account of a connection whose sk_buffs are whole -/

structure Balanced (txSpace : Int) (ring : List Nat) (owes : Nat) (queue : List Skb)
    (sndbuf : Int) : Prop where
  balanced : txSpace + ring.sum + payload queue = sndbuf + owes
  -- what is to be taken off `tx_space` is there, and has not been returned before
  owed : owes ≤ txSpace
  carried : owes ≤ ring.sum + payload queue

structure Account (attached : Bool) (txSpace : Int) (ring : List Nat) (owes : Nat)
    (queue : List Skb) (sndbuf : Int) : Prop where
  pos : 0 < sndbuf
  whole : ∀ skb ∈ queue, skb.frags.sum = skb.len
  credit : attached = true → Balanced txSpace ring owes queue sndbuf

abbrev Accounts (s : State) : Prop :=
  Account s.attached s.txSpace s.txRing (unsubtracted s) s.sock.queue s.sock.sndbuf

namespace Account

variable {attached : Bool} {txSpace sndbuf : Int} {ring : List Nat} {owes : Nat} {queue : List Skb}

theorem empty (attached : Bool) (hpos : 0 < sndbuf) : Account attached sndbuf [] 0 [] sndbuf :=
  ⟨hpos, by simp, fun _ => ⟨by simp, by omega, by simp⟩⟩

theorem send (h : Account attached txSpace ring owes queue sndbuf) {bufs : List Nat}
    (hguard : (bufs.sum + owes : Nat) ≤ txSpace) :
    Account attached txSpace (ring ++ bufs) (bufs.sum + owes) queue sndbuf := by
  refine { h with credit := fun hattached => ?_ }
  obtain ⟨hbalanced, howed, hcarried⟩ := h.credit hattached
  exact ⟨by rw [sum_append]; omega, hguard, by rw [sum_append]; omega⟩

theorem subtract {bytes : Nat} (h : Account attached txSpace ring (bytes + owes) queue sndbuf) :
    Account attached (txSpace - bytes) ring owes queue sndbuf := by
  refine { h with credit := fun hattached => ?_ }
  obtain ⟨hbalanced, howed, hcarried⟩ := h.credit hattached
  exact ⟨by omega, by omega, by omega⟩

theorem push {rest : List Nat} (h : Account attached txSpace ring owes queue sndbuf) (skb : Skb)
    (hwhole : skb.frags.sum = skb.len) (hring : ring.sum = skb.len + rest.sum) :
    Account attached txSpace rest owes (queue ++ [skb]) sndbuf where
  pos := h.pos
  whole := by
    intro skb' hskb'
    rcases mem_append.mp hskb' with hold | hnew
    · exact h.whole skb' hold
    · rw [mem_singleton.mp hnew]
      exact hwhole
  credit := by
    intro hattached
    obtain ⟨hbalanced, howed, hcarried⟩ := h.credit hattached
    have hpayload : payload (queue ++ [skb]) = payload queue + skb.len := by simp
    exact ⟨by omega, howed, by omega⟩

theorem unlink {skb : Skb} (h : Account attached txSpace ring 0 (skb :: queue) sndbuf) :
    Account attached (txSpace + skb.frags.sum) ring 0 queue sndbuf where
  pos := h.pos
  whole := fun skb' hskb' => h.whole skb' (mem_cons_of_mem _ hskb')
  credit := by
    intro hattached
    obtain ⟨hbalanced, howed, -⟩ := h.credit hattached
    have hwhole := h.whole skb mem_cons_self
    rw [payload_cons] at hbalanced
    exact ⟨by omega, by omega, by omega⟩

end Account

namespace Accounts

variable {s t : State} {overhead : Option Nat} {cfg : Config} {a : Action}

theorem inCredit (h : Accounts s) (hattached : s.attached = true) : InCredit s := by
  obtain ⟨hbalanced, howed, hcarried⟩ := h.credit hattached
  exact ⟨hbalanced, by omega, by omega⟩

theorem of_empty (hring : s.txRing = []) (hqueue : s.sock.queue = []) (howes : unsubtracted s = 0)
    (hpos : 0 < s.sock.sndbuf) : Accounts (setTxSpace s) := by
  have hcharged := s.sock.charged
  simp only [hqueue, charge_nil] at hcharged
  have htx : s.sock.wspace = s.sock.sndbuf := by
    unfold Sock.wspace
    omega
  change Account _ s.sock.wspace s.txRing (unsubtracted s) s.sock.queue _
  rw [htx, hring, hqueue, howes]
  exact .empty _ hpos

theorem start (h : Start s) : Accounts s := by
  have howes : unsubtracted s = 0 := by simp [unsubtracted, h.senders]
  change Account s.attached _ s.txRing _ s.sock.queue _
  rw [h.txRing, h.queue, howes]
  refine ⟨h.sndbuf, by simp, fun hattached => ?_⟩
  rw [(h.opened hattached).2]
  exact (Account.empty true h.sndbuf).credit rfl

theorem of_senders (h : Accounts s) {senders : List Sender}
    (howes : (senders.map Sender.owes).sum = unsubtracted s) :
    Accounts { s with senders := senders } := by
  have howes' : unsubtracted { s with senders := senders } = unsubtracted s := howes
  unfold Accounts
  rw [howes']
  exact h

theorem unsubtracted_erase {x : Sender} (h : x ∈ s.senders) :
    x.owes + ((s.senders.erase x).map Sender.owes).sum = unsubtracted s :=
  sum_map_erase Sender.owes h

section

variable (h : Accounts s)

include h

theorem subtract {bytes : Nat} (hmem : .subtract bytes ∈ s.senders) : Accounts { s with
      txSpace := s.txSpace - bytes
      senders := .testAndSet :: s.senders.erase (.subtract bytes) } := by
  unfold Accounts at h
  rw [← unsubtracted_erase hmem] at h
  simpa [Accounts, unsubtracted, Sender.owes] using h.subtract

theorem testAndSet (hmem : .testAndSet ∈ s.senders) : Accounts (testAndSet s) := by
  have howes := unsubtracted_erase hmem
  simp only [Sender.owes, Nat.zero_add] at howes
  unfold Flow.testAndSet
  split
  · exact h.of_senders howes
  · exact h.of_senders (by simpa [Sender.owes] using howes)

theorem issue (hmem : .issue ∈ s.senders) (posted retry : Bool) :
    Accounts (issue s posted retry) := by
  have howes := unsubtracted_erase hmem
  simp only [Sender.owes, Nat.zero_add] at howes
  unfold Flow.issue
  split
  · exact h.of_senders howes
  · split
    · exact h.of_senders (by simpa [Sender.owes] using howes)
    · exact h.of_senders howes

theorem leave (c : Caller) : Accounts (leave s c) := by
  cases c <;> exact h

theorem sendpage (c : Caller) (hguard : overhead.isSome = true ∨ s.txRing = []) :
    Accounts (sendpage s c overhead) := by
  unfold Flow.sendpage
  split
  · exact h.leave c
  · next dataLen rest hring => simp [hring] at hguard
  · next dataLen rest overhead hring =>
    exact h.push _ (by simp [Skb.ofBuffer]) (by simp [hring, Skb.ofBuffer])

theorem proceed (hguard : Accounted s (.proceed overhead)) (hstep : proceed s overhead = some t) :
    Accounts t := by
  unfold Flow.proceed at hstep
  split at hstep
  · cases hstep
  · cases hstep
    exact h
  · cases hstep
    split
    · exact h.leave _
    · exact h
  · cases hstep
    split
    · exact h.leave _
    · exact h
  · cases hstep
    exact h
  · next c hstack =>
    cases hstep
    have hguard := hguard.2
    simp only [hstack] at hguard
    exact h.sendpage c hguard

theorem takeReady : Accounts (takeReady s) := by
  unfold Flow.takeReady
  dsimp only
  split
  · exact h
  · exact leave h .txReady

end

theorem tcpCleanRtxQueue (n : Nat) (h : Accounts s) (howes : unsubtracted s = 0) :
    Accounts (tcpCleanRtxQueue n s) := by
  induction n generalizing s with
  | zero => exact h
  | succ n ih =>
    unfold Flow.tcpCleanRtxQueue
    split
    · exact h
    · next skb rest hqueue =>
      split
      · exact h
      · refine ih ?_ howes
        unfold Accounts at h
        rw [howes, hqueue] at h
        change Account _ _ _ (unsubtracted s) rest _
        rw [howes]
        exact h.unlink

theorem tcpStep (h : Accounts s) (hguard : Accounted s a) (hstep : tcpStep cfg s a = some t) :
    Accounts t := by
  unfold Flow.tcpStep at hstep
  split at hstep
  · next truesize =>
    obtain ⟨hclosed, rfl⟩ := of_guard hstep
    exact h.push (.syn truesize) rfl (by simp [onSock, Skb.syn])
  · obtain ⟨hsynSent, rfl⟩ := of_guard hstep
    exact h.tcpCleanRtxQueue 1 hguard.2
  · obtain ⟨hestablished, rfl⟩ := of_guard hstep
    exact h
  · cases hstep
    exact h
  · obtain ⟨hunsent, rfl⟩ := of_guard hstep
    exact h
  · cases hstep
    exact h
  · obtain ⟨hclones, rfl⟩ := of_guard hstep
    simpa [Accounts, unsubtracted, onSock] using h
  · next n =>
    obtain ⟨hidle, rfl⟩ := of_guard hstep
    simpa [Accounts, unsubtracted, ack, onSock] using h.tcpCleanRtxQueue n hguard.2
  · exact hguard.2.elim
  · exact hguard.2.elim
  · next sndmem =>
    cases hstep
    have hkeeps : ¬ (s.sock.locked = false ∧ s.sock.sndbuf < sndmem) := by
      rintro ⟨hfree, hgrows⟩
      rcases hguard.2 with hlocked | hle
      · simp [hfree] at hlocked
      · omega
    have hexpand : s.sock.expand cfg sndmem = s.sock := if_neg hkeeps
    simpa only [onSock, hexpand] using h
  · cases hstep
    have hmoderate : s.sock.moderate cfg = s.sock := if_pos hguard.2
    simpa only [onSock, hmoderate] using h
  · cases hstep

theorem setsockopt (h : Accounts s) {opt : Sock.Opt} (hguard : Accounted s (.setsockopt opt)) :
    Accounts (setTxSpace (onSock s fun k => k.setsockopt cfg opt)) := by
  obtain ⟨⟨hring, hqueue, howes⟩, hforce⟩ := hguard.2
  refine of_empty hring ?_ howes (Sock.setsockopt_sndbuf_pos cfg h.pos fun val hval => ?_)
  · simpa only [onSock, Sock.setsockopt_queue] using hqueue
  · subst hval
    exact hforce

theorem step (h : Accounts s) (hguard : Accounted s a)
    (hstep : step cfg s a = some t) : Accounts t := by
  unfold Flow.step at hstep
  split at hstep
  · next bufs =>
    obtain ⟨hbufs, rfl⟩ := of_guard hstep
    simpa [Accounts, unsubtracted, Sender.owes] using h.send hguard.1
  · next bytes =>
    obtain ⟨hmem, rfl⟩ := of_guard hstep
    exact h.subtract hmem
  · obtain ⟨hmem, rfl⟩ := of_guard hstep
    exact h.testAndSet hmem
  · next posted retry =>
    obtain ⟨hmem, rfl⟩ := of_guard hstep
    exact h.issue hmem posted retry
  · obtain ⟨hwaits, rfl⟩ := of_guard hstep
    obtain ⟨hring, hqueue, howes⟩ := hguard.2
    exact of_empty hring hqueue howes h.pos
  · obtain ⟨hidle, rfl⟩ := of_guard hstep
    exact h.setsockopt hguard
  · obtain ⟨hidle, rfl⟩ := of_guard hstep
    exact h
  · obtain ⟨hidle, rfl⟩ := of_guard hstep
    exact h.takeReady
  · exact h.proceed hguard hstep
  · exact h.tcpStep hguard hstep

end Accounts

/-- In every run of `Accounted` steps, once the stack knows the ring, `tx_space`, the ring and the
write queue make up the send buffer. -/
theorem send_credit_balanced (cfg : Config) (s : State)
    (hreach : (system cfg).ReachableUnder Accounted s) (hattached : s.attached = true) :
    InCredit s := by
  have haccounts : Accounts s :=
    TransitionSystem.ReachableUnder.invariant (fun _ => Accounts.start)
      (fun _ _ _ h hguard hstep => h.step hguard hstep) hreach
  exact haccounts.inCredit hattached

instance (s : State) (a : Action) : Decidable (WithinCredit s a) := by
  unfold WithinCredit
  split <;> infer_instance

instance (s : State) (a : Action) : Decidable (Accounted s a) := by
  unfold Accounted
  refine @instDecidableAnd _ _ _ ?_
  split
  · infer_instance
  · refine @instDecidableAnd _ _ _ ?_
    split <;> infer_instance
  · split <;> infer_instance
  all_goals infer_instance

def sentOne : List Action :=
  [Action.setSocketRing] ++ lightSend [1448] ++ [Action.takeKick] ++ opportunity 1 1280 ++
    [Action.proceed none, .proceed none]

theorem send_credit_balanced_halfway :
    ∃ s, (system defaultConfig).ReachableUnder Accounted s ∧ s.attached = true ∧
      s.txRing = [1000] ∧ s.sock.queue = [] ∧ s.txSpace = 15384 ∧ InCredit s := by
  obtain ⟨s, hreach, hattached, hring, hqueue, htx⟩ :=
    (system defaultConfig).exists_reachableUnder Accounted (accepted 16384)
      (sentOne ++ [Action.transmit] ++ lightSend [1000] ++ [Action.ack 1])
      (P := fun s => s.attached = true ∧ s.txRing = [1000] ∧ s.sock.queue = [] ∧
        s.txSpace = 15384)
      (start_accepted (by decide)) (by decide +kernel)
  exact ⟨s, hreach, hattached, hring, hqueue, htx,
    send_credit_balanced defaultConfig s hreach hattached⟩

theorem send_credit_unbalanced :
    (∃ s, (system defaultConfig).ReachableUnder WithinCredit s ∧ s.attached = true ∧
      s.senders = [] ∧ s.txRing = [] ∧ s.sock.queue = [] ∧ s.sock.sndbuf < s.txSpace ∧
      ¬ InCredit s) ∧
    ∃ s, (system defaultConfig).ReachableUnder WithinCredit s ∧ s.attached = true ∧
      s.senders = [] ∧ s.txSpace < 0 ∧ ¬ InCredit s := by
  refine ⟨?_, ?_⟩
  · exact (system defaultConfig).exists_reachableUnder WithinCredit (accepted 16384)
      (sentOne ++ [Action.split 536 1280 0, .split 536 1280 1, .transmit, .transmit, .transmit,
        .ack 3])
      (start_accepted (by decide)) (by decide +kernel)
  · exact (system defaultConfig).exists_reachableUnder WithinCredit (accepted 16384)
      ([Action.setSocketRing] ++ lightSend (List.replicate 11 1448) ++ [Action.takeKick] ++
        opportunity 7 1280 ++ [Action.setsockopt .other])
      (start_accepted (by decide)) (by decide +kernel)

end LightStack.Tx.Flow
