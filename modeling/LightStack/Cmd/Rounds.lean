import LightStack.Cmd.Model
import LightStack.Lib.IndexRing

/-!
# Rounds of `process_commands`

A round computes its length with `MIN_2`, which may read the count of the ring twice, and ignores
what the dequeue returns.
-/

namespace LightStack.Cmd.Rounds

open Lib List

def maxCmdDequeueNum : Nat := 100

structure Enqueue (α : Type*) where
  producer : Nat
  index : Nat
  cmd : α
  claimed : Bool
deriving DecidableEq

inductive Pc where
  | start
  | again
  | sized (cmdN : Nat)
  | loop (cmdN i : Nat)
  | overrun (cmdN : Nat)
deriving DecidableEq

structure State (α : Type*) where
  ring : IndexRing α commandPoolSize
  enqueues : List (Enqueue α)
  pc : Pc
  cmd : Nat → Option α
  sent : List α
  batch : List (Option α)
  ran : List α
  executed : List α

variable {α : Type*}

/-! ## Producers -/

def beginEnqueue (s : State α) (p : Nat) (cmd : α) : Option (State α) :=
  if s.enqueues.any fun e => decide (e.producer = p) then none
  else if s.ring.freeEntries = 0 then some s
  else some { s with enqueues := ⟨p, s.ring.head, cmd, false⟩ :: s.enqueues }

def claim (s : State α) (p : Nat) : Option (State α) :=
  (s.enqueues.find? fun e => decide (e.producer = p ∧ e.claimed = false)).map fun e =>
    { s with
      ring := s.ring.claim e.index
      enqueues := s.enqueues.map fun e =>
        if e.producer = p then { e with claimed := true } else e }

def publish (s : State α) (p : Nat) : Option (State α) :=
  (s.enqueues.find? fun e => decide (e.producer = p ∧ e.claimed = true)).map fun e =>
    { s with
      ring := s.ring.publish e.index e.cmd
      enqueues := s.enqueues.filter fun e => decide (e.producer ≠ p)
      sent := s.sent ++ [e.cmd] }

def countFirst (s : State α) (stack : Nat → Option α) : Option (State α) :=
  match s.pc with
  | .start =>
    some { s with
      pc := if s.ring.count < 20 then .again else .sized 20
      cmd := stack
      batch := []
      ran := [] }
  | _ => none

def countAgain (s : State α) : Option (State α) :=
  match s.pc with
  | .again => some { s with pc := .sized s.ring.count }
  | _ => none

def filled (cmd : Nat → Option α) (taken : List (Option α)) (i : Nat) : Option α :=
  taken.getD i (cmd i)

def lightDequeueCommandBufBulk (s : State α) : Option (State α) :=
  match s.pc with
  | .sized cmdN =>
    match s.ring.dequeueBulk cmdN with
    | some (taken, ring) =>
      some { s with
        ring := ring
        pc := if cmdN ≤ maxCmdDequeueNum then .loop cmdN 0 else .overrun cmdN
        cmd := filled s.cmd taken
        batch := taken }
    | none => some { s with pc := .loop cmdN 0 }
  | _ => none

def execute (s : State α) : Option (State α) :=
  match s.pc with
  | .loop cmdN i =>
    if i < cmdN then
      match s.cmd i with
      | some c =>
        some { s with
          pc := .loop cmdN (i + 1)
          ran := s.ran ++ [c]
          executed := s.executed ++ [c] }
      | none => some { s with pc := .start }
    else some { s with pc := .start }
  | _ => none

inductive Action (α : Type*) where
  | beginEnqueue (p : Nat) (cmd : α)
  | claim (p : Nat)
  | publish (p : Nat)
  | countFirst (stack : Nat → Option α)
  | countAgain
  | dequeue
  | execute

def step (s : State α) : Action α → Option (State α)
  | .beginEnqueue p cmd => beginEnqueue s p cmd
  | .claim p => claim s p
  | .publish p => publish s p
  | .countFirst stack => countFirst s stack
  | .countAgain => countAgain s
  | .dequeue => lightDequeueCommandBufBulk s
  | .execute => execute s

structure Start (s : State α) : Prop where
  ring_head : s.ring.head = 0
  ring_tail : s.ring.tail = 0
  ring_cons : s.ring.cons = 0
  enqueues_eq : s.enqueues = []
  pc_eq : s.pc = .start
  sent_eq : s.sent = []
  batch_eq : s.batch = []
  ran_eq : s.ran = []
  executed_eq : s.executed = []

def system (α : Type*) : TransitionSystem (State α) (Action α) where
  init := Start
  step := step

def Apart (s : State α) : Action α → Prop
  | .beginEnqueue _ _ => s.enqueues.isEmpty = true
  | _ => True

def Fits (s : State α) : Action α → Prop
  | .countAgain => s.ring.count ≤ maxCmdDequeueNum
  | _ => True

instance decidableApart (s : State α) (a : Action α) : Decidable (Apart s a) := by
  cases a <;> dsimp only [Apart] <;> infer_instance

instance decidableFits (s : State α) (a : Action α) : Decidable (Fits s a) := by
  cases a <;> dsimp only [Fits] <;> infer_instance

structure OneProducer (s : State α) : Prop where
  window : s.ring.Window
  settled : s.enqueues = [] → s.ring.head = s.ring.tail
  inProgress : ∀ e ∈ s.enqueues, s.enqueues = [e] ∧ e.index = s.ring.tail ∧
    s.ring.tail + 1 < s.ring.cons + commandPoolSize ∧
    s.ring.head = if e.claimed then s.ring.tail + 1 else s.ring.tail

def Progress (s : State α) : Pc → Prop
  | .start => s.ran.map some = s.batch
  | .again => s.batch = [] ∧ s.ran = []
  | .sized cmdN => s.batch = [] ∧ s.ran = [] ∧ cmdN ≤ s.ring.items.length ∧
      cmdN ≤ maxCmdDequeueNum
  | .loop cmdN i => s.batch.length = cmdN ∧ i ≤ cmdN ∧ s.ran.map some = s.batch.take i ∧
      ∀ j < cmdN, s.batch[j]? = some (s.cmd j)
  | .overrun _ => False

def inOrder (s : State α) : List (Option α) :=
  s.executed.map some ++ s.batch.drop s.ran.length ++ s.ring.items

structure Inv (s : State α) : Prop where
  producer : OneProducer s
  progress : Progress s s.pc
  bounded : s.batch.length ≤ maxCmdDequeueNum
  fifo : inOrder s = s.sent.map some

variable {s t : State α}

theorem Inv.of_start (h : Start s) : Inv s := by
  have hitems : s.ring.items = [] := by simp [IndexRing.items, h.ring_tail]
  constructor
  · constructor
    · constructor
      · rw [h.ring_cons]
        exact Nat.zero_le _
      · rw [h.ring_tail, h.ring_cons]
        decide
      · decide
    · intro _
      rw [h.ring_head, h.ring_tail]
    · intro e he
      rw [h.enqueues_eq] at he
      cases he
  · rw [h.pc_eq, Progress, h.ran_eq, h.batch_eq]
    rfl
  · rw [h.batch_eq]
    exact Nat.zero_le _
  · simp [inOrder, h.executed_eq, h.batch_eq, hitems, h.sent_eq]

theorem Progress.of_grown {pc : Pc} (h : Progress s pc) (hcmd : t.cmd = s.cmd)
    (hbatch : t.batch = s.batch) (hran : t.ran = s.ran)
    (hitems : s.ring.items.length ≤ t.ring.items.length) : Progress t pc := by
  cases pc with
  | start => exact (by rw [hran, hbatch]; exact h : t.ran.map some = t.batch)
  | again => exact ⟨hbatch.trans h.1, hran.trans h.2⟩
  | sized cmdN =>
    obtain ⟨hb, hr, hcount, hfits⟩ := h
    exact ⟨hbatch.trans hb, hran.trans hr, Nat.le_trans hcount hitems, hfits⟩
  | loop cmdN i =>
    obtain ⟨hlength, hle, htake, hfilled⟩ := h
    refine ⟨by rw [hbatch, hlength], hle, by rw [hran, hbatch, htake], ?_⟩
    intro j hj
    rw [hbatch, hcmd]
    exact hfilled j hj
  | overrun cmdN => exact h

theorem OneProducer.beginEnqueue {p : Nat} {cmd : α} (h : OneProducer s)
    (happart : s.enqueues.isEmpty = true) (hroom : s.ring.freeEntries ≠ 0) :
    OneProducer { s with enqueues := ⟨p, s.ring.head, cmd, false⟩ :: s.enqueues } := by
  have hnone : s.enqueues = [] := List.isEmpty_iff.mp happart
  have hsettled := h.settled hnone
  refine ⟨h.window, by simp, ?_⟩
  intro e he
  rw [hnone, mem_singleton] at he
  subst he
  exact ⟨by rw [hnone], hsettled, h.window.tail_succ_lt hsettled hroom, hsettled⟩

theorem OneProducer.of_find (h : OneProducer s) {e : Enqueue α}
    {q : Enqueue α → Bool} (hfind : s.enqueues.find? q = some e) :
    s.enqueues = [e] ∧ e.index = s.ring.tail ∧
      s.ring.tail + 1 < s.ring.cons + commandPoolSize ∧
      s.ring.head = if e.claimed then s.ring.tail + 1 else s.ring.tail :=
  h.inProgress e (List.mem_of_find?_eq_some hfind)

theorem Inv.beginEnqueue {p : Nat} {cmd : α} (h : Inv s) (happart : s.enqueues.isEmpty = true)
    (hstep : beginEnqueue s p cmd = some t) : Inv t := by
  obtain ⟨-, hstep⟩ := Option.ite_none_left_eq_some.mp hstep
  split at hstep
  · cases hstep
    exact h
  · rename_i hroom
    cases hstep
    exact ⟨h.producer.beginEnqueue happart hroom,
      h.progress.of_grown rfl rfl rfl (Nat.le_refl _), h.bounded, h.fifo⟩

theorem Inv.claim {p : Nat} (h : Inv s) (hstep : claim s p = some t) : Inv t := by
  obtain ⟨e, hfind, rfl⟩ := Option.map_eq_some_iff.mp hstep
  obtain ⟨hone, hindex, hroom, -⟩ := h.producer.of_find hfind
  have hmine := List.find?_some hfind
  simp only [decide_eq_true_eq] at hmine
  refine ⟨?_, h.progress.of_grown rfl rfl rfl (Nat.le_refl _), h.bounded, h.fifo⟩
  refine ⟨h.producer.window.claim _, by simp [hone], ?_⟩
  intro e' he'
  rw [hone, map_cons, map_nil, if_pos hmine.1, mem_singleton] at he'
  subst he'
  refine ⟨by simp [hone, hmine.1], hindex, hroom, ?_⟩
  rw [if_pos rfl]
  exact congrArg Nat.succ hindex

theorem Inv.publish {p : Nat} (h : Inv s) (hstep : publish s p = some t) : Inv t := by
  obtain ⟨e, hfind, rfl⟩ := Option.map_eq_some_iff.mp hstep
  obtain ⟨hone, hindex, hroom, hhead⟩ := h.producer.of_find hfind
  have hmine := List.find?_some hfind
  simp only [decide_eq_true_eq] at hmine
  rw [if_pos hmine.2] at hhead
  have hdone : (s.enqueues.filter fun e => decide (e.producer ≠ p)) = [] := by simp [hone, hmine.1]
  have hitems := h.producer.window.items_publish e.cmd
  rw [← hindex] at hitems
  refine ⟨⟨?_, ?_, ?_⟩, h.progress.of_grown rfl rfl rfl ?_, h.bounded, ?_⟩
  · rw [hindex]
    exact h.producer.window.publish hroom e.cmd
  · intro _
    exact hhead.trans (by rw [← hindex]; rfl)
  · rw [hdone]
    simp
  · simp [hitems]
  · have hfifo := h.fifo
    simp only [inOrder] at hfifo ⊢
    rw [hitems, ← append_assoc, hfifo, map_append, map_cons, map_nil]

theorem drop_of_ran (hran : s.ran.map some = s.batch) : s.batch.drop s.ran.length = [] := by
  rw [← hran]
  exact drop_eq_nil_of_le (Nat.le_of_eq (length_map some))

theorem Inv.countFirst {stack : Nat → Option α} (h : Inv s)
    (hstep : countFirst s stack = some t) : Inv t := by
  unfold Rounds.countFirst at hstep
  split at hstep
  · rename_i hpc
    cases hstep
    have hprogress := h.progress
    rw [hpc] at hprogress
    have hfifo := h.fifo
    rw [inOrder, drop_of_ran hprogress, append_nil] at hfifo
    refine ⟨⟨h.producer.window, h.producer.settled, h.producer.inProgress⟩, ?_,
      Nat.zero_le _, by simpa [inOrder] using hfifo⟩
    by_cases hcount : s.ring.count < 20
    · simp only [hcount, if_true]
      exact ⟨rfl, rfl⟩
    · simp only [hcount, if_false]
      rw [h.producer.window.count_eq] at hcount
      exact ⟨rfl, rfl, Nat.le_of_not_lt hcount, by decide⟩
  · cases hstep

theorem Inv.countAgain (h : Inv s) (hfits : s.ring.count ≤ maxCmdDequeueNum)
    (hstep : countAgain s = some t) : Inv t := by
  unfold Rounds.countAgain at hstep
  split at hstep
  · rename_i hpc
    cases hstep
    have hprogress := h.progress
    rw [hpc] at hprogress
    refine ⟨⟨h.producer.window, h.producer.settled, h.producer.inProgress⟩, ?_, h.bounded, h.fifo⟩
    exact ⟨hprogress.1, hprogress.2, Nat.le_of_eq h.producer.window.count_eq, hfits⟩
  · cases hstep

theorem OneProducer.dequeue {n : Nat} (h : OneProducer s) (hn : n ≤ s.ring.items.length)
    (hring : t.ring = { s.ring with cons := s.ring.cons + n })
    (henqueues : t.enqueues = s.enqueues) : OneProducer t := by
  constructor
  · rw [hring]
    exact h.window.dequeued hn
  · rw [henqueues, hring]
    exact h.settled
  · rw [henqueues, hring]
    intro e he
    obtain ⟨hone, hindex, hroom, hhead⟩ := h.inProgress e he
    refine ⟨hone, hindex, ?_, hhead⟩
    dsimp only
    omega

theorem getElem?_filled (cmd : Nat → Option α) (taken : List (Option α)) {j : Nat}
    (hj : j < taken.length) : taken[j]? = some (filled cmd taken j) := by
  simp [filled, hj]

theorem Inv.dequeue (h : Inv s) (hstep : lightDequeueCommandBufBulk s = some t) : Inv t := by
  unfold lightDequeueCommandBufBulk at hstep
  split at hstep
  · rename_i cmdN hpc
    have hprogress := h.progress
    rw [hpc] at hprogress
    obtain ⟨hbatch, hran, hcount, hfits⟩ := hprogress
    rw [h.producer.window.dequeueBulk_eq hcount] at hstep
    dsimp only at hstep
    rw [if_pos hfits] at hstep
    cases hstep
    have hlength : (s.ring.items.take cmdN).length = cmdN := length_take_of_le hcount
    refine ⟨h.producer.dequeue hcount rfl rfl, ⟨hlength, Nat.zero_le _, ?_, ?_⟩, ?_, ?_⟩
    · rw [hran, map_nil, take_zero]
    · intro j hj
      exact getElem?_filled _ _ (hlength.symm ▸ hj)
    · exact Nat.le_trans (Nat.le_of_eq hlength) hfits
    · have hfifo := h.fifo
      simp only [inOrder, hbatch, drop_nil, append_nil] at hfifo
      simp only [inOrder, IndexRing.items_dequeued, hran, length_nil, drop_zero]
      rw [append_assoc, take_append_drop, hfifo]
  · cases hstep

theorem Inv.next {cmdN i : Nat} (h : Inv s) (hpc : s.pc = .loop cmdN i) (hi : i < cmdN) :
    s.ran.length = i ∧ s.batch.drop i = s.cmd i :: s.batch.drop (i + 1) ∧
      (s.cmd i).isSome = true := by
  have hprogress := h.progress
  rw [hpc] at hprogress
  obtain ⟨hlength, hle, htake, hfilled⟩ := hprogress
  have hran : s.ran.length = i := by
    have := congrArg List.length htake
    rw [length_map, length_take_of_le (hlength.symm ▸ hle)] at this
    exact this
  have hdrop : s.batch.drop i = s.cmd i :: s.batch.drop (i + 1) := by
    obtain ⟨hbound, hget⟩ := List.getElem?_eq_some_iff.mp (hfilled i hi)
    rw [drop_eq_getElem_cons hbound, hget]
  refine ⟨hran, hdrop, ?_⟩
  have hmem : s.cmd i ∈ s.sent.map some := by
    rw [← h.fifo, inOrder, hran, hdrop]
    simp
  obtain ⟨c, -, hc⟩ := mem_map.mp hmem
  rw [← hc]
  rfl

theorem Inv.execute (h : Inv s) (hstep : execute s = some t) : Inv t := by
  unfold Rounds.execute at hstep
  split at hstep
  · rename_i cmdN i hpc
    have hprogress := h.progress
    rw [hpc] at hprogress
    obtain ⟨hlength, hle, htake, hfilled⟩ := hprogress
    have hproducer : ∀ {u : State α}, u.ring = s.ring → u.enqueues = s.enqueues →
        OneProducer u := by
      intro u hring henqueues
      exact h.producer.dequeue (Nat.zero_le _) hring henqueues
    split at hstep
    · rename_i hi
      obtain ⟨hran, hdrop, hsome⟩ := h.next hpc hi
      obtain ⟨c, hc⟩ := Option.isSome_iff_exists.mp hsome
      rw [hc] at hstep hdrop
      cases hstep
      refine ⟨hproducer rfl rfl, ⟨hlength, hi, ?_, hfilled⟩, h.bounded, ?_⟩
      · rw [map_append, htake, take_add_one, hfilled i hi, hc]
        rfl
      · have hfifo := h.fifo
        rw [inOrder, hran, hdrop] at hfifo
        simpa [inOrder, hran] using hfifo
    · rename_i hi
      cases hstep
      refine ⟨hproducer rfl rfl, ?_, h.bounded, h.fifo⟩
      rw [take_of_length_le (by omega)] at htake
      exact htake
  · cases hstep

/-- A round has what its dequeue has taken and executes it from the first to the last; the commands
sent are executed, in the array and in the ring, in that order. -/
structure InTurn (s : State α) : Prop where
  within : s.batch.length ≤ maxCmdDequeueNum
  no_overrun : ∀ cmdN, s.pc ≠ .overrun cmdN
  ran_prefix : s.ran.map some <+: s.batch
  ran_all : s.pc = .start → s.ran.map some = s.batch
  slot_filled : ∀ cmdN i, s.pc = .loop cmdN i → i < cmdN → s.batch[i]? = some (s.cmd i)
  sent_eq : s.executed.map some ++ s.batch.drop s.ran.length ++ s.ring.items = s.sent.map some

theorem Inv.inTurn (h : Inv s) : InTurn s := by
  have hprogress := h.progress
  constructor
  · exact h.bounded
  · intro cmdN hpc
    rw [hpc] at hprogress
    exact hprogress
  · cases hpc : s.pc with
    | start =>
      rw [hpc] at hprogress
      exact hprogress ▸ prefix_rfl
    | again =>
      rw [hpc] at hprogress
      rw [hprogress.2]
      exact nil_prefix
    | sized cmdN =>
      rw [hpc] at hprogress
      rw [hprogress.2.1]
      exact nil_prefix
    | loop cmdN i =>
      rw [hpc] at hprogress
      rw [hprogress.2.2.1]
      exact take_prefix _ _
    | overrun cmdN =>
      rw [hpc] at hprogress
      exact hprogress.elim
  · intro hpc
    rw [hpc] at hprogress
    exact hprogress
  · intro cmdN i hpc hi
    rw [hpc] at hprogress
    exact hprogress.2.2.2 i hi
  · exact h.fifo

theorem Inv.step {a : Action α} (h : Inv s) (happart : Apart s a) (hfits : Fits s a)
    (hstep : step s a = some t) : Inv t := by
  cases a with
  | beginEnqueue p cmd => exact h.beginEnqueue happart hstep
  | claim p => exact h.claim hstep
  | publish p => exact h.publish hstep
  | countFirst stack => exact h.countFirst hstep
  | countAgain => exact h.countAgain hfits hstep
  | dequeue => exact h.dequeue hstep
  | execute => exact h.execute hstep

/-- If enqueues are made one at a time and the second count is never above the length of the array,
every round executes what it takes once, in order. -/
theorem commands_run_once_in_order
    (hreach : (system α).ReachableUnder (fun s a => Apart s a ∧ Fits s a) s) : InTurn s := by
  have hinv : Inv s := by
    apply hreach.invariant
    · intro s hinit
      exact Inv.of_start hinit
    · intro s a t h hguard hstep
      exact h.step hguard.1 hguard.2 hstep
  exact hinv.inTurn

def created (α : Type*) : State α where
  ring := ⟨fun _ => none, 0, 0, 0⟩
  enqueues := []
  pc := .start
  cmd := fun _ => none
  sent := []
  batch := []
  ran := []
  executed := []

theorem created_start (α : Type*) : Start (created α) :=
  ⟨rfl, rfl, rfl, rfl, rfl, rfl, rfl, rfl, rfl⟩

def enqueue (p : Nat) (cmd : α) : List (Action α) := [.beginEnqueue p cmd, .claim p, .publish p]

theorem commands_run_once_in_order_two_producers :
    ∃ s, (system Nat).ReachableUnder (fun s a => Apart s a ∧ Fits s a) s ∧
      s.executed = [7, 8] ∧ s.pc = .loop 2 2 ∧ InTurn s := by
  obtain ⟨s, hreach, hexecuted, hpc⟩ := (system Nat).exists_reachableUnder
    (fun s a => Apart s a ∧ Fits s a) (created Nat)
    (enqueue 0 7 ++ [Action.countFirst fun _ => some 99] ++ enqueue 1 8 ++
      [Action.countAgain, .dequeue, .execute, .execute])
    (P := fun s => s.executed = [7, 8] ∧ s.pc = .loop 2 2)
    (created_start Nat) (by decide +kernel)
  exact ⟨s, hreach, hexecuted, hpc, commands_run_once_in_order hreach⟩

theorem round_overruns_array : ∃ s, (system Nat).ReachableUnder Apart s ∧
      s.pc = .overrun 101 ∧ ¬ s.batch.length ≤ maxCmdDequeueNum :=
  (system Nat).exists_reachableUnder Apart (created Nat)
    ([Action.countFirst fun _ => none] ++ (List.range 101).flatMap (enqueue 0) ++
      [Action.countAgain, .dequeue]) (created_start Nat) (by decide +kernel)

end LightStack.Cmd.Rounds
