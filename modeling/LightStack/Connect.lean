import LightStack.Lib.Transition

/-!
# The signal of a connecting socket

`light_connect` polls `connect_close_signal` (`1` under way, `2` established, `3` closed, `4`
failed) and resets it in a second step. The calls are followed from their command on, with
`free_command_pool` set.
-/

namespace LightStack.Connect

open Lib

inductive Tcp where
  | idle
  | synSent
  | established
  -- On the list of closed sockets after having been established; the state is `TCP_CLOSE_WAIT`.
  | closeWait
  | reset
  -- On the list of closed sockets without having been established.
  | refused
  | gone
  deriving DecidableEq

inductive Pc where
  | idle
  | polling (nonblock : Bool)
  | resetting (nonblock : Bool)
  | leaving
  | waiting
  deriving DecidableEq

structure Call where
  pc : Pc
  posted : Bool
  ready : Bool

structure State (n : Nat) where
  signal : Nat
  tcp : Tcp
  calls : Fin n → Call
  opened : Bool
  timed : Bool
  marked : Bool

variable {n : Nat}

def State.setCall (s : State n) (c : Fin n) (call : Call) : State n :=
  { s with calls := Function.update s.calls c call }

/-! ## The steps of light_connect -/

def endsLoop (nonblock : Bool) (signal : Nat) : Bool :=
  if nonblock then decide (signal ≠ 0 ∧ signal ≠ 1) else decide (signal ≠ 0)

def poll (s : State n) (c : Fin n) : Option (State n) :=
  match (s.calls c).pc with
  | .polling nonblock =>
    if endsLoop nonblock s.signal then
      some (s.setCall c { s.calls c with pc := .resetting nonblock })
    else some s
  | _ => none

def resetSignal (s : State n) (c : Fin n) : Option (State n) :=
  match (s.calls c).pc with
  | .resetting nonblock =>
    some { s.setCall c { s.calls c with pc := if nonblock then .leaving else .waiting } with
      signal := 0 }
  | .leaving => some { s.setCall c { s.calls c with pc := .waiting } with signal := 0 }
  | _ => none

def timeout (s : State n) (c : Fin n) : Option (State n) :=
  if (s.calls c).pc = .polling true ∧ s.timed = true then
    some (s.setCall c { s.calls c with pc := .leaving })
  else none

inductive Outcome where
  | inProgress
  | connected
  | failed
  deriving DecidableEq

def process (s : State n) (c : Fin n) (outcome : Outcome) : Option (State n) :=
  let t := s.setCall c { s.calls c with posted := false, ready := true }
  if (s.calls c).posted then
    match outcome with
    | .inProgress => if s.tcp = .idle then some { t with tcp := .synSent, signal := 1 } else none
    | .connected =>
      if s.tcp = .established ∨ s.tcp = .closeWait then some { t with signal := 2 } else none
    | .failed => some { t with signal := 4 }
  else none

def establish (s : State n) : Option (State n) :=
  if s.tcp = .synSent then some { s with tcp := .established, signal := 2 } else none

def hangUp (s : State n) (fin : Bool) : Option (State n) :=
  match s.tcp, fin with
  | .established, true => some { s with tcp := .closeWait }
  | .established, false => some { s with tcp := .reset }
  | .synSent, false => some { s with tcp := .refused }
  | _, _ => none

def markClosed (s : State n) : Option (State n) :=
  match s.tcp with
  | .closeWait => some { s with signal := 3, tcp := .gone, marked := s.opened }
  | .reset => some { s with signal := 4, tcp := .gone, marked := s.opened }
  | .refused => some { s with signal := 4, tcp := .gone }
  | _ => none

inductive Seen where
  | waits
  | again
  | closed
  | proceeds
  deriving DecidableEq

def lightSend (signal txSpace : Nat) : Seen :=
  if txSpace = 0 ∧ signal < 3 then .waits else if 3 ≤ signal then .closed else .proceeds

def lightRecv (nonblock : Bool) (signal queued : Nat) : Seen :=
  if queued ≠ 0 then .proceeds
  else if 3 ≤ signal then .closed
  else if nonblock then .again else .waits

inductive Action (n : Nat) where
  | lightConnect (c : Fin n) (nonblock : Bool)
  | poll (c : Fin n)
  | resetSignal (c : Fin n)
  | timeout (c : Fin n)
  | finish (c : Fin n)
  | lightClose
  | process (c : Fin n) (outcome : Outcome)
  | establish
  | hangUp (fin : Bool)
  | markClosed

def step (s : State n) : Action n → Option (State n)
  | .lightConnect c nonblock =>
    if s.opened = true ∧ (s.calls c).pc = .idle then
      some (s.setCall c { pc := .polling nonblock, posted := true, ready := false })
    else none
  | .poll c => poll s c
  | .resetSignal c => resetSignal s c
  | .timeout c => timeout s c
  | .finish c =>
    if (s.calls c).pc = .waiting ∧ (s.calls c).ready = true then
      some (s.setCall c { s.calls c with pc := .idle })
    else none
  | .lightClose =>
    if s.opened then some { s with signal := 0, opened := false, marked := false } else none
  | .process c outcome => process s c outcome
  | .establish => establish s
  | .hangUp fin => hangUp s fin
  | .markClosed => markClosed s

structure Start (s : State n) : Prop where
  signal : s.signal = 0
  tcp : s.tcp = .idle
  calls : ∀ c, s.calls c = { pc := .idle, posted := false, ready := false }
  opened : s.opened = true
  marked : s.marked = false

def system (n : Nat) : TransitionSystem (State n) (Action n) where
  init := Start
  step := step

def Call.Settled (call : Call) : Prop :=
  (call.pc = .idle ∨ call.pc = .waiting) ∧ call.posted = false

instance (call : Call) : Decidable call.Settled := inferInstanceAs (Decidable (_ ∧ _))

def Settled (s : State n) : Action n → Prop
  | .markClosed => ∀ c, (s.calls c).Settled
  | .lightConnect _ _ => s.marked = false
  | _ => True

instance (s : State n) (a : Action n) : Decidable (Settled s a) := by
  cases a <;> dsimp only [Settled] <;> infer_instance

structure Kept (s : State n) : Prop where
  signal : 3 ≤ s.signal
  gone : s.tcp = .gone
  calls : ∀ c, (s.calls c).Settled

namespace Kept

variable {s t : State n}

section

variable (h : Kept s)

include h

theorem finish {c : Fin n} : Kept (s.setCall c { s.calls c with pc := .idle }) where
  signal := h.signal
  gone := h.gone
  calls := by
    intro d
    by_cases hd : d = c
    · subst hd
      simpa [State.setCall, Call.Settled] using (h.calls d).2
    · simpa [State.setCall, hd] using h.calls d

theorem poll_eq_none (c : Fin n) : poll s c = none := by
  unfold poll
  obtain hpc | hpc := (h.calls c).1 <;> rw [hpc]

theorem resetSignal_eq_none (c : Fin n) : resetSignal s c = none := by
  unfold resetSignal
  obtain hpc | hpc := (h.calls c).1 <;> rw [hpc]

theorem timeout_eq_none (c : Fin n) : timeout s c = none := by
  unfold timeout
  obtain hpc | hpc := (h.calls c).1 <;> simp [hpc]

theorem process_eq_none (c : Fin n) (outcome : Outcome) : process s c outcome = none := by
  simp [process, (h.calls c).2]

theorem stack_eq_none :
    establish s = none ∧ (∀ fin, hangUp s fin = none) ∧ markClosed s = none := by
  simp [establish, hangUp, markClosed, h.gone]

theorem step {a : Action n} (hmarked : s.marked = true) (hguard : Settled s a)
    (hstep : Connect.step s a = some t) (hstill : t.marked = true) : Kept t := by
  obtain ⟨hestablish, hhangUp, hmark⟩ := h.stack_eq_none
  cases a with
  | lightConnect c nonblock => exact absurd (hguard.symm.trans hmarked) (by decide)
  | poll c => exact nomatch (h.poll_eq_none c).symm.trans hstep
  | resetSignal c => exact nomatch (h.resetSignal_eq_none c).symm.trans hstep
  | timeout c => exact nomatch (h.timeout_eq_none c).symm.trans hstep
  | finish c =>
    obtain ⟨-, rfl⟩ := of_guard hstep
    exact h.finish
  | lightClose =>
    obtain ⟨-, rfl⟩ := of_guard hstep
    exact absurd hstill (by simp)
  | process c outcome => exact nomatch (h.process_eq_none c outcome).symm.trans hstep
  | establish => exact nomatch hestablish.symm.trans hstep
  | hangUp fin => exact nomatch (hhangUp fin).symm.trans hstep
  | markClosed => exact nomatch hmark.symm.trans hstep

end

theorem of_markClosed (hcalls : ∀ c, (s.calls c).Settled) (hnew : s.marked = false)
    (hstep : markClosed s = some t) (hmarked : t.marked = true) : Kept t := by
  unfold markClosed at hstep
  split at hstep
  · cases hstep
    exact ⟨Nat.le_refl 3, rfl, hcalls⟩
  · cases hstep
    exact ⟨Nat.le_succ 3, rfl, hcalls⟩
  · cases hstep
    exact absurd (hnew.symm.trans hmarked) (by decide)
  · cases hstep

end Kept

theorem marked_of_step {s t : State n} {a : Action n} (hstep : step s a = some t)
    (hmarked : t.marked = true) : s.marked = true ∨ a = .markClosed := by
  cases a with
  | markClosed => exact .inr rfl
  | lightConnect | timeout | finish | establish =>
    obtain ⟨-, rfl⟩ := of_guard hstep
    exact .inl hmarked
  | poll c =>
    simp only [step, poll] at hstep
    split at hstep
    · split at hstep <;> obtain rfl := Option.some.inj hstep <;> exact .inl hmarked
    · cases hstep
  | resetSignal c =>
    simp only [step, resetSignal] at hstep
    split at hstep
    · cases hstep
      exact .inl hmarked
    · cases hstep
      exact .inl hmarked
    · cases hstep
  | lightClose =>
    obtain ⟨-, rfl⟩ := of_guard hstep
    exact absurd hmarked (by simp)
  | process c outcome =>
    obtain ⟨-, hstep⟩ := Option.ite_none_right_eq_some.mp hstep
    cases outcome with
    | inProgress | connected =>
      obtain ⟨-, rfl⟩ := of_guard hstep
      exact .inl hmarked
    | failed =>
      cases hstep
      exact .inl hmarked
  | hangUp fin =>
    simp only [step, hangUp] at hstep
    split at hstep <;> cases hstep <;> exact .inl hmarked

theorem kept_of_reachable {s : State n} (hreach : (system n).ReachableUnder Settled s) :
    s.marked = true → Kept s := by
  apply hreach.invariant
  · intro s hstart hmarked
    exact absurd (hstart.marked.symm.trans hmarked) (by decide)
  · intro s a t hold hguard hstep hmarked
    by_cases hs : s.marked = true
    · exact (hold hs).step hs hguard hstep hmarked
    · obtain rfl := (marked_of_step hstep hmarked).resolve_left hs
      exact Kept.of_markClosed hguard (by simpa using hs) hstep hmarked

/-- If no connection is marked closed while a `light_connect` has its signal still to reset, the
closure of an established connection stays visible to `light_send` and `light_recv`. -/
theorem connect_closure_kept (s : State n) (hreach : (system n).ReachableUnder Settled s)
    (hmarked : s.marked = true) :
    3 ≤ s.signal ∧ (∀ txSpace, lightSend s.signal txSpace = .closed) ∧
      ∀ nonblock, lightRecv nonblock s.signal 0 = .closed := by
  have hsignal := (kept_of_reachable hreach hmarked).signal
  refine ⟨hsignal, fun txSpace => ?_, fun nonblock => ?_⟩
  · simp [lightSend, hsignal, Nat.not_lt.mpr hsignal]
  · simp [lightRecv, hsignal]

def opened : State 1 where
  signal := 0
  tcp := .idle
  calls := fun _ => { pc := .idle, posted := false, ready := false }
  opened := true
  timed := false
  marked := false

theorem start_opened : Start opened := ⟨rfl, rfl, fun _ => rfl, rfl, rfl⟩

theorem connect_closure_kept_later :
    ∃ s, (system 1).ReachableUnder Settled s ∧ s.marked = true ∧ s.signal = 3 ∧
      lightRecv false s.signal 0 = .closed := by
  obtain ⟨s, hreach, hmarked, hsignal⟩ :=
    (system 1).exists_reachableUnder Settled opened
      [.lightConnect 0 true, .process 0 .inProgress, .poll 0, .establish, .poll 0,
        .resetSignal 0, .resetSignal 0, .finish 0, .hangUp true, .markClosed]
      (P := fun s => s.marked = true ∧ s.signal = 3) start_opened (by decide +kernel)
  exact ⟨s, hreach, hmarked, hsignal, (connect_closure_kept s hreach hmarked).2.2 false⟩

theorem connect_closure_overwritten :
    (∃ s, (system 1).Reachable s ∧ s.marked = true ∧ s.signal = 0 ∧
      (s.calls 0).pc = .leaving ∧ lightRecv false s.signal 0 = .waits) ∧
    ∃ s, (system 1).Reachable s ∧ s.marked = true ∧ s.signal = 0 ∧
      (s.calls 0).pc = .idle ∧ lightRecv false s.signal 0 = .waits := by
  constructor
  · exact (system 1).exists_reachable opened
      [.lightConnect 0 true, .process 0 .inProgress, .establish, .poll 0, .hangUp true,
        .markClosed, .resetSignal 0] start_opened (by decide +kernel)
  · exact (system 1).exists_reachable opened
      [.lightConnect 0 false, .process 0 .inProgress, .establish, .hangUp true, .markClosed,
        .poll 0, .resetSignal 0, .finish 0] start_opened (by decide +kernel)

end LightStack.Connect
