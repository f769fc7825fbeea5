import LightStack.Connect

/-!
# What light_connect returns

The result is that of `kernel_connect`, and the two branches for `is_nonblock` are swapped. The call
is followed from its command on: `free_command_pool`, which it takes the command from, is set
(otherwise it faults before that, see `Conn.lightConnect`).
-/

namespace LightStack.Connect.Answer

open Lib

inductive Attempt where
  | idle
  | synSent
  | established
  | closed
  | failed
  deriving DecidableEq

def Attempt.succeeded (attempt : Attempt) : Bool := attempt = .established ∨ attempt = .closed

structure State where
  nonblock : Bool
  timed : Bool
  signal : Nat
  attempt : Attempt
  pc : Pc
  reply : Option Outcome
  result : Option Outcome
  waited : Bool
  deriving DecidableEq

inductive Action where
  | poll
  | resetSignal
  | timeout
  | finish
  | process (outcome : Outcome)
  | processNoSocket
  | establish
  | fail
  | close
  deriving DecidableEq

def poll (s : State) : Option State :=
  match s.pc with
  | .polling nonblock =>
    if endsLoop nonblock s.signal then some { s with pc := .resetting nonblock }
    else some { s with waited := s.waited || s.reply.isSome }
  | _ => none

def resetSignal (s : State) : Option State :=
  match s.pc with
  | .resetting nonblock =>
    some { s with signal := 0, pc := if nonblock then .leaving else .waiting }
  | .leaving => some { s with signal := 0, pc := .waiting }
  | _ => none

def finish (s : State) : Option State :=
  if s.pc = .waiting ∧ s.reply ≠ none then some { s with pc := .idle, result := s.reply }
  else none

/-- `app_glue_v4_connect` and the reply. A datagram socket is connected at once. -/
def process (s : State) (outcome : Outcome) : State :=
  match outcome with
  | .inProgress => { s with attempt := .synSent, signal := 1, reply := some outcome }
  | .connected => { s with attempt := .established, signal := 2, reply := some outcome }
  | .failed => { s with attempt := .failed, signal := 4, reply := some outcome }

/-- There is no `struct socket` for the index, as before `light_bind`, or it has no `sk`: only the
reply is written, and the signal stays as it is. -/
def processNoSocket (s : State) : State := { s with attempt := .failed, reply := some .failed }

def step (s : State) : Action → Option State
  | .poll => poll s
  | .resetSignal => resetSignal s
  | .timeout => if s.pc = .polling true ∧ s.timed then some { s with pc := .leaving } else none
  | .finish => finish s
  | .process outcome => if s.reply = none then some (process s outcome) else none
  | .processNoSocket => if s.reply = none then some (processNoSocket s) else none
  | .establish =>
    if s.attempt = .synSent then some { s with attempt := .established, signal := 2 } else none
  | .fail => if s.attempt = .synSent then some { s with attempt := .failed, signal := 4 } else none
  | .close =>
    if s.attempt = .established then some { s with attempt := .closed, signal := 3 } else none

structure Start (s : State) : Prop where
  signal : s.signal = 0
  attempt : s.attempt = .idle
  pc : s.pc = .polling s.nonblock
  reply : s.reply = none
  result : s.result = none
  waited : s.waited = false

def system : TransitionSystem State Action where
  init := Start
  step := step

/-- The stack finds the socket, and can tell the result when it processes the command. -/
def Immediate (_ : State) (a : Action) : Prop := a ≠ .process .inProgress ∧ a ≠ .processNoSocket

def Fits (attempt : Attempt) : Option Outcome → Prop
  | none => attempt = .idle
  | some .inProgress => attempt ≠ .idle
  | some .connected => attempt.succeeded = true
  | some .failed => attempt = .failed

structure Inv (s : State) : Prop where
  signal : ∀ nonblock, s.pc = .polling nonblock → s.reply ≠ none →
    s.signal ≠ 0 ∧ (s.attempt ≠ .synSent → 2 ≤ s.signal)
  fits : Fits s.attempt s.reply
  result : ∀ r, s.result = some r → s.reply = some r
  running : s.result = none → s.pc ≠ .idle

namespace Inv

variable {s t : State}

theorem start (h : Start s) : Inv s where
  signal := fun _ _ hreply => absurd h.reply hreply
  fits := by rw [h.reply]; exact h.attempt
  result := fun r hr => nomatch h.result.symm.trans hr
  running := fun _ => by rw [h.pc]; exact nofun

theorem poll (h : Inv s) (hstep : poll s = some t) : Inv t := by
  unfold Answer.poll at hstep
  split at hstep
  · split at hstep
    · cases hstep
      exact { h with signal := nofun, running := fun _ => nofun }
    · cases hstep
      exact { h with }
  · cases hstep

theorem resetSignal (h : Inv s) (hstep : resetSignal s = some t) : Inv t := by
  unfold Answer.resetSignal at hstep
  split at hstep
  · cases hstep
    refine { h with signal := ?_, running := fun _ => ?_ }
    · split <;> exact nofun
    · split <;> exact nofun
  · cases hstep
    exact { h with signal := nofun, running := fun _ => nofun }
  · cases hstep

theorem process (h : Inv s) (outcome : Outcome) (hreply : s.reply = none) :
    Inv (process s outcome) := by
  have hnone (r : Outcome) (hr : s.result = some r) : False :=
    nomatch hreply.symm.trans (h.result r hr)
  cases outcome with
  | inProgress =>
    exact { h with
      signal := fun _ _ _ => ⟨Nat.one_ne_zero, fun hne => absurd rfl hne⟩
      fits := nofun
      result := fun r hr => (hnone r hr).elim }
  | connected =>
    exact { h with
      signal := fun _ _ _ => ⟨Nat.succ_ne_zero 1, fun _ => Nat.le_refl 2⟩
      fits := rfl
      result := fun r hr => (hnone r hr).elim }
  | failed =>
    exact { h with
      signal := fun _ _ _ => ⟨Nat.succ_ne_zero 3, fun _ => Nat.le_add_left 2 2⟩
      fits := rfl
      result := fun r hr => (hnone r hr).elim }

theorem of_attempt (h : Inv s) {attempt : Attempt} {signal : Nat} (hsignal : 2 ≤ signal)
    (hfits : Fits attempt s.reply) : Inv { s with attempt, signal } :=
  { h with
    signal := fun _ _ _ => ⟨by simp only; omega, fun _ => hsignal⟩
    fits := hfits }

theorem reply_of_synSent (h : Inv s) (hsent : s.attempt = .synSent) :
    s.reply = some .inProgress := by
  have hfits := h.fits
  rw [hsent] at hfits
  rcases hreply : s.reply with _ | _ | _ | _ <;> rw [hreply] at hfits
  · cases hfits
  · cases hfits
  · cases hfits

theorem step (h : Inv s) {a : Action} (hsocket : a ≠ .processNoSocket)
    (hstep : step s a = some t) : Inv t := by
  cases a with
  | poll => exact h.poll hstep
  | resetSignal => exact h.resetSignal hstep
  | timeout =>
    obtain ⟨-, rfl⟩ := of_guard hstep
    exact { h with signal := nofun, running := fun _ => nofun }
  | finish =>
    obtain ⟨hdone, rfl⟩ := of_guard hstep
    exact { h with
      signal := nofun
      result := fun r hr => hr
      running := fun hnone => absurd hnone hdone.2 }
  | process outcome =>
    obtain ⟨hreply, rfl⟩ := of_guard hstep
    exact h.process outcome hreply
  | processNoSocket => exact absurd rfl hsocket
  | establish =>
    obtain ⟨hsent, rfl⟩ := of_guard hstep
    refine h.of_attempt (by decide) ?_
    rw [h.reply_of_synSent hsent]
    exact nofun
  | fail =>
    obtain ⟨hsent, rfl⟩ := of_guard hstep
    refine h.of_attempt (by decide) ?_
    rw [h.reply_of_synSent hsent]
    exact nofun
  | close =>
    obtain ⟨hup, rfl⟩ := of_guard hstep
    refine h.of_attempt (by decide) ?_
    have hfits := h.fits
    rw [hup] at hfits
    rcases hreply : s.reply with _ | _ | _ | _ <;> rw [hreply] at hfits
    · cases hfits
    · exact nofun
    · rfl
    · cases hfits

end Inv

/-! ## The answer -/

def remaining : Pc → List Action
  | .idle => []
  | .polling nonblock =>
    .poll :: .resetSignal :: if nonblock then [.resetSignal, .finish] else [.finish]
  | .resetting nonblock => .resetSignal :: if nonblock then [.resetSignal, .finish] else [.finish]
  | .leaving => [.resetSignal, .finish]
  | .waiting => [.finish]

theorem returns_of_decided {s : State} (h : Inv s) (hreply : s.reply ≠ none)
    (hdecided : s.attempt ≠ .synSent) (hrunning : s.result = none) :
    ∃ t, system.exec s (remaining s.pc) = some t ∧ t.result = s.reply := by
  rcases hpc : s.pc with _ | nonblock | nonblock | _ | _
  · exact absurd hpc (h.running hrunning)
  · have hends : endsLoop nonblock s.signal = true := by
      have hsignal := (h.signal nonblock hpc hreply).2 hdecided
      unfold endsLoop
      split <;> exact decide_eq_true (by omega)
    cases nonblock <;>
      simp [remaining, TransitionSystem.exec, system, step, poll, resetSignal, finish, hpc, hends,
        hreply]
  · cases nonblock <;>
      simp [remaining, TransitionSystem.exec, system, step, resetSignal, finish, hpc, hreply]
  · simp [remaining, TransitionSystem.exec, system, step, resetSignal, finish, hpc, hreply]
  · simp [remaining, TransitionSystem.exec, system, step, finish, hpc, hreply]

/-- The attempt is never under way, and a call that polls after the reply was written stops. -/
structure Prompt (s : State) : Prop where
  waited : s.waited = false
  decided : s.attempt ≠ .synSent
  reply : s.reply ≠ some .inProgress

theorem prompt_of_reachable {s : State} (hreach : system.ReachableUnder Immediate s) :
    Inv s ∧ Prompt s := by
  apply hreach.invariant
  · intro s hstart
    exact ⟨.start hstart, hstart.waited, by rw [hstart.attempt]; decide, by
      rw [hstart.reply]; decide⟩
  · rintro s a t ⟨hinv, hprompt⟩ hguard hstep
    refine ⟨hinv.step hguard.2 hstep, ?_⟩
    cases a with
    | poll =>
      simp only [system, step, poll] at hstep
      split at hstep
      · next nonblock hpc =>
        split at hstep
        · cases hstep
          exact { hprompt with }
        · next hends =>
          cases hstep
          have hreply : s.reply = none := by
            by_contra hreply
            have hsignal := (hinv.signal nonblock hpc hreply).2 hprompt.decided
            refine hends ?_
            unfold endsLoop
            split <;> exact decide_eq_true (by omega)
          exact { hprompt with waited := by simp [hprompt.waited, hreply] }
      · cases hstep
    | resetSignal =>
      simp only [system, step, resetSignal] at hstep
      split at hstep <;> cases hstep <;> exact { hprompt with }
    | timeout =>
      obtain ⟨-, rfl⟩ := of_guard hstep
      exact { hprompt with }
    | finish =>
      obtain ⟨-, rfl⟩ := of_guard hstep
      exact { hprompt with }
    | process outcome =>
      obtain ⟨-, rfl⟩ := of_guard hstep
      cases outcome with
      | inProgress => exact absurd rfl hguard.1
      | connected => exact ⟨hprompt.waited, nofun, nofun⟩
      | failed => exact ⟨hprompt.waited, nofun, nofun⟩
    | processNoSocket => exact absurd rfl hguard.2
    | establish => exact absurd (of_guard hstep).1 hprompt.decided
    | fail => exact absurd (of_guard hstep).1 hprompt.decided
    | close =>
      obtain ⟨-, rfl⟩ := of_guard hstep
      exact { hprompt with decided := nofun }

instance decidableImmediate (s : State) (a : Action) : Decidable (Immediate s a) :=
  inferInstanceAs (Decidable (_ ∧ _))

def called (nonblock : Bool) : State :=
  ⟨nonblock, false, 0, .idle, .polling nonblock, none, none, false⟩

theorem start_called (nonblock : Bool) : Start (called nonblock) := ⟨rfl, rfl, rfl, rfl, rfl, rfl⟩

/-- The reply is there, but the loop waits for a signal that nothing sets any more. -/
structure Spinning (s : State) : Prop where
  signal : s.signal = 0
  pc : s.pc = .polling false
  reply : s.reply = some .failed
  attempt : s.attempt = .failed
  result : s.result = none

theorem Spinning.step {s t : State} {a : Action} (h : Spinning s)
    (hstep : Answer.step s a = some t) : Spinning t := by
  cases a with
  | poll =>
    rw [Answer.step, Answer.poll, h.pc] at hstep
    dsimp only at hstep
    rw [if_neg (by rw [h.signal]; decide)] at hstep
    cases hstep
    exact ⟨h.signal, rfl, h.reply, h.attempt, h.result⟩
  | _ => simp [Answer.step, resetSignal, finish, h.pc, h.reply, h.attempt] at hstep

end LightStack.Connect.Answer
