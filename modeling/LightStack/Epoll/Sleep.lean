import LightStack.Epoll.Model

/-!
# Going to sleep without losing a wake-up

The caller tests the rings and then announces its sleep; a stack process enqueues and then looks.
-/

namespace LightStack.Epoll

open Lib Function

variable {cfg : Config}

def PostPc.inFlight : PostPc → Bool
  | .takeLock _ => true
  | .testSleeping _ => true
  | .writeFifo _ => true
  | _ => false

def WakeComing (s : State cfg) : Prop := (∃ p, 0 < s.fifo p) ∨ ∃ p, (s.post p).inFlight = true

def LostWakeup (s : State cfg) : Prop :=
  s.wait = .blocked ∧ s.timeout < 0 ∧ s.ready ≠ [] ∧
    (∀ p, s.fifo p = 0) ∧ ∀ p, (s.post p).inFlight = false

instance (s : State cfg) : Decidable (WakeComing s) := inferInstanceAs (Decidable (_ ∨ _))

instance (s : State cfg) : Decidable (LostWakeup s) := inferInstanceAs (Decidable (_ ∧ _))

def SleepGuard (s : State cfg) : Action cfg → Prop
  | .app => s.wait = .announce → s.ready = [] ∨ WakeComing s
  | .stack p =>
    match s.post p with
    | .testSleeping info => s.isSleeping = true → s.apppid p info.sockfd = true ∧ 1 ≤ s.backlog p
    | _ => True
  | _ => True

instance (s : State cfg) (a : Action cfg) : Decidable (SleepGuard s a) := by
  cases_type Action <;> dsimp only [SleepGuard] <;> try infer_instance
  generalize s.post a = pc
  cases_type PostPc <;> infer_instance

/-! ## The invariant -/

structure SleepSafe (s : State cfg) : Prop where
  announced : s.wait = .blocked → s.isSleeping = true
  woken : s.wait = .blocked → s.ready = [] ∨ WakeComing s

variable {s s' : State cfg}

theorem SleepSafe.of_not_blocked (h : s.wait ≠ .blocked) : SleepSafe s :=
  ⟨fun hb => absurd hb h, fun hb => absurd hb h⟩

theorem SleepSafe.not_lostWakeup (h : SleepSafe s) : ¬ LostWakeup s := by
  rintro ⟨hblocked, _, hready, hfifo, hflight⟩
  rcases h.woken hblocked with hempty | ⟨p, hp⟩ | ⟨p, hp⟩
  · exact hready hempty
  · rw [hfifo p] at hp
    omega
  · rw [hflight p] at hp
    cases hp

theorem takeEvent_wait_ne_blocked (s : State cfg) (loop : Loop) :
    (takeEvent s loop).wait ≠ .blocked := by
  have hnext : loop.next s.events ≠ .blocked := by cases loop <;> simp [Loop.next]
  unfold takeEvent
  split
  · split
    · simp
    · exact hnext
  · exact hnext

theorem drainFifo_wait_ne_blocked (s : State cfg) (k : Nat) (slept : Bool) :
    (drainFifo s k slept).wait ≠ .blocked := by
  unfold drainFifo
  split
  · simp
  · cases slept <;> simp

theorem appStep_wait_ne_blocked (hannounce : s.wait ≠ .announce)
    (hstep : appStep s = some s') : s'.wait ≠ .blocked := by
  cases hpc : s.wait
  case outside | blocked | addKernelEvents => simp [appStep, hpc] at hstep
  case announce => exact absurd hpc hannounce
  case drainFifo k slept =>
    simp only [appStep, hpc, Option.some.injEq] at hstep
    exact hstep ▸ drainFifo_wait_ne_blocked s k slept
  case take loop =>
    simp only [appStep, hpc, Option.some.injEq] at hstep
    exact hstep ▸ takeEvent_wait_ne_blocked s loop
  case testAvailable loop info =>
    simp only [appStep, hpc, Option.some.injEq] at hstep
    subst hstep
    unfold testAvailable
    split <;> simp
  case clearBit loop info | rearmSetBit info todo =>
    simp only [appStep, hpc] at hstep
    split at hstep
    · cases hstep
      simp
    · cases hstep
  case rearm todo =>
    cases todo with
    | nil =>
      simp only [appStep, hpc, Option.some.injEq] at hstep
      subst hstep
      simp
    | cons info todo =>
      simp only [appStep, hpc, Option.some.injEq] at hstep
      subst hstep
      dsimp only
      split <;> simp
  case testReady | testShadow | readBit =>
    simp only [appStep, hpc, Option.some.injEq] at hstep
    subst hstep
    dsimp only
    split <;> simp
  case clearSleeping | rearmEnqueue =>
    simp only [appStep, hpc, Option.some.injEq] at hstep
    subst hstep
    simp

theorem appStep_sleepSafe (hguard : SleepGuard s .app)
    (hstep : appStep s = some s') : SleepSafe s' := by
  by_cases hannounce : s.wait = .announce
  · simp only [appStep, hannounce, Option.some.injEq] at hstep
    subst hstep
    exact ⟨fun _ => rfl, fun _ => hguard hannounce⟩
  · exact .of_not_blocked (appStep_wait_ne_blocked hannounce hstep)

theorem WakeComing.move {p : Fin cfg.numProcs} {pc : PostPc} (hcoming : WakeComing s)
    (hfifo : s'.fifo = s.fifo) (hpost : s'.post = update s.post p pc)
    (hp : (s.post p).inFlight = true → pc.inFlight = true) : WakeComing s' := by
  rcases hcoming with ⟨q, hq⟩ | ⟨q, hq⟩
  · exact .inl ⟨q, by rw [hfifo]; exact hq⟩
  · refine .inr ⟨q, ?_⟩
    rw [hpost]
    by_cases hqp : q = p
    · subst hqp
      rw [update_self]
      exact hp hq
    · rw [update_of_ne hqp]
      exact hq

theorem stackStep_sleepSafe {p : Fin cfg.numProcs} (hs : SleepSafe s)
    (hguard : SleepGuard s (.stack p)) (hstep : stackStep s p = some s') : SleepSafe s' := by
  cases hpc : s.post p with
  | idle => simp [stackStep, hpc] at hstep
  | enqueue info =>
    simp only [stackStep, hpc, Option.some.injEq] at hstep
    subst hstep
    unfold enqueueEvent
    split
    · refine ⟨hs.announced, fun _ => .inr (.inr ⟨p, ?_⟩)⟩
      simp [PostPc.inFlight]
    · refine ⟨hs.announced, fun hblocked => (hs.woken hblocked).imp_right ?_⟩
      intro hcoming
      exact hcoming.move rfl rfl (by simp [hpc, PostPc.inFlight])
  | takeLock info =>
    simp only [stackStep, hpc] at hstep
    split at hstep
    · cases hstep
      refine ⟨hs.announced, fun hblocked => (hs.woken hblocked).imp_right ?_⟩
      intro hcoming
      exact hcoming.move rfl rfl (by simp [PostPc.inFlight])
    · cases hstep
  | testSleeping info =>
    simp only [stackStep, hpc, Option.some.injEq] at hstep
    simp only [SleepGuard, hpc] at hguard
    subst hstep
    unfold testSleeping
    split
    · refine ⟨hs.announced, fun hblocked => (hs.woken hblocked).imp_right ?_⟩
      intro hcoming
      exact hcoming.move rfl rfl (by simp [PostPc.inFlight])
    · rename_i hskip
      -- the test fails only for a caller that is awake
      refine .of_not_blocked fun hblocked => hskip ?_
      have hsleeping := hs.announced hblocked
      exact ⟨hsleeping, hguard hsleeping⟩
  | writeFifo info =>
    simp only [stackStep, hpc, Option.some.injEq] at hstep
    subst hstep
    exact ⟨hs.announced, fun _ => .inr (.inl ⟨p, by simp⟩)⟩
  | setBit info =>
    simp only [stackStep, hpc, Option.some.injEq] at hstep
    subst hstep
    refine ⟨hs.announced, fun hblocked => (hs.woken hblocked).imp_right ?_⟩
    intro hcoming
    exact hcoming.move rfl rfl (by simp [hpc, PostPc.inFlight])

theorem step_sleepSafe {a : Action cfg} (hs : SleepSafe s)
    (hguard : SleepGuard s a) (hstep : step s a = some s') : SleepSafe s' := by
  cases a with
  | app => exact appStep_sleepSafe hguard hstep
  | stack p => exact stackStep_sleepSafe hs hguard hstep
  | call | wake | rearmFails =>
    simp only [step] at hstep
    split at hstep
    · cases hstep
      exact .of_not_blocked (by simp)
    · cases hstep
  | finish kernelEvents =>
    simp only [step] at hstep
    split at hstep
    · cases hstep
      refine .of_not_blocked ?_
      dsimp only
      split <;> simp
    · cases hstep
  | recv | setTxSpace | setAppPid =>
    cases hstep
    exact ⟨hs.announced, hs.woken⟩
  | submitRxBuf | post =>
    simp only [step] at hstep
    split at hstep
    · rename_i hidle
      cases hstep
      refine ⟨hs.announced, fun hblocked => (hs.woken hblocked).imp_right ?_⟩
      intro hcoming
      exact hcoming.move rfl rfl (by simp [hidle, PostPc.inFlight])
    · cases hstep
  | postFails p =>
    simp only [step] at hstep
    split at hstep
    · rename_i hpc
      cases hstep
      refine ⟨hs.announced, fun hblocked => (hs.woken hblocked).imp_right ?_⟩
      intro hcoming
      exact hcoming.move rfl rfl (by simp [hpc, PostPc.inFlight])
    · cases hstep

/-- If the caller announces its sleep only while all queued events have a wake-up coming, it never
sleeps through an event. -/
theorem wakeup_not_lost {s : State cfg} (hreach : (epollSystem cfg).ReachableUnder SleepGuard s) :
    ¬ LostWakeup s := by
  have hsafe : SleepSafe s := by
    refine hreach.invariant ?_ ?_
    · rintro _ rfl
      exact .of_not_blocked (by simp [start])
    · intro s a t hs hguard hstep
      exact step_sleepSafe hs hguard hstep
  exact hsafe.not_lostWakeup

def sleepThenPost : List (Action oneSocket) :=
  [.setAppPid firstProc 0, .call (-1) 8, .app, .app, .app,
    .submitRxBuf firstProc 0, .stack firstProc, .stack firstProc,
    .stack firstProc]

theorem wakeup_not_lost_sleepThenPost : ∃ s : State oneSocket,
      (epollSystem oneSocket).ReachableUnder SleepGuard s ∧
        (s.wait = .blocked ∧ s.timeout < 0 ∧ s.ready ≠ []) ∧ ¬ LostWakeup s := by
  obtain ⟨s, hreach, htest⟩ :=
    (epollSystem oneSocket).exists_reachableUnder SleepGuard (start oneSocket)
      sleepThenPost (P := fun s => s.wait = .blocked ∧ s.timeout < 0 ∧ s.ready ≠ []) rfl (by decide)
  exact ⟨s, hreach, htest, wakeup_not_lost hreach⟩

def postBeforeAnnounce : List (Action oneSocket) :=
  [.setAppPid firstProc 0, .call (-1) 8, .app, .app,
    .submitRxBuf firstProc 0, .stack firstProc, .stack firstProc,
    .stack firstProc, .stack firstProc, .app]

theorem wakeup_lost_postBeforeAnnounce : ∃ s : State oneSocket,
      (epollSystem oneSocket).Reachable s ∧ LostWakeup s :=
  (epollSystem oneSocket).exists_reachable (start oneSocket) postBeforeAnnounce rfl
    (by decide)

end LightStack.Epoll
