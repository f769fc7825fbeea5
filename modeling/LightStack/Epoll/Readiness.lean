import LightStack.Epoll.Cover

/-!
# Readiness is not lost
-/

namespace LightStack.Epoll

open Lib Function

variable {cfg : Config}

section

variable {s s' : State cfg} {a : Action cfg} {info : EventInfo} {loop : Loop}

/-- A level-triggered socket with data, and a hang-up the caller has not been told of. -/
def Due (s : State cfg) (info : EventInfo) : Prop :=
  match info.event with
  | .epollin =>
    cfg.interested info = true ∧ notRearmed cfg info = false ∧
      0 < s.rx info.sockfd
  | .epollhup => cfg.interested info = true ∧ s.hupPosted info.sockfd = true
  | _ => False

theorem Due.interested (h : Due s info) : cfg.interested info = true := by
  unfold Due at h
  split at h
  · exact h.1
  · exact h.1
  · exact h.elim

/-! ## What a step makes due -/

/-- The step leaves the received data alone and posts a hang-up only where one is wanted. -/
structure Quiet (s s' : State cfg) : Prop where
  rx : s'.rx = s.rx
  hup : ∀ sock, s'.hupPosted sock = true → s.hupPosted sock = true ∨
    cfg.interested ⟨sock, .epollhup⟩ = true ∧ ∃ p, (s'.post p).pending = some ⟨sock, .epollhup⟩

theorem Quiet.of_eq (hrx : s'.rx = s.rx) (hhup : s'.hupPosted = s.hupPosted) : Quiet s s' :=
  ⟨hrx, fun _ h => .inl (hhup ▸ h)⟩

theorem testAvailable_quiet (s : State cfg) (loop : Loop) (info : EventInfo) :
    Quiet s (testAvailable s loop info) := by
  unfold testAvailable
  split
  · refine ⟨rfl, fun sock h => .inl ?_⟩
    dsimp only at h
    split at h
    · exact (of_update_eq h (by simp)).2
    · exact h
  · exact .of_eq rfl rfl

theorem enqueueEvent_quiet (s : State cfg) (p : Fin cfg.numProcs) (info : EventInfo) :
    Quiet s (enqueueEvent s p info) := by
  unfold enqueueEvent
  split
  · rename_i hint
    refine ⟨rfl, fun sock h => ?_⟩
    dsimp only at h
    split at h
    · rename_i hevent
      by_cases hsock : sock = info.sockfd
      · subst hsock
        rw [← hevent]
        exact .inr ⟨hint, p, by simp⟩
      · exact .inl (by simpa [hsock] using h)
    · exact .inl h
  · exact .of_eq rfl rfl

theorem appStep_quiet (hstep : appStep s = some s') : Quiet s s' := by
  unfold appStep at hstep
  split at hstep
  case h_6 k slept _ =>
    cases hstep
    unfold drainFifo
    split <;> exact .of_eq rfl rfl
  case h_8 loop _ =>
    cases hstep
    unfold takeEvent
    split
    · split
      · cases loop <;> exact .of_eq rfl rfl
      · exact .of_eq rfl rfl
    · exact .of_eq rfl rfl
  case h_10 loop info _ =>
    cases hstep
    exact testAvailable_quiet s loop info
  all_goals first
    | cases hstep; exact .of_eq rfl rfl
    | obtain ⟨-, rfl⟩ := of_guard hstep; exact .of_eq rfl rfl
    | cases hstep

theorem stackStep_quiet {p : Fin cfg.numProcs} (hstep : stackStep s p = some s') : Quiet s s' := by
  unfold stackStep at hstep
  split at hstep
  · cases hstep
  · cases hstep
    exact enqueueEvent_quiet s p _
  · obtain ⟨-, rfl⟩ := of_guard hstep
    exact .of_eq rfl rfl
  · cases hstep
    unfold testSleeping
    split <;> exact .of_eq rfl rfl
  · cases hstep
    exact .of_eq rfl rfl
  · cases hstep
    exact .of_eq rfl rfl

/-- Data comes with a post, and otherwise only goes. -/
theorem step_rx (hstep : step s a = some s') (sock : Sock) (h : 0 < s'.rx sock) :
    0 < s.rx sock ∨ ∃ p, (s'.post p).pending = some ⟨sock, .epollin⟩ := by
  cases a with
  | app => exact .inl ((appStep_quiet hstep).rx ▸ h)
  | stack p => exact .inl ((stackStep_quiet hstep).rx ▸ h)
  | recv k =>
    cases hstep
    left
    by_cases hk : sock = k
    · subst hk
      simp only [update_self] at h
      omega
    · simpa [hk] using h
  | submitRxBuf p k =>
    obtain ⟨-, rfl⟩ := of_guard hstep
    by_cases hk : sock = k
    · exact .inr ⟨p, by simp [hk]⟩
    · exact .inl (by simpa [hk] using h)
  | setTxSpace | setAppPid =>
    cases hstep
    exact .inl h
  | call | wake | finish | post =>
    obtain ⟨-, rfl⟩ := of_guard hstep
    exact .inl h
  | rearmFails | postFails =>
    simp only [step] at hstep
    split at hstep <;> cases hstep
    exact .inl h

theorem step_hup (hstep : step s a = some s') (sock : Sock) (h : s'.hupPosted sock = true) :
    s.hupPosted sock = true ∨ cfg.interested ⟨sock, .epollhup⟩ = true ∧
      ∃ p, (s'.post p).pending = some ⟨sock, .epollhup⟩ := by
  cases a with
  | app => exact (appStep_quiet hstep).hup sock h
  | stack p => exact (stackStep_quiet hstep).hup sock h
  | recv | setTxSpace | setAppPid =>
    cases hstep
    exact .inl h
  | call | wake | finish | submitRxBuf | post =>
    obtain ⟨-, rfl⟩ := of_guard hstep
    exact .inl h
  | rearmFails | postFails =>
    simp only [step] at hstep
    split at hstep <;> cases hstep
    exact .inl h

theorem Due.of_step (h : Due s' info) (hstep : step s a = some s') :
    Due s info ∨ ∃ p, (s'.post p).pending = some info := by
  rcases info with ⟨sock, event⟩
  cases event with
  | epollin => exact (step_rx hstep sock h.2.2).imp_left fun hrx => ⟨h.1, h.2.1, hrx⟩
  | epollhup => exact (step_hup hstep sock h.2).imp (fun hhup => ⟨h.1, hhup⟩) And.right
  | epollout | epollerr => exact h.elim

/-- An event the caller has tested and that is still due has been stored for it. -/
theorem Due.stored (h : Due s info) (h' : Due (testAvailable s loop info) info) :
    notRearmed cfg info = false ∧ eventAvailable s info = true := by
  rcases info with ⟨sock, event⟩
  cases event with
  | epollin => exact ⟨h.2.1, by simpa [eventAvailable] using h.2.2⟩
  | epollhup => simp [Due, testAvailable, eventAvailable] at h'
  | epollout | epollerr => exact h.elim

/-! ## Every run -/

structure Kept (s : State cfg) : Prop where
  events : EventsKept (Due s) s
  hup : ∀ sock, s.hupPosted sock = true → cfg.interested ⟨sock, .epollhup⟩ = true

theorem Kept.start : Kept (start cfg) where
  events := .start fun info h => by
    unfold Due at h
    split at h <;> simp [Epoll.start] at h
  hup := by simp [Epoll.start]

theorem Kept.step (hs : Kept s) (hguard : WindowsDisjoint s a) (hstep : step s a = some s') :
    Kept s' where
  events := by
    -- what was due and still is goes on being covered; the rest has just been posted
    have hold : EventsKept (fun i => Due s i ∧ Due s' i) s' := by
      refine step_eventsKept (hs.events.mono fun i hi => hi.1) hguard (fun i hi => hi.1.interested)
        ?_ hstep
      rintro rfl loop info hwait ⟨hdue, hdue'⟩
      simp only [Epoll.step, appStep, hwait, Option.some.injEq] at hstep
      exact hdue.stored (hstep ▸ hdue')
    refine { hold with covered := fun i hi => ?_ }
    rcases hi.of_step hstep with hdue | ⟨p, hp⟩
    · exact hold.covered i ⟨hdue, hi⟩
    · exact .posting p hp
  hup := fun sock h => (step_hup hstep sock h).elim (hs.hup sock) And.left

def Quiescent (s : State cfg) : Prop := s.wait = .outside ∧ ∀ p, s.post p = .idle

def NotExhausted (_ : State cfg) : Action cfg → Prop
  | .rearmFails => False
  | .postFails _ => False
  | _ => True

def ReadinessVisible (s : State cfg) : Prop :=
  (∀ sock node, cfg.node sock = some node →
    node.edgeTriggered = false → node.epollEvents .epollin = true →
    0 < s.rx sock → Queued s ⟨sock, .epollin⟩ ∧ s.bit ⟨sock, .epollin⟩ = true) ∧
  ∀ sock, s.hupPosted sock = true → Queued s ⟨sock, .epollhup⟩ ∧ s.bit ⟨sock, .epollhup⟩ = true

theorem Kept.visible_of_quiescent (hs : Kept s) (hquiet : Quiescent s) (hdue : Due s info) :
    Queued s info ∧ s.bit info = true := by
  cases hs.events.covered info hdue with
  | posting p h => simp [hquiet.2 p] at h
  | owed _ h => simp [hquiet.1] at h
  | marked hbit _ =>
    exact ⟨(hs.events.bitQueued info hbit).resolve_right (by simp [hquiet.1]), hbit⟩
  | valid loop h => simp [hquiet.1] at h

/-- If the stack's window from enqueueing to setting the bit and the caller's from dequeueing to
clearing it do not overlap, no readiness is lost. -/
theorem readiness_not_lost {s : State cfg}
    (hreach : (epollSystem cfg).ReachableUnder WindowsDisjoint s)
    (hquiet : Quiescent s) : ReadinessVisible s := by
  have hkept : Kept s := by
    refine hreach.invariant ?_ ?_
    · rintro _ rfl
      exact Kept.start
    · intro s a t hs hguard hstep
      exact hs.step hguard hstep
  constructor
  · intro sock node hnode hlevel hin hrx
    refine hkept.visible_of_quiescent hquiet ⟨?_, ?_, hrx⟩
    · simp [Config.interested, hnode, hin]
    · simp [notRearmed, hnode, hlevel]
  · intro sock hposted
    exact hkept.visible_of_quiescent hquiet ⟨hkept.hup sock hposted, hposted⟩

end

def dataThenHup : List (Action oneSocket) :=
  [.submitRxBuf firstProc 0, .stack firstProc, .stack firstProc, .stack firstProc, .stack firstProc,
    .post firstProc ⟨0, .epollhup⟩, .stack firstProc, .stack firstProc,
    .stack firstProc, .stack firstProc]

instance (s : State cfg) : Decidable (Quiescent s) := inferInstanceAs (Decidable (_ ∧ _))

theorem readiness_not_lost_dataThenHup : ∃ s : State oneSocket,
      (epollSystem oneSocket).ReachableUnder WindowsDisjoint s ∧
        (Quiescent s ∧ 0 < s.rx 0 ∧ s.hupPosted 0 = true) ∧ ReadinessVisible s := by
  obtain ⟨s, hreach, hfacts⟩ :=
    (epollSystem oneSocket).exists_reachableUnder WindowsDisjoint (start oneSocket)
      dataThenHup (P := fun s => Quiescent s ∧ 0 < s.rx 0 ∧ s.hupPosted 0 = true) rfl (by decide)
  exact ⟨s, hreach, hfacts, readiness_not_lost hreach hfacts.1⟩

instance decidableNotExhausted (s : State cfg) (a : Action cfg) : Decidable (NotExhausted s a) := by
  cases_type Action <;> dsimp only [NotExhausted] <;> infer_instance

def takenBeforeBitSet : List (Action oneSocket) :=
  [.submitRxBuf firstProc 0, .stack firstProc, .call (-1) 8,
    .app, .app, .app, .app, .app, .app, .app, .app, .app, .finish 1,
    .stack firstProc, .stack firstProc, .stack firstProc]

theorem readiness_lost_takenBeforeBitSet : ∃ s : State oneSocket,
      (epollSystem oneSocket).ReachableUnder NotExhausted s ∧
        Quiescent s ∧ 0 < s.rx 0 ∧ ¬ Queued s ⟨0, .epollin⟩ :=
  (epollSystem oneSocket).exists_reachableUnder NotExhausted (start oneSocket)
    takenBeforeBitSet rfl (by decide)

end LightStack.Epoll
