import LightStack.Epoll.Model
import LightStack.Lib.Update

/-!
# Who takes care of an event

The stack enqueues before it sets the bit, and the caller dequeues before it clears it. An event
that is covered here is still to be seen by the caller.
-/

namespace LightStack.Epoll

open Lib Function List

variable {cfg : Config}

/-! ## Windows -/

@[simp] def WaitPc.window : WaitPc → Option EventInfo
  | .readBit _ info => some info
  | .testAvailable _ info => some info
  | .clearBit _ info => some info
  | _ => none

@[simp] def PostPc.window : PostPc → Option EventInfo
  | .takeLock info => some info
  | .testSleeping info => some info
  | .writeFifo info => some info
  | .setBit info => some info
  | _ => none

@[simp] def PostPc.pending : PostPc → Option EventInfo
  | .enqueue info => some info
  | pc => pc.window

def WindowsDisjoint (s : State cfg) : Action cfg → Prop
  | .app =>
    match s.wait with
    | .take loop =>
      match (takeRing s loop).head? with
      | some info => s.events.length < s.maxevents → ∀ p, (s.post p).window ≠ some info
      | none => True
    | _ => True
  | .stack p =>
    match s.post p with
    | .enqueue info => s.wait.window ≠ some info
    | _ => True
  | .rearmFails => False
  | .postFails _ => False
  | _ => True

instance (s : State cfg) (a : Action cfg) : Decidable (WindowsDisjoint s a) := by
  unfold WindowsDisjoint
  split
  · split
    · split <;> infer_instance
    · infer_instance
  · split <;> infer_instance
  all_goals infer_instance

def Queued (s : State cfg) (info : EventInfo) : Prop := info ∈ s.shadow ∨ info ∈ s.ready

instance (s : State cfg) (info : EventInfo) : Decidable (Queued s info) :=
  inferInstanceAs (Decidable (_ ∨ _))

@[simp] def WaitPc.owed (events : List EventInfo) : WaitPc → List EventInfo
  | .take _ => events
  | .readBit _ _ => events
  | .testAvailable _ _ => events
  | .clearBit _ _ => events
  | .rearm todo => todo
  | .rearmEnqueue info todo => info :: todo
  | .rearmSetBit info todo => info :: todo
  | _ => []

/-- The event whose bit the caller goes on to clear without looking at it again. -/
@[simp] def WaitPc.clears : WaitPc → Option EventInfo
  | .testAvailable _ info => some info
  | .clearBit _ info => some info
  | _ => none

/-- A stack process is posting the event, the caller has to enqueue it again, its bit is set and not
about to be cleared, or the caller has found it valid. -/
inductive Covered (cfg : Config) (bit : EventInfo → Bool) (post : Fin cfg.numProcs → PostPc)
    (wait : WaitPc) (events : List EventInfo) (info : EventInfo) : Prop where
  | posting (p : Fin cfg.numProcs) (h : (post p).pending = some info)
  | owed (hrearmed : notRearmed cfg info = false) (h : info ∈ wait.owed events)
  | marked (h : bit info = true) (hkeep : wait.clears ≠ some info)
  | valid (loop : Loop) (h : wait = .testAvailable loop info)

/-- Every marked event is queued or in the caller's hand, the two sides' windows are disjoint, and
the events of `D` are covered. -/
structure Tracks (D queued : EventInfo → Prop) (bit : EventInfo → Bool)
    (post : Fin cfg.numProcs → PostPc) (wait : WaitPc) (events : List EventInfo) : Prop where
  bitQueued : ∀ info, bit info = true → queued info ∨ wait.window = some info
  postQueued : ∀ p info, (post p).window = some info → queued info ∧ wait.window ≠ some info
  rearmQueued : ∀ info todo, wait = .rearmSetBit info todo → queued info
  covered : ∀ info, D info → Covered cfg bit post wait events info

abbrev EventsKept (D : EventInfo → Prop) (s : State cfg) : Prop :=
  Tracks D (Queued s) s.bit s.post s.wait s.events

theorem WaitPc.window_of_clears {wait : WaitPc} {info : EventInfo} (h : wait.clears = some info) :
    wait.window = some info := by
  cases wait <;> first | exact h | cases h

namespace Tracks

variable {D D' queued queued' : EventInfo → Prop} {bit : EventInfo → Bool}
  {post : Fin cfg.numProcs → PostPc} {wait wait' : WaitPc} {events events' : List EventInfo}
  {loop : Loop} {j : EventInfo} {todo : List EventInfo} {p : Fin cfg.numProcs} {pc : PostPc}

theorem mono (h : Tracks D queued bit post wait events) (hD : ∀ i, D' i → D i) :
    Tracks D' queued bit post wait events :=
  { h with covered := fun i hi => h.covered i (hD i hi) }

theorem mark (h : Tracks D queued bit post wait events) (hqueued : queued j)
    (hkeep : wait.clears ≠ some j) :
    Tracks (fun i => D i ∨ i = j) queued (update bit j true) post wait events where
  bitQueued := by
    intro i hbit
    by_cases hij : i = j
    · exact .inl (hij ▸ hqueued)
    · exact h.bitQueued i (by simpa [hij] using hbit)
  postQueued := h.postQueued
  rearmQueued := h.rearmQueued
  covered := by
    intro i hi
    by_cases hij : i = j
    · exact .marked (by simp [hij]) (hij ▸ hkeep)
    · cases h.covered i (hi.resolve_right hij) with
      | posting p hp => exact .posting p hp
      | owed hrearmed hmem => exact .owed hrearmed hmem
      | marked hbit hkeep => exact .marked (by simpa [hij] using hbit) hkeep
      | valid loop hw => exact .valid loop hw

/-! ## Steps of the caller -/

theorem frame (h : Tracks D queued bit post wait events) (hq : ∀ i, queued i → queued' i)
    (hwindow : wait'.window = wait.window)
    (hset : ∀ i todo, wait' = .rearmSetBit i todo → queued' i)
    (hcovered : ∀ i, D i → Covered cfg bit post wait' events' i) :
    Tracks D queued' bit post wait' events' where
  bitQueued := fun i hbit => hwindow ▸ (h.bitQueued i hbit).imp_left (hq i)
  postQueued := fun p i hp => hwindow ▸ (h.postQueued p i hp).imp_left (hq i)
  rearmQueued := hset
  covered := hcovered

theorem pass (h : Tracks D queued bit post wait events) (hq : ∀ i, queued i → queued' i)
    (hwindow : wait.window = none) (hwindow' : wait'.window = none)
    (hset : ∀ i todo, wait' = .rearmSetBit i todo → queued' i)
    (howed : ∀ i, D i → i ∈ wait.owed events → i ∈ wait'.owed events') :
    Tracks D queued' bit post wait' events' := by
  refine h.frame hq (hwindow'.trans hwindow.symm) hset fun i hi => ?_
  cases h.covered i hi with
  | posting p hp => exact .posting p hp
  | owed hrearmed hmem => exact .owed hrearmed (howed i hi hmem)
  | marked hbit _ =>
    refine .marked hbit fun hclears => ?_
    rw [WaitPc.window_of_clears hclears] at hwindow'
    cases hwindow'
  | valid loop hw => simp [hw] at hwindow

theorem dequeue (h : Tracks D queued bit post (.take loop) events)
    (hq : ∀ i, i ≠ j → queued i → queued' i) (hpost : ∀ p, (post p).window ≠ some j) :
    Tracks D queued' bit post (.readBit loop j) events where
  bitQueued := by
    intro i hbit
    by_cases hij : i = j
    · exact .inr (by simp [hij])
    · exact .inl (hq i hij ((h.bitQueued i hbit).resolve_right (by simp)))
  postQueued := by
    intro p i hp
    have hij : i ≠ j := by
      rintro rfl
      exact hpost p hp
    exact ⟨hq i hij (h.postQueued p i hp).1, by simpa using hij.symm⟩
  rearmQueued := fun _ _ hw => by cases hw
  covered := by
    intro i hi
    cases h.covered i hi with
    | posting p hp => exact .posting p hp
    | owed hrearmed hmem => exact .owed hrearmed hmem
    | marked hbit _ => exact .marked hbit (by simp)
    | valid loop hw => cases hw

theorem readBit (h : Tracks D queued bit post (.readBit loop j) events)
    (hinterested : ∀ i, D i → cfg.interested i = true) :
    Tracks D queued bit post
      (if cfg.interested j && bit j then .testAvailable loop j else .clearBit loop j) events := by
  refine h.frame (fun _ hi => hi) (by split <;> rfl) ?_ fun i hi => ?_
  · intro i todo hw
    split at hw <;> cases hw
  · cases h.covered i hi with
    | posting p hp => exact .posting p hp
    | owed hrearmed hmem => exact .owed hrearmed (by split <;> exact hmem)
    | marked hbit _ =>
      by_cases hij : i = j
      · subst hij
        exact .valid loop (by simp [hbit, hinterested i hi])
      · exact .marked hbit (by split <;> simpa using Ne.symm hij)
    | valid loop hw => cases hw

theorem testAvailable (h : Tracks D queued bit post (.testAvailable loop j) events)
    (hevents : events ⊆ events') (hstored : D j → notRearmed cfg j = false ∧ j ∈ events') :
    Tracks D queued bit post (.clearBit loop j) events' := by
  refine h.frame (fun _ hi => hi) rfl (fun _ _ hw => by cases hw) fun i hi => ?_
  cases h.covered i hi with
  | posting p hp => exact .posting p hp
  | owed hrearmed hmem => exact .owed hrearmed (hevents hmem)
  | marked hbit hkeep => exact .marked hbit hkeep
  | valid loop hw =>
    cases hw
    exact .owed (hstored hi).1 (hstored hi).2

theorem clearBit (h : Tracks D queued bit post (.clearBit loop j) events) :
    Tracks D queued (update bit j false) post (.take loop) events where
  bitQueued := by
    intro i hbit
    obtain ⟨hij, hbit⟩ := of_update_eq hbit (by simp)
    exact .inl ((h.bitQueued i hbit).resolve_right (by simpa using hij.symm))
  postQueued := fun p i hp => ⟨(h.postQueued p i hp).1, by simp⟩
  rearmQueued := fun _ _ hw => by cases hw
  covered := by
    intro i hi
    cases h.covered i hi with
    | posting p hp => exact .posting p hp
    | owed hrearmed hmem => exact .owed hrearmed hmem
    | marked hbit hkeep =>
      have hij : i ≠ j := by
        rintro rfl
        exact hkeep rfl
      exact .marked (by simpa [hij] using hbit) (by simp)
    | valid loop hw => cases hw

/-- An event that is not enqueued again has its bit set, or is of a kind that never is. -/
theorem skip (h : Tracks D queued bit post (.rearm (j :: todo)) events)
    (hskip : bit j = true ∨ notRearmed cfg j = true) :
    Tracks D queued bit post (.rearm todo) events := by
  refine h.frame (fun _ hi => hi) rfl (fun _ _ hw => by cases hw) fun i hi => ?_
  cases h.covered i hi with
  | posting p hp => exact .posting p hp
  | owed hrearmed hmem =>
    rcases mem_cons.mp hmem with rfl | hmem
    · exact .marked (hskip.resolve_right (by simp [hrearmed])) (by simp)
    · exact .owed hrearmed hmem
  | marked hbit _ => exact .marked hbit (by simp)
  | valid loop hw => cases hw

theorem rearmSetBit (h : Tracks D queued bit post (.rearmSetBit j todo) events) :
    Tracks D queued (update bit j true) post (.rearm todo) events := by
  have hothers : Tracks (fun i => D i ∧ i ≠ j) queued bit post (.rearm todo) events := by
    refine (h.mono fun i hi => hi.1).pass (fun _ hi => hi) rfl rfl (fun _ _ hw => by cases hw) ?_
    intro i hi hmem
    exact (mem_cons.mp hmem).resolve_left hi.2
  refine (hothers.mark (h.rearmQueued j todo rfl) (by simp)).mono fun i hi => ?_
  exact or_iff_not_imp_right.mpr fun hij => ⟨hi, hij⟩

/-! ## Steps of the stack -/

theorem movePost (h : Tracks D queued bit post wait events) (hq : ∀ i, queued i → queued' i)
    (hwindow : ∀ i, pc.window = some i → queued' i ∧ wait.window ≠ some i)
    (hpending : ∀ i, D i → (post p).pending = some i → pc.pending = some i) :
    Tracks D queued' bit (update post p pc) wait events where
  bitQueued := fun i hbit => (h.bitQueued i hbit).imp_left (hq i)
  postQueued := by
    refine forall_update (P := fun _ (pc : PostPc) => ∀ i, pc.window = some i →
      queued' i ∧ wait.window ≠ some i) hwindow ?_
    intro q _ i hp
    exact (h.postQueued q i hp).imp_left (hq i)
  rearmQueued := fun i todo hw => hq i (h.rearmQueued i todo hw)
  covered := by
    intro i hi
    cases h.covered i hi with
    | posting q hp =>
      refine .posting q ?_
      by_cases hqp : q = p
      · subst hqp
        simpa using hpending i hi hp
      · simpa [hqp] using hp
    | owed hrearmed hmem => exact .owed hrearmed hmem
    | marked hbit hkeep => exact .marked hbit hkeep
    | valid loop hw => exact .valid loop hw

theorem setBit (h : Tracks D queued bit post wait events) (hpc : post p = .setBit j) :
    Tracks D queued (update bit j true) (update post p .idle) wait events := by
  obtain ⟨hqueued, hwindow⟩ := h.postQueued p j (by rw [hpc]; rfl)
  have hothers : Tracks (fun i => D i ∧ i ≠ j) queued bit (update post p .idle) wait events := by
    refine (h.mono fun i hi => hi.1).movePost (fun _ hi => hi) (by simp) fun i hi hp => ?_
    rw [hpc] at hp
    cases hp
    exact absurd rfl hi.2
  refine (hothers.mark hqueued fun hclears => ?_).mono fun i hi => ?_
  · exact hwindow (WaitPc.window_of_clears hclears)
  · exact or_iff_not_imp_right.mpr fun hij => ⟨hi, hij⟩

end Tracks

/-! ## Every step -/

variable {D : EventInfo → Prop} {s s' : State cfg} {loop : Loop} {j info : EventInfo}
  {p : Fin cfg.numProcs}

theorem EventsKept.start (hD : ∀ i, ¬ D i) : EventsKept D (start cfg) where
  bitQueued := by simp [Epoll.start]
  postQueued := by simp [Epoll.start]
  rearmQueued := by simp [Epoll.start]
  covered := fun i hi => absurd hi (hD i)

theorem Queued.dequeue {rest : List EventInfo} (h : Queued s info)
    (hring : takeRing s loop = j :: rest) (hj : info ≠ j) : Queued (setRing s rest loop) info := by
  cases loop with
  | shadow =>
    simp only [takeRing] at hring
    exact h.imp_left fun h => (mem_cons.mp (hring ▸ h)).resolve_left hj
  | ready =>
    simp only [takeRing] at hring
    exact h.imp_right fun h => (mem_cons.mp (hring ▸ h)).resolve_left hj

theorem takeEvent_eventsKept (hs : EventsKept D s) (hwait : s.wait = .take loop)
    (hguard : WindowsDisjoint s .app) : EventsKept D (takeEvent s loop) := by
  simp only [WindowsDisjoint, hwait] at hguard
  unfold EventsKept at hs
  rw [hwait] at hs
  have hend : EventsKept D { s with wait := loop.next s.events } := by
    cases loop <;>
      exact hs.pass (fun _ hi => hi) rfl rfl (fun _ _ hw => by cases hw) fun _ _ hi => hi
  unfold takeEvent
  by_cases hroom : s.events.length < s.maxevents
  · rw [if_pos hroom]
    cases hring : takeRing s loop with
    | nil => exact hend
    | cons info rest =>
      rw [hring] at hguard
      cases loop <;> exact hs.dequeue (fun i hij hi => hi.dequeue hring hij) (hguard hroom)
  · rw [if_neg hroom]
    exact hend

theorem testAvailable_eventsKept (hs : EventsKept D s) (hwait : s.wait = .testAvailable loop info)
    (hstored : D info → notRearmed cfg info = false ∧ eventAvailable s info = true) :
    EventsKept D (testAvailable s loop info) := by
  unfold EventsKept at hs
  rw [hwait] at hs
  unfold testAvailable
  split
  · exact hs.testAvailable (subset_append_left ..) fun hi => ⟨(hstored hi).1, by simp⟩
  · rename_i hnot
    exact hs.testAvailable (Subset.refl _) fun hi => absurd (hstored hi).2 hnot

theorem appStep_eventsKept (hs : EventsKept D s) (hguard : WindowsDisjoint s .app)
    (hinterested : ∀ i, D i → cfg.interested i = true)
    (hstored : ∀ loop info, s.wait = .testAvailable loop info → D info →
      notRearmed cfg info = false ∧ eventAvailable s info = true)
    (hstep : appStep s = some s') : EventsKept D s' := by
  -- a step between two positions outside the windows, with the same events to enqueue again
  have hpass : ∀ {w : WaitPc}, s.wait.window = none → w.window = none →
      (∀ i todo, w ≠ .rearmSetBit i todo) → s.wait.owed s.events ⊆ w.owed s.events →
      Tracks D (Queued s) s.bit s.post w s.events := fun hw hw' hset howed =>
    hs.pass (fun _ hi => hi) hw hw' (fun i todo h => absurd h (hset i todo)) fun _ _ hi => howed hi
  unfold EventsKept at hs
  cases hwait : s.wait
  case outside | blocked | addKernelEvents => simp [appStep, hwait] at hstep
  case testReady | testShadow | announce | clearSleeping =>
    simp only [appStep, hwait, Option.some.injEq] at hstep
    subst hstep
    refine hpass (by simp [hwait]) ?_ ?_ (by simp [hwait]) <;> dsimp only <;> (try split) <;> simp
  case drainFifo k slept =>
    simp only [appStep, hwait, Option.some.injEq] at hstep
    subst hstep
    unfold drainFifo
    split
    · exact hpass (by simp [hwait]) rfl (by simp) (by simp [hwait])
    · cases slept <;> exact hpass (by simp [hwait]) rfl (by simp) (by simp [hwait])
  case take loop =>
    simp only [appStep, hwait, Option.some.injEq] at hstep
    exact hstep ▸ takeEvent_eventsKept hs hwait hguard
  case readBit loop info =>
    simp only [appStep, hwait, Option.some.injEq] at hstep
    exact hstep ▸ (hwait ▸ hs).readBit hinterested
  case testAvailable loop info =>
    simp only [appStep, hwait, Option.some.injEq] at hstep
    exact hstep ▸ testAvailable_eventsKept hs hwait (hstored loop info hwait)
  case clearBit loop info =>
    simp only [appStep, hwait] at hstep
    obtain ⟨-, rfl⟩ := of_guard hstep
    exact (hwait ▸ hs).clearBit
  case rearm todo =>
    cases todo with
    | nil =>
      simp only [appStep, hwait, Option.some.injEq] at hstep
      subst hstep
      exact hpass (by simp [hwait]) rfl (by simp) (by simp [hwait])
    | cons info todo =>
      simp only [appStep, hwait, Option.some.injEq] at hstep
      subst hstep
      by_cases hskip : (s.bit info || notRearmed cfg info) = true
      · simp only [EventsKept, hskip, if_true]
        exact (hwait ▸ hs).skip (by simpa using hskip)
      · simp only [EventsKept, hskip]
        exact hpass (by simp [hwait]) rfl (by simp) (by simp [hwait])
  case rearmEnqueue info todo =>
    simp only [appStep, hwait, Option.some.injEq] at hstep
    subst hstep
    refine hs.pass (fun i hi => hi.imp_left (mem_append_left _)) (by simp [hwait]) rfl ?_ ?_
    · rintro i todo ⟨⟩
      exact .inl (by simp)
    · simp [hwait]
  case rearmSetBit info todo =>
    simp only [appStep, hwait] at hstep
    obtain ⟨-, rfl⟩ := of_guard hstep
    exact (hwait ▸ hs).rearmSetBit

theorem stackStep_eventsKept (hs : EventsKept D s) (hguard : WindowsDisjoint s (.stack p))
    (hinterested : ∀ i, D i → cfg.interested i = true) (hstep : stackStep s p = some s') :
    EventsKept D s' := by
  cases hpc : s.post p with
  | idle => simp [stackStep, hpc] at hstep
  | enqueue info =>
    simp only [stackStep, hpc, Option.some.injEq] at hstep
    simp only [WindowsDisjoint, hpc] at hguard
    subst hstep
    unfold enqueueEvent
    split
    · refine hs.movePost (fun i hi => hi.imp_right (mem_append_left _)) ?_ (by simp [hpc])
      rintro i ⟨⟩
      exact ⟨.inr (by simp), hguard⟩
    · rename_i hnot
      refine hs.movePost (fun _ hi => hi) (by simp) fun i hi hp => ?_
      rw [hpc] at hp
      cases hp
      exact absurd (hinterested info hi) hnot
  | takeLock info =>
    simp only [stackStep, hpc] at hstep
    obtain ⟨-, rfl⟩ := of_guard hstep
    exact hs.movePost (fun _ hi => hi) (fun i hi => hs.postQueued p i (hpc ▸ hi)) (by simp [hpc])
  | testSleeping info =>
    simp only [stackStep, hpc, Option.some.injEq] at hstep
    subst hstep
    unfold testSleeping
    split <;>
      exact hs.movePost (fun _ hi => hi) (fun i hi => hs.postQueued p i (hpc ▸ hi)) (by simp [hpc])
  | writeFifo info =>
    simp only [stackStep, hpc, Option.some.injEq] at hstep
    subst hstep
    exact hs.movePost (fun _ hi => hi) (fun i hi => hs.postQueued p i (hpc ▸ hi)) (by simp [hpc])
  | setBit info =>
    simp only [stackStep, hpc, Option.some.injEq] at hstep
    exact hstep ▸ hs.setBit hpc

theorem step_eventsKept {a : Action cfg} (hs : EventsKept D s) (hguard : WindowsDisjoint s a)
    (hinterested : ∀ i, D i → cfg.interested i = true)
    (hstored : a = .app → ∀ loop info, s.wait = .testAvailable loop info → D info →
      notRearmed cfg info = false ∧ eventAvailable s info = true)
    (hstep : step s a = some s') : EventsKept D s' := by
  cases a with
  | app => exact appStep_eventsKept hs hguard hinterested (hstored rfl) hstep
  | stack p => exact stackStep_eventsKept hs hguard hinterested hstep
  | rearmFails | postFails => exact hguard.elim
  | recv | setTxSpace | setAppPid =>
    cases hstep
    exact hs
  | call timeout maxevents =>
    obtain ⟨hwait, rfl⟩ := of_guard hstep
    exact hs.pass (fun _ hi => hi) (by simp [hwait]) rfl (by simp) (by simp [hwait])
  | wake reason =>
    obtain ⟨⟨hwait, -⟩, rfl⟩ := of_guard hstep
    exact hs.pass (fun _ hi => hi) (by simp [hwait]) rfl (by simp) (by simp [hwait])
  | finish kernelEvents =>
    obtain ⟨hwait, rfl⟩ := of_guard hstep
    refine hs.pass (fun _ hi => hi) (by simp [hwait]) ?_ ?_ (by simp [hwait]) <;> dsimp only <;>
      split <;> simp
  | submitRxBuf | post =>
    obtain ⟨hidle, rfl⟩ := of_guard hstep
    exact hs.movePost (fun _ hi => hi) (by simp) (by simp [hidle])

end LightStack.Epoll
