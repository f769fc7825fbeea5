import LightStack.Epoll.Calls.Model

/-!
# Events of a socket in several epolls

`add_epoll_event_to_queue` picks one node of the socket by a counter of the stack process.
-/

namespace LightStack.Epoll.Calls

structure Raised where
  proc : Nat
  sock : Sock
  event : Event

namespace Raised

def info (r : Raised) (s : State) : EventInfo := ⟨s.resolve r.proc r.sock, r.event⟩

def after (r : Raised) (s : State) : State := (addEpollEventToQueue s r.proc r.sock r.event true).1

def Wanted (r : Raised) (s : State) : Prop :=
  ∃ e ∈ s.nodes (r.info s).sockfd, s.interest e (r.info s) = true

def Queued (r : Raised) (s : State) : Prop :=
  ∃ e ∈ s.nodes (r.info s).sockfd, s.interest e (r.info s) = true ∧
    (r.after s).readyConnections e = s.readyConnections e ++ [r.info s] ∧
    (r.after s).bit e (r.info s) = true

def Pointed (r : Raised) (s : State) : Prop :=
  ∃ p e, position (s.nodes (r.info s).sockfd).length (s.roundRobin r.proc) = some p ∧
    (s.nodes (r.info s).sockfd)[p]? = some e ∧ s.interest e (r.info s) = true

end Raised

def AllQueued : State → List Raised → Prop
  | _, [] => True
  | s, r :: rest => (r.Wanted s → r.Queued s) ∧ AllQueued (r.after s) rest

def AllPointed : State → List Raised → Prop
  | _, [] => True
  | s, r :: rest => (r.Wanted s → r.Pointed s) ∧ AllPointed (r.after s) rest

@[simp] theorem countRound_readyConnections (s : State) (k : Nat) (j : Sock) :
    (countRound s k j).readyConnections = s.readyConnections := by
  unfold countRound
  split <;> rfl

@[simp] theorem countRound_bit (s : State) (k : Nat) (j : Sock) :
    (countRound s k j).bit = s.bit := by
  unfold countRound
  split <;> rfl

theorem selected_eq_some_iff {s : State} {k : Nat} {j : Sock} {e : Nat} : selected s k j = some e ↔
      ∃ p, position (s.nodes j).length (s.roundRobin k) = some p ∧ (s.nodes j)[p]? = some e := by
  unfold selected
  exact Option.bind_eq_some_iff

theorem readyConnections_addEpollEventToQueue (s : State) (k : Nat) (i : Sock) (event : Event)
    (room : Bool) :
    (addEpollEventToQueue s k i event room).1.readyConnections =
      match selected s k (s.resolve k i) with
      | none => s.readyConnections
      | some e =>
        if s.interest e ⟨s.resolve k i, event⟩ && room then
          Function.update s.readyConnections e (s.readyConnections e ++ [⟨s.resolve k i, event⟩])
        else s.readyConnections := by
  unfold addEpollEventToQueue
  split
  · next h => simp [h]
  · next e h =>
    simp only [h]
    split <;> simp [queueReady, State.setBit]

namespace Raised

variable {r : Raised} {s : State}

theorem queued_of_pointed (h : r.Pointed s) : r.Queued s := by
  obtain ⟨p, e, hposition, hget, hinterest⟩ := h
  have hselected := selected_eq_some_iff.mpr ⟨p, hposition, hget⟩
  have hinterest' : s.interest e ⟨s.resolve r.proc r.sock, r.event⟩ = true := hinterest
  refine ⟨e, List.mem_of_getElem? hget, hinterest, ?_, ?_⟩
  · rw [after, readyConnections_addEpollEventToQueue]
    simp only [info] at hselected ⊢
    simp [hselected, hinterest']
  · simp only [info] at hselected ⊢
    simp [after, addEpollEventToQueue, hselected, hinterest', State.setBit]

theorem pointed_of_queued (h : r.Queued s) : r.Pointed s := by
  obtain ⟨e, -, hinterest, hqueued, -⟩ := h
  rw [after, readyConnections_addEpollEventToQueue] at hqueued
  simp only [info] at hinterest hqueued
  cases hselected : selected s r.proc (s.resolve r.proc r.sock) with
  | none => simp [hselected] at hqueued
  | some d =>
    obtain ⟨p, hposition, hget⟩ := selected_eq_some_iff.mp hselected
    simp only [hselected, Bool.and_true] at hqueued
    by_cases hd : s.interest d ⟨s.resolve r.proc r.sock, r.event⟩ = true
    · exact ⟨p, d, hposition, hget, hd⟩
    · simp [hd] at hqueued

theorem queued_iff_pointed : r.Queued s ↔ r.Pointed s := ⟨pointed_of_queued, queued_of_pointed⟩

end Raised

/-- Every event that some node of its socket is interested in is queued to such a node exactly if
the counter points at an interested node each time. -/
theorem shared_events_queued_iff (s : State) (events : List Raised) :
    AllQueued s events ↔ AllPointed s events := by
  induction events generalizing s with
  | nil => exact Iff.rfl
  | cons r rest ih =>
    unfold AllQueued AllPointed
    rw [ih, Raised.queued_iff_pointed]

def unregistered : State where
  numProcs := 1
  nodes := fun _ => []
  multicore := fun _ => false
  copies := fun i _ => i
  rx := fun _ => 0
  leftover := fun _ => false
  buffer := fun _ => false
  interest := fun _ _ => false
  edgeTriggered := fun _ _ => false
  bit := fun _ _ => false
  active := fun _ => true
  readyConnections := fun _ => []
  shadowConnections := fun _ => []
  roundRobin := fun _ => 0

theorem start_unregistered : Start unregistered := ⟨fun _ => rfl, fun _ => rfl, fun _ => rfl⟩

theorem shared_event_lost : ∃ s, system.Reachable s ∧ Raised.Wanted ⟨0, 0, .epollin⟩ s ∧
      ¬ AllQueued s [⟨0, 0, .epollin⟩] ∧
      (Raised.after ⟨0, 0, .epollin⟩ s).queued 0 = [] ∧
      (Raised.after ⟨0, 0, .epollin⟩ s).queued 1 = [] := by
  obtain ⟨s, hreach, hnodes, hwants, hnot, hsingle, hcounter, hempty, hempty'⟩ :=
    system.exists_reachable unregistered
      [.add 0 0 0 (fun ev => decide (ev = .epollin)) false true (fun _ => true),
        .add 0 1 0 (fun ev => decide (ev = .epollout)) false true (fun _ => true)]
      (P := fun s => s.nodes 0 = [1, 0] ∧ s.interest 0 ⟨0, .epollin⟩ = true ∧
        s.interest 1 ⟨0, .epollin⟩ = false ∧ s.multicore 0 = false ∧ s.roundRobin 0 = 0 ∧
        s.queued 0 = [] ∧ s.queued 1 = [])
      start_unregistered (by decide +kernel)
  have hresolve : s.resolve 0 0 = 0 := by simp [State.resolve, hsingle]
  have hselected : selected s 0 0 = some 1 := by simp [selected, hnodes, hcounter, position]
  have hwanted : Raised.Wanted ⟨0, 0, .epollin⟩ s :=
    ⟨0, by simp [Raised.info, hresolve, hnodes], by simpa [Raised.info, hresolve] using hwants⟩
  have hpointed : ¬ Raised.Pointed ⟨0, 0, .epollin⟩ s := by
    rintro ⟨p, e, hposition, hget, hinterest⟩
    simp only [Raised.info, hresolve] at hposition hget hinterest
    have he : selected s 0 0 = some e := selected_eq_some_iff.mpr ⟨p, hposition, hget⟩
    obtain rfl := Option.some.inj (hselected.symm.trans he)
    simp [hnot] at hinterest
  have hafter : ∀ e, (Raised.after ⟨0, 0, .epollin⟩ s).queued e = s.queued e := by
    intro e
    simp [Raised.after, addEpollEventToQueue, hresolve, hselected, hnot, countRound, State.queued,
      hnodes]
  refine ⟨s, hreach, hwanted, ?_, (hafter 0).trans hempty, (hafter 1).trans hempty'⟩
  rintro ⟨hqueued, -⟩
  exact hpointed (Raised.pointed_of_queued (hqueued hwanted))

end LightStack.Epoll.Calls
