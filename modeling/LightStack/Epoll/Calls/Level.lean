import LightStack.Epoll.Calls.Shared
import LightStack.Epoll.Calls.Frame

/-!
# Level-triggered EPOLLIN
-/

namespace LightStack.Epoll.Calls

open Lib Function List

def Roomy : Action → Prop
  | .add _ _ _ _ _ _ room => ∀ event, room event = true
  | .mod _ _ _ _ _ room => ∀ event, room event = true
  | .wait _ maxevents rearms => maxevents ≤ rearms
  | .deliver _ _ room => room = true
  | .raise _ _ _ room => room = true
  | .del _ _ _ | .recv _ _ _ | .accept _ _ | .setBuffer _ _ => True

def Alone (i : Sock) (s : State) : Action → Prop
  | .add p e j _ _ _ _ => s.resolve p j = i → ∀ d ∈ s.nodes i, d = e
  | _ => True

structure Watched (s : State) (e : Nat) (i : Sock) : Prop where
  single : s.multicore i = false
  only : s.nodes i = [e]
  level : s.edgeTriggered e i = false
  interest : s.interest e ⟨i, .epollin⟩ = true
  data : s.hasData i = true

structure Good (i : Sock) (s : State) : Prop where
  alone : (s.nodes i).length ≤ 1
  active : ∀ e ∈ s.nodes i, s.active e = true
  queued : ∀ e ∈ s.nodes i, ∀ event, s.bit e ⟨i, event⟩ = true → ⟨i, event⟩ ∈ s.queued e
  level : s.multicore i = false → ∀ e ∈ s.nodes i, s.edgeTriggered e i = false →
    s.interest e ⟨i, .epollin⟩ = true → s.hasData i = true → s.bit e ⟨i, .epollin⟩ = true

theorem hasData_congr {s t : State} (hrx : t.rx = s.rx) (hleftover : t.leftover = s.leftover)
    (i : Sock) : t.hasData i = s.hasData i := by
  unfold State.hasData
  rw [hrx, hleftover]

theorem checkData_of_single {s : State} {i : Sock} (h : s.multicore i = false) :
    s.checkData i = s.hasData i := by
  simp [State.checkData, h]

variable {e p maxevents : Nat} {want room : Event → Bool} {edge : Bool}

namespace Good

variable {s t : State} {i j : Sock}

theorem start (h : Start s) : Good i s := by refine ⟨?_, ?_, ?_, ?_⟩ <;> simp [h.nodes]

theorem nodes_eq (h : Good i s) (hnode : e ∈ s.nodes i) : s.nodes i = [e] := by
  have hlen : (s.nodes i).length = 1 := le_antisymm h.alone (length_pos_of_mem hnode)
  obtain ⟨d, hd⟩ := length_eq_one_iff.mp hlen
  rw [hd, mem_singleton] at hnode
  rw [hd, hnode]

theorem of_grows {P : EventInfo → Prop} {u : State} (hgrows : Grows P t u)
    (halone : (t.nodes i).length ≤ 1) (hactive : ∀ e ∈ t.nodes i, t.active e = true)
    (hqueued : ∀ e ∈ t.nodes i, ∀ event, t.bit e ⟨i, event⟩ = true → ⟨i, event⟩ ∈ t.queued e)
    (hlevel : t.multicore i = false → ∀ e ∈ t.nodes i, t.edgeTriggered e i = false →
      t.interest e ⟨i, .epollin⟩ = true → t.hasData i = true → u.bit e ⟨i, .epollin⟩ = true) :
    Good i u where
  alone := by rwa [hgrows.nodes]
  active := by rwa [hgrows.nodes, hgrows.active]
  queued := by
    intro e hnode event hbit
    rw [hgrows.nodes] at hnode
    obtain hold | ⟨-, hin⟩ := hgrows.new e _ hbit
    · exact hgrows.queued e _ (hqueued e hnode event hold)
    · exact hin
  level := by
    rw [hgrows.multicore, hgrows.nodes, hgrows.edgeTriggered, hgrows.interest,
      hasData_congr hgrows.rx hgrows.leftover]
    exact hlevel

theorem of_read (h : Good i s) {rx : Sock → Nat} {leftover : Sock → Bool}
    (hless : State.hasData { s with rx, leftover } i = true → s.hasData i = true) :
    Good i { s with rx, leftover } where
  alone := h.alone
  active := h.active
  queued := h.queued
  level := fun hsingle e hnode hlevel hinterest hdata =>
    h.level hsingle e hnode hlevel hinterest (hless hdata)

theorem recv (h : Good i s) {more left : Bool} (hstep : lightRecv s j more left = some t) :
    Good i t := by
  unfold lightRecv at hstep
  split at hstep
  · next hleft =>
    cases hstep
    refine h.of_read fun hdata => ?_
    by_cases hij : i = j
    · simp [State.hasData, hij, hleft]
    · simpa [State.hasData, hij] using hdata
  · split at hstep
    · next hpos =>
      cases hstep
      refine h.of_read fun hdata => ?_
      by_cases hij : i = j
      · simp [State.hasData, hij, hpos]
      · simpa [State.hasData, hij] using hdata
    · cases hstep

theorem accept (h : Good i s) (hstep : lightAccept s p j = some t) : Good i t := by
  obtain ⟨hpos, rfl⟩ := of_guard hstep
  refine h.of_read fun hdata => ?_
  by_cases hij : i = s.resolve p j
  · subst hij
    simp [State.hasData, hpos]
  · simpa [State.hasData, hij] using hdata

theorem raise (h : Good i s) {k : Nat} {event : Event} {room : Bool} :
    Good i (addEpollEventToQueue s k j event room).1 := by
  have hgrows := grows_addEpollEventToQueue s k j event room
  refine of_grows hgrows h.alone h.active h.queued ?_
  intro hsingle e hnode hlevel hinterest hdata
  exact hgrows.bit e _ (h.level hsingle e hnode hlevel hinterest hdata)

theorem deliver (h : Good i s) {k : Nat} : Good i (deliver s k j true) := by
  have hgrows := grows_addEpollEventToQueue
    { s with rx := update s.rx j (s.rx j + 1) } k j .epollin true
  refine of_grows hgrows h.alone h.active h.queued ?_
  intro hsingle e hnode hlevel hinterest hdata
  by_cases hij : i = j
  · subst hij
    have hsingle' : s.multicore i = false := hsingle
    have hresolve : State.resolve { s with rx := update s.rx i (s.rx i + 1) } k i = i := by
      simp [State.resolve, hsingle']
    have hbit := bit_addEpollEventToQueue (e := e)
      { s with rx := update s.rx i (s.rx i + 1) } k i .epollin
      (by rw [hresolve]; exact h.nodes_eq hnode) (by rw [hresolve]; exact hinterest)
    rwa [hresolve] at hbit
  · refine hgrows.bit e _ (h.level hsingle e hnode hlevel hinterest ?_)
    simpa [State.hasData, hij] using hdata

/-! ### light_epoll_ctl -/

theorem setEvents_of_ne {e' : Nat} (want : Event → Bool) (edge : Bool) (event : Event)
    (hne : ¬ (e' = e ∧ i = j)) :
    (setEvents s e j want edge).interest e' ⟨i, event⟩ = s.interest e' ⟨i, event⟩ ∧
      (setEvents s e j want edge).edgeTriggered e' i = s.edgeTriggered e' i := by
  unfold setEvents
  by_cases he : e' = e
  · subst he
    have hi : i ≠ j := fun hi => hne ⟨rfl, hi⟩
    simp [hi]
  · simp [he]

theorem bit_after_setEvents (h : Good i s) {e' : Nat} (hroom : room .epollin = true)
    (hsingle : s.multicore i = false) (hnode : e' ∈ s.nodes i)
    (hlevel : (setEvents s e j want edge).edgeTriggered e' i = false)
    (hinterest : (setEvents s e j want edge).interest e' ⟨i, .epollin⟩ = true)
    (hdata : s.hasData i = true) :
    (queueAvailable (setEvents s e j want edge) e j room).bit e' ⟨i, .epollin⟩ = true := by
  by_cases hsame : e' = e ∧ i = j
  · obtain ⟨rfl, rfl⟩ := hsame
    exact bit_queueAvailable hnode hinterest
      ((checkData_of_single (s := setEvents s e' i want edge) hsingle).trans hdata) hroom
  · obtain ⟨hinterest', hlevel'⟩ := setEvents_of_ne (s := s) want edge .epollin hsame
    rw [hinterest'] at hinterest
    rw [hlevel'] at hlevel
    exact (grows_queueAvailable _ e j room).bit e' _
      (h.level hsingle e' hnode hlevel hinterest hdata)

theorem mod (h : Good i s) (hroom : room .epollin = true) :
    Good i (queueAvailable (setEvents s e j want edge) e j room) := by
  refine of_grows (grows_queueAvailable _ e j room) h.alone h.active h.queued ?_
  intro hsingle e' hnode hlevel hinterest hdata
  exact h.bit_after_setEvents hroom hsingle hnode hlevel hinterest hdata

theorem pushNode_of_ne (h : Good i s) (hij : i ≠ j) : Good i (pushNode s e j) := by
  have hnodes : (pushNode s e j).nodes i = s.nodes i := by simp [pushNode, hij]
  have hbit : ∀ d event, (pushNode s e j).bit d ⟨i, event⟩ = s.bit d ⟨i, event⟩ := by
    intro d event
    by_cases hd : d = e
    · subst hd
      simp [pushNode, hij]
    · simp [pushNode, hd]
  refine ⟨?_, ?_, ?_, ?_⟩
  · rw [hnodes]
    exact h.alone
  · rw [hnodes]
    exact h.active
  · intro d hd event hset
    rw [hbit] at hset
    exact h.queued d (hnodes ▸ hd) event hset
  · intro hsingle d hd hlevel hinterest hdata
    rw [hbit]
    exact h.level hsingle d (hnodes ▸ hd) hlevel hinterest hdata

theorem add_self (hnone : s.nodes i = []) (hactive : s.active e = true)
    (hroom : room .epollin = true) :
    Good i (queueAvailable (setEvents (pushNode s e i) e i want edge) e i room) := by
  have hnodes : (pushNode s e i).nodes i = [e] := by simp [pushNode, hnone]
  refine of_grows (grows_queueAvailable _ e i room) (hnodes ▸ le_rfl) ?_ ?_ ?_
  · intro d hd
    obtain rfl := mem_singleton.mp (hnodes ▸ hd)
    exact hactive
  · intro d hd event hbit
    obtain rfl := mem_singleton.mp (hnodes ▸ hd)
    simp [setEvents, pushNode] at hbit
  · intro hsingle d hd hlevel hinterest hdata
    obtain rfl := mem_singleton.mp (hnodes ▸ hd)
    exact bit_queueAvailable hd hinterest ((checkData_of_single hsingle).trans hdata) hroom

theorem ctlAdd (h : Good i s) {free : Bool} (halone : s.resolve p j = i → ∀ d ∈ s.nodes i, d = e)
    (hroom : ∀ event, room event = true) : Good i (ctlAdd s p e j want edge free room).1 := by
  unfold Calls.ctlAdd
  dsimp only
  split
  · exact h
  · next hok =>
    obtain ⟨hactive, hnew⟩ := not_or.mp hok
    split
    · by_cases hij : s.resolve p j = i
      · rw [hij] at hnew ⊢
        have hnone : s.nodes i = [] :=
          eq_nil_iff_forall_not_mem.mpr fun d hd => hnew (halone hij d hd ▸ hd)
        exact add_self hnone (by simpa using hactive) (hroom _)
      · exact (h.pushNode_of_ne (Ne.symm hij)).mod (hroom _)
    · exact h

theorem ctlDel (h : Good i s) : Good i (ctlDel s p e j).1 := by
  unfold Calls.ctlDel
  dsimp only
  split
  · exact h
  · by_cases hij : i = s.resolve p j
    · subst hij
      have hsub : (s.nodes (s.resolve p j)).erase e ⊆ s.nodes (s.resolve p j) := erase_subset
      refine ⟨?_, ?_, ?_, ?_⟩ <;> simp only [update_self]
      · exact length_erase_le.trans h.alone
      · exact fun d hd => h.active d (hsub hd)
      · exact fun d hd => h.queued d (hsub hd)
      · exact fun hsingle d hd => h.level hsingle d (hsub hd)
    · refine ⟨?_, ?_, ?_, ?_⟩ <;> simp only [ne_eq, hij, not_false_eq_true, update_of_ne]
      · exact h.alone
      · exact h.active
      · exact h.queued
      · exact h.level

theorem ctlMod (h : Good i s) (hroom : ∀ event, room event = true) :
    Good i (ctlMod s p e j want edge room).1 := by
  unfold Calls.ctlMod
  dsimp only
  split
  · exact h
  · exact h.mod (hroom _)

theorem wait (h : Good i s) {rearms : Nat} (hrearms : maxevents ≤ rearms) :
    Good i (lightEpollWait s e maxevents rearms).1 := by
  have hgrows := grows_rearm e rearms (collect s e maxevents).2 (collect s e maxevents).1
  refine of_grows hgrows h.alone h.active ?_ ?_
  · intro d hnode event hbit
    exact queued_of_collect hnode (h.queued d hnode event (bit_of_collect hbit)) hbit
  · intro hsingle d hnode hlevel hinterest hdata
    have hbit := h.level hsingle d hnode hlevel hinterest hdata
    by_cases hd : d = e
    · subst hd
      obtain hkept | hstored := collect_valid (s := s) maxevents ⟨i, .epollin⟩ hnode hinterest
        ((checkData_of_single (s := s) hsingle).trans hdata) hbit
      · exact hgrows.bit d _ hkept
      · exact bit_rearm (length_stored.trans hrearms) hstored hnode hlevel ⟨by simp, by simp⟩
    · refine hgrows.bit d _ ?_
      rw [(collect_of_ne hd).2]
      exact hbit

theorem step (h : Good i s) {a : Action} (hroomy : Roomy a) (halone : Alone i s a)
    (hstep : Calls.step s a = some t) : Good i t := by
  cases a with
  | add p e j want edge free room =>
    cases hstep
    exact h.ctlAdd halone hroomy
  | del p e j =>
    cases hstep
    exact h.ctlDel
  | mod p e j want edge room =>
    cases hstep
    exact h.ctlMod hroomy
  | wait e maxevents rearms =>
    obtain ⟨-, rfl⟩ := of_guard hstep
    exact h.wait hroomy
  | recv j more left => exact h.recv hstep
  | accept p j => exact h.accept hstep
  | deliver k j room =>
    cases hstep
    obtain rfl : room = true := hroomy
    exact h.deliver
  | raise k j event room =>
    cases hstep
    exact h.raise
  | setBuffer j b =>
    cases hstep
    exact ⟨h.alone, h.active, h.queued, h.level⟩

theorem stored (h : Good i s) (hwatched : Watched s e i)
    (hroom : (s.queued e).length < maxevents) : ⟨i, .epollin⟩ ∈ (collect s e maxevents).2 := by
  have hnode : e ∈ s.nodes i := by simp [hwatched.only]
  have hbit := h.level hwatched.single e hnode hwatched.level hwatched.interest hwatched.data
  obtain hkept | hstored := collect_valid maxevents ⟨i, .epollin⟩ hnode
    hwatched.interest ((checkData_of_single hwatched.single).trans hwatched.data) hbit
  · -- a bit that is still set belongs to an event that is still queued, and none is
    have hin := queued_of_collect hnode (h.queued e hnode _ hbit) hkept
    rw [collect_all hroom] at hin
    cases hin
  · exact hstored

end Good

theorem Watched.wait {s : State} {rearms : Nat} {i : Sock} (h : Watched s e i) :
    Watched (lightEpollWait s e maxevents rearms).1 e i := by
  have hgrows := grows_rearm e rearms (collect s e maxevents).2 (collect s e maxevents).1
  unfold lightEpollWait
  dsimp only
  refine ⟨?_, ?_, ?_, ?_, ?_⟩
  · rw [hgrows.multicore]
    exact h.single
  · rw [hgrows.nodes]
    exact h.only
  · rw [hgrows.edgeTriggered]
    exact h.level
  · rw [hgrows.interest]
    exact h.interest
  · rw [hasData_congr hgrows.rx hgrows.leftover]
    exact h.data

/-- While the socket is in one epoll at a time: if it has unread data and its node is
level-triggered, the next `light_epoll_wait` with enough room reports it, and it is still watched.
-/
theorem level_triggered_reported (s : State) (e : Nat) (i : Sock)
    (hreach : system.ReachableUnder (fun s a => Roomy a ∧ Alone i s a) s)
    (hwatched : Watched s e i) :
    s.active e = true ∧ ∀ maxevents rearms, (s.queued e).length < maxevents →
      ⟨i, .epollin⟩ ∈ (lightEpollWait s e maxevents rearms).2 ∧
        Watched (lightEpollWait s e maxevents rearms).1 e i := by
  have hgood : Good i s :=
    TransitionSystem.ReachableUnder.invariant (fun _ => Good.start)
      (fun _ _ _ h hguard hstep => h.step hguard.1 hguard.2 hstep) hreach
  refine ⟨hgood.active e (by simp [hwatched.only]), fun maxevents rearms hroom => ?_⟩
  exact ⟨hgood.stored hwatched hroom, hwatched.wait⟩

instance decidableForallRoom (room : Event → Bool) : Decidable (∀ event, room event = true) :=
  decidable_of_iff (room .epollin = true ∧ room .epollout = true ∧ room .epollerr = true ∧
    room .epollhup = true)
    ⟨fun ⟨hin, hout, herr, hhup⟩ event => by cases event <;> assumption,
      fun h => ⟨h _, h _, h _, h _⟩⟩

instance (a : Action) : Decidable (Roomy a) := by
  cases a <;> dsimp only [Roomy] <;> infer_instance

instance (i : Sock) (s : State) (a : Action) : Decidable (Alone i s a) := by
  cases a <;> dsimp only [Alone] <;> infer_instance

theorem watched_iff {s : State} {i : Sock} :
    Watched s e i ↔ s.multicore i = false ∧ s.nodes i = [e] ∧ s.edgeTriggered e i = false ∧
      s.interest e ⟨i, .epollin⟩ = true ∧ s.hasData i = true :=
  ⟨fun h => ⟨h.single, h.only, h.level, h.interest, h.data⟩,
    fun ⟨single, only, level, interest, data⟩ => ⟨single, only, level, interest, data⟩⟩

instance (s : State) (e : Nat) (i : Sock) : Decidable (Watched s e i) :=
  decidable_of_iff _ watched_iff.symm

theorem level_triggered_reported_again :
    ∃ s, system.ReachableUnder (fun s a => Roomy a ∧ Alone 0 s a) s ∧ Watched s 0 0 ∧
      ⟨0, .epollin⟩ ∈ (lightEpollWait s 0 9 9).2 := by
  obtain ⟨s, hreach, hwatched, hlen⟩ :=
    system.exists_reachableUnder (fun s a => Roomy a ∧ Alone 0 s a) unregistered
      [.add 0 0 0 (fun ev => decide (ev = .epollin)) false true (fun _ => true),
        .deliver 0 0 true, .deliver 0 0 true, .wait 0 1 1, .recv 0 false true]
      (P := fun s => Watched s 0 0 ∧ (s.queued 0).length < 9) start_unregistered
      (by decide +kernel)
  exact ⟨s, hreach, hwatched, ((level_triggered_reported s 0 0 hreach hwatched).2 9 9 hlen).1⟩

theorem level_triggered_missed :
    ∃ s, system.ReachableUnder (fun _ a => Roomy a) s ∧ Watched s 0 0 ∧ s.queued 0 = [] ∧
      ∀ maxevents rearms, (lightEpollWait s 0 maxevents rearms).2 = [] := by
  obtain ⟨s, hreach, hwatched, hshadow, hready⟩ :=
    system.exists_reachableUnder (fun _ a => Roomy a) unregistered
      [.add 0 0 0 (fun ev => decide (ev = .epollin)) false true (fun _ => true),
        .add 0 1 0 (fun ev => decide (ev = .epollin)) false true (fun _ => true),
        .deliver 0 0 true, .del 0 1 0]
      (P := fun s => Watched s 0 0 ∧ s.shadowConnections 0 = [] ∧ s.readyConnections 0 = [])
      start_unregistered (by decide +kernel)
  refine ⟨s, hreach, hwatched, by simp [State.queued, hshadow, hready], fun maxevents rearms => ?_⟩
  simp [lightEpollWait, collect, hshadow, hready, drain]

end LightStack.Epoll.Calls
