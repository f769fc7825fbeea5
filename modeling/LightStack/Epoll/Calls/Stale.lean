import LightStack.Epoll.Calls.Shared
import LightStack.Epoll.Calls.Frame

/-!
# Events of an earlier registration

What keeps an old `event_info` from being reported is the bit of the node.
-/

namespace LightStack.Epoll.Calls.Stale

open Lib Function

/-- `added e i` is when the node of `e` was last added to `i`, and `posted e info` when an event was
last queued to `e` by the stack. -/
structure State where
  calls : Calls.State
  isInit : Sock → Bool
  procId : Sock → Nat
  clock : Nat
  added : Nat → Sock → Nat
  posted : Nat → EventInfo → Nat

/-! ## Closing and reuse -/

def lightFlushRx (c : Calls.State) (i : Sock) : Calls.State :=
  { c with
    rx := update c.rx i 0
    leftover := update c.leftover i false }

def unlinkNodes (c : Calls.State) (i : Sock) : Calls.State :=
  { c with nodes := update c.nodes i [] }

def closeCopy (u : State) (main : Sock) (k : Nat) : State :=
  let j := u.calls.copies main k
  let calls := lightFlushRx u.calls j
  { u with
    calls := if k = u.procId main then unlinkNodes calls j else calls
    isInit := update u.isInit j false }

def closeCopies (main : Sock) (posted : Nat → Bool) : List Nat → State → State
  | [], u =>
    { u with
      calls := { u.calls with multicore := update u.calls.multicore main false }
      procId := update u.procId main 0 }
  | k :: rest, u =>
    if u.isInit (u.calls.copies main k) then
      if posted k then closeCopies main posted rest (closeCopy u main k) else u
    else closeCopies main posted rest u

def lightClose (u : State) (i : Sock) (posted : Nat → Bool) : State :=
  if u.calls.multicore i then closeCopies i posted (List.range u.calls.numProcs) u
  else if u.isInit i then
    if posted (u.procId i) then
      { u with
        calls := unlinkNodes (lightFlushRx u.calls i) i
        procId := update u.procId i 0 }
    else u
  else u

def lightGetSocket (u : State) (i : Sock) : State :=
  { u with
    calls := { u.calls with
      multicore := update u.calls.multicore i false
      leftover := update u.calls.leftover i false }
    isInit := update u.isInit i false }

def acceptedSocket (u : State) (k : Nat) (i : Sock) : State :=
  { u with
    calls := { u.calls with
      multicore := update u.calls.multicore i false
      leftover := update u.calls.leftover i false
      copies := update u.calls.copies i (update (u.calls.copies i) k i) }
    isInit := update u.isInit i true
    procId := update u.procId i k }

def lightSocketInit (u : State) (i : Sock) : State :=
  { u with
    calls := unlinkNodes u.calls i
    isInit := update u.isInit i true }

def makeMulticore (u : State) (i : Sock) (k : Nat) (copies : Nat → Sock) : State :=
  { u with
    calls := { u.calls with
      multicore := update u.calls.multicore i true
      copies := update u.calls.copies i copies }
    procId := update u.procId i k }

inductive Action where
  | call (a : Calls.Action)
  | close (i : Sock) (posted : Nat → Bool)
  | getSocket (i : Sock)
  | accepted (k : Nat) (i : Sock)
  | socketInit (i : Sock)
  | makeMulticore (i : Sock) (k : Nat) (copies : Nat → Sock)

def adds (c : Calls.State) : Calls.Action → Option (Nat × Sock)
  | .add p e i want edge free room =>
    if (ctlAdd c p e i want edge free room).2 = 0 then some (e, c.resolve p i) else none
  | _ => none

/-- The epoll that `add_epoll_event_to_queue` selects, if it wants the event and has room for it. -/
def queuedTo (c : Calls.State) (k : Nat) (i : Sock) (event : Event) (room : Bool) :
    Option (Nat × EventInfo) :=
  (selected c k (c.resolve k i)).bind fun e =>
    if c.interest e ⟨c.resolve k i, event⟩ && room then some (e, ⟨c.resolve k i, event⟩) else none

def posts (c : Calls.State) : Calls.Action → Option (Nat × EventInfo)
  | .deliver k i room => queuedTo c k i .epollin room
  | .raise k i event room => queuedTo c k i event room
  | _ => none

def stamp {β : Type} [DecidableEq β] (clock : Nat) (what : Option (Nat × β)) (f : Nat → β → Nat) :
    Nat → β → Nat :=
  fun e x => if what = some (e, x) then clock else f e x

def record (u : State) (a : Calls.Action) (c : Calls.State) : State :=
  { u with
    calls := c
    added := stamp u.clock (adds u.calls a) u.added
    posted := stamp u.clock (posts u.calls a) u.posted }

def move (u : State) : Action → Option State
  | .call a => (Calls.step u.calls a).map (record u a)
  | .close i posted => some (lightClose u i posted)
  | .getSocket i => some (lightGetSocket u i)
  | .accepted k i => some (acceptedSocket u k i)
  | .socketInit i => some (lightSocketInit u i)
  | .makeMulticore i k copies => some (makeMulticore u i k copies)

def step (u : State) (a : Action) : Option State :=
  (move u a).map fun v => { v with clock := u.clock + 1 }

structure Start (u : State) : Prop where
  calls : Calls.Start u.calls
  clock : u.clock = 1
  added : ∀ e i, u.added e i = 0
  posted : ∀ e info, u.posted e info = 0

def system : TransitionSystem State Action where
  init := Start
  step := step

def Closing (info : EventInfo) : Prop := info.event = .epollhup ∨ info.event = .epollerr

theorem not_transfer {info : EventInfo} (h : Closing info) : ¬ Transfer info := by
  rintro (hin | hout)
  · obtain hhup | herr := h
    · exact nomatch hhup.symm.trans hin
    · exact nomatch herr.symm.trans hin
  · obtain hhup | herr := h
    · exact nomatch hhup.symm.trans hout
    · exact nomatch herr.symm.trans hout

theorem not_rearmable {info : EventInfo} (h : Closing info) : ¬ Rearmable info :=
  fun hrearm => h.elim hrearm.1 hrearm.2

variable {c d : Calls.State} {e e' : Nat} {info : EventInfo}

variable {i main : Sock} {posted : Nat → Bool}

theorem bit_of_add {p : Nat} {want : Event → Bool} {edge free : Bool}
    {room : Event → Bool} (hclosing : Closing info)
    (hnode : e ∈ (ctlAdd c p e' i want edge free room).1.nodes info.sockfd)
    (hbit : (ctlAdd c p e' i want edge free room).1.bit e info = true) :
    e ∈ c.nodes info.sockfd ∧ c.bit e info = true ∧
      adds c (.add p e' i want edge free room) ≠ some (e, info.sockfd) := by
  unfold adds
  unfold ctlAdd at hnode hbit ⊢
  dsimp only at hnode hbit ⊢
  split at hnode
  · next hfail =>
    rw [if_pos hfail] at hbit
    exact ⟨hnode, hbit, by simp [hfail]⟩
  · next hok =>
    rw [if_neg hok] at hbit
    cases hfree : free with
    | false =>
      simp only [hfree, Bool.false_eq_true, if_false] at hnode hbit
      exact ⟨hnode, hbit, by simp [hok]⟩
    | true =>
      simp only [hfree, if_true] at hnode hbit
      have hgrows := grows_queueAvailable (setEvents (pushNode c e' (c.resolve p i)) e'
        (c.resolve p i) want edge) e' (c.resolve p i) room
      rw [hgrows.nodes] at hnode
      have hold : (pushNode c e' (c.resolve p i)).bit e info = true :=
        (hgrows.new e info hbit).resolve_right fun h => not_transfer hclosing h.1
      have hne : ¬ (e = e' ∧ info.sockfd = c.resolve p i) := by
        rintro ⟨rfl, hi⟩
        simp [pushNode, hi] at hold
      have hadds : ¬ (e' = e ∧ c.resolve p i = info.sockfd) :=
        fun h => hne ⟨h.1.symm, h.2.symm⟩
      refine ⟨?_, ?_, by simpa [hok] using hadds⟩
      · by_cases hi : info.sockfd = c.resolve p i
        · have hmem : e ∈ e' :: c.nodes info.sockfd := by
            simpa [setEvents, pushNode, hi] using hnode
          exact (List.mem_cons.mp hmem).resolve_left fun he => hne ⟨he, hi⟩
        · simpa [setEvents, pushNode, hi] using hnode
      · by_cases he : e = e'
        · subst he
          have hi : info.sockfd ≠ c.resolve p i := fun hi => hne ⟨rfl, hi⟩
          simpa [pushNode, hi] using hold
        · simpa [pushNode, he] using hold

theorem bit_of_wait {maxevents rearms : Nat} (hclosing : Closing info)
    (hbit : (lightEpollWait c e' maxevents rearms).1.bit e info = true) : c.bit e info = true := by
  have hgrows := grows_rearm e' rearms (collect c e' maxevents).2 (collect c e' maxevents).1
  have hold := (hgrows.new e info hbit).resolve_right fun h => not_rearmable hclosing h.1
  exact bit_of_collect hold

theorem nodes_wait {maxevents rearms : Nat} :
    (lightEpollWait c e' maxevents rearms).1.nodes = c.nodes :=
  (grows_rearm e' rearms (collect c e' maxevents).2 (collect c e' maxevents).1).nodes

theorem bit_of_addEpollEventToQueue {k : Nat} {event : Event} {room : Bool}
    (hbit : (addEpollEventToQueue c k i event room).1.bit e info = true) :
    c.bit e info = true ∨ queuedTo c k i event room = some (e, info) := by
  have hcount : (countRound c k (c.resolve k i)).bit = c.bit :=  by
    unfold countRound
    split <;> rfl
  unfold addEpollEventToQueue at hbit
  dsimp only at hbit
  split at hbit
  · exact .inl (hcount ▸ hbit)
  · next e' hselected =>
    split at hbit
    · next hwanted =>
      rw [bit_setBit] at hbit
      split at hbit
      · next hsame =>
        refine .inr ?_
        rw [queuedTo, hselected, hsame.1, hsame.2]
        exact if_pos hwanted
      · exact .inl (hcount ▸ hbit)
    · exact .inl (hcount ▸ hbit)

theorem bit_of_call {a : Calls.Action} (hstep : Calls.step c a = some d)
    (hclosing : Closing info) (hnode : e ∈ d.nodes info.sockfd) (hbit : d.bit e info = true) :
    (e ∈ c.nodes info.sockfd ∧ c.bit e info = true ∧ adds c a ≠ some (e, info.sockfd)) ∨
      posts c a = some (e, info) := by
  cases a with
  | add p e' i want edge free room =>
    cases hstep
    exact .inl (bit_of_add hclosing hnode hbit)
  | del p e' i =>
    cases hstep
    refine .inl ⟨?_, ?_, by simp [adds]⟩
    · unfold ctlDel at hnode
      dsimp only at hnode
      split at hnode
      · exact hnode
      · by_cases hi : info.sockfd = c.resolve p i
        · rw [hi] at hnode ⊢
          exact List.mem_of_mem_erase (by simpa using hnode)
        · simpa [hi] using hnode
    · unfold ctlDel at hbit
      dsimp only at hbit
      split at hbit <;> exact hbit
  | mod p e' i want edge room =>
    cases hstep
    unfold ctlMod at hnode hbit
    dsimp only at hnode hbit
    split at hnode
    · next hfail =>
      rw [if_pos hfail] at hbit
      exact .inl ⟨hnode, hbit, by simp [adds]⟩
    · next hok =>
      rw [if_neg hok] at hbit
      have hgrows := grows_queueAvailable (setEvents c e' (c.resolve p i) want edge) e'
        (c.resolve p i) room
      rw [hgrows.nodes] at hnode
      have hold := (hgrows.new e info hbit).resolve_right fun h => not_transfer hclosing h.1
      exact .inl ⟨hnode, hold, by simp [adds]⟩
  | wait e' maxevents rearms =>
    obtain ⟨-, rfl⟩ := of_guard hstep
    rw [nodes_wait] at hnode
    exact .inl ⟨hnode, bit_of_wait hclosing hbit, by simp [adds]⟩
  | recv i more left =>
    simp only [Calls.step, lightRecv] at hstep
    split at hstep
    · cases hstep
      exact .inl ⟨hnode, hbit, by simp [adds]⟩
    · obtain ⟨-, rfl⟩ := of_guard hstep
      exact .inl ⟨hnode, hbit, by simp [adds]⟩
  | accept p i =>
    obtain ⟨-, rfl⟩ := of_guard hstep
    exact .inl ⟨hnode, hbit, by simp [adds]⟩
  | deliver k i room =>
    cases hstep
    have hgrows := grows_addEpollEventToQueue
      { c with rx := update c.rx i (c.rx i + 1) } k i .epollin room
    simp only [deliver, hgrows.nodes] at hnode
    obtain hold | hnew := bit_of_addEpollEventToQueue hbit
    · exact .inl ⟨hnode, hold, by simp [adds]⟩
    · exact .inr hnew
  | raise k i event room =>
    cases hstep
    have hgrows := grows_addEpollEventToQueue c k i event room
    rw [hgrows.nodes] at hnode
    obtain hold | hnew := bit_of_addEpollEventToQueue hbit
    · exact .inl ⟨hnode, hold, by simp [adds]⟩
    · exact .inr hnew
  | setBuffer i b =>
    cases hstep
    exact .inl ⟨hnode, hbit, by simp [adds]⟩

/-! ## The invariant -/

structure Fresh (u : State) : Prop where
  added : ∀ e i, u.added e i < u.clock
  posted : ∀ e info, u.posted e info < u.clock
  bit : ∀ e info, Closing info → e ∈ u.calls.nodes info.sockfd → u.calls.bit e info = true →
    u.added e info.sockfd < u.posted e info

namespace Fresh

variable {u v : State}

theorem start (h : Start u) : Fresh u where
  added := fun e i => by simp [h.added, h.clock]
  posted := fun e info => by simp [h.posted, h.clock]
  bit := by simp [h.calls.nodes]

theorem of_less (h : Fresh u) (hnodes : ∀ i, v.calls.nodes i ⊆ u.calls.nodes i)
    (hbit : v.calls.bit = u.calls.bit) (hadded : v.added = u.added)
    (hposted : v.posted = u.posted) (hclock : v.clock = u.clock) : Fresh v where
  added := by
    rw [hadded, hclock]
    exact h.added
  posted := by
    rw [hposted, hclock]
    exact h.posted
  bit := by
    intro e info hclosing hnode hset
    rw [hbit] at hset
    rw [hadded, hposted]
    exact h.bit e info hclosing (hnodes _ hnode) hset

theorem subset_unlinkNodes (c : Calls.State) (i j : Sock) :
    (unlinkNodes c i).nodes j ⊆ c.nodes j := by
  by_cases hj : j = i
  · simp [unlinkNodes, hj]
  · simp [unlinkNodes, hj]

theorem closeCopy (h : Fresh u) {k : Nat} : Fresh (closeCopy u main k) := by
  refine h.of_less (fun i => ?_) ?_ rfl rfl rfl
  · simp only [Stale.closeCopy]
    split
    · exact subset_unlinkNodes _ _ i
    · exact List.Subset.refl _
  · simp only [Stale.closeCopy]
    split <;> rfl

theorem closeCopies (h : Fresh u) {l : List Nat} : Fresh (closeCopies main posted l u) := by
  induction l generalizing u with
  | nil => exact h.of_less (fun i => List.Subset.refl _) rfl rfl rfl rfl
  | cons k rest ih =>
    unfold Stale.closeCopies
    split
    · split
      · exact ih h.closeCopy
      · exact h
    · exact ih h

theorem close (h : Fresh u) : Fresh (lightClose u i posted) := by
  unfold lightClose
  split
  · exact h.closeCopies
  · split
    · split
      · exact h.of_less (subset_unlinkNodes _ i) rfl rfl rfl rfl
      · exact h
    · exact h

theorem clock_closeCopies {l : List Nat} : (Stale.closeCopies main posted l u).clock = u.clock := by
  induction l generalizing u with
  | nil => rfl
  | cons k rest ih =>
    unfold Stale.closeCopies
    split
    · split
      · exact ih
      · rfl
    · exact ih

theorem clock_lightClose : (lightClose u i posted).clock = u.clock := by
  unfold lightClose
  split
  · exact clock_closeCopies
  · split
    · split <;> rfl
    · rfl

theorem stamp_le {β : Type} [DecidableEq β] {what : Option (Nat × β)} {f : Nat → β → Nat}
    (hf : ∀ e x, f e x < u.clock) (e : Nat) (x : β) : stamp u.clock what f e x ≤ u.clock := by
  unfold stamp
  split
  · exact le_rfl
  · exact (hf e x).le

theorem call (h : Fresh u) {a : Calls.Action} {c : Calls.State}
    (hstep : Calls.step u.calls a = some c) (e : Nat) (info : EventInfo) (hclosing : Closing info)
    (hnode : e ∈ c.nodes info.sockfd) (hbit : c.bit e info = true) :
    (record u a c).added e info.sockfd < (record u a c).posted e info := by
  simp only [record, stamp]
  obtain ⟨hnode', hbit', hnew⟩ | hposts := bit_of_call hstep hclosing hnode hbit
  · rw [if_neg hnew]
    split
    · exact h.added e info.sockfd
    · exact h.bit e info hclosing hnode' hbit'
  · -- one step does not both add a node and post an event
    have hnone : adds u.calls a = none := by cases a <;> simp [posts, adds] at hposts ⊢
    rw [hnone, if_pos hposts, if_neg (by simp)]
    exact h.added e info.sockfd

theorem step (h : Fresh u) {a : Action} (hstep : Stale.step u a = some v) : Fresh v := by
  obtain ⟨w, hmove, rfl⟩ := Option.map_eq_some_iff.mp hstep
  have hlater : ∀ {w : State}, Fresh w → w.clock = u.clock →
      Fresh { w with clock := u.clock + 1 } :=
    fun hw hclock =>
      ⟨fun e i => (hw.added e i).trans (hclock ▸ Nat.lt_succ_self _),
        fun e info => (hw.posted e info).trans (hclock ▸ Nat.lt_succ_self _), hw.bit⟩
  cases a with
  | call a =>
    obtain ⟨c, hcall, rfl⟩ := Option.map_eq_some_iff.mp hmove
    exact ⟨fun e i => Nat.lt_succ_of_le (stamp_le h.added e i),
      fun e info => Nat.lt_succ_of_le (stamp_le h.posted e info), h.call hcall⟩
  | close i posted =>
    cases hmove
    exact hlater h.close clock_lightClose
  | getSocket | accepted | makeMulticore =>
    cases hmove
    exact hlater (h.of_less (fun _ => List.Subset.refl _) rfl rfl rfl rfl) rfl
  | socketInit i =>
    cases hmove
    exact hlater (h.of_less (subset_unlinkNodes _ i) rfl rfl rfl rfl) rfl

end Fresh

/-- An `EPOLLHUP` or `EPOLLERR` that `light_epoll_wait` returns was queued to this epoll after its
node was added, also where indices are reused and sockets added again. -/
theorem closing_event_posted_after_add (u : State) (hreach : system.Reachable u)
    (e maxevents rearms : Nat) (info : EventInfo)
    (hstored : info ∈ (lightEpollWait u.calls e maxevents rearms).2) (hclosing : Closing info) :
    e ∈ u.calls.nodes info.sockfd ∧ u.added e info.sockfd < u.posted e info := by
  have hfresh : Fresh u :=
    TransitionSystem.Reachable.invariant (fun _ => Fresh.start) (fun _ _ _ h => h.step) hreach
  obtain ⟨hnode, hbit⟩ := bit_of_stored hstored
  exact ⟨hnode, hfresh.bit e info hclosing hnode hbit⟩

def opened : State where
  calls := unregistered
  isInit := fun _ => true
  procId := fun _ => 0
  clock := 1
  added := fun _ _ => 0
  posted := fun _ _ => 0

theorem start_opened : Start opened := ⟨start_unregistered, rfl, fun _ _ => rfl, fun _ _ => rfl⟩

theorem closing_event_posted_after_add_reused :
    ∃ u, system.Reachable u ∧ u.calls.queued 0 = [⟨0, .epollhup⟩, ⟨0, .epollhup⟩] ∧
      ⟨0, .epollhup⟩ ∈ (lightEpollWait u.calls 0 9 9).2 ∧
      u.added 0 0 < u.posted 0 ⟨0, .epollhup⟩ := by
  obtain ⟨u, hreach, hqueued, hstored⟩ :=
    system.exists_reachable opened
      [.call (.add 0 0 0 (fun ev => decide (ev = .epollin)) false true (fun _ => true)),
        .call (.raise 0 0 .epollhup true), .close 0 (fun _ => true), .accepted 0 0,
        .call (.add 0 0 0 (fun ev => decide (ev = .epollin)) false true (fun _ => true)),
        .call (.raise 0 0 .epollhup true)]
      (P := fun u => u.calls.queued 0 = [⟨0, .epollhup⟩, ⟨0, .epollhup⟩] ∧
        ⟨0, .epollhup⟩ ∈ (lightEpollWait u.calls 0 9 9).2)
      start_opened (by decide +kernel)
  exact ⟨u, hreach, hqueued, hstored,
    (closing_event_posted_after_add u hreach 0 9 9 _ hstored (.inl rfl)).2⟩

end LightStack.Epoll.Calls.Stale
