import LightStack.Lib.Transition
import Mathlib.Logic.Function.Basic

/-!
# What closing an epoll gives back

`_epoll_close` takes the nodes off the sockets but returns neither them nor the epoll. Which
sockets its loop meets on `socket_list` is left open here; `Epoll.Members` follows its links.
-/

namespace LightStack.Epoll.Close

open Lib Function

structure State where
  epollRing : List Nat
  active : List Nat
  freeNodes : Nat
  nodes : Nat → List Nat
  timeouts : Nat → Option Nat × Option Nat

def lightEpollCreate (s : State) : Option State :=
  match s.epollRing with
  | [] => none
  | e :: rest =>
    some { s with epollRing := rest, active := e :: s.active }

def ctlAdd (s : State) (e i : Nat) : State :=
  if e ∈ s.active ∧ e ∉ s.nodes i ∧ 0 < s.freeNodes then
    { s with
      freeNodes := s.freeNodes - 1
      nodes := update s.nodes i (e :: s.nodes i) }
  else s

def ctlDel (s : State) (e i : Nat) : State :=
  if e ∈ s.active ∧ e ∈ s.nodes i then
    { s with
      freeNodes := s.freeNodes + 1
      nodes := update s.nodes i ((s.nodes i).erase e) }
  else s

/-- The loop of `_epoll_close` over the descriptors that it meets. -/
def closeSockets (e : Nat) : List Nat → State → State
  | [], s => s
  | i :: rest, s =>
    closeSockets e rest { s with
      nodes := update s.nodes i ((s.nodes i).erase e)
      timeouts := update s.timeouts i (none, none) }

def epollClose (s : State) (e : Nat) (posted : Bool) (sockets : List Nat) : State :=
  if e ∈ s.active ∧ posted = true then
    { closeSockets e sockets s with active := s.active.erase e }
  else s

def lightClose (s : State) (i : Nat) : State :=
  { s with
    freeNodes := s.freeNodes + (s.nodes i).length
    nodes := update s.nodes i []
    timeouts := update s.timeouts i (none, none) }

inductive Action where
  | create
  | add (e i : Nat)
  | del (e i : Nat)
  | setTimeouts (i : Nat) (send receive : Option Nat)
  | closeSocket (i : Nat)
  | closeEpoll (e : Nat) (posted : Bool) (sockets : List Nat)

def step (s : State) : Action → Option State
  | .create => lightEpollCreate s
  | .add e i => some (ctlAdd s e i)
  | .del e i => some (ctlDel s e i)
  | .setTimeouts i send receive => some { s with timeouts := update s.timeouts i (send, receive) }
  | .closeSocket i => some (lightClose s i)
  | .closeEpoll e posted sockets => some (epollClose s e posted sockets)

structure Start (s : State) : Prop where
  nodup : s.epollRing.Nodup
  active : s.active = []

def system : TransitionSystem State Action where
  init := Start
  step := step

/-- The epoll, a node for each socket that was on its list, and the timeouts as they were. -/
def GivesBack (s : State) (e : Nat) (sockets : List Nat) (t : State) : Prop :=
  e ∈ t.epollRing ∧ t.freeNodes = s.freeNodes + sockets.length ∧ t.timeouts = s.timeouts

theorem closeSockets_same (e : Nat) (l : List Nat) (s : State) :
    (closeSockets e l s).epollRing = s.epollRing ∧
      (closeSockets e l s).freeNodes = s.freeNodes := by
  induction l generalizing s with
  | nil => exact ⟨rfl, rfl⟩
  | cons i rest ih => exact ih _

theorem closeSockets_timeouts (e i : Nat) (l : List Nat) (s : State) :
    (closeSockets e l s).timeouts i = if i ∈ l then (none, none) else s.timeouts i := by
  induction l generalizing s with
  | nil => rfl
  | cons j rest ih =>
    rw [closeSockets, ih]
    by_cases hj : i = j
    · simp [hj]
    · simp [hj]

structure Sound (s : State) : Prop where
  nodup : s.epollRing.Nodup
  active : ∀ e ∈ s.active, e ∉ s.epollRing

variable {s t : State} {e : Nat}

theorem epollClose_same (s : State) (e : Nat) (posted : Bool) (sockets : List Nat) :
    (epollClose s e posted sockets).epollRing = s.epollRing ∧
      (epollClose s e posted sockets).freeNodes = s.freeNodes := by
  unfold epollClose
  split
  · exact closeSockets_same e _ s
  · exact ⟨rfl, rfl⟩

theorem epollRing_of_step {a : Action} (hstep : step s a = some t) :
    t.epollRing.Sublist s.epollRing := by
  cases a with
  | create =>
    simp only [step, lightEpollCreate] at hstep
    split at hstep
    · cases hstep
    · rename_i hring
      cases hstep
      rw [hring]
      exact List.sublist_cons_self _ _
  | add | del =>
    cases hstep
    simp only [ctlAdd, ctlDel]
    split <;> exact .refl _
  | setTimeouts | closeSocket =>
    cases hstep
    exact .refl _
  | closeEpoll e posted sockets =>
    cases hstep
    exact (epollClose_same s e posted sockets).1 ▸ .refl _

theorem active_of_step {a : Action} (hstep : step s a = some t) :
    ∀ e ∈ t.active, e ∈ s.active ∨ a = .create ∧ s.epollRing.head? = some e := by
  cases a with
  | create =>
    simp only [step, lightEpollCreate] at hstep
    split at hstep
    · cases hstep
    · rename_i hring
      cases hstep
      intro e he
      rcases List.mem_cons.mp he with rfl | he
      · exact Or.inr ⟨rfl, by rw [hring]; rfl⟩
      · exact Or.inl he
  | add | del =>
    cases hstep
    simp only [ctlAdd, ctlDel]
    split <;> exact fun e he => Or.inl he
  | setTimeouts | closeSocket =>
    cases hstep
    exact fun e he => Or.inl he
  | closeEpoll e posted sockets =>
    cases hstep
    unfold epollClose
    split
    · exact fun e he => Or.inl (List.mem_of_mem_erase he)
    · exact fun e he => Or.inl he

theorem Sound.step {a : Action} (h : Sound s) (hstep : step s a = some t) : Sound t := by
  have hsub := epollRing_of_step hstep
  refine ⟨hsub.nodup h.nodup, fun e he hin => ?_⟩
  rcases active_of_step hstep e he with hold | ⟨rfl, hhead⟩
  · exact h.active e hold (hsub.subset hin)
  · obtain ⟨rest, hring⟩ := List.head?_eq_some_iff.mp hhead
    simp only [Close.step, lightEpollCreate, hring] at hstep
    cases hstep
    exact (List.nodup_cons.mp (hring ▸ h.nodup)).1 hin

/-- No epoll that was created is ever in `epoll_ring` again, and the nodes and timeouts of the
sockets that the loop meets are lost, whichever those are. -/
theorem epoll_close_gives_nothing_back (hreach : system.Reachable s) (hactive : e ∈ s.active)
    (posted : Bool) (sockets : List Nat) :
    ¬GivesBack s e sockets (epollClose s e posted sockets) ∧
      (∀ run t, system.exec (epollClose s e posted sockets) run = some t → e ∉ t.epollRing) ∧
      (epollClose s e posted sockets).freeNodes = s.freeNodes ∧
      (posted = true → ∀ i ∈ sockets,
        (epollClose s e posted sockets).timeouts i = (none, none)) := by
  have hsound : Sound s :=
    hreach.invariant (fun s h => ⟨h.nodup, by simp [h.active]⟩) fun _ _ _ h hstep => h.step hstep
  obtain ⟨hring, hnodes⟩ := epollClose_same s e posted sockets
  have hout : e ∉ (epollClose s e posted sockets).epollRing := hring ▸ hsound.active e hactive
  refine ⟨fun h => hout h.1, fun run => ?_, hnodes, ?_⟩
  · generalize epollClose s e posted sockets = u at hout
    induction run generalizing u with
    | nil =>
      intro t hrun
      cases hrun
      exact hout
    | cons a rest ih =>
      intro t hrun
      obtain ⟨v, hstep, hrest⟩ := Option.bind_eq_some_iff.mp hrun
      exact ih v (fun h => hout ((epollRing_of_step hstep).subset h)) t hrest
  · intro hposted i hi
    rw [epollClose, if_pos ⟨hactive, hposted⟩]
    exact (closeSockets_timeouts e i _ s).trans (if_pos hi)

def created : State where
  epollRing := [0, 1]
  active := []
  freeNodes := 3
  nodes := fun _ => []
  timeouts := fun _ => (none, none)

def registered : List Action := [.create, .setTimeouts 5 (some 3) none, .add 0 5]

theorem epoll_close_gives_nothing_back_registered :
    ∃ s, system.Reachable s ∧ 0 ∈ s.active ∧ ¬GivesBack s 0 [5] (epollClose s 0 true [5]) := by
  obtain ⟨s, hreach, hactive⟩ := system.exists_reachable created registered
    (P := fun s => 0 ∈ s.active) ⟨by decide, rfl⟩ (by decide)
  exact ⟨s, hreach, hactive, (epoll_close_gives_nothing_back hreach hactive true [5]).1⟩

theorem epoll_close_loses :
    ((system.exec created (registered ++ [.closeEpoll 0 true [5]])).map fun s =>
        (s.epollRing, s.freeNodes, s.timeouts 5)) = some ([1], 2, (none, none)) ∧
      ((system.exec created registered).map fun s => (s.freeNodes, s.timeouts 5)) =
        some (2, (some 3, none)) ∧
      (system.exec created
        (registered ++ [.closeEpoll 0 true [5], .create, .closeEpoll 1 true [], .create])).isNone :=
  ⟨by decide, by decide, by decide⟩

end LightStack.Epoll.Close
