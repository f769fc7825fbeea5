import LightStack.Lib.Tailq
import LightStack.Lib.Transition

/-!
# Where a registration is written down

A socket carries a node for each epoll, and is on the `socket_list` of the epoll through its only
`socket_list_entry`.
-/

namespace LightStack.Epoll.Members

open Lib Function List

abbrev Sock := Nat

structure State where
  numProcs : Nat
  nodes : Sock → List Nat
  queue : Tailq Nat Sock
  active : Nat → Bool
  multicore : Sock → Bool
  copies : Sock → Nat → Sock
  isInit : Sock → Bool
  procId : Sock → Nat

def State.resolve (s : State) (p : Nat) (i : Sock) : Sock :=
  if s.multicore i then s.copies i p else i

/-! ## light_epoll_ctl -/

def ctlAdd (s : State) (p e : Nat) (i : Sock) (free : Bool) : Option State :=
  let j := s.resolve p i
  if s.active e = false ∨ e ∈ s.nodes j ∨ free = false then some s
  else
    (s.queue.insertTail e j).map fun queue =>
      { s with nodes := update s.nodes j (e :: s.nodes j), queue }

def ctlDel (s : State) (p e : Nat) (i : Sock) : Option State :=
  let j := s.resolve p i
  if s.active e = false ∨ e ∉ s.nodes j then some s
  else
    (s.queue.remove e j).map fun queue =>
      { s with nodes := update s.nodes j ((s.nodes j).erase e), queue }

def unlinkNodes (j : Sock) : List Nat → State → Option State
  | [], s => some { s with nodes := update s.nodes j [] }
  | e :: rest, s => (s.queue.remove e j).bind fun queue => unlinkNodes j rest { s with queue }

def closeCopy (s : State) (main : Sock) (k : Nat) : Option State :=
  let j := s.copies main k
  if k = s.procId main then
    (unlinkNodes j (s.nodes j) s).map fun t =>
      { t with isInit := update t.isInit j false }
  else some { s with isInit := update s.isInit j false }

def closeCopies (main : Sock) (posted : Nat → Bool) : List Nat → State → Option State
  | [], s =>
    some { s with
      multicore := update s.multicore main false
      procId := update s.procId main 0 }
  | k :: rest, s =>
    if s.isInit (s.copies main k) then
      if posted k then (closeCopy s main k).bind (closeCopies main posted rest) else some s
    else closeCopies main posted rest s

def lightClose (s : State) (i : Sock) (posted : Nat → Bool) : Option State :=
  if s.multicore i then closeCopies i posted (List.range s.numProcs) s
  else if s.isInit i = true ∧ posted (s.procId i) = true then
    (unlinkNodes i (s.nodes i) s).map fun t =>
      { t with procId := update t.procId i 0 }
  else some s

def closeList (e : Nat) : Nat → Option Sock → State → Option State
  | _, none, s => some s
  | 0, some _, _ => none
  | fuel + 1, some i, s =>
    (s.queue.remove e i).bind fun queue =>
      closeList e fuel (s.queue.ptr (.next i))
        { s with nodes := update s.nodes i ((s.nodes i).erase e), queue }

def epollClose (s : State) (e : Nat) (posted : Bool) (fuel : Nat) : Option State :=
  if s.active e = true ∧ posted = true then
    (closeList e fuel (s.queue.ptr (.head e)) s).map fun t =>
      { t with active := update t.active e false }
  else some s

inductive Action where
  | add (p e : Nat) (i : Sock) (free : Bool)
  | del (p e : Nat) (i : Sock)
  | mod (p e : Nat) (i : Sock)
  | close (i : Sock) (posted : Nat → Bool)
  | epollClose (e : Nat) (posted : Bool) (fuel : Nat)
  | epollCreate (e : Nat)
  | getSocket (i : Sock) (accepted : Option Nat)
  | socketInit (i : Sock)
  | makeMulticore (i : Sock) (k : Nat) (copies : Nat → Sock)

def getSocket (s : State) (i : Sock) (accepted : Option Nat) : State :=
  { s with
    queue := s.queue.clear i
    multicore := update s.multicore i false
    isInit := update s.isInit i accepted.isSome
    procId := match accepted with
      | some k => update s.procId i k
      | none => s.procId
    copies := match accepted with
      | some k => update s.copies i (update (s.copies i) k i)
      | none => s.copies }

def step (s : State) : Action → Option State
  | .add p e i free => ctlAdd s p e i free
  | .del p e i => ctlDel s p e i
  | .mod _ _ _ => some s
  | .close i posted => lightClose s i posted
  | .epollClose e posted fuel => epollClose s e posted fuel
  | .epollCreate e => some { s with queue := s.queue.init e, active := update s.active e true }
  | .getSocket i accepted => some (getSocket s i accepted)
  | .socketInit i =>
    some { s with
      nodes := update s.nodes i []
      isInit := update s.isInit i true }
  | .makeMulticore i k copies =>
    some { s with
      multicore := update s.multicore i true
      copies := update s.copies i copies
      procId := update s.procId i k }

structure Start (s : State) : Prop where
  nodes : ∀ i, s.nodes i = []
  ptr : ∀ e, s.queue.ptr (.head e) = none
  last : ∀ e, s.queue.last e = some (.head e)

def system : TransitionSystem State Action where
  init := Start
  step := step

def Matched (s : State) : Prop :=
  ∃ lists : Nat → List Sock, (∀ e, s.queue.IsList e (lists e)) ∧
    ∀ e i, (lists e).count i = if e ∈ s.nodes i then 1 else 0

def Clean (s : State) : Action → Prop
  | .add p e i _ => ∀ d ∈ s.nodes (s.resolve p i), d = e
  | .getSocket i _ => s.nodes i = []
  | .socketInit i => s.nodes i = []
  | .epollCreate e => s.queue.ptr (.head e) = none
  | _ => True

/-! ## The invariant -/

structure Good (s : State) (lists : Nat → List Sock) : Prop where
  represents : s.queue.Represents lists
  mem_iff : ∀ e i, i ∈ lists e ↔ e ∈ s.nodes i
  alone : ∀ i, (s.nodes i).length ≤ 1

variable {e fuel : Nat} {i j : Sock}

namespace Good

variable {s t : State} {lists : Nat → List Sock}

theorem matched (h : Good s lists) : Matched s := by
  refine ⟨lists, h.represents.isList, fun e i => ?_⟩
  split
  · next hnode =>
    exact count_eq_one_of_mem (h.represents.nodup e) ((h.mem_iff e i).mpr hnode)
  · next hnode => exact count_eq_zero.mpr fun hin => hnode ((h.mem_iff e i).mp hin)

theorem start (h : Start s) : Good s fun _ => [] where
  represents := ⟨fun e => ⟨trivial, h.ptr e, h.last e⟩, fun _ => nodup_nil, by simp⟩
  mem_iff := by simp [h.nodes]
  alone := by simp [h.nodes]

section

variable (h : Good s lists)

include h

theorem nodes_eq (hnode : e ∈ s.nodes i) : s.nodes i = [e] := by
  have hlen : (s.nodes i).length = 1 := le_antisymm (h.alone i) (length_pos_of_mem hnode)
  obtain ⟨d, hd⟩ := length_eq_one_iff.mp hlen
  rw [hd, mem_singleton] at hnode
  rw [hd, hnode]

theorem notMem (hnone : s.nodes i = []) (e : Nat) : i ∉ lists e := by
  rw [h.mem_iff, hnone]
  exact not_mem_nil

theorem push (hnone : s.nodes j = []) :
    ∃ queue, s.queue.insertTail e j = some queue ∧
      Good { s with nodes := update s.nodes j (e :: s.nodes j), queue }
        (update lists e (lists e ++ [j])) := by
  obtain ⟨queue, hqueue, hrep⟩ := h.represents.insertTail (r := e) (h.notMem hnone)
  refine ⟨queue, hqueue, hrep, fun d i => ?_, fun i => ?_⟩
  · by_cases hi : i = j
    · subst hi
      by_cases hd : d = e
      · simp [hd]
      · simp [hd, hnone, h.notMem hnone]
    · by_cases hd : d = e
      · simp [hd, hi, h.mem_iff]
      · simp [hd, hi, h.mem_iff]
  · by_cases hi : i = j
    · simp [hi, hnone]
    · simpa [hi] using h.alone i

theorem pop (hnode : e ∈ s.nodes j) : ∃ queue, s.queue.remove e j = some queue ∧
      Good { s with nodes := update s.nodes j [], queue } (update lists e ((lists e).erase j)) := by
  have hnodes := h.nodes_eq hnode
  obtain ⟨queue, hqueue, hrep⟩ := h.represents.remove ((h.mem_iff e j).mpr hnode)
  refine ⟨queue, hqueue, hrep, fun d i => ?_, fun i => ?_⟩
  · by_cases hi : i = j
    · subst hi
      by_cases hd : d = e
      · simp [hd, (h.represents.nodup e).not_mem_erase]
      · simp [hd, h.mem_iff, hnodes]
    · by_cases hd : d = e
      · simp [hd, hi, h.mem_iff, mem_erase_of_ne hi]
      · simp [hd, hi, h.mem_iff]
  · by_cases hi : i = j
    · simp [hi]
    · simpa [hi] using h.alone i

theorem ctlAdd {p : Nat} {free : Bool} (hclean : ∀ d ∈ s.nodes (s.resolve p i), d = e)
    (hstep : ctlAdd s p e i free = some t) : ∃ lists', Good t lists' := by
  unfold Members.ctlAdd at hstep
  dsimp only at hstep
  split at hstep
  · cases hstep
    exact ⟨lists, h⟩
  · next hok =>
    have hnone : s.nodes (s.resolve p i) = [] :=
      eq_nil_iff_forall_not_mem.mpr fun d hd => hok (.inr (.inl (hclean d hd ▸ hd)))
    obtain ⟨queue, hqueue, hgood⟩ := h.push (e := e) hnone
    rw [hqueue, Option.map_some] at hstep
    cases hstep
    exact ⟨_, hgood⟩

theorem ctlDel {p : Nat} (hstep : ctlDel s p e i = some t) : ∃ lists', Good t lists' := by
  unfold Members.ctlDel at hstep
  dsimp only at hstep
  split at hstep
  · cases hstep
    exact ⟨lists, h⟩
  · next hok =>
    have hnode : e ∈ s.nodes (s.resolve p i) := not_not.mp (not_or.mp hok).2
    obtain ⟨queue, hqueue, hgood⟩ := h.pop hnode
    rw [hqueue, Option.map_some] at hstep
    cases hstep
    rw [h.nodes_eq hnode, erase_cons_head]
    exact ⟨_, hgood⟩

theorem unlinkNodes : ∃ t lists', unlinkNodes j (s.nodes j) s = some t ∧ Good t lists' := by
  cases hnodes : s.nodes j with
  | nil =>
    refine ⟨_, lists, rfl, ?_⟩
    have hsame : update s.nodes j [] = s.nodes := by rw [← hnodes, Function.update_eq_self]
    rw [hsame]
    exact h
  | cons e rest =>
    have hnode : e ∈ s.nodes j := by simp [hnodes]
    obtain rfl : rest = [] := by simpa [hnodes] using h.nodes_eq hnode
    obtain ⟨queue, hqueue, hgood⟩ := h.pop hnode
    exact ⟨_, _, by rw [Members.unlinkNodes, hqueue]; rfl, hgood⟩

theorem congr (hnodes : t.nodes = s.nodes) (hqueue : t.queue = s.queue) : Good t lists := by
  refine ⟨?_, ?_, ?_⟩
  · rw [hqueue]
    exact h.represents
  · rw [hnodes]
    exact h.mem_iff
  · rw [hnodes]
    exact h.alone

theorem closeCopy {main : Sock} {k : Nat} (hstep : closeCopy s main k = some t) :
    ∃ lists', Good t lists' := by
  unfold Members.closeCopy at hstep
  dsimp only at hstep
  split at hstep
  · obtain ⟨u, lists', hu, hgood⟩ := h.unlinkNodes (j := s.copies main k)
    rw [hu, Option.map_some] at hstep
    cases hstep
    exact ⟨lists', hgood.congr rfl rfl⟩
  · cases hstep
    exact ⟨lists, h.congr rfl rfl⟩

theorem closeCopies {main : Sock} {posted : Nat → Bool} {l : List Nat}
    (hstep : closeCopies main posted l s = some t) : ∃ lists', Good t lists' := by
  induction l generalizing s lists with
  | nil =>
    cases hstep
    exact ⟨lists, h.congr rfl rfl⟩
  | cons k rest ih =>
    unfold Members.closeCopies at hstep
    split at hstep
    · split at hstep
      · obtain ⟨u, hu, hrest⟩ := Option.bind_eq_some_iff.mp hstep
        obtain ⟨lists', hgood⟩ := h.closeCopy hu
        exact ih hgood hrest
      · cases hstep
        exact ⟨lists, h⟩
    · exact ih h hstep

theorem lightClose {posted : Nat → Bool} (hstep : lightClose s i posted = some t) :
    ∃ lists', Good t lists' := by
  unfold Members.lightClose at hstep
  split at hstep
  · exact h.closeCopies hstep
  · split at hstep
    · obtain ⟨u, lists', hu, hgood⟩ := h.unlinkNodes (j := i)
      rw [hu, Option.map_some] at hstep
      cases hstep
      exact ⟨lists', hgood.congr rfl rfl⟩
    · cases hstep
      exact ⟨lists, h⟩

theorem closeList_step {l : List Sock} (hl : lists e = i :: l) :
    ∃ queue, s.queue.remove e i = some queue ∧
      s.queue.ptr (.next i) = l.head? ∧
      Good { s with nodes := update s.nodes i ((s.nodes i).erase e), queue }
        (update lists e l) := by
  have hnode : e ∈ s.nodes i := (h.mem_iff e i).mp (by simp [hl])
  obtain ⟨queue, hqueue, hgood⟩ := h.pop hnode
  refine ⟨queue, hqueue, h.represents.next_first hl, ?_⟩
  rw [hl, erase_cons_head] at hgood
  rw [h.nodes_eq hnode, erase_cons_head]
  exact hgood

theorem closeList (hstep : closeList e fuel (lists e).head? s = some t) :
    ∃ lists', Good t lists' := by
  induction fuel generalizing s lists with
  | zero =>
    cases hl : lists e with
    | nil =>
      rw [hl] at hstep
      cases hstep
      exact ⟨lists, h⟩
    | cons i l =>
      rw [hl] at hstep
      cases hstep
  | succ fuel ih =>
    cases hl : lists e with
    | nil =>
      rw [hl] at hstep
      cases hstep
      exact ⟨lists, h⟩
    | cons i l =>
      obtain ⟨queue, hqueue, hnext, hgood⟩ := h.closeList_step hl
      rw [hl, List.head?_cons, Members.closeList, hqueue, Option.bind_some, hnext] at hstep
      exact ih hgood (by rwa [update_self])

theorem closeList_returns (hfuel : (lists e).length ≤ fuel) :
    ∃ t, Members.closeList e fuel (lists e).head? s = some t := by
  induction fuel generalizing s lists with
  | zero =>
    have hl : lists e = [] := length_eq_zero_iff.mp (Nat.le_zero.mp hfuel)
    exact ⟨s, by rw [hl]; rfl⟩
  | succ fuel ih =>
    cases hl : lists e with
    | nil => exact ⟨s, rfl⟩
    | cons i l =>
      obtain ⟨queue, hqueue, hnext, hgood⟩ := h.closeList_step hl
      rw [hl, length_cons] at hfuel
      obtain ⟨t, ht⟩ := ih hgood (by rw [update_self]; omega)
      rw [update_self] at ht
      exact ⟨t, by rw [List.head?_cons, Members.closeList, hqueue, Option.bind_some, hnext, ht]⟩

theorem epollClose {posted : Bool} (hstep : epollClose s e posted fuel = some t) :
    ∃ lists', Good t lists' := by
  unfold Members.epollClose at hstep
  split at hstep
  · rw [h.represents.first e] at hstep
    obtain ⟨u, hu, rfl⟩ := Option.map_eq_some_iff.mp hstep
    obtain ⟨lists', hgood⟩ := h.closeList hu
    exact ⟨lists', hgood.congr rfl rfl⟩
  · cases hstep
    exact ⟨lists, h⟩

theorem step {a : Action} (hclean : Clean s a) (hstep : Members.step s a = some t) :
    ∃ lists', Good t lists' := by
  cases a with
  | add p e i free => exact h.ctlAdd hclean hstep
  | del p e i => exact h.ctlDel hstep
  | mod p e i =>
    cases hstep
    exact ⟨lists, h⟩
  | close i posted => exact h.lightClose hstep
  | epollClose e posted fuel => exact h.epollClose hstep
  | epollCreate e =>
    cases hstep
    have hempty : lists e = [] := by
      rw [← List.head?_eq_none_iff, ← h.represents.first e]
      exact hclean
    exact ⟨lists, h.represents.init hempty, h.mem_iff, h.alone⟩
  | getSocket i accepted =>
    cases hstep
    exact ⟨lists, h.represents.clear (h.notMem hclean), h.mem_iff, h.alone⟩
  | socketInit i =>
    cases hstep
    have hsame : update s.nodes i [] = s.nodes := by rw [← hclean, Function.update_eq_self]
    exact ⟨lists, h.congr hsame rfl⟩
  | makeMulticore i k copies =>
    cases hstep
    exact ⟨lists, h.congr rfl rfl⟩

end

end Good

theorem good_of_reachable {s : State} (hreach : system.ReachableUnder Clean s) :
    ∃ lists, Good s lists := by
  apply hreach.invariant
  · exact fun _ hstart => ⟨_, Good.start hstart⟩
  · exact fun _ _ _ ⟨_, h⟩ hclean hstep => h.step hclean hstep

/-- If a socket gets a node only if it has none, and indices and epolls are used again only without
nodes, the nodes and the lists agree, and an epoll can be closed. -/
theorem epoll_membership_matched (s : State) (hreach : system.ReachableUnder Clean s) :
    Matched s ∧ ∀ e posted, ∃ fuel t, epollClose s e posted fuel = some t := by
  obtain ⟨lists, hgood⟩ := good_of_reachable hreach
  refine ⟨hgood.matched, fun e posted => ⟨(lists e).length, ?_⟩⟩
  unfold epollClose
  split
  · obtain ⟨t, ht⟩ := hgood.closeList_returns (e := e) le_rfl
    rw [hgood.represents.first e, ht]
    exact ⟨_, rfl⟩
  · exact ⟨s, rfl⟩

instance (s : State) (a : Action) : Decidable (Clean s a) := by
  cases a <;> dsimp only [Clean] <;> infer_instance

def unregistered : State where
  numProcs := 1
  nodes := fun _ => []
  queue :=
    { ptr := fun _ => none
      last := fun e => some (.head e)
      prev := fun _ => none }
  active := fun _ => true
  multicore := fun _ => false
  copies := fun i _ => i
  isInit := fun _ => true
  procId := fun _ => 0

theorem start_unregistered : Start unregistered := ⟨fun _ => rfl, fun _ => rfl, fun _ => rfl⟩

theorem epoll_membership_matched_reused :
    ∃ s, system.ReachableUnder Clean s ∧ s.nodes 0 = [0] ∧ s.nodes 1 = [] ∧ s.nodes 2 = [0] ∧
      Matched s := by
  obtain ⟨s, hreach, hzero, hone, htwo⟩ :=
    system.exists_reachableUnder Clean unregistered
      [.add 0 0 0 true, .add 0 0 1 true, .add 0 0 2 true, .close 1 (fun _ => true),
        .getSocket 1 none]
      (P := fun s => s.nodes 0 = [0] ∧ s.nodes 1 = [] ∧ s.nodes 2 = [0]) start_unregistered
      (by decide +kernel)
  exact ⟨s, hreach, hzero, hone, htwo, (epoll_membership_matched s hreach).1⟩

theorem epoll_membership_mixed_up :
    ∃ s, system.Reachable s ∧ s.nodes 0 = [1] ∧ s.queue.ptr (.head 0) = some 0 ∧
      s.queue.ptr (.head 1) = none ∧ ¬ Matched s := by
  obtain ⟨s, hreach, hnodes, hfirst, hsecond⟩ :=
    system.exists_reachable unregistered [.add 0 0 0 true, .add 0 1 0 true, .del 0 0 0]
      (P := fun s => s.nodes 0 = [1] ∧ s.queue.ptr (.head 0) = some 0 ∧
        s.queue.ptr (.head 1) = none) start_unregistered (by decide +kernel)
  refine ⟨s, hreach, hnodes, hfirst, hsecond, ?_⟩
  rintro ⟨lists, hlists, hcount⟩
  have hone : (lists 1).count 0 = 1 := by simpa [hnodes] using hcount 1 0
  have hpath := (hlists 1).path
  cases hl : lists 1 with
  | nil => simp [hl] at hone
  | cons i l =>
    rw [hl] at hpath
    exact nomatch hsecond.symm.trans hpath.1

end LightStack.Epoll.Members
