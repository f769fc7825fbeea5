import LightStack.Epoll.Model

/-!
# Closing a socket while it is registered

`light_mark_closed` sets the signal and posts to a node, if there is one; `ADD` does not look at the
signal.
-/

namespace LightStack.Epoll.Late

open Lib Function List

inductive Node where
  | mine
  | other (epoll : Nat)
  deriving DecidableEq

inductive StackPc where
  | idle
  | size (e : Event)
  | select (e : Event) (n : Nat)
  | enqueue (e : Event) (node : Node)
  | setBit (e : Event)
  deriving DecidableEq

inductive CtlPc where
  | before
  | checkData
  | testIn
  | enqueueIn
  | setIn
  | checkBuffer
  | testOut
  | enqueueOut
  | setOut
  | done
  deriving DecidableEq

structure State where
  nodes : List Node
  wanted : Event → Bool
  bit : Event → Bool
  shadow : List Event
  ready : List Event
  signal : Nat
  closed : Bool
  data : Nat
  buffer : Bool
  roundRobin : Nat
  stack : StackPc
  ctl : CtlPc

def interested (s : State) (e : Event) : Bool :=
  s.wanted e || decide (e = .epollerr) || decide (e = .epollhup)

/-! ## The stack -/

def selected (s : State) (n : Nat) : Option Node :=
  if n = 1 then s.nodes.head? else (s.nodes.drop (s.roundRobin % n)).head?

def addEpollEventToQueue (s : State) : Option State :=
  match s.stack with
  | .idle => none
  | .size e =>
    some { s with
      stack := if s.nodes = [] then .idle else .select e s.nodes.length }
  | .select e n =>
    some { s with
      roundRobin := if n = 1 then s.roundRobin else s.roundRobin + 1
      stack := match selected s n with
        | none => .idle
        | some node => .enqueue e node }
  | .enqueue e .mine =>
    if interested s e then some { s with ready := s.ready ++ [e], stack := .setBit e }
    else some { s with stack := .idle }
  | .enqueue _ (.other _) => some { s with stack := .idle }
  | .setBit e => some { s with bit := update s.bit e true, stack := .idle }

def lightMarkClosed (s : State) (closeNum : Nat) : State :=
  { s with signal := closeNum, closed := true, stack := .size .epollhup }

def addEpollNodeInSocket (s : State) : State :=
  { s with nodes := .mine :: s.nodes, bit := fun _ => false, ctl := .checkData }

def lightEpollCtl (s : State) : Option State :=
  match s.ctl with
  | .before => none
  | .checkData =>
    some { s with
      ctl := if interested s .epollin && decide (0 < s.data) then .testIn else .checkBuffer }
  | .testIn => some { s with ctl := if s.bit .epollin then .checkBuffer else .enqueueIn }
  | .enqueueIn => some { s with shadow := s.shadow ++ [.epollin], ctl := .setIn }
  | .setIn => some { s with bit := update s.bit .epollin true, ctl := .checkBuffer }
  | .checkBuffer =>
    some { s with ctl := if interested s .epollout && s.buffer then .testOut else .done }
  | .testOut => some { s with ctl := if s.bit .epollout then .done else .enqueueOut }
  | .enqueueOut => some { s with shadow := s.shadow ++ [.epollout], ctl := .setOut }
  | .setOut => some { s with bit := update s.bit .epollout true, ctl := .done }
  | .done => none

def eventAvailable (s : State) : Event → Bool
  | .epollin => decide (0 < s.data)
  | .epollout => s.buffer
  | .epollerr => true
  | .epollhup => true

def takeEvent (s : State) (acc : (Event → Bool) × List Event) (e : Event) :
    (Event → Bool) × List Event :=
  (update acc.1 e false,
    if interested s e && acc.1 e && eventAvailable s e then acc.2 ++ [e] else acc.2)

def lightEpollWait (s : State) : List Event :=
  ((s.shadow ++ s.ready).foldl (takeEvent s) (s.bit, [])).2

inductive Action where
  | arrive
  | close (closeNum : Nat)
  | stack
  | add
  | ctl
  | receive
  | setBuffer (buffer : Bool)
  | addOther (epoll : Nat)
  | delOther (epoll : Nat)

def step (s : State) : Action → Option State
  | .arrive =>
    if s.stack = .idle then some { s with data := s.data + 1, stack := .size .epollin }
    else none
  | .close closeNum =>
    if s.stack = .idle ∧ s.closed = false then some (lightMarkClosed s closeNum) else none
  | .stack => addEpollEventToQueue s
  | .add => if s.ctl = .before then some (addEpollNodeInSocket s) else none
  | .ctl => lightEpollCtl s
  | .receive =>
    if s.ctl = .before ∨ s.ctl = .done then some { s with data := s.data - 1 } else none
  | .setBuffer buffer => some { s with buffer := buffer }
  | .addOther epoll => some { s with nodes := .other epoll :: s.nodes }
  | .delOther epoll => some { s with nodes := s.nodes.erase (.other epoll) }

structure Start (s : State) : Prop where
  nodes_eq : .mine ∉ s.nodes
  bit_eq : ∀ e, s.bit e = false
  closed_eq : s.closed = false
  stack_eq : s.stack = .idle
  ctl_eq : s.ctl = .before

def system : TransitionSystem State Action where
  init := Start
  step := step

/-! ## The condition -/

def findsData (s : State) : Prop :=
  0 < s.data ∧ s.wanted .epollin = true ∧
    (s.ctl = .before ∨ s.ctl = .checkData ∨ s.bit .epollin = true)

def Seen (s : State) : Action → Prop
  | .stack =>
    match s.stack with
    | .size .epollhup => s.nodes ≠ [] ∨ findsData s
    | .select .epollhup n => selected s n = some .mine ∨ findsData s
    | _ => True
  | .receive => s.closed = true → 1 < s.data ∨ s.bit .epollhup = true
  | _ => True

def Early (pc : CtlPc) : Prop :=
  pc = .before ∨ pc = .checkData ∨ pc = .testIn ∨ pc = .enqueueIn ∨ pc = .setIn

def Found (s : State) : Prop :=
  0 < s.data ∧ s.wanted .epollin = true ∧ (s.bit .epollin = true ∨ Early s.ctl)

def Hanging (pc : StackPc) : Prop :=
  pc = .size .epollhup ∨ (∃ n, pc = .select .epollhup n) ∨ pc = .enqueue .epollhup .mine ∨
    pc = .setBit .epollhup

structure Told (s : State) : Prop where
  queued : ∀ e, s.bit e = true → e ∈ s.shadow ∨ e ∈ s.ready
  setIn : s.ctl = .setIn → .epollin ∈ s.shadow
  setOut : s.ctl = .setOut → .epollout ∈ s.shadow
  setBit : ∀ e, s.stack = .setBit e → e ∈ s.ready
  fresh : s.ctl = .before → .mine ∉ s.nodes ∧ (∀ e, s.bit e = false) ∧
    (∀ e, s.stack ≠ .enqueue e .mine) ∧ ∀ e, s.stack ≠ .setBit e
  closed : s.closed = true → Hanging s.stack ∨ s.bit .epollhup = true ∨ Found s

namespace Found

variable {s t : State}

theorem of_findsData (h : findsData s) : Found s := by
  obtain ⟨hdata, hwanted, hctl⟩ := h
  refine ⟨hdata, hwanted, ?_⟩
  unfold Early
  tauto

theorem early (h : Found s) (hdata : t.data = s.data) (hwanted : t.wanted = s.wanted)
    (hctl : Early t.ctl) : Found t :=
  ⟨hdata ▸ h.1, hwanted ▸ h.2.1, .inr hctl⟩

theorem late (h : Found s) (hdata : t.data = s.data) (hwanted : t.wanted = s.wanted)
    (hctl : ¬ Early s.ctl) (hbit : s.bit .epollin = true → t.bit .epollin = true) : Found t :=
  ⟨hdata ▸ h.1, hwanted ▸ h.2.1, .inl (hbit (h.2.2.resolve_right hctl))⟩

end Found

variable {e : Event} {pc : CtlPc}

namespace Told

variable {s t : State}

theorem start (h : Start s) : Told s where
  queued := fun e he => by simp [h.bit_eq] at he
  setIn := fun hctl => by simp [h.ctl_eq] at hctl
  setOut := fun hctl => by simp [h.ctl_eq] at hctl
  setBit := fun e he => by simp [h.stack_eq] at he
  fresh := fun _ => ⟨h.nodes_eq, h.bit_eq, by simp [h.stack_eq], by simp [h.stack_eq]⟩
  closed := fun hclosed => by simp [h.closed_eq] at hclosed

theorem mem_of_selected {n : Nat} {node : Node} (h : selected s n = some node) :
    node ∈ s.nodes := by
  unfold selected at h
  split at h
  · exact List.mem_of_mem_head? h
  · exact mem_of_mem_drop (List.mem_of_mem_head? h)

theorem move (h : Told s) (hnodes : t.nodes = s.nodes) (hbit : t.bit = s.bit)
    (hshadow : t.shadow = s.shadow) (hready : t.ready = s.ready) (hctl : t.ctl = s.ctl)
    (hset : ∀ e, t.stack ≠ .setBit e) (hmine : s.ctl = .before → ∀ e, t.stack ≠ .enqueue e .mine)
    (hclosed : t.closed = true → Hanging t.stack ∨ t.bit .epollhup = true ∨ Found t) :
    Told t where
  queued := fun e he => by
    rw [hshadow, hready]
    exact h.queued e (hbit ▸ he)
  setIn := fun hpc => hshadow ▸ h.setIn (hctl ▸ hpc)
  setOut := fun hpc => hshadow ▸ h.setOut (hctl ▸ hpc)
  setBit := fun e he => absurd he (hset e)
  fresh := fun hpc => by
    obtain ⟨hmem, hbits, -, -⟩ := h.fresh (hctl ▸ hpc)
    exact ⟨hnodes ▸ hmem, hbit ▸ hbits, hmine (hctl ▸ hpc), hset⟩
  closed := hclosed

theorem size (h : Told s) (hguard : Seen s .stack) (hpc : s.stack = .size e) :
    Told { s with stack := if s.nodes = [] then .idle else .select e s.nodes.length } := by
  refine h.move rfl rfl rfl rfl rfl ?_ ?_ ?_
  · intro e'
    dsimp only
    split <;> simp
  · intro _ e'
    dsimp only
    split <;> simp
  · intro hclosed
    by_cases hhup : e = .epollhup
    · subst hhup
      simp only [Seen, hpc] at hguard
      rcases hguard with hne | hfinds
      · left
        right
        left
        exact ⟨_, if_neg hne⟩
      · exact .inr (.inr (Found.of_findsData hfinds))
    · have hnot : ¬ Hanging s.stack := by simp [Hanging, hpc, hhup]
      exact .inr ((h.closed hclosed).resolve_left hnot)

theorem select (h : Told s) {n : Nat} (hguard : Seen s .stack) (hpc : s.stack = .select e n) :
    Told { s with
      roundRobin := if n = 1 then s.roundRobin else s.roundRobin + 1
      stack := match selected s n with
        | none => .idle
        | some node => .enqueue e node } := by
  refine h.move rfl rfl rfl rfl rfl ?_ ?_ ?_
  · intro e'
    dsimp only
    split <;> simp
  · intro hbefore e' hmine
    dsimp only at hmine
    split at hmine
    · cases hmine
    · next node hsel =>
      cases hmine
      exact (h.fresh hbefore).1 (mem_of_selected hsel)
  · intro hclosed
    by_cases hhup : e = .epollhup
    · subst hhup
      simp only [Seen, hpc] at hguard
      rcases hguard with hsel | hfinds
      · left
        right
        right
        left
        simp only [hsel]
      · exact .inr (.inr (Found.of_findsData hfinds))
    · have hnot : ¬ Hanging s.stack := by simp [Hanging, hpc, hhup]
      exact .inr ((h.closed hclosed).resolve_left hnot)

theorem enqueue (h : Told s) (hpc : s.stack = .enqueue e .mine) :
    Told { s with ready := s.ready ++ [e], stack := .setBit e } where
  queued := fun e' he => (h.queued e' he).imp_right (mem_append_left _)
  setIn := h.setIn
  setOut := h.setOut
  setBit := fun e' he => by
    cases he
    exact mem_append_right _ (mem_singleton_self e)
  fresh := fun hbefore => absurd hpc ((h.fresh hbefore).2.2.1 e)
  closed := fun hclosed => by
    refine (h.closed hclosed).imp_left fun hhang => ?_
    simp only [Hanging, hpc] at hhang
    simp only [Hanging]
    grind

theorem skip (h : Told s) (hidle : ¬ Hanging s.stack) : Told { s with stack := .idle } :=
  h.move rfl rfl rfl rfl rfl (by simp) (by simp)
    fun hclosed => .inr ((h.closed hclosed).resolve_left hidle)

theorem update_of_bit {bit : Event → Bool} {e' : Event} (h : bit e' = true) :
    update bit e true e' = true := by
  simp only [update_apply]
  split <;> simp [h]

section

variable (h : Told s)

include h

theorem queued_update (hmem : e ∈ s.shadow ∨ e ∈ s.ready) (e' : Event)
    (hbit : update s.bit e true e' = true) : e' ∈ s.shadow ∨ e' ∈ s.ready := by
  by_cases heq : e' = e
  · exact heq ▸ hmem
  · rw [update_of_ne heq] at hbit
    exact h.queued e' hbit

theorem set (hpc : s.stack = .setBit e) :
    Told { s with bit := update s.bit e true, stack := .idle } where
  queued := h.queued_update (.inr (h.setBit e hpc))
  setIn := h.setIn
  setOut := h.setOut
  setBit := fun e' he => by cases he
  fresh := fun hbefore => absurd hpc ((h.fresh hbefore).2.2.2 e)
  closed := fun hclosed => by
    right
    by_cases hhup : e = .epollhup
    · subst hhup
      simp
    · have hnot : ¬ Hanging s.stack := by simp [Hanging, hpc, hhup]
      refine ((h.closed hclosed).resolve_left hnot).imp update_of_bit ?_
      rintro ⟨hdata, hwanted, hfound⟩
      exact ⟨hdata, hwanted, hfound.imp_left update_of_bit⟩

theorem stack (hguard : Seen s .stack) (hstep : addEpollEventToQueue s = some t) : Told t := by
  unfold addEpollEventToQueue at hstep
  split at hstep
  · cases hstep
  · next e hpc =>
    cases hstep
    exact h.size hguard hpc
  · next e n hpc =>
    cases hstep
    exact h.select hguard hpc
  · next e hpc =>
    split at hstep
    · cases hstep
      exact h.enqueue hpc
    · next hnot =>
      cases hstep
      refine h.skip ?_
      rintro (hp | ⟨n, hp⟩ | hp | hp) <;> rw [hpc] at hp <;> cases hp
      simp [interested] at hnot
  · next e k hpc =>
    cases hstep
    refine h.skip ?_
    simp [Hanging, hpc]
  · next e hpc =>
    cases hstep
    exact h.set hpc

theorem add (hpc : s.ctl = .before) : Told (addEpollNodeInSocket s) := by
  obtain ⟨hmem, hbits, hmine, hset⟩ := h.fresh hpc
  refine ⟨by simp [addEpollNodeInSocket], by simp [addEpollNodeInSocket],
    by simp [addEpollNodeInSocket], fun e he => absurd he (hset e),
    by simp [addEpollNodeInSocket], fun hclosed => ?_⟩
  refine (h.closed hclosed).imp_right (Or.imp ?_ ?_)
  · intro hhup
    simp [hbits] at hhup
  · intro hfound
    exact hfound.early rfl rfl (by simp [addEpollNodeInSocket, Early])

theorem ctl_move (hbefore : pc ≠ .before) (hin : pc ≠ .setIn) (hout : pc ≠ .setOut)
    (hfound : Found s → Found { s with ctl := pc }) : Told { s with ctl := pc } where
  queued := h.queued
  setIn := fun hpc => absurd hpc hin
  setOut := fun hpc => absurd hpc hout
  setBit := h.setBit
  fresh := fun hpc => absurd hpc hbefore
  closed := fun hclosed => (h.closed hclosed).imp_right (Or.imp_right hfound)

theorem ctl_set (hmem : e ∈ s.shadow) (hbefore : pc ≠ .before) (hin : pc ≠ .setIn)
    (hout : pc ≠ .setOut)
    (hfound : Found s → Found { s with bit := update s.bit e true, ctl := pc }) :
    Told { s with bit := update s.bit e true, ctl := pc } where
  queued := h.queued_update (.inl hmem)
  setIn := fun hp => absurd hp hin
  setOut := fun hp => absurd hp hout
  setBit := h.setBit
  fresh := fun hp => absurd hp hbefore
  closed := fun hclosed => (h.closed hclosed).imp_right (Or.imp update_of_bit hfound)

theorem ctl_enqueue (hbefore : pc ≠ .before) (hin : pc = .setIn → e = .epollin)
    (hout : pc = .setOut → e = .epollout)
    (hfound : Found s → Found { s with shadow := s.shadow ++ [e], ctl := pc }) :
    Told { s with shadow := s.shadow ++ [e], ctl := pc } where
  queued := fun e' he => (h.queued e' he).imp_left (mem_append_left _)
  setIn := fun hp => by simp [hin hp]
  setOut := fun hp => by simp [hout hp]
  setBit := h.setBit
  fresh := fun hp => absurd hp hbefore
  closed := fun hclosed => (h.closed hclosed).imp_right (Or.imp_right hfound)

theorem ctl (hstep : lightEpollCtl s = some t) : Told t := by
  unfold lightEpollCtl at hstep
  split at hstep
  · cases hstep
  · cases hstep
    split
    · exact h.ctl_move (by simp) (by simp) (by simp) fun hfound =>
        hfound.early rfl rfl (by simp [Early])
    · next hnot =>
      refine h.ctl_move (by simp) (by simp) (by simp) ?_
      rintro ⟨hdata, hwanted, -⟩
      simp [interested, hdata, hwanted] at hnot
  · cases hstep
    split
    · next hbit =>
      refine h.ctl_move (by simp) (by simp) (by simp) ?_
      rintro ⟨hdata, hwanted, -⟩
      exact ⟨hdata, hwanted, .inl hbit⟩
    · exact h.ctl_move (by simp) (by simp) (by simp) fun hfound =>
        hfound.early rfl rfl (by simp [Early])
  · cases hstep
    exact h.ctl_enqueue (by simp) (by simp) (by simp) fun hfound =>
      hfound.early rfl rfl (by simp [Early])
  · next hpc =>
    cases hstep
    refine h.ctl_set (h.setIn hpc) (by simp) (by simp) (by simp) ?_
    rintro ⟨hdata, hwanted, -⟩
    exact ⟨hdata, hwanted, by simp⟩
  · next hpc =>
    cases hstep
    split
    all_goals
      exact h.ctl_move (by simp) (by simp) (by simp) fun hfound =>
        hfound.late rfl rfl (by simp [Early, hpc]) id
  · next hpc =>
    cases hstep
    split
    all_goals
      exact h.ctl_move (by simp) (by simp) (by simp) fun hfound =>
        hfound.late rfl rfl (by simp [Early, hpc]) id
  · next hpc =>
    cases hstep
    exact h.ctl_enqueue (by simp) (by simp) (by simp) fun hfound =>
      hfound.late rfl rfl (by simp [Early, hpc]) id
  · next hpc =>
    cases hstep
    refine h.ctl_set (h.setOut hpc) (by simp) (by simp) (by simp) fun hfound => ?_
    refine hfound.late rfl rfl (by simp [Early, hpc]) fun hin => ?_
    exact update_of_bit (e := .epollout) hin
  · cases hstep

theorem arrive (hpc : s.stack = .idle) :
    Told { s with data := s.data + 1, stack := .size .epollin } := by
  refine h.move rfl rfl rfl rfl rfl (by simp) (by simp) fun hclosed => .inr ?_
  have hnot : ¬ Hanging s.stack := by simp [Hanging, hpc]
  refine ((h.closed hclosed).resolve_left hnot).imp_right ?_
  rintro ⟨-, hwanted, hfound⟩
  exact ⟨Nat.succ_pos _, hwanted, hfound⟩

theorem receive (hguard : Seen s .receive) : Told { s with data := s.data - 1 } := by
  refine { h with closed := fun hclosed => ?_ }
  rcases hguard hclosed with hmore | hhup
  · refine (h.closed hclosed).imp_right (Or.imp_right ?_)
    rintro ⟨-, hwanted, hfound⟩
    exact ⟨Nat.sub_pos_of_lt hmore, hwanted, hfound⟩
  · exact .inr (.inl hhup)

theorem setNodes {nodes : List Node} (hmem : .mine ∈ nodes → .mine ∈ s.nodes) :
    Told { s with nodes := nodes } :=
  { h with fresh := fun hpc => ⟨fun hmine => (h.fresh hpc).1 (hmem hmine), (h.fresh hpc).2⟩ }

theorem step {a : Action} (hguard : Seen s a) (hstep : step s a = some t) : Told t := by
  cases a with
  | arrive =>
    obtain ⟨hpc, rfl⟩ := of_guard hstep
    exact h.arrive hpc
  | close closeNum =>
    obtain ⟨⟨hpc, hopen⟩, rfl⟩ := of_guard hstep
    exact h.move rfl rfl rfl rfl rfl (by simp [lightMarkClosed]) (by simp [lightMarkClosed])
      fun _ => .inl (.inl rfl)
  | stack => exact h.stack hguard hstep
  | add =>
    obtain ⟨hpc, rfl⟩ := of_guard hstep
    exact h.add hpc
  | ctl => exact h.ctl hstep
  | receive =>
    obtain ⟨-, rfl⟩ := of_guard hstep
    exact h.receive hguard
  | setBuffer buffer =>
    cases hstep
    exact ⟨h.queued, h.setIn, h.setOut, h.setBit, h.fresh, h.closed⟩
  | addOther epoll =>
    cases hstep
    exact h.setNodes (by simp)
  | delOther epoll =>
    cases hstep
    exact h.setNodes mem_of_mem_erase

end

end Told

theorem mem_foldl_of_mem (s : State) (queue : List Event) (acc : (Event → Bool) × List Event)
    (h : e ∈ acc.2) : e ∈ (queue.foldl (takeEvent s) acc).2 := by
  induction queue generalizing acc with
  | nil => exact h
  | cons e' queue ih =>
    refine ih _ ?_
    unfold takeEvent
    dsimp only
    split
    · exact mem_append_left _ h
    · exact h

theorem mem_foldl_takeEvent (s : State) (hint : interested s e = true)
    (havail : eventAvailable s e = true) (queue : List Event) (acc : (Event → Bool) × List Event)
    (hmem : e ∈ queue) (hbit : acc.1 e = true) : e ∈ (queue.foldl (takeEvent s) acc).2 := by
  induction queue generalizing acc with
  | nil => cases hmem
  | cons e' queue ih =>
    by_cases heq : e = e'
    · subst heq
      refine mem_foldl_of_mem s queue _ ?_
      simp [takeEvent, hint, havail, hbit]
    · refine ih _ ((mem_cons.mp hmem).resolve_left heq) ?_
      simp only [takeEvent]
      rw [update_of_ne heq]
      exact hbit

theorem Told.mem_lightEpollWait {s : State} (h : Told s) (hbit : s.bit e = true)
    (hint : interested s e = true) (havail : eventAvailable s e = true) : e ∈ lightEpollWait s :=
  mem_foldl_takeEvent s hint havail _ _ (mem_append.mpr (h.queued e hbit)) hbit

/-- If `light_mark_closed` chooses the node of the epoll, or there is unread data that is asked for,
a later `light_epoll_wait` returns an `EPOLLHUP` or an `EPOLLIN`. -/
theorem closure_reported_to_registration (s : State) (hreach : system.ReachableUnder Seen s)
    (hclosed : s.closed = true) (hstack : s.stack = .idle) (hctl : s.ctl = .done) :
    .epollhup ∈ lightEpollWait s ∨ .epollin ∈ lightEpollWait s := by
  have htold : Told s :=
    TransitionSystem.ReachableUnder.invariant (fun _ => Told.start)
      (fun _ _ _ h hguard hstep => h.step hguard hstep) hreach
  have hidle : ¬ Hanging s.stack := by simp [Hanging, hstack]
  rcases (htold.closed hclosed).resolve_left hidle with hhup | ⟨hdata, hwanted, hfound⟩
  · exact .inl (htold.mem_lightEpollWait hhup (by simp [interested]) rfl)
  · have hin : s.bit .epollin = true := hfound.resolve_right (by simp [Early, hctl])
    exact .inr (htold.mem_lightEpollWait hin (by simp [interested, hwanted]) (decide_eq_true hdata))

instance (s : State) : Decidable (findsData s) := by
  unfold findsData
  infer_instance

instance (s : State) : ∀ a, Decidable (Seen s a) := by
  intro a
  unfold Seen
  split
  · split <;> infer_instance
  · infer_instance
  · infer_instance

def initial : State where
  nodes := []
  wanted := fun e => decide (e = .epollin)
  bit := fun _ => false
  shadow := []
  ready := []
  signal := 0
  closed := false
  data := 0
  buffer := true
  roundRobin := 0
  stack := .idle
  ctl := .before

theorem start_initial : Start initial := ⟨by simp [initial], fun _ => rfl, rfl, rfl, rfl⟩

theorem closure_reported_to_registration_midway :
    ∃ s, system.ReachableUnder Seen s ∧ s.closed = true ∧
      (.epollhup ∈ lightEpollWait s ∨ .epollin ∈ lightEpollWait s) := by
  obtain ⟨s, hreach, hclosed, hstack, hctl⟩ :=
    system.exists_reachableUnder Seen initial
      [.add, .close 1, .stack, .ctl, .stack, .ctl, .stack, .stack]
      (P := fun s => s.closed = true ∧ s.stack = .idle ∧ s.ctl = .done)
      start_initial (by decide +kernel)
  exact ⟨s, hreach, hclosed, closure_reported_to_registration s hreach hclosed hstack hctl⟩

theorem early_closure_unreported :
    ∃ s, system.Reachable s ∧ s.closed = true ∧ s.stack = .idle ∧ s.ctl = .done ∧
      lightEpollWait s = [] :=
  system.exists_reachable initial [.close 1, .stack, .add, .ctl, .ctl]
    start_initial (by decide +kernel)

end LightStack.Epoll.Late
