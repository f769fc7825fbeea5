import LightStack.Epoll.Calls.Model
import LightStack.Lib.Tailq

/-!
# Sockets that wait for buffers

Closing a socket does not look at the list, whose links are in the sockets.
-/

namespace LightStack.Tx.Available

open Lib Function List
open Epoll (Event)

structure Socket where
  opened : Bool
  userData : Option Nat
  present : Bool
deriving DecidableEq

structure State where
  procId : Nat
  memory : Nat → Socket
  satellite : Nat → Option Nat
  queue : Tailq Unit Nat
  epolls : Epoll.Calls.State
  crashed : Bool
  listed : List Nat
  notified : List Nat
  turns : Nat

def setMemory (s : State) (a : Nat) (x : Socket) : State :=
  { s with memory := update s.memory a x }

def first (s : State) : Option Nat := s.queue.ptr (.head ())

def sockAlloc (s : State) (a : Nat) : Option State :=
  if (s.memory a).opened then none
  else some { setMemory s a ⟨true, none, false⟩ with queue := s.queue.clear a }

def attach (s : State) (c a : Nat) : Option State :=
  if (s.memory a).opened then
    some { setMemory s a { s.memory a with userData := some c } with
      satellite := update s.satellite c (some a) }
  else none

def appGlueCloseSocket (s : State) (a : Nat) : State :=
  setMemory s a { s.memory a with opened := false, userData := none }

def close (s : State) (c : Nat) : State :=
  match s.satellite c with
  | some a =>
    { appGlueCloseSocket s a with satellite := update s.satellite c none }
  | none => s

def kernelClose (s : State) (a : Nat) : State := setMemory s a { s.memory a with opened := false }

def txPoolEmpty (s : State) (c : Nat) : State :=
  match s.satellite c with
  | some a =>
    if (s.memory a).present then s
    else
      match s.queue.insertTail () a with
      | some q =>
        { setMemory s a { s.memory a with present := true } with
          queue := q
          listed := s.listed ++ [a] }
      | none => { s with crashed := true }
  | none => s

def lightMarkWritable (s : State) (c : Nat) (room : Bool) : Epoll.Calls.State × Int :=
  Epoll.Calls.addEpollEventToQueue s.epolls s.procId c .epollout room

def notifyFirst (s : State) (a : Nat) (room : Bool) : State :=
  match (s.memory a).userData with
  | none => s
  | some c =>
    if s.satellite c = none then { s with crashed := true }
    else if (lightMarkWritable s c room).2 = 0 then
      match s.queue.remove () a with
      | some q =>
        { setMemory s a { s.memory a with present := false } with
          queue := q
          epolls := (lightMarkWritable s c room).1
          notified := s.notified ++ [a] }
      | none => { s with crashed := true }
    else { s with epolls := (lightMarkWritable s c room).1 }

def turn (s : State) (buffers room : Bool) : Option State :=
  (first s).map fun a =>
    if buffers then { notifyFirst s a room with turns := s.turns + 1 } else s

inductive Action where
  | sockAlloc (a : Nat)
  | attach (c a : Nat)
  | close (c : Nat)
  | decline (a : Nat)
  | kernelClose (a : Nat)
  | txPoolEmpty (c : Nat)
  | turn (buffers room : Bool)
  | epoll (a : Epoll.Calls.Action)

def step (s : State) : Action → Option State
  | .sockAlloc a => sockAlloc s a
  | .attach c a => attach s c a
  | .close c => some (close s c)
  | .decline a => some (appGlueCloseSocket s a)
  | .kernelClose a => some (kernelClose s a)
  | .txPoolEmpty c => some (txPoolEmpty s c)
  | .turn buffers room => turn s buffers room
  | .epoll a => (Epoll.Calls.step s.epolls a).map fun e => { s with epolls := e }

structure Start (s : State) : Prop where
  memory : ∀ a, s.memory a = ⟨false, none, false⟩
  satellite : ∀ c, s.satellite c = none
  queue_first : s.queue.ptr (.head ()) = none
  queue_last : s.queue.last () = some (.head ())
  crashed : s.crashed = false
  listed : s.listed = []
  notified : s.notified = []
  turns : s.turns = 0

def system : TransitionSystem State Action where
  init := Start
  step := step

def Notifiable (s : State) (a : Nat) (room : Bool) : Prop :=
  (s.memory a).userData.any (fun c =>
    decide (s.satellite c ≠ none ∧ (lightMarkWritable s c room).2 = 0)) = true

instance decidableNotifiable (s : State) (a : Nat) (room : Bool) :
    Decidable (Notifiable s a room) :=
  inferInstanceAs (Decidable (_ = true))

def Careful (s : State) : Action → Prop
  | .txPoolEmpty c => (s.satellite c).all (fun a => (s.memory a).opened) = true
  | .close c => (s.satellite c).all (fun a => !(s.memory a).present) = true
  | .decline a => (s.memory a).present = false
  | .kernelClose a => (s.memory a).present = false
  | .turn buffers room => buffers = true → ∀ a ∈ first s, Notifiable s a room
  | _ => True

theorem all_first_iff (s : State) (room : Bool) :
    (first s).all (fun a => decide (Notifiable s a room)) = true ↔
      ∀ a ∈ first s, Notifiable s a room := by
  cases first s <;> simp

instance decidableCareful (s : State) : ∀ a, Decidable (Careful s a)
  | .txPoolEmpty _ | .close _ | .decline _ | .kernelClose _ => inferInstanceAs (Decidable (_ = _))
  | .turn buffers room =>
    decidable_of_iff (buffers = true → (first s).all (fun a => decide (Notifiable s a room)) = true)
      (imp_congr_right fun _ => all_first_iff s room)
  | .sockAlloc _ | .attach _ _ | .epoll _ => .isTrue trivial

/-! ## The list -/

structure Holds (s : State) (l : List Nat) : Prop where
  represents : s.queue.Represents fun _ => l
  opened : ∀ a ∈ l, (s.memory a).opened = true
  present : ∀ a, (s.memory a).present = true ↔ a ∈ l
  fifo : s.listed = s.notified ++ l
  turns : s.notified.length = s.turns
  alive : s.crashed = false

namespace Holds

variable {s t : State} {l : List Nat} {a c : Nat}

theorem of_start (h : Start s) : Holds s [] := by
  constructor
  · constructor
    · intro r
      exact ⟨trivial, h.queue_first, h.queue_last⟩
    · intro r
      exact nodup_nil
    · intro r r' _ _ _
      exact Subsingleton.elim r r'
  · intro a ha
    cases ha
  · intro a
    rw [h.memory a]
    simp
  · rw [h.listed, h.notified]
    rfl
  · rw [h.notified, h.turns]
    rfl
  · exact h.crashed

section

variable (h : Holds s l)

include h

theorem nodup : l.Nodup := h.represents.nodup ()

theorem first_eq : first s = l.head? := h.represents.first ()

theorem setMemory {x : Socket} (hnew : a ∉ l) (hx : x.present = false) :
    Holds (setMemory s a x) l := by
  have hother : ∀ b, b ≠ a → (Available.setMemory s a x).memory b = s.memory b :=
    fun b hb => update_of_ne hb _ _
  have hself : (Available.setMemory s a x).memory a = x := update_self _ _ _
  constructor
  · exact h.represents
  · intro b hb
    rw [hother b fun heq => hnew (heq ▸ hb)]
    exact h.opened b hb
  · intro b
    by_cases hb : b = a
    · subst hb
      rw [hself, hx]
      simp [hnew]
    · rw [hother b hb]
      exact h.present b
  · exact h.fifo
  · exact h.turns
  · exact h.alive

theorem not_mem (ha : (s.memory a).present = false) : a ∉ l := by
  intro hmem
  rw [(h.present a).mpr hmem] at ha
  cases ha

theorem sockAlloc (hstep : sockAlloc s a = some t) : Holds t l := by
  obtain ⟨hclosed, ⟨⟩⟩ := Option.ite_none_left_eq_some.mp hstep
  have hnew : a ∉ l := fun hmem => hclosed (h.opened a hmem)
  have hmade : Holds (Available.setMemory s a ⟨true, none, false⟩) l := h.setMemory hnew rfl
  exact ⟨h.represents.clear fun _ => hnew, hmade.opened, hmade.present, h.fifo, h.turns, h.alive⟩

theorem congr_memory {x : Socket} (hopened : x.opened = (s.memory a).opened)
    (hpresent : x.present = (s.memory a).present) : Holds (Available.setMemory s a x) l := by
  have hmemory : ∀ b, ((Available.setMemory s a x).memory b).opened = (s.memory b).opened ∧
      ((Available.setMemory s a x).memory b).present = (s.memory b).present := by
    intro b
    by_cases hb : b = a
    · subst hb
      rw [show (Available.setMemory s b x).memory b = x from update_self _ _ _]
      exact ⟨hopened, hpresent⟩
    · rw [show (Available.setMemory s a x).memory b = s.memory b from
        update_of_ne hb _ _]
      exact ⟨rfl, rfl⟩
  constructor
  · exact h.represents
  · intro b hb
    rw [(hmemory b).1]
    exact h.opened b hb
  · intro b
    rw [(hmemory b).2]
    exact h.present b
  · exact h.fifo
  · exact h.turns
  · exact h.alive

theorem attach (hstep : attach s c a = some t) : Holds t l := by
  obtain ⟨-, rfl⟩ := of_guard hstep
  have hset : Holds (Available.setMemory s a { s.memory a with userData := some c }) l :=
    h.congr_memory rfl rfl
  exact ⟨hset.represents, hset.opened, hset.present, h.fifo, h.turns, h.alive⟩

theorem appGlueCloseSocket (ha : (s.memory a).present = false) : Holds (appGlueCloseSocket s a) l :=
  h.setMemory (h.not_mem ha) ha

theorem kernelClose (ha : (s.memory a).present = false) : Holds (kernelClose s a) l :=
  h.setMemory (h.not_mem ha) ha

theorem close (hguard : (s.satellite c).all (fun a => !(s.memory a).present) = true) :
    Holds (close s c) l := by
  unfold Available.close
  split
  · rename_i a ha
    rw [ha, Option.all_some, Bool.not_eq_true'] at hguard
    have hclosed := h.appGlueCloseSocket hguard
    exact ⟨hclosed.represents, hclosed.opened, hclosed.present, h.fifo, h.turns, h.alive⟩
  · exact h

theorem txPoolEmpty (hguard : (s.satellite c).all (fun a => (s.memory a).opened) = true) :
    ∃ l', Holds (txPoolEmpty s c) l' := by
  unfold Available.txPoolEmpty
  split
  · rename_i a ha
    rw [ha, Option.all_some] at hguard
    by_cases hpresent : (s.memory a).present = true
    · rw [if_pos hpresent]
      exact ⟨l, h⟩
    · rw [if_neg hpresent]
      have hnew : a ∉ l := h.not_mem (Bool.eq_false_of_not_eq_true hpresent)
      obtain ⟨q, hq, hrepresents⟩ := h.represents.insertTail (r := ()) fun _ => hnew
      rw [hq]
      refine ⟨l ++ [a], ?_, ?_, ?_, ?_, h.turns, h.alive⟩
      · rwa [show update (fun _ => l) () (l ++ [a]) = fun _ => l ++ [a] from
          funext fun _ => rfl] at hrepresents
      · intro b hb
        by_cases hba : b = a
        · subst hba
          simpa [Available.setMemory] using hguard
        · have hold : b ∈ l := by simpa [hba] using hb
          simpa [Available.setMemory, hba] using h.opened b hold
      · intro b
        by_cases hba : b = a
        · subst hba
          simp [Available.setMemory]
        · simpa [Available.setMemory, hba] using h.present b
      · have hfifo := congrArg (· ++ [a]) h.fifo
        simpa [Available.setMemory] using hfifo
  · exact ⟨l, h⟩

end

theorem notifyFirst {room : Bool} (h : Holds s (a :: l)) (hguard : Notifiable s a room) :
    Holds { notifyFirst s a room with turns := s.turns + 1 } l := by
  obtain ⟨c, hc, htest⟩ := (Option.any_eq_true _ _).mp hguard
  obtain ⟨hsatellite, hposted⟩ := of_decide_eq_true htest
  obtain ⟨q, hq, hrepresents⟩ := h.represents.remove (r := ()) (a := a) mem_cons_self
  have hnotin : a ∉ l := (nodup_cons.mp h.nodup).1
  unfold Available.notifyFirst
  rw [hc]
  dsimp only
  rw [if_neg hsatellite, if_pos hposted, hq]
  constructor
  · rw [erase_cons_head] at hrepresents
    rwa [show update (fun _ => a :: l) () l = fun _ => l from
      funext fun _ => rfl] at hrepresents
  · intro b hb
    have hba : b ≠ a := fun heq => hnotin (heq ▸ hb)
    simpa [Available.setMemory, hba] using h.opened b (mem_cons_of_mem a hb)
  · intro b
    by_cases hba : b = a
    · subst hba
      simp [Available.setMemory, hnotin]
    · simpa [Available.setMemory, hba] using h.present b
  · simpa [Available.setMemory] using h.fifo
  · dsimp only
    rw [length_append, h.turns]
    rfl
  · exact h.alive

theorem turn {buffers room : Bool} (h : Holds s l)
    (hguard : buffers = true → ∀ a ∈ first s, Notifiable s a room)
    (hstep : turn s buffers room = some t) : ∃ l', Holds t l' := by
  obtain ⟨a, hfirst, rfl⟩ := Option.map_eq_some_iff.mp hstep
  by_cases hbuffers : buffers = true
  · rw [if_pos hbuffers]
    have hhead : l.head? = some a := h.first_eq ▸ hfirst
    obtain ⟨rest, rfl⟩ := List.head?_eq_some_iff.mp hhead
    exact ⟨rest, h.notifyFirst (hguard hbuffers a hfirst)⟩
  · rw [if_neg hbuffers]
    exact ⟨l, h⟩

theorem step {act : Action} (h : Holds s l) (hguard : Careful s act)
    (hstep : step s act = some t) : ∃ l', Holds t l' := by
  cases act with
  | sockAlloc a => exact ⟨l, h.sockAlloc hstep⟩
  | attach c a => exact ⟨l, h.attach hstep⟩
  | close c =>
    cases hstep
    exact ⟨l, h.close hguard⟩
  | decline a =>
    cases hstep
    exact ⟨l, h.appGlueCloseSocket hguard⟩
  | kernelClose a =>
    cases hstep
    exact ⟨l, h.kernelClose hguard⟩
  | txPoolEmpty c =>
    cases hstep
    exact h.txPoolEmpty hguard
  | turn buffers room => exact h.turn hguard hstep
  | epoll a =>
    obtain ⟨e, -, rfl⟩ := Option.map_eq_some_iff.mp hstep
    exact ⟨l, h.represents, h.opened, h.present, h.fifo, h.turns, h.alive⟩

end Holds

/-- If sockets are closed only while they are off the list, it is well formed, without repetition,
and holds open sockets with their flag set. -/
theorem waiting_sockets_notified_in_turn (s : State) (hreach : system.ReachableUnder Careful s) :
    ∃ l, s.queue.IsList () l ∧ l.Nodup ∧
      (∀ a ∈ l, (s.memory a).opened = true ∧ (s.memory a).present = true) ∧
      s.listed = s.notified ++ l ∧ s.notified.length = s.turns ∧ s.crashed = false := by
  have hinv : ∃ l, Holds s l := by
    apply hreach.invariant
    · intro s hinit
      exact ⟨[], Holds.of_start hinit⟩
    · rintro s a t ⟨l, h⟩ hguard hstep
      exact h.step hguard hstep
  obtain ⟨l, h⟩ := hinv
  refine ⟨l, h.represents.isList (), h.nodup, ?_, h.fifo, h.turns, h.alive⟩
  intro a ha
  exact ⟨h.opened a ha, (h.present a).mpr ha⟩

def idle : State where
  procId := 0
  memory := fun _ => ⟨false, none, false⟩
  satellite := fun _ => none
  queue := ⟨fun _ => none, fun _ => some (.head ()), fun _ => none⟩
  epolls :=
    { numProcs := 1
      nodes := fun _ => []
      multicore := fun _ => false
      copies := fun i _ => i
      rx := fun _ => 0
      leftover := fun _ => false
      buffer := fun _ => false
      interest := fun _ _ => false
      edgeTriggered := fun _ _ => false
      bit := fun _ _ => false
      active := fun _ => true
      readyConnections := fun _ => []
      shadowConnections := fun _ => []
      roundRobin := fun _ => 0 }
  crashed := false
  listed := []
  notified := []
  turns := 0

theorem idle_start : Start idle := ⟨fun _ => rfl, fun _ => rfl, rfl, rfl, rfl, rfl, rfl, rfl⟩

def socketAt (c a : Nat) : List Action := [.sockAlloc a, .attach c a]

def addForOut (c : Nat) : Action :=
  .epoll (.add 0 0 c (fun ev => decide (ev = .epollout)) false true fun _ => true)

theorem waiting_sockets_notified_in_turn_two :
    ∃ s, system.ReachableUnder Careful s ∧ s.notified = [10] ∧ first s = some 11 ∧
      ∃ l, s.queue.IsList () l ∧ s.listed = s.notified ++ l := by
  obtain ⟨s, hreach, hnotified, hfirst⟩ :=
    system.exists_reachableUnder Careful idle (socketAt 0 10 ++ socketAt 1 11 ++
        [addForOut 0, addForOut 1, Action.txPoolEmpty 0, .txPoolEmpty 1, .turn true true, .close 0])
      (P := fun s => s.notified = [10] ∧ first s = some 11) idle_start (by decide +kernel)
  obtain ⟨l, hlist, -, -, hlisted, -⟩ := waiting_sockets_notified_in_turn s hreach
  exact ⟨s, hreach, hnotified, hfirst, l, hlist, hlisted⟩

theorem closed_socket_blocks_list :
    ∃ s, system.Reachable s ∧ first s = some 10 ∧ (s.memory 10).opened = false ∧
      s.queue.ptr (.next 10) = some 11 ∧ Notifiable s 11 true ∧
      s.turns = 2 ∧ s.notified = [] :=
  system.exists_reachable idle (socketAt 0 10 ++ socketAt 1 11 ++
      [addForOut 0, addForOut 1, Action.txPoolEmpty 0, .txPoolEmpty 1, .close 0,
        .turn true true, .turn true true]) idle_start (by decide +kernel)

end LightStack.Tx.Available
