import LightStack.Lib.Transition
import Mathlib.Data.List.Nodup
import Mathlib.Logic.Function.Basic

/-!
# Return values

A command points to a buffer of a pool, and the caller spins until it is answered. Each field is
kept with the number of the command it was written for.
-/

namespace LightStack.Reply

open Lib Function

inductive Kind where
  | openSocket
  | bind
  deriving DecidableEq

structure Call where
  kind : Kind
  index : Nat
  proc : Nat
  buf : Nat
  deriving DecidableEq

structure Field where
  content : Int
  writer : Option Nat
  deriving DecidableEq

structure Command where
  id : Nat
  caller : Nat
  call : Call

inductive Pc where
  | idle
  | taken (c : Call)
  | cleared (c : Call)
  | polling (c : Call) (id : Nat)
  | signalled (c : Call) (id : Nat)
  | errnoRead (c : Call) (id : Nat) (errno : Option Field)
  | valueRead (c : Call)
  deriving DecidableEq

structure Answer where
  value : Int
  errno : Option Int
  deriving DecidableEq

inductive Stage where
  | fetched
  | executed (a : Answer)
  | written (errno : Option Int)

structure Result where
  id : Nat
  value : Field
  errno : Option Field
  deriving DecidableEq

structure State where
  bufs : Nat → List Nat
  pools : Nat → List Nat
  readySignal : Nat → Bool
  returnValue : Nat → Field
  returnErrno : Nat → Field
  pc : Nat → Pc
  ring : Nat → List Command
  stack : Nat → Option (Command × Stage)
  socket : Nat → Nat → Bool
  next : Nat
  results : List Result

def State.setPc (s : State) (p : Nat) (pc : Pc) : State :=
  { s with pc := update s.pc p pc }

def take (s : State) (p : Nat) (c : Call) : Option State :=
  if s.pc p ≠ .idle then none
  else if s.pools c.proc = [] then some s
  else if c.buf ∈ s.pools c.proc then
    some { s.setPc p (.taken c) with
      pools := update s.pools c.proc ((s.pools c.proc).erase c.buf) }
  else none

def putBack (s : State) (p : Nat) (c : Call) : State :=
  { s.setPc p .idle with
    pools := update s.pools c.proc (c.buf :: s.pools c.proc) }

def clear (s : State) (p : Nat) : Option State :=
  match s.pc p with
  | .taken c => some { s.setPc p (.cleared c) with
      readySignal := update s.readySignal c.buf false }
  | _ => none

def enqueue (s : State) (p : Nat) (full : Bool) : Option State :=
  match s.pc p with
  | .cleared c =>
    if full then some (putBack s p c)
    else some { s.setPc p (.polling c s.next) with
      ring := update s.ring c.proc (s.ring c.proc ++ [⟨s.next, p, c⟩])
      next := s.next + 1 }
  | _ => none

def poll (s : State) (p : Nat) : Option State :=
  match s.pc p with
  | .polling c id =>
    if s.readySignal c.buf then some (s.setPc p (.signalled c id)) else some s
  | _ => none

def read (s : State) (p : Nat) : Option State :=
  match s.pc p with
  | .signalled c id => some (s.setPc p (.errnoRead c id
      (if c.kind = .bind then some (s.returnErrno c.buf) else none)))
  | .errnoRead c id errno => some { s.setPc p (.valueRead c) with
      results := s.results ++ [⟨id, s.returnValue c.buf, errno⟩] }
  | _ => none

def free (s : State) (p : Nat) : Option State :=
  match s.pc p with
  | .valueRead c => some (putBack s p c)
  | _ => none

def dequeue (s : State) (k : Nat) : Option State :=
  match s.stack k, s.ring k with
  | none, cmd :: rest => some { s with
      stack := update s.stack k (some (cmd, .fetched))
      ring := update s.ring k rest }
  | _, _ => none

def answer (s : State) (k : Nat) (c : Call) (rv : Nat) : Answer :=
  match c.kind with
  | .openSocket => ⟨if rv = 0 then 0 else -1, none⟩
  | .bind =>
    if s.socket k c.index then ⟨if rv = 0 then 0 else -1, some rv⟩
    else ⟨-1, none⟩

def execute (s : State) (k : Nat) (rv : Nat) : Option State :=
  match s.stack k with
  | some (cmd, .fetched) => some { s with
      stack := update s.stack k (some (cmd, .executed (answer s k cmd.call rv)))
      socket := if cmd.call.kind = .openSocket ∧ rv = 0 then
        update s.socket k (update (s.socket k) cmd.call.index true)
        else s.socket }
  | _ => none

def write (s : State) (k : Nat) : Option State :=
  match s.stack k with
  | some (cmd, .executed a) => some { s with
      stack := update s.stack k (some (cmd, .written a.errno))
      returnValue := update s.returnValue cmd.call.buf ⟨a.value, some cmd.id⟩ }
  | some (cmd, .written (some e)) => some { s with
      stack := update s.stack k (some (cmd, .written none))
      returnErrno := update s.returnErrno cmd.call.buf ⟨e, some cmd.id⟩ }
  | some (cmd, .written none) => some { s with
      stack := update s.stack k none
      readySignal := update s.readySignal cmd.call.buf true }
  | _ => none

inductive Action where
  | take (p : Nat) (c : Call)
  | clear (p : Nat)
  | enqueue (p : Nat) (full : Bool)
  | poll (p : Nat)
  | read (p : Nat)
  | free (p : Nat)
  | dequeue (k : Nat)
  | execute (k rv : Nat)
  | write (k : Nat)
  | close (k index : Nat)

def step (s : State) : Action → Option State
  | .take p c => take s p c
  | .clear p => clear s p
  | .enqueue p full => enqueue s p full
  | .poll p => poll s p
  | .read p => read s p
  | .free p => free s p
  | .dequeue k => dequeue s k
  | .execute k rv => execute s k rv
  | .write k => write s k
  | .close k index => some { s with
      socket := update s.socket k (update (s.socket k) index false) }

structure Start (s : State) : Prop where
  nodup : ∀ k, (s.bufs k).Nodup
  disjoint : ∀ k j b, b ∈ s.bufs k → b ∈ s.bufs j → k = j
  pools : s.pools = s.bufs
  pc : ∀ p, s.pc p = .idle
  ring : ∀ k, s.ring k = []
  stack : ∀ k, s.stack k = none
  results : s.results = []

def system : TransitionSystem State Action where
  init := Start
  step := step

def State.pending (s : State) (k : Nat) : List Command :=
  ((s.stack k).map Prod.fst).toList ++ s.ring k

def Pc.held : Pc → Option Call
  | .idle => none
  | .taken c => some c
  | .cleared c => some c
  | .polling c _ => some c
  | .signalled c _ => some c
  | .errnoRead c _ _ => some c
  | .valueRead c => some c

def State.Holds (s : State) (p b : Nat) : Prop := ∃ c, (s.pc p).held = some c ∧ c.buf = b

def Result.Own (r : Result) : Prop :=
  r.value.writer = some r.id ∧ ∀ e ∈ r.errno, e.writer = some r.id

instance (r : Result) : Decidable r.Own := inferInstanceAs (Decidable (_ ∧ _))

structure Sound (s : State) : Prop where
  returns : ∀ p c id, s.pc p = .polling c id → ⟨id, p, c⟩ ∉ s.pending c.proc →
    ∃ t, system.exec s [.poll p, .read p, .read p, .free p] = some t ∧ t.pc p = .idle
  own : ∀ r ∈ s.results, r.Own
  once : ∀ k b, b ∈ s.bufs k →
    ((s.pools k).count b = 1 ∧ ∀ p, ¬ s.Holds p b) ∨
    ((s.pools k).count b = 0 ∧ ∃! p, s.Holds p b)
  untouched : ∀ k, ∀ cmd ∈ s.pending k, ∀ j, cmd.call.buf ∉ s.pools j

def State.lacksSocket (s : State) (k : Nat) : Bool :=
  match s.stack k with
  | some (cmd, .fetched) => cmd.call.kind == .bind && !s.socket k cmd.call.index
  | _ => false

def Present (s : State) : Action → Prop
  | .execute k _ => s.lacksSocket k = false
  | _ => True

instance (s : State) (a : Action) : Decidable (Present s a) := by
  cases a <;> dsimp only [Present] <;> infer_instance

variable {s t : State} {p q k : Nat} {c : Call} {cmd : Command}

@[simp] theorem setPc_pc_self (pc : Pc) : (s.setPc p pc).pc p = pc := update_self ..

theorem setPc_pc_of_ne (pc : Pc) (hne : q ≠ p) : (s.setPc p pc).pc q = s.pc q := update_of_ne hne ..

end LightStack.Reply
