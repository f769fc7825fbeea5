import LightStack.Conn.Ownership
import LightStack.Fd.Resolution

/-!
# Data calls reach their own connection

The calls use the entry of `multicore_socket_copies` for `proc_id`.
-/

namespace LightStack.Conn

open Lib

inductive DataCall where
  | send
  | sendto
  | recv

def realSocket (s : State) (m : Nat) : Nat := (s.sockets m).copies (s.locals m).procId

def operatesOn (s : State) : DataCall → Nat → Nat
  | .send, m => realSocket s m
  | .sendto, m => realSocket s m
  | .recv, m => realSocket s m

/-- What the resolution of a descriptor reads of the sockets. -/
def routing (s : State) : Fd.Resolution.Routing :=
  ⟨fun m => (s.locals m).procId, fun m k => (s.sockets m).copies k⟩

theorem realSocket_routing (s : State) (m : Nat) : (routing s).realSocket m = realSocket s m := rfl

def Isolated (s : State) (m c : Nat) : Prop :=
  c ∈ bundle s m ∧ ∀ m' ∈ s.descriptors, m' ≠ m → c ∉ bundle s m'

theorem operatesOn_eq {s : State} (hreach : system.ReachableUnder Supplied s) {m : Nat}
    (hm : m ∈ s.descriptors) (hinit : (s.locals m).isInit = true) (call : DataCall) :
    operatesOn s call m = m := by
  cases call with
  | send | sendto | recv => exact (partition_of_reachable hreach).route m hm hinit

/-- `light_send` and `light_recv` resolve the descriptor of such a socket to the socket itself. -/
theorem resolved_to_own {s : State} (hreach : system.ReachableUnder Supplied s) {m : Nat}
    (hm : m ∈ s.descriptors) (hinit : (s.locals m).isInit = true) {t : Fd.Tables} {fd : Int}
    (hlookup : Fd.lightFdToSocketEpollIndex t fd = .ok ((m : Int), .socket))
    (hlt : m < Fd.connectionPoolSize) :
    Fd.Resolution.lightSend t (routing s) fd = .ok (.copy m (operatesOn s .send m)) ∧
      Fd.Resolution.lightRecv t (routing s) fd = .ok (.copy m (operatesOn s .recv m)) := by
  have hreal : realSocket s m = m := operatesOn_eq hreach hm hinit .send
  simp [Fd.Resolution.lightSend, Fd.Resolution.lightRecv, Fd.Resolution.useCopy, hlookup,
    Fd.slot_natCast hlt, realSocket_routing, operatesOn, hreal, pure, Except.pure, bind,
    Except.bind]

/-- A data call on a socket that was bound or accepted works on its own connection. -/
theorem data_call_isolated {s : State} (hreach : system.ReachableUnder Supplied s)
    {m : Nat} (hm : m ∈ s.descriptors) (hinit : (s.locals m).isInit = true)
    (call : DataCall) : Isolated s m (operatesOn s call m) := by
  have h := partition_of_reachable hreach
  rw [operatesOn_eq hreach hm hinit call]
  exact ⟨h.self_mem_bundle hm, fun m' hm' hne =>
    h.bundle_disjoint hm' hm (Ne.symm hne) (h.self_mem_bundle hm)⟩

theorem data_call_isolated_accepted :
    ∃ s, system.ReachableUnder Supplied s ∧ s.descriptors = [0, 2] ∧
      ∀ call, Isolated s 2 (operatesOn s call 2) := by
  obtain ⟨s, hreach, hdescriptors, hinit⟩ :=
    system.exists_reachableUnder Supplied (startWith 2)
      [.openSocket, .bind 0 .posted, .stack 0 true, .resume .posted 0, .stack 1 true,
        .resume .noCommand 0, .accept 0 1 true]
      (P := fun s => s.descriptors = [0, 2] ∧ (s.locals 2).isInit = true)
      (start_startWith (by decide)) (by decide +kernel)
  exact ⟨s, hreach, hdescriptors, data_call_isolated hreach (by simp [hdescriptors]) hinit⟩

theorem unbound_send_reaches_other_connection :
    ¬∀ s, system.Reachable s → ∀ m ∈ s.descriptors, ∀ call, Isolated s m (operatesOn s call m) := by
  intro hall
  obtain ⟨s, hreach, hdescriptors, hbundle, hzero⟩ :=
    system.exists_reachable (startWith 1) [.openSocket, .openSocket]
      (P := fun s => s.descriptors = [0, 1] ∧ bundle s 1 = [1] ∧
        operatesOn s .send 1 = 0)
      (start_startWith (by decide)) (by decide +kernel)
  have hown := (hall s hreach 1 (by simp [hdescriptors]) .send).1
  rw [hzero, hbundle] at hown
  simp at hown

end LightStack.Conn
