import LightStack.Conn.Partition
import LightStack.Service.Model

/-!
# A stack with applications that have not called yet
-/

namespace LightStack.Service

open Lib

def startWith (n : Nat) : State where
  numProcs := n
  free := ⟨(List.range Fd.fdRingCap).map some, Conn.length_indices_le⟩
  sockets := fun _ => ⟨false, fun _ => 0⟩
  apps := fun _ =>
    ⟨fun _ => ⟨false, false, 0⟩, fun _ => false, [], fun _ => false, Fd.trueFdNum, .idle, none,
      none⟩
  ring := []
  accepted := []
  procs := fun _ => ⟨fun _ => none, fun _ => .blank, [], 0, [], [], none⟩

theorem start_startWith (n : Nat) : Start (startWith n) where
  free_eq := by
    apply Ring.ext_items
    rw [Conn.items_serviceFree]
    simp only [startWith]
  apps_eq := fun _ => ⟨_, rfl⟩
  ring_eq := rfl
  accepted_eq := rfl
  procs_eq := fun _ => rfl

def bound (i : Nat) : List Action :=
  [.call i .openSocket true, .call i (.bind 0 .posted) false, .stack 0 true 0,
    .call i (.resume .posted 0) false, .stack 0 true 0, .call i (.resume .posted 0) false]

end LightStack.Service
