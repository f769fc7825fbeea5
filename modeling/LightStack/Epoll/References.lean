import Mathlib.Data.List.Count
import Mathlib.Data.List.Flatten

/-!
# References on epoll nodes

A call is the sequence of its searches and releases; what it finds in shared data is left open.
-/

namespace LightStack.Epoll.References

open List

inductive RefOp where
  -- a search, `LL_FIRST`, `LL_NEXT`, or leaving `LL_FOREACH` early
  | take (node : Nat)
  -- `LL_RELEASE` or `LL_UNLINK`
  | give (node : Nat)
  deriving DecidableEq

structure Attempt where
  node : Option Nat
  skip : Bool
  got : Bool
  queued : Bool

def addEpollEventToShadow (a : Attempt) : List RefOp :=
  match a.node with
  | none => []
  | some n =>
    .take n ::
      if a.skip then [.give n]
      else if !a.got then []
      else if !a.queued then [.give n]
      else [.give n]

def addEpollEventToQueue (a : Attempt) : List RefOp :=
  match a.node with
  | none => []
  | some n =>
    .take n ::
      if a.skip then [.give n]
      else if !a.got then [.give n]
      else if !a.queued then [.give n]
      else [.give n]

def rearm : List Attempt → List RefOp
  | [] => []
  | a :: rest =>
    match a.node with
    | none => rearm rest
    | some n =>
      .take n ::
        if a.skip then .give n :: rearm rest
        else if !a.got then []
        else if !a.queued then [.give n]
        else .give n :: rearm rest

def visit (node : Option Nat) : List RefOp :=
  match node with
  | none => []
  | some n => [.take n, .give n]

def lightClose : List Nat → List RefOp
  | [] => []
  | [n] => [.give n]
  | n :: next :: rest => .take next :: .give n :: lightClose (next :: rest)

inductive Call where
  | post (a : Attempt)
  | ctlAdd (found : Option Nat) (allocated : Bool) (shadow : List Attempt)
  | ctlMod (found : Option Nat) (shadow : List Attempt)
  | ctlDel (found : Option Nat)
  | wait (rounds : List (List (Option Nat) × List Attempt))
  | close (nodes : List Nat)
  | epollClose (found : List (Option Nat))

def Call.refOps : Call → List RefOp
  | .post a => addEpollEventToQueue a
  | .ctlAdd (some n) _ _ => visit (some n)
  | .ctlAdd none allocated shadow =>
    if allocated then shadow.flatMap addEpollEventToShadow else []
  | .ctlMod none _ => []
  | .ctlMod (some n) shadow => visit (some n) ++ shadow.flatMap addEpollEventToShadow
  | .ctlDel found => visit found
  | .wait rounds => rounds.flatMap fun r => r.1.flatMap visit ++ rearm r.2
  | .close nodes => (nodes.head?.map RefOp.take).toList ++ lightClose nodes
  | .epollClose found => found.flatMap visit

def Attempt.starved (a : Attempt) : List Nat :=
  if a.skip || a.got then [] else a.node.toList

def starvedRearm : List Attempt → List Nat
  | [] => []
  | a :: rest =>
    if a.node.isNone || a.skip || a.got && a.queued then starvedRearm rest else a.starved

def Call.starved : Call → List Nat
  | .ctlAdd none true shadow | .ctlMod (some _) shadow => shadow.flatMap Attempt.starved
  | .wait rounds => rounds.flatMap fun r => starvedRearm r.2
  | _ => []

def Leaves (ops : List RefOp) (kept : List Nat) : Prop :=
  ∀ n, ops.count (.take n) = ops.count (.give n) + kept.count n

namespace Leaves

variable {ops ops' : List RefOp} {kept kept' : List Nat}

theorem nil : Leaves [] [] := fun _ => rfl

theorem append (h : Leaves ops kept) (h' : Leaves ops' kept') :
    Leaves (ops ++ ops') (kept ++ kept') := by
  intro n
  have hn := h n
  have hn' := h' n
  simp only [count_append]
  omega

theorem flatMap {α : Type*} {f : α → List RefOp} {g : α → List Nat}
    (h : ∀ a, Leaves (f a) (g a)) (l : List α) : Leaves (l.flatMap f) (l.flatMap g) := by
  induction l with
  | nil => exact nil
  | cons a l ih => exact (h a).append ih

theorem taken (n : Nat) : Leaves [.take n] [n] := by
  intro m
  simp [count_singleton]

theorem visited (n : Nat) : Leaves [.take n, .give n] [] := by
  intro m
  simp [count_cons]

end Leaves

theorem visit_leaves (node : Option Nat) : Leaves (visit node) [] := by
  cases node with
  | none => exact .nil
  | some n => exact .visited n

theorem addEpollEventToQueue_leaves (a : Attempt) : Leaves (addEpollEventToQueue a) [] := by
  unfold addEpollEventToQueue
  split
  · exact .nil
  · split_ifs <;> exact .visited _

theorem addEpollEventToShadow_leaves (a : Attempt) :
    Leaves (addEpollEventToShadow a) a.starved := by
  unfold addEpollEventToShadow Attempt.starved
  cases a.node <;> cases a.skip <;> cases a.got <;> cases a.queued <;> first
      | exact .nil
      | exact .taken _
      | exact .visited _

theorem rearm_leaves (l : List Attempt) : Leaves (rearm l) (starvedRearm l) := by
  induction l with
  | nil => exact .nil
  | cons a rest ih =>
    unfold rearm starvedRearm Attempt.starved
    cases a.node with
    | none => exact ih
    | some n =>
      have hvisited := (Leaves.visited n).append ih
      cases a.skip <;> cases a.got <;> cases a.queued <;> first
          | exact .taken n
          | exact .visited n
          | exact hvisited

theorem lightClose_leaves (n : Nat) (rest : List Nat) :
    Leaves (.take n :: lightClose (n :: rest)) [] := by
  induction rest generalizing n with
  | nil => exact .visited n
  | cons next rest ih =>
    intro m
    have hrest := ih next m
    simp only [lightClose, count_cons, count_nil] at hrest ⊢
    simp at hrest ⊢
    omega

theorem Call.leaves (c : Call) : Leaves c.refOps c.starved := by
  cases c with
  | post a => exact addEpollEventToQueue_leaves a
  | ctlAdd found allocated shadow =>
    cases found with
    | some n => cases allocated <;> exact .visited n
    | none =>
      cases allocated with
      | true => exact .flatMap addEpollEventToShadow_leaves shadow
      | false => exact .nil
  | ctlMod found shadow =>
    cases found with
    | none => exact .nil
    | some n => exact (Leaves.visited n).append (.flatMap addEpollEventToShadow_leaves shadow)
  | ctlDel found => exact visit_leaves found
  | wait rounds =>
    refine .flatMap (fun r => ?_) rounds
    have htaken := Leaves.flatMap visit_leaves r.1
    rw [flatMap_eq_nil_iff.mpr fun _ _ => rfl] at htaken
    exact htaken.append (rearm_leaves r.2)
  | close nodes =>
    cases nodes with
    | nil => exact .nil
    | cons n rest => exact lightClose_leaves n rest
  | epollClose found =>
    have hvisited := Leaves.flatMap visit_leaves found
    rwa [flatMap_eq_nil_iff.mpr fun _ _ => rfl] at hvisited

def Balanced (c : Call) : Prop := ∀ n, c.refOps.count (.take n) = c.refOps.count (.give n)

def refcnt (ops : List RefOp) (n : Nat) : Nat := ops.count (.take n) - ops.count (.give n)

def UnlinkReturns (ops : List RefOp) (n : Nat) : Prop := refcnt (ops ++ [.take n]) n ≤ 1

theorem balanced_iff (c : Call) : Balanced c ↔ c.starved = [] := by
  constructor
  · intro h
    refine eq_nil_iff_forall_not_mem.mpr fun n hn => ?_
    have hpos := count_pos_iff.mpr hn
    have hbalanced := h n
    have hleaves := c.leaves n
    omega
  · intro h n
    rw [c.leaves n, h]
    rfl

/-- All calls give back what they take if and only if `light_epoll_ctl` and the re-arming loop never
find the pool of event records empty. -/
theorem node_references_balanced (calls : List Call) (ops : List RefOp)
    (hops : ops.Perm (calls.flatMap Call.refOps)) :
    ((∀ c ∈ calls, Balanced c) ↔ ∀ c ∈ calls, c.starved = []) ∧
      ((∀ n, UnlinkReturns ops n) ↔ ∀ c ∈ calls, c.starved = []) := by
  have hkept : ∀ n, UnlinkReturns ops n ↔ (calls.flatMap Call.starved).count n = 0 := by
    intro n
    have hall := Leaves.flatMap Call.leaves calls n
    rw [← hops.count_eq, ← hops.count_eq] at hall
    have htake : (ops ++ [RefOp.take n]).count (.take n) = ops.count (.take n) + 1 := by simp
    have hgive : (ops ++ [RefOp.take n]).count (.give n) = ops.count (.give n) := by simp
    unfold UnlinkReturns refcnt
    omega
  refine ⟨forall₂_congr fun c _ => balanced_iff c, ?_⟩
  simp only [hkept, count_eq_zero]
  rw [← eq_nil_iff_forall_not_mem, flatMap_eq_nil_iff]

theorem node_references_balanced_queued :
    Balanced (.ctlAdd none true [⟨some 0, false, true, true⟩]) ∧
      UnlinkReturns [.take 0, .give 0] 0 := by
  obtain ⟨hbalanced, hreturns⟩ := node_references_balanced
    [.ctlAdd none true [⟨some 0, false, true, true⟩]] [.take 0, .give 0] (List.Perm.refl _)
  exact ⟨hbalanced.mpr (by decide) _ mem_cons_self, hreturns.mpr (by decide) 0⟩

theorem reference_kept :
    ∃ c, c = Call.ctlAdd none true [⟨some 0, false, true, true⟩, ⟨some 0, false, false, true⟩] ∧
      ¬Balanced c ∧ ¬UnlinkReturns c.refOps 0 := by
  refine ⟨_, rfl, fun h => absurd (h 0) (by decide), ?_⟩
  unfold UnlinkReturns
  decide

end LightStack.Epoll.References
