import Mathlib.Data.Option.Basic

/-!
# Guarded runs of labelled transition systems

A set of initial states and an executable partial step function.
-/

namespace LightStack.Lib

theorem of_guard {σ : Type*} {p : Prop} [Decidable p] {s t : σ}
    (h : (if p then some s else none) = some t) : p ∧ s = t := by
  simpa using h

structure TransitionSystem (State : Type*) (Action : Type*) where
  init : State → Prop
  step : State → Action → Option State

namespace TransitionSystem

variable {State Action : Type*} (T : TransitionSystem State Action)

inductive ReachableUnder (guard : State → Action → Prop) : State → Prop where
  | start {s : State} (hinit : T.init s) : ReachableUnder guard s
  | next {s t : State} {a : Action} (hreach : ReachableUnder guard s) (hguard : guard s a)
      (hstep : T.step s a = some t) : ReachableUnder guard t

def Reachable (s : State) : Prop := T.ReachableUnder (fun _ _ => True) s

def exec : State → List Action → Option State
  | s, [] => some s
  | s, a :: rest => (T.step s a).bind fun t => exec t rest

def execUnder (guard : State → Action → Prop)
    [∀ s a, Decidable (guard s a)] : State → List Action → Option State
  | s, [] => some s
  | s, a :: rest =>
    if guard s a then (T.step s a).bind fun t => execUnder guard t rest
    else none

variable {T}

theorem ReachableUnder.invariant {guard : State → Action → Prop} {Inv : State → Prop}
    (hinit : ∀ s, T.init s → Inv s)
    (hstep : ∀ s a t, Inv s → guard s a → T.step s a = some t → Inv t) {s : State}
    (hreach : T.ReachableUnder guard s) : Inv s := by
  induction hreach with
  | start h => exact hinit _ h
  | next _ hguard h ih => exact hstep _ _ _ ih hguard h

theorem Reachable.invariant {Inv : State → Prop} (hinit : ∀ s, T.init s → Inv s)
    (hstep : ∀ s a t, Inv s → T.step s a = some t → Inv t) {s : State} (hreach : T.Reachable s) :
    Inv s :=
  ReachableUnder.invariant hinit (fun s a t hs _ h => hstep s a t hs h) hreach

theorem exec_invariant {Inv : State → Prop}
    (hstep : ∀ s a t, Inv s → T.step s a = some t → Inv t) {s t : State} {run : List Action}
    (hs : Inv s) (hrun : T.exec s run = some t) : Inv t := by
  induction run generalizing s with
  | nil => exact Option.some.inj hrun ▸ hs
  | cons a rest ih =>
    obtain ⟨u, hu, hrest⟩ := Option.bind_eq_some_iff.mp hrun
    exact ih (hstep s a u hs hu) hrest

theorem ReachableUnder.reachable {guard : State → Action → Prop} {s : State}
    (hreach : T.ReachableUnder guard s) : T.Reachable s := by
  induction hreach with
  | start h => exact .start h
  | next _ _ hstep ih => exact .next ih trivial hstep

theorem Reachable.exec {s t : State} {run : List Action} (hreach : T.Reachable s)
    (hrun : T.exec s run = some t) : T.Reachable t :=
  exec_invariant (fun _ _ _ hs hstep => .next hs trivial hstep) hreach hrun

theorem ReachableUnder.execUnder {guard : State → Action → Prop} [∀ s a, Decidable (guard s a)]
    {s t : State} {run : List Action} (hreach : T.ReachableUnder guard s)
    (hrun : T.execUnder guard s run = some t) : T.ReachableUnder guard t := by
  induction run generalizing s with
  | nil =>
    simp only [TransitionSystem.execUnder, Option.some.injEq] at hrun
    exact hrun ▸ hreach
  | cons a rest ih =>
    obtain ⟨hguard, hrun⟩ := Option.ite_none_right_eq_some.mp hrun
    obtain ⟨u, hstep, hrest⟩ := Option.bind_eq_some_iff.mp hrun
    exact ih (.next hreach hguard hstep) hrest

theorem exec_of_execUnder {guard : State → Action → Prop} [∀ s a, Decidable (guard s a)]
    {s t : State} {run : List Action} (hrun : T.execUnder guard s run = some t) :
    T.exec s run = some t := by
  induction run generalizing s with
  | nil => exact hrun
  | cons a rest ih =>
    obtain ⟨-, hrun⟩ := Option.ite_none_right_eq_some.mp hrun
    obtain ⟨u, hstep, hrest⟩ := Option.bind_eq_some_iff.mp hrun
    exact Option.bind_eq_some_iff.mpr ⟨u, hstep, ih hrest⟩

/-- The run leads from `s` to a state with `P`, which is reachable. -/
def ReachesBy (T : TransitionSystem State Action) (s : State) (run : List Action)
    (P : State → Prop) : Prop :=
  ∃ t, T.Reachable t ∧ T.exec s run = some t ∧ P t

theorem reachesBy (T : TransitionSystem State Action) {s : State} {run : List Action}
    {P : State → Prop} [DecidablePred P] (hinit : T.init s)
    (hrun : (T.exec s run).any (fun t => decide (P t)) = true) : T.ReachesBy s run P := by
  obtain ⟨t, ht, htest⟩ := (Option.any_eq_true _ _).mp hrun
  exact ⟨t, Reachable.exec (.start hinit) ht, ht, of_decide_eq_true htest⟩

theorem exists_reachable (T : TransitionSystem State Action) (s : State) (run : List Action)
    {P : State → Prop} [DecidablePred P] (hinit : T.init s)
    (hrun : (T.exec s run).any (fun t => decide (P t)) = true) : ∃ t, T.Reachable t ∧ P t := by
  obtain ⟨t, hreach, -, ht⟩ := T.reachesBy hinit hrun
  exact ⟨t, hreach, ht⟩

theorem exists_reachableUnder (T : TransitionSystem State Action)
    (guard : State → Action → Prop) [∀ s a, Decidable (guard s a)] (s : State) (run : List Action)
    {P : State → Prop} [DecidablePred P] (hinit : T.init s)
    (hrun : (T.execUnder guard s run).any (fun t => decide (P t)) = true) :
    ∃ t, T.ReachableUnder guard t ∧ P t := by
  obtain ⟨t, ht, htest⟩ := (Option.any_eq_true _ _).mp hrun
  exact ⟨t, ReachableUnder.execUnder (.start hinit) ht, of_decide_eq_true htest⟩

structure RunUnder (T : TransitionSystem State Action)
    (guard : State → Action → Prop) where
  state : Nat → State
  action : Nat → Action
  init : T.init (state 0)
  guarded : ∀ n, guard (state n) (action n)
  step : ∀ n, T.step (state n) (action n) = some (state (n + 1))

namespace RunUnder

variable {guard : State → Action → Prop} (run : T.RunUnder guard)

theorem reachable (n : Nat) : T.ReachableUnder guard (run.state n) := by
  induction n with
  | zero => exact .start run.init
  | succ n ih => exact .next ih (run.guarded n) (run.step n)

theorem rel_of_le {r : State → State → Prop} (hrefl : ∀ s, r s s)
    (htrans : ∀ s t u, r s t → r t u → r s u) (hstep : ∀ n, r (run.state n) (run.state (n + 1)))
    {n m : Nat} (hle : n ≤ m) : r (run.state n) (run.state m) := by
  induction hle with
  | refl => exact hrefl _
  | step _ ih => exact htrans _ _ _ ih (hstep _)

end RunUnder

theorem exists_ge_of_progress {f : Nat → Nat} {k n : Nat}
    (hprogress : ∀ p, n ≤ p → f p < k → ∃ q, p ≤ q ∧ f p < f q) : ∃ m, n ≤ m ∧ k ≤ f m := by
  -- induction on what is still missing at a later and later point
  suffices h : ∀ d p, n ≤ p → k ≤ f p + d → ∃ m, n ≤ m ∧ k ≤ f m by
    exact h k n (Nat.le_refl n) (Nat.le_add_left k (f n))
  intro d
  induction d with
  | zero => exact fun p hp hk => ⟨p, hp, hk⟩
  | succ d ih =>
    intro p hp hk
    by_cases hdone : k ≤ f p
    · exact ⟨p, hp, hdone⟩
    · obtain ⟨q, hpq, hgrow⟩ := hprogress p hp (Nat.lt_of_not_le hdone)
      exact ih q (Nat.le_trans hp hpq) (by omega)

end TransitionSystem

end LightStack.Lib
