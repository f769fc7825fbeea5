import LightStack.Conn.Model

/-!
# The commands that a call posts

All calls but `light_shutdown` and `_light_accept` post commands of three kinds only.
-/

namespace LightStack.Conn

open Lib

def Plain : Command → Prop
  | .openSocket _ => True
  | .bind _ => True
  | .close _ => True
  | _ => False

def PostsPlain (s t : State) : Prop := ∀ x ∈ t.pending, x ∈ s.pending ∨ Plain x.2

variable {k c posted m : Nat} {alloc : Alloc}

namespace PostsPlain

variable {s t u : State}

theorem of_eq (h : t.pending = s.pending) : PostsPlain s t :=
  fun _ hx => .inl (h ▸ hx)

theorem of_append {cmd : Command} (h : t.pending = s.pending ++ [(k, cmd)])
    (hcmd : Plain cmd) : PostsPlain s t := by
  intro x hx
  rw [h, List.mem_append, List.mem_singleton] at hx
  rcases hx with hx | rfl
  · exact .inl hx
  · exact .inr hcmd

theorem trans (hst : PostsPlain s t) (htu : PostsPlain t u) : PostsPlain s u :=
  fun x hx => (htu x hx).elim (hst x) .inr

theorem lightGetSocket (h : Conn.lightGetSocket s = .ok (some (c, t))) : PostsPlain s t := by
  unfold Conn.lightGetSocket at h
  split at h
  · cases h
  · cases h
  · cases h
    exact of_eq rfl

theorem lightOpenSocket (h : Conn.lightOpenSocket s = .ok t) : PostsPlain s t := by
  unfold Conn.lightOpenSocket at h
  obtain ⟨found, hget, h⟩ := of_bind_ok h
  cases found with
  | none => cases h
  | some x =>
    obtain ⟨c, u⟩ := x
    change Conn.getNewLightFd u c = .ok t at h
    unfold Conn.getNewLightFd at h
    split at h
    · cases h
    · cases h
      exact (lightGetSocket hget).trans (of_eq rfl)

theorem lightSocketInit (s : State) (c k : Nat) (alloc : Alloc) :
    PostsPlain s (Conn.lightSocketInit s c k alloc).1 := by
  cases alloc with
  | noCommand | noReturnValue | notQueued => exact of_eq rfl
  | posted => exact of_append rfl trivial

theorem closeCopy {posted' : Nat}
    (h : Conn.closeCopy s k c posted = some (t, posted')) : PostsPlain s t := by
  unfold Conn.closeCopy at h
  split at h
  · cases h
    exact of_eq rfl
  · split at h
    · cases h
    · cases h
      exact of_append rfl trivial

theorem closeCopies (main : Nat) (ks : List Nat) (posted : Nat) (s : State) :
    PostsPlain s (Conn.closeCopies main ks posted s).1 := by
  induction ks generalizing posted s with
  | nil => exact of_eq rfl
  | cons k ks ih =>
    unfold Conn.closeCopies
    split
    · exact of_eq rfl
    · rename_i t posted' hcopy
      exact (closeCopy hcopy).trans (ih posted' t)

theorem lightClose (h : Conn.lightClose s m posted = .ok t) : PostsPlain s t := by
  unfold Conn.lightClose at h
  cases hput : Conn.putBackLightFd s m with
  | error f =>
    rw [hput] at h
    cases h
  | ok u =>
    rw [hput] at h
    have hfd : PostsPlain s u := by
      unfold Conn.putBackLightFd at hput
      split at hput
      · cases hput
        exact of_eq rfl
      · cases hput
    refine hfd.trans ?_
    simp only [pure, Except.pure, bind, Except.bind] at h
    split at h
    · split at h
      · cases h
        exact of_eq rfl
      · split at h
        · cases h
          exact of_eq rfl
        · cases h
          exact of_append rfl trivial
    · have hloop := closeCopies m (List.range u.numProcs) posted u
      split at h
      · cases h
        exact hloop.trans (of_eq rfl)
      · cases h
        exact hloop

theorem of_lightSocketInit {b : Bool}
    (h : Conn.lightSocketInit s c k alloc = (t, b)) : PostsPlain s t := by
  have hinit := lightSocketInit s c k alloc
  rwa [h] at hinit

theorem lightBind (s : State) (m : Nat) (alloc : Alloc) :
    PostsPlain s (Conn.lightBind s m alloc) := by
  unfold Conn.lightBind
  dsimp only
  split
  · rename_i u heq
    exact (of_lightSocketInit heq).trans (of_eq rfl)
  · rename_i u heq
    have hinit := of_lightSocketInit heq
    exact hinit

theorem foldlM_lightClose (main posted : Nat) (js : List Nat)
    (h : js.foldlM (fun s j => Conn.lightClose s ((s.sockets main).copies j) posted) s = .ok t) :
    PostsPlain s t := by
  induction js generalizing s with
  | nil =>
    cases h
    exact of_eq rfl
  | cons j js ih =>
    rw [List.foldlM_cons] at h
    obtain ⟨u, hclose, h⟩ := of_bind_ok h
    exact (lightClose hclose).trans (ih h)

theorem bindFail {main i : Nat} (h : Conn.bindFail s main i posted = .ok t) : PostsPlain s t := by
  unfold Conn.bindFail at h
  obtain ⟨u, hfold, ⟨⟩⟩ := of_bind_ok h
  exact (foldlM_lightClose main posted _ hfold).trans (of_eq rfl)

theorem lightBindCopy (s : State) (main i : Nat) (alloc : Alloc) :
    PostsPlain s (Conn.lightBindCopy s main i alloc) := by
  cases alloc with
  | noCommand | noReturnValue | notQueued => exact of_eq rfl
  | posted => exact of_append rfl trivial

theorem bindNext {main current i : Nat} (h : Conn.bindNext s main current i alloc posted = .ok t) :
    PostsPlain s t := by
  unfold Conn.bindNext at h
  simp only [pure, Except.pure, bind, Except.bind] at h
  generalize hu : (if i = 0 then Conn.setLocal s current { s.locals current with isInit := true }
    else Conn.register (Conn.setLocal s current { s.locals current with isInit := true })
      main current i) = u at h
  have hregistered : PostsPlain s u := by
    subst hu
    split
    · exact of_eq rfl
    · exact of_eq rfl
  split at h
  · split at h
    · cases h
    · rename_i found hget
      split at h
      · exact hregistered.trans (bindFail h)
      · rename_i c v
        split at h
        · rename_i w heq
          cases h
          exact ((hregistered.trans (lightGetSocket hget)).trans
            (of_lightSocketInit heq)).trans (of_eq rfl)
        · rename_i w heq
          exact ((hregistered.trans (lightGetSocket hget)).trans
            (of_lightSocketInit heq)).trans (bindFail h)
  · cases h
    exact (hregistered.trans (of_eq rfl)).trans (lightBindCopy _ main 0 alloc)

theorem lightBindResume (h : Conn.lightBindResume s alloc posted = some (.ok t)) :
    PostsPlain s t := by
  unfold Conn.lightBindResume at h
  split at h
  · rename_i main current i success _ _
    cases success with
    | true =>
      simp only [if_true, Option.some.injEq] at h
      exact bindNext h
    | false =>
      simp only [Bool.false_eq_true, if_false, Option.some.injEq, bind, Except.bind] at h
      split at h
      · cases h
      · rename_i u hclose
        split at h
        · cases h
          exact (lightClose hclose).trans (of_eq rfl)
        · exact (lightClose hclose).trans (bindFail h)
  · split at h
    · cases h
      exact lightBindCopy _ _ _ _
    · cases h
      exact of_eq rfl
  · cases h

theorem settle {r : Except Fault State}
    (h : ∀ u, r = .ok u → PostsPlain s u) : PostsPlain s (Conn.settle s r) := by
  cases r with
  | error f => exact of_eq rfl
  | ok u => exact h u rfl

end PostsPlain

theorem postsPlain_of_step {s t : State} {a : Action} (hstep : step s a = some t)
    (hstack : ∀ k success, a ≠ .stack k success) (haccept : ∀ m k posted, a ≠ .accept m k posted)
    (hshutdown : ∀ m how posted, a ≠ .shutdown m how posted) : PostsPlain s t := by
  cases a with
  | openSocket =>
    obtain ⟨-, rfl⟩ := of_guard hstep
    exact PostsPlain.settle fun u hu => PostsPlain.lightOpenSocket hu
  | bind m alloc =>
    obtain ⟨-, rfl⟩ := of_guard hstep
    exact PostsPlain.lightBind s m alloc
  | resume alloc posted =>
    obtain ⟨-, hmap⟩ := Option.ite_none_right_eq_some.mp hstep
    obtain ⟨r, hr, rfl⟩ := Option.map_eq_some_iff.mp hmap
    exact PostsPlain.settle fun u hu => PostsPlain.lightBindResume (hr.trans (by rw [hu]))
  | connect m inet =>
    obtain ⟨-, rfl⟩ := of_guard hstep
    refine PostsPlain.settle fun u hu => ?_
    unfold Conn.lightConnect at hu
    split at hu
    · cases hu
    · cases hu
      exact PostsPlain.of_eq rfl
  | accept m k posted => exact absurd rfl (haccept m k posted)
  | shutdown m how posted => exact absurd rfl (hshutdown m how posted)
  | close m posted =>
    obtain ⟨-, rfl⟩ := of_guard hstep
    exact PostsPlain.settle fun u hu => PostsPlain.lightClose hu
  | stack k success => exact absurd rfl (hstack k success)

theorem pending_of_shutdown {s t : State} {how : Int} {posted : Bool}
    (hstep : step s (.shutdown m how posted) = some t) :
    t.pending = s.pending ∨
      posted = true ∧ t.pending = s.pending ++ [((s.locals m).procId, .shutdown m how)] := by
  obtain ⟨-, rfl⟩ := of_guard hstep
  unfold lightShutdown
  split
  · exact .inr ⟨‹_›, rfl⟩
  · exact .inl rfl

theorem posted_of_step {s t : State} {a : Action} (hstep : step s a = some t)
    (hstack : ∀ k success, a ≠ .stack k success)
    (haccept : ∀ m k posted, a ≠ .accept m k posted) {x : Nat × Command} (hx : x ∈ t.pending) :
    x ∈ s.pending ∨ Plain x.2 ∨ ∃ m how, a = .shutdown m how true ∧
      x = ((s.locals m).procId, .shutdown m how) := by
  by_cases hshutdown : ∃ m how posted, a = .shutdown m how posted
  · obtain ⟨m, how, posted, rfl⟩ := hshutdown
    rcases pending_of_shutdown hstep with hnone | ⟨rfl, hone⟩
    · rw [hnone] at hx
      exact .inl hx
    · rw [hone, List.mem_append, List.mem_singleton] at hx
      rcases hx with hx | rfl
      · exact .inl hx
      · exact .inr (.inr ⟨m, how, rfl, rfl⟩)
  · have hplain : PostsPlain s t :=
      postsPlain_of_step hstep hstack haccept fun m how posted heq =>
        hshutdown ⟨m, how, posted, heq⟩
    exact (hplain x hx).imp_right .inl

theorem pending_of_accept {s t : State} {posted : Bool}
    (hstep : step s (.accept m k posted) = some t) :
    t.pending = s.pending ∨ ∃ cmd, t.pending = s.pending ++ [(k, cmd)] ∧
      (cmd = .decline ∨ ∃ c, cmd = .setSocketRing c) := by
  obtain ⟨-, rfl⟩ := of_guard hstep
  unfold lightAccept
  split
  · cases posted with
    | false => exact .inl rfl
    | true => exact .inr ⟨_, rfl, .inl rfl⟩
  · exact .inl rfl
  · rename_i c free _
    cases posted with
    | false => exact .inl rfl
    | true =>
      simp only [if_true]
      unfold getNewLightFd
      split
      · exact .inl rfl
      · exact .inr ⟨_, rfl, .inr ⟨c, rfl⟩⟩

end LightStack.Conn
