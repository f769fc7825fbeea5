import LightStack.Conn.Bind.Model

/-!
# Which failures of `light_bind` are undone

`_light_close` looks for a descriptor, which a copy does not have.
-/

namespace LightStack.Conn

open Lib Function List
open Fd (fdRingCap)

/-! ## Closing -/

variable {c posted main i : Nat} {alloc : Alloc} {bound : List Nat} {b : Bool}

section Closing

variable {s t : State}

theorem closeCopies_mapped (main : Nat) (ks : List Nat) (posted : Nat) (s : State) :
    (closeCopies main ks posted s).1.mapped = s.mapped := by
  induction ks generalizing posted s with
  | nil => rfl
  | cons k ks ih =>
    unfold closeCopies
    split
    · rfl
    · rename_i t posted' hcopy
      rw [ih]
      unfold closeCopy at hcopy
      split at hcopy
      · cases hcopy
        rfl
      · split at hcopy
        · cases hcopy
        · cases hcopy
          rfl

theorem lightClose_mapped (h : lightClose s c posted = .ok t) :
    s.mapped c = true ∧ t.mapped = update s.mapped c false := by
  unfold lightClose putBackLightFd at h
  split at h
  · rename_i hmapped
    refine ⟨hmapped, ?_⟩
    simp only [pure, Except.pure, bind, Except.bind] at h
    split at h
    · split at h
      · cases h
        rfl
      · split at h
        · cases h
          rfl
        · cases h
          rfl
    · split at h
      · cases h
        exact closeCopies_mapped ..
      · cases h
        exact closeCopies_mapped ..
  · cases h

theorem lightClose_ok (hmapped : s.mapped c = true) (posted : Nat) :
    ∃ t, lightClose s c posted = .ok t := by
  unfold lightClose putBackLightFd
  simp only [hmapped, if_true, pure, Except.pure, bind, Except.bind]
  split
  · split
    · exact ⟨_, rfl⟩
    · split
      · exact ⟨_, rfl⟩
      · exact ⟨_, rfl⟩
  · split
    · exact ⟨_, rfl⟩
    · exact ⟨_, rfl⟩

theorem foldlM_lightClose_mapped {js : List Nat}
    (h : js.foldlM (fun s j => lightClose s ((s.sockets main).copies j) posted) s = .ok t)
    (hc : s.mapped c = false) : t.mapped c = false := by
  induction js generalizing s with
  | nil =>
    cases h
    exact hc
  | cons j js ih =>
    rw [foldlM_cons] at h
    obtain ⟨u, hclose, h⟩ := of_bind_ok h
    refine ih h ?_
    rw [(lightClose_mapped hclose).2]
    by_cases hcj : c = (s.sockets main).copies j
    · rw [hcj, update_self]
    · rw [update_of_ne hcj]
      exact hc

theorem bindFail_mapped_ne (h : bindFail s main (i + 2) posted = .ok t) : t.mapped ≠ s.mapped := by
  obtain ⟨-, u, hfold, hmapped⟩ := bindFail_ok h
  rw [show i + 2 - 1 = i + 1 from rfl, List.range'_succ, foldlM_cons] at hfold
  obtain ⟨v, hclose, hfold⟩ := of_bind_ok hfold
  obtain ⟨hold, hnew⟩ := lightClose_mapped hclose
  have hgone : v.mapped ((s.sockets main).copies 1) = false := by rw [hnew, update_self]
  have hlast := foldlM_lightClose_mapped hfold hgone
  intro heq
  rw [← hmapped, heq, hold] at hlast
  cases hlast

theorem bindFail_mapped (h : bindFail s main i posted = .ok t) (hc : s.mapped c = false) :
    t.mapped c = false := by
  obtain ⟨-, u, hfold, hmapped⟩ := bindFail_ok h
  rw [hmapped]
  exact foldlM_lightClose_mapped hfold hc

end Closing

/-! ## After the first copy -/

structure Deep (s : State) (m : Nat) (u : State) : Prop where
  numProcs : u.numProcs = s.numProcs
  mapped : u.mapped = s.mapped
  multicore : (u.sockets m).isMulticore = true
  not_free : some m ∉ u.free.items

def Spoiled (s : State) (m : Nat) (t : State) : Prop := t.mapped ≠ s.mapped ∨ Deep s m t

namespace Deep

variable {s u t : State} {m : Nat}

section

variable (h : Deep s m u)

include h

theorem congr (hprocs : t.numProcs = u.numProcs) (hmapped : t.mapped = u.mapped)
    (hmulti : (t.sockets m).isMulticore = (u.sockets m).isMulticore) (hfree : t.free = u.free) :
    Deep s m t where
  numProcs := hprocs.trans h.numProcs
  mapped := hmapped.trans h.mapped
  multicore := hmulti.trans h.multicore
  not_free := by
    rw [hfree]
    exact h.not_free

theorem register (c i : Nat) : Deep s m (register u m c i) := by
  refine h.congr rfl rfl ?_ rfl
  unfold Conn.register setSocket setLocal
  dsimp only
  by_cases hc : m = c
  · subst hc
    rw [update_self, h.multicore]
  · rw [update_of_ne hc, update_self]

theorem spread : Deep s m (spread u m) := by
  refine h.congr rfl rfl ?_ rfl
  unfold Conn.spread
  dsimp only
  split
  · rfl
  · rfl

theorem lightGetSocket (hget : lightGetSocket u = .ok (some (c, t))) : Deep s m t := by
  unfold Conn.lightGetSocket at hget
  split at hget
  · cases hget
  · cases hget
  · rename_i c' free hdequeue
    obtain ⟨rfl, rfl⟩ := Prod.mk.inj (Option.some.inj (Except.ok.inj hget))
    have hitems := Ring.dequeue_eq_some_iff.mp hdequeue
    have hmem : ∀ x ∈ free.items, x ∈ u.free.items := by
      rw [hitems]
      exact fun x hx => mem_cons_of_mem _ hx
    have hne : m ≠ c' := by
      rintro rfl
      exact h.not_free (by rw [hitems]; exact mem_cons_self ..)
    refine ⟨h.numProcs, h.mapped, ?_, fun hmem' => h.not_free (hmem _ hmem')⟩
    show (update u.sockets c' _ m).isMulticore = true
    rw [update_of_ne hne]
    exact h.multicore

theorem lightBindCopy (i : Nat) (alloc : Alloc) : Deep s m (lightBindCopy u m i alloc) := by
  cases alloc with
  | noCommand | noReturnValue | notQueued | posted => exact h.congr rfl rfl rfl rfl

end

def Beyond (m : Nat) : Call → Prop
  | .idle => False
  | .waitOpen main _ i => main = m ∧ 0 < i
  | .waitBind main _ => main = m

def Astray (s : State) (m : Nat) (t : State) : Prop :=
  (t.call = .idle ∧ Spoiled s m t) ∨ (Beyond m t.call ∧ Deep s m t)

theorem astray_lightBindCopy (h : Deep s m u) (i : Nat) (alloc : Alloc) :
    Astray s m (Conn.lightBindCopy u m i alloc) := by
  have hcopy := h.lightBindCopy i alloc
  cases alloc with
  | posted => exact .inr ⟨rfl, hcopy⟩
  | noCommand | noReturnValue | notQueued => exact .inl ⟨rfl, .inr hcopy⟩

theorem astray_bindFail (h : u.mapped = s.mapped) (hfail : bindFail u m (i + 2) posted = .ok t) :
    Astray s m t := by
  have hne := bindFail_mapped_ne hfail
  rw [h] at hne
  exact .inl ⟨(bindFail_ok hfail).1, .inl hne⟩

theorem bindNext (h : Deep s m u) (hnext : bindNext u m c (i + 1) alloc posted = .ok t) :
    Astray s m t := by
  unfold Conn.bindNext at hnext
  dsimp only at hnext
  rw [if_neg (Nat.succ_ne_zero i)] at hnext
  have hinit : Deep s m (setLocal u c { u.locals c with isInit := true }) := h.congr rfl rfl rfl rfl
  have hreg := hinit.register c (i + 1)
  generalize Conn.register (setLocal u c { u.locals c with isInit := true }) m c (i + 1) = v
    at hnext hreg
  split at hnext
  · obtain ⟨x, hget, hnext⟩ := of_bind_ok hnext
    cases x with
    | none => exact astray_bindFail hreg.mapped hnext
    | some x =>
      obtain ⟨c', w⟩ := x
      have hw := hreg.lightGetSocket hget
      dsimp only at hnext
      split at hnext
      · rename_i v' hinit
        cases hnext
        refine .inr ⟨⟨rfl, Nat.succ_pos _⟩, ?_⟩
        cases alloc with
        | posted =>
          obtain ⟨rfl, -⟩ := Prod.mk.inj hinit
          exact hw.congr rfl rfl rfl rfl
        | _ => cases (Prod.mk.inj hinit).2
      · rename_i v' hinit
        have hmapped : v'.mapped = w.mapped := by
          cases alloc with
          | posted => cases (Prod.mk.inj hinit).2
          | _ =>
            obtain ⟨rfl, -⟩ := Prod.mk.inj hinit
            rfl
        exact astray_bindFail (hmapped.trans hw.mapped) hnext
  · cases hnext
    exact hreg.spread.astray_lightBindCopy 0 alloc

theorem astray_refused (h : Deep s m u) (hresume : (do
      let t ← lightClose u c posted
      bindFail t m i posted) = .ok t) : Astray s m t := by
  obtain ⟨w, hclose, hfail⟩ := of_bind_ok hresume
  obtain ⟨hold, hnew⟩ := lightClose_mapped hclose
  have hgone : w.mapped c = false := by rw [hnew, update_self]
  have hlast := bindFail_mapped hfail hgone
  refine .inl ⟨(bindFail_ok hfail).1, .inl fun heq => ?_⟩
  rw [heq, ← h.mapped, hold] at hlast
  cases hlast

theorem resume (h : Deep s m u) (hbeyond : Beyond m u.call) {a : Answer}
    (hresume : lightBindResume (serve u a.success) a.alloc a.posted = some (.ok t)) :
    Astray s m t := by
  cases hcall : u.call with
  | idle =>
    rw [hcall] at hbeyond
    exact hbeyond.elim
  | waitOpen main c i =>
    rw [hcall] at hbeyond
    obtain ⟨rfl, hi⟩ := hbeyond
    obtain ⟨i, rfl⟩ := Nat.exists_eq_succ_of_ne_zero hi.ne'
    have hserve := serve_waitOpen (b := a.success) hcall
    have hu : Deep s main (serve u a.success) := by
      rw [hserve]
      exact h.congr rfl rfl rfl rfl
    have hcall' : (serve u a.success).call = .waitOpen main c (i + 1) := by
      rw [hserve]
      exact hcall
    have hreply : (serve u a.success).reply = some a.success := by rw [hserve]
    simp only [lightBindResume, hcall', hreply, Option.some.injEq] at hresume
    split at hresume
    · exact hu.bindNext hresume
    · simp only [Nat.succ_ne_zero, if_false] at hresume
      exact hu.astray_refused hresume
  | waitBind main i =>
    rw [hcall] at hbeyond
    obtain rfl := hbeyond
    rw [serve_waitBind hcall] at hresume
    have hu : Deep s main { u with
        pending := u.pending.dropLast
        reply := some (u.kernel ((u.sockets main).copies i) && a.success) } :=
      h.congr rfl rfl rfl rfl
    simp only [lightBindResume, hcall, Option.some.injEq, Except.ok.injEq] at hresume
    split at hresume
    · obtain rfl := hresume
      exact hu.astray_lightBindCopy (i + 1) a.alloc
    · obtain rfl := hresume
      exact .inl ⟨rfl, .inr (h.congr rfl rfl rfl rfl)⟩

theorem goOn {answers : List Answer} {o : Outcome} (h : Deep s m u) (hbeyond : Beyond m u.call)
    (hrun : goOn answers bound u = some (.ok o)) : o.state.call = .idle ∧ Spoiled s m o.state := by
  induction answers generalizing bound u with
  | nil => cases hrun
  | cons a rest ih =>
    unfold Conn.goOn at hrun
    dsimp only at hrun
    split at hrun
    · cases hrun
    · split at hrun
      · cases hrun
      · cases hrun
    · rename_i t hresume
      rcases h.resume hbeyond hresume with ⟨hidle, hspoiled⟩ | ⟨hbeyond', hdeep⟩
      · rw [if_pos hidle] at hrun
        split at hrun
        · cases hrun
          exact ⟨hidle, hspoiled⟩
        · cases hrun
      · rw [if_neg] at hrun
        · exact ih hdeep hbeyond' hrun
        · intro hidle
          rw [hidle] at hbeyond'
          exact hbeyond'

end Deep

theorem Spoiled.not_intact {s : State} {m : Nat} {o : Outcome} (hprocs : s.numProcs ≠ 1)
    (h : Spoiled s m o.state) (hidle : o.state.call = .idle) : ¬ Intact s m o := by
  intro hintact
  rcases h with hne | hdeep
  · exact hne hintact.mapped
  · have hsingle := hintact.single
    rw [bundle_of_idle hidle, if_pos hdeep.multicore] at hsingle
    have hlength := congrArg List.length hsingle
    rw [length_map, length_range, hdeep.numProcs] at hlength
    exact hprocs hlength

/-! ## Up to the first copy -/

section First

variable {s t : State} {m : Nat}

def marked (s : State) (m : Nat) : State :=
  let s := setSocket s m ⟨true, update (s.sockets m).copies 0 m⟩
  setLocal s m { s.locals m with procId := 0 }

def answered (s : State) (m : Nat) (success : Bool) : State :=
  { marked s m with
    kernel := if success then update s.kernel m true else s.kernel
    reply := some success
    call := .waitOpen m m 0 }

def openedMain (s : State) (m : Nat) : State :=
  setLocal (answered s m true) m { (answered s m true).locals m with isInit := true }

theorem serve_lightBind (s : State) (m : Nat) (b : Bool) :
    serve (lightBind s m .posted) b = answered s m b := by
  have hwait : (lightBind s m .posted).call = .waitOpen m m 0 := rfl
  have hpending : (lightBind s m .posted).pending.dropLast = s.pending := dropLast_concat ..
  rw [serve_waitOpen hwait, hpending]
  rfl

theorem resume_openedMain (s : State) (m : Nat) (alloc : Alloc) (posted : Nat) :
    lightBindResume (answered s m true) alloc posted = some (
      if 1 < s.numProcs then do
        match ← lightGetSocket (openedMain s m) with
        | none => bindFail (openedMain s m) m 1 posted
        | some (c, u) =>
          match lightSocketInit u c 1 alloc with
          | (v, true) => return { v with call := .waitOpen m c 1 }
          | (v, false) => bindFail v m 1 posted
      else return lightBindCopy (spread (openedMain s m) m) m 0 alloc) := rfl

def unmarked (s : State) (m : Nat) : State :=
  { setSocket s m { s.sockets m with isMulticore := false } with call := .idle }

theorem bundle_unmarked (s : State) (m : Nat) : bundle (unmarked s m) m = [m] := by
  rw [bundle_of_idle rfl, if_neg]
  simp [unmarked, setSocket]

theorem spread_single (hprocs : s.numProcs = 1) : spread s m = s := by
  have hrange : List.range' 1 (s.numProcs - 1) = [] := by
    rw [hprocs]
    rfl
  simp only [spread, hrange, map_nil, not_mem_nil, if_false]

theorem bundle_of_single (hprocs : t.numProcs = 1) (hidle : t.call = .idle)
    (hcopy : (t.sockets m).copies 0 = m) : bundle t m = [m] := by
  rw [bundle_of_idle hidle, hprocs]
  split
  · simp [hcopy]
  · rfl

theorem copies_zero_openedMain (s : State) (m : Nat) :
    ((openedMain s m).sockets m).copies 0 = m := by
  simp [openedMain, answered, marked, setLocal, setSocket]

theorem intact_of (h : Opened s m) (hfault : t.fault = none)
    (hidle : t.call = .idle) (hdescriptors : t.descriptors = s.descriptors)
    (hmapped : t.mapped = s.mapped) (hsingle : bundle t m = [m]) (hbound : bound = [])
    (hpending : t.pending = s.pending)
    (hfree : t.free.items.Perm s.free.items)
    (hothers : ∀ c, c ≠ m → some c ∉ s.free.items → t.sockets c = s.sockets c ∧
      t.locals c = s.locals c ∧ t.kernel c = s.kernel c) :
    Intact s m ⟨t, bound, b⟩ where
  closes := lightClose_ok (by rw [hmapped]; exact h.mapped)
  binds := by
    intro alloc
    simp [step, ready, hfault, hidle, hdescriptors, h.descriptor]
  single := hsingle
  unbound := by
    rw [hbound]
    exact not_mem_nil
  freed_eq := by
    intro c
    simp only [freed, releases, hpending, hfree.count_eq]
  descriptors := hdescriptors
  mapped := hmapped
  others := hothers

theorem others_openedMain (hc : c ≠ m) :
    (openedMain s m).sockets c = s.sockets c ∧ (openedMain s m).locals c = s.locals c ∧
      (openedMain s m).kernel c = s.kernel c := by
  simp [openedMain, answered, marked, setLocal, setSocket, hc]

theorem atomic_not_posted (h : Opened s m) (halloc : alloc ≠ .posted) :
    Intact s m ⟨lightBind s m alloc, [], false⟩ ↔
      s.numProcs = 1 ∧ alloc ≠ .noReturnValue := by
  have hbase : Intact s m ⟨marked s m, [], false⟩ ↔ s.numProcs = 1 := by
    have hidle : (marked s m).call = .idle := h.call
    constructor
    · intro hintact
      by_contra hprocs
      refine Spoiled.not_intact hprocs (.inr ⟨rfl, rfl, ?_, h.not_free⟩) hidle hintact
      simp [marked, setLocal, setSocket]
    · intro hprocs
      refine intact_of h h.fault hidle rfl rfl (bundle_of_single hprocs hidle ?_) rfl rfl
        (.refl _) ?_
      · simp [marked, setLocal, setSocket]
      · intro c hc _
        simp [marked, setLocal, setSocket, hc]
  cases alloc with
  | noCommand | notQueued => exact Iff.trans hbase (by simp)
  | posted => exact (halloc rfl).elim
  | noReturnValue =>
    refine iff_of_false ?_ (by simp)
    intro hintact
    -- the index is in the free ring now, and was not there before
    have hptr : pointer (marked s m) m = some m := by
      simp [pointer, marked, setLocal, setSocket, h.hasSocket]
    have hitems : (lightBind s m .noReturnValue).free.items = s.free.items ++ [some m] := by
      show (putFree s.free (pointer (marked s m) m)).items = _
      rw [hptr, items_putFree _ _ h.room]
    have hfreed := hintact.freed_eq m
    have hreleases : releases (lightBind s m .noReturnValue) = releases s := rfl
    simp only [freed, hitems, hreleases, count_append, count_singleton_self] at hfreed
    omega

theorem not_intact_refused (h : Opened s m) {t : State}
    (hclose : lightClose (answered s m false) m posted = .ok t) :
    ¬ Intact s m ⟨{ t with call := .idle }, bound, b⟩ := by
  intro hintact
  have hmapped : t.mapped = s.mapped := hintact.mapped
  have hgone : t.mapped m = false := by rw [(lightClose_mapped hclose).2, update_self]
  rw [hmapped, h.mapped] at hgone
  cases hgone

theorem intact_unmarked (h : Opened s m) (hfault : t.fault = s.fault)
    (hdescriptors : t.descriptors = s.descriptors) (hmapped : t.mapped = s.mapped)
    (hpending : t.pending = s.pending) (hfree : t.free.items.Perm s.free.items)
    (hothers : ∀ c, some c ∉ s.free.items → t.sockets c = (openedMain s m).sockets c ∧
      t.locals c = (openedMain s m).locals c ∧ t.kernel c = (openedMain s m).kernel c) :
    Intact s m ⟨unmarked t m, [], false⟩ := by
  refine intact_of h (hfault.trans h.fault) rfl hdescriptors hmapped (bundle_unmarked _ _) rfl
    hpending hfree ?_
  intro c hc hnotfree
  obtain ⟨hsockets, hlocals, hkernel⟩ := hothers c hnotfree
  obtain ⟨hsockets', hlocals', hkernel'⟩ := others_openedMain (s := s) hc
  refine ⟨?_, hlocals.trans hlocals', hkernel.trans hkernel'⟩
  calc (unmarked t m).sockets c = t.sockets c := update_of_ne hc ..
    _ = s.sockets c := hsockets.trans hsockets'

theorem intact_no_connection (h : Opened s m) :
    Intact s m ⟨unmarked (openedMain s m) m, [], false⟩ :=
  intact_unmarked h rfl rfl rfl rfl (.refl _) fun _ _ => ⟨rfl, rfl, rfl⟩

def taken (s : State) (m c : Nat) (free : Ring (Option Nat) fdRingCap) : State :=
  setLocal (setSocket { openedMain s m with free := free } c
    { (openedMain s m).sockets c with isMulticore := false }) c
    { (openedMain s m).locals c with hasSocket := true, isInit := false }

theorem lightGetSocket_openedMain (s : State) (m : Nat) : lightGetSocket (openedMain s m) =
      match s.free.dequeue with
      | none => .ok none
      | some (none, _) => .error .nullPointer
      | some (some c, free) => .ok (some (c, taken s m c free)) := rfl

theorem intact_no_return_value (h : Opened s m) {free : Ring (Option Nat) fdRingCap}
    (hdequeue : s.free.dequeue = some (some c, free)) :
    Intact s m
      ⟨unmarked (lightSocketInit (taken s m c free) c 1 .noReturnValue).1 m, [], false⟩ := by
  have hitems := Ring.dequeue_eq_some_iff.mp hdequeue
  have hptr : pointer (taken s m c free) c = some c := by simp [pointer, taken, setLocal, setSocket]
  have hroom : free.items.length < fdRingCap := by
    have := h.room
    rw [hitems, length_cons] at this
    omega
  have hback : (putFree free (pointer (taken s m c free) c)).items = free.items ++ [some c] := by
    rw [hptr, items_putFree _ _ hroom]
  refine intact_unmarked h rfl rfl rfl rfl ?_ ?_
  · show (putFree free (pointer (taken s m c free) c)).items.Perm s.free.items
    rw [hback, hitems]
    exact perm_append_singleton _ _
  · intro c' hnotfree
    have hne : c' ≠ c := by
      rintro rfl
      exact hnotfree (by rw [hitems]; exact mem_cons_self ..)
    exact ⟨update_of_ne hne .., update_of_ne hne .., rfl⟩

theorem not_intact_lost {free : Ring (Option Nat) fdRingCap}
    (hdequeue : s.free.dequeue = some (some c, free)) :
    ¬ Intact s m ⟨unmarked (taken s m c free) m, bound, b⟩ := by
  intro hintact
  have hitems := Ring.dequeue_eq_some_iff.mp hdequeue
  have hfreed := hintact.freed_eq c
  have hreleases : releases (unmarked (taken s m c free) m) = releases s := rfl
  have hfree : (unmarked (taken s m c free) m).free = free := rfl
  simp only [freed, hreleases, hfree, hitems, count_cons_self] at hfreed
  omega

theorem intact_single (h : Opened s m) (hprocs : s.numProcs = 1) {reply : Option Bool} :
    Intact s m ⟨{ openedMain s m with reply := reply, call := .idle }, [], b⟩ := by
  refine intact_of h h.fault rfl rfl rfl
    (bundle_of_single hprocs rfl (copies_zero_openedMain s m)) rfl rfl (.refl _) ?_
  intro c hc _
  exact others_openedMain hc

end First

/-! ## The whole call -/

section Whole

variable {s : State} {m : Nat} {a : Answer} {rest : List Answer} {r : Except Fault Outcome}

theorem serve_lightBindCopy (s : State) (m : Nat) (success : Bool) :
    ∃ b, serve (lightBindCopy (openedMain s m) m 0 .posted) success =
      { openedMain s m with reply := some b, call := .waitBind m 0 } := by
  have hpending : (lightBindCopy (openedMain s m) m 0 .posted).pending.dropLast = s.pending :=
    dropLast_concat ..
  refine ⟨(openedMain s m).kernel (((openedMain s m).sockets m).copies 0) && success, ?_⟩
  have hwait : (lightBindCopy (openedMain s m) m 0 .posted).call = .waitBind m 0 := rfl
  rw [serve_waitBind hwait, hpending]
  rfl

theorem lightBindCopy_not_posted (s : State) (m i : Nat) (halloc : alloc ≠ .posted) :
    lightBindCopy s m i alloc = { s with call := .idle } := by
  cases alloc with
  | posted => exact (halloc rfl).elim
  | noCommand | noReturnValue | notQueued => rfl

theorem nowBound_answered (s : State) (m : Nat) (b : Bool) : nowBound (answered s m b) = [] := rfl

theorem not_atomic_refused (h : Opened s m) (hrefused : a.success = false)
    (hrun : goOn (a :: rest) [] (lightBind s m .posted) = some r) : ¬ Atomic s m r := by
  have hserve : serve (lightBind s m .posted) a.success = answered s m false := by
    rw [serve_lightBind, hrefused]
  have hresume : lightBindResume (serve (lightBind s m .posted) a.success) a.alloc a.posted =
      some (do
        let t ← lightClose (answered s m false) m a.posted
        return { t with call := .idle }) := by
    rw [hserve]
    rfl
  cases hclose : lightClose (answered s m false) m a.posted with
  | error f =>
    rw [hclose] at hresume
    rw [goOn_error hresume hrun]
    exact id
  | ok t =>
    rw [hclose] at hresume
    rw [(goOn_idle hresume rfl hrun).2]
    exact not_intact_refused h hclose

theorem atomic_single (h : Opened s m) (hprocs : s.numProcs = 1) (hopened : a.success = true)
    (hrun : goOn (a :: rest) [] (lightBind s m .posted) = some r) (hfailed : Failed r) :
    Atomic s m r := by
  have hserve : serve (lightBind s m .posted) a.success = answered s m true := by
    rw [serve_lightBind, hopened]
  have hresume : lightBindResume (serve (lightBind s m .posted) a.success) a.alloc a.posted =
      some (.ok (lightBindCopy (openedMain s m) m 0 a.alloc)) := by
    rw [hserve, resume_openedMain, if_neg (by omega), spread_single (s := openedMain s m) hprocs]
    rfl
  by_cases halloc : a.alloc = .posted
  · have hwait : (lightBindCopy (openedMain s m) m 0 .posted).call = .waitBind m 0 := rfl
    have hrun := goOn_waits hresume (by rw [halloc, hwait]; simp) hrun
    rw [hserve, nowBound_answered, append_nil, halloc] at hrun
    cases rest with
    | nil => cases hrun
    | cons a' rest =>
      obtain ⟨b, hserve'⟩ := serve_lightBindCopy s m a'.success
      have hlast : ¬ (0 + 1 < s.numProcs) := by omega
      have hresume' :
          lightBindResume (serve (lightBindCopy (openedMain s m) m 0 .posted) a'.success)
            a'.alloc a'.posted =
              some (.ok { openedMain s m with reply := some b, call := .idle }) := by
        rw [hserve']
        show some (Except.ok (if b && decide (0 + 1 < s.numProcs) then _ else _)) = _
        rw [if_neg (by simp [hlast])]
      obtain ⟨-, rfl⟩ := goOn_idle hresume' rfl hrun
      -- a refusal, for otherwise the call would have succeeded
      rw [hserve'] at hfailed ⊢
      cases b with
      | true =>
        have : decide (s.numProcs ≤ 0 + 1) = false := hfailed
        simp [hprocs] at this
      | false => exact intact_single h hprocs
  · rw [lightBindCopy_not_posted _ _ _ halloc] at hresume
    rw [(goOn_idle hresume rfl hrun).2, hserve]
    exact intact_single h hprocs

theorem atomic_several (h : Opened s m) (hprocs : s.numProcs ≠ 1) (hopened : a.success = true)
    (hrun : goOn (a :: rest) [] (lightBind s m .posted) = some r) :
    Atomic s m r ↔ rest = [] ∧
      (s.free.items = [] ∨ s.free.items.head? ≠ some none ∧ a.alloc = .noReturnValue) := by
  have hserve : serve (lightBind s m .posted) a.success = answered s m true := by
    rw [serve_lightBind, hopened]
  have hmore : 1 < s.numProcs := by
    have := h.numProcs_pos
    omega
  have hresume := resume_openedMain s m a.alloc a.posted
  rw [if_pos hmore, lightGetSocket_openedMain, ← hserve] at hresume
  cases hdequeue : s.free.dequeue with
  | none =>
    rw [hdequeue] at hresume
    have hempty := Ring.dequeue_eq_none_iff.mp hdequeue
    obtain ⟨hrest, rfl⟩ := goOn_idle hresume rfl hrun
    rw [hserve]
    exact iff_of_true (intact_no_connection h) ⟨hrest, .inl hempty⟩
  | some x =>
    obtain ⟨c, free⟩ := x
    rw [hdequeue] at hresume
    have hitems := Ring.dequeue_eq_some_iff.mp hdequeue
    cases c with
    | none =>
      rw [goOn_error hresume hrun, hitems]
      exact iff_of_false id (by simp)
    | some c =>
      cases halloc : a.alloc with
      | posted =>
        rw [halloc] at hresume
        refine iff_of_false ?_ (by simp [hitems])
        have hne : m ≠ c := by
          rintro rfl
          exact h.not_free (by rw [hitems]; exact mem_cons_self ..)
        have hdeep : Deep s m { (lightSocketInit (taken s m c free) c 1 .posted).1 with
            call := .waitOpen m c 1 } := by
          refine ⟨rfl, rfl, ?_, ?_⟩
          · show ((taken s m c free).sockets m).isMulticore = true
            simp [taken, openedMain, answered, marked, setLocal, setSocket, hne]
          · intro hmem
            exact h.not_free (by rw [hitems]; exact mem_cons_of_mem _ hmem)
        have hrun := goOn_waits (by rw [halloc]; exact hresume) (by simp) hrun
        cases r with
        | error f => exact id
        | ok o =>
          obtain ⟨hidle, hspoiled⟩ := hdeep.goOn ⟨rfl, Nat.one_pos⟩ hrun
          exact hspoiled.not_intact hprocs hidle
      | noReturnValue =>
        rw [halloc] at hresume
        obtain ⟨hrest, rfl⟩ := goOn_idle (by rw [halloc]; exact hresume) rfl hrun
        rw [hserve]
        exact iff_of_true (intact_no_return_value h hdequeue) ⟨hrest, .inr ⟨by simp [hitems], rfl⟩⟩
      | noCommand | notQueued =>
        rw [halloc] at hresume
        rw [(goOn_idle (by rw [halloc]; exact hresume) rfl hrun).2]
        exact iff_of_false (not_intact_lost hdequeue) (by simp [hitems])

end Whole

/-- A failed `light_bind` leaves everything in order exactly when it fails at the first copy for
want of a connection or return value buffer, or, with one stack process, for another reason than
such a buffer or a refusal. -/
theorem light_bind_atomic_iff (s : State) (m : Nat) (alloc : Alloc) (answers : List Answer)
    (r : Except Fault Outcome) (hopened : Opened s m)
    (hcall : lightBindCall s m alloc answers = some r) (hfailed : Failed r) :
    Atomic s m r ↔ Undone s alloc answers := by
  by_cases halloc : alloc = .posted
  · subst halloc
    have hrun : goOn answers [] (lightBind s m .posted) = some r := hcall
    cases answers with
    | nil => cases hrun
    | cons a rest =>
      cases hsuccess : a.success with
      | false =>
        exact iff_of_false (not_atomic_refused hopened hsuccess hrun) (by simp [Undone, hsuccess])
      | true =>
        by_cases hprocs : s.numProcs = 1
        · exact iff_of_true (atomic_single hopened hprocs hsuccess hrun hfailed)
            ⟨hsuccess, .inl hprocs⟩
        · rw [atomic_several hopened hprocs hsuccess hrun]
          simp [Undone, hsuccess, hprocs]
  · have hidle : (lightBind s m alloc).call = .idle := lightBind_idle hopened halloc
    unfold lightBindCall at hcall
    dsimp only at hcall
    rw [if_pos hidle] at hcall
    cases answers with
    | nil =>
      cases hcall
      exact atomic_not_posted hopened halloc
    | cons a rest => cases hcall

theorem light_bind_atomic_iff_first_copy : ∃ s r, system.Reachable s ∧ Opened s 0 ∧
      lightBindCall s 0 .posted [⟨true, .noReturnValue, 0⟩] = some r ∧ Failed r ∧
      Atomic s 0 r := by
  obtain ⟨s, hreach, ⟨hidle, hmem, hundone⟩, hcall⟩ :=
    system.exists_reachableUnder Supplied (startWith 2) [.openSocket]
      (P := fun s => (s.call = .idle ∧ 0 ∈ s.descriptors ∧
        Undone s .posted [⟨true, .noReturnValue, 0⟩]) ∧
        (lightBindCall s 0 .posted [⟨true, .noReturnValue, 0⟩]).any (fun r => decide (Failed r)))
      (start_startWith (by decide)) (by decide +kernel)
  obtain ⟨r, hcall, hfailed⟩ := (Option.any_eq_true _ _).mp hcall
  have hopened := (partition_of_reachable hreach).opened hidle hmem
  have hfailed := of_decide_eq_true hfailed
  exact ⟨s, r, hreach.reachable, hopened, hcall, hfailed,
    (light_bind_atomic_iff s 0 .posted _ r hopened hcall hfailed).mpr hundone⟩

theorem light_bind_leaves_listener : ∃ s o, system.Reachable s ∧ Opened s 0 ∧
      lightBindCall s 0 .posted
        [⟨true, .posted, 0⟩, ⟨true, .posted, 0⟩, ⟨false, .posted, 0⟩] = some (.ok o) ∧
      o.success = false ∧ bundle o.state 0 = [0, 1] ∧ freed o.state 1 < freed s 1 ∧
      ¬ Atomic s 0 (.ok o) := by
  obtain ⟨s, hreach, ⟨hidle, hmem⟩, hcall⟩ :=
    system.exists_reachableUnder Supplied (startWith 2) [.openSocket]
      (P := fun s => (s.call = .idle ∧ 0 ∈ s.descriptors) ∧
        (lightBindCall s 0 .posted
          [⟨true, .posted, 0⟩, ⟨true, .posted, 0⟩, ⟨false, .posted, 0⟩]).any (fun r =>
          r.toOption.any fun o => decide (o.success = false ∧ bundle o.state 0 = [0, 1] ∧
            freed o.state 1 < freed s 1)))
      (start_startWith (by decide)) (by decide +kernel)
  obtain ⟨r, hcall, houtcome⟩ := (Option.any_eq_true _ _).mp hcall
  have hopened := (partition_of_reachable hreach).opened hidle hmem
  cases r with
  | error f => cases houtcome
  | ok o =>
    obtain ⟨hsuccess, hbundle, hfreed⟩ := of_decide_eq_true houtcome
    refine ⟨s, o, hreach.reachable, hopened, hcall, hsuccess, hbundle, hfreed, fun hatomic => ?_⟩
    have hsingle := Intact.single hatomic
    rw [hbundle] at hsingle
    cases hsingle

end LightStack.Conn
