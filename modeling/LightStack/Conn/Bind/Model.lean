import LightStack.Conn.Ownership

/-!
# The ways in which `light_bind` fails

A call is followed from its first line to its return, with what it meets as input.
-/

namespace LightStack.Conn

open Lib
open Fd (fdRingCap)

structure Answer where
  success : Bool
  alloc : Alloc
  posted : Nat

def serve (s : State) (success : Bool) : State :=
  match s.call with
  | .idle => s
  | .waitOpen _ current i =>
    processCommand { s with pending := s.pending.dropLast } i success (.openSocket current)
  | .waitBind main i =>
    processCommand { s with pending := s.pending.dropLast } i success
      (.bind ((s.sockets main).copies i))

def nowBound (s : State) : List Nat :=
  match s.call, s.reply with
  | .waitBind main i, some true => [(s.sockets main).copies i]
  | _, _ => []

def succeeds (s : State) : Bool :=
  match s.call, s.reply with
  | .waitBind _ i, some true => decide (s.numProcs ≤ i + 1)
  | _, _ => false

structure Outcome where
  state : State
  bound : List Nat
  success : Bool

def goOn : List Answer → List Nat → State → Option (Except Fault Outcome)
  | [], _, _ => none
  | a :: rest, bound, s =>
    let u := serve s a.success
    match lightBindResume u a.alloc a.posted with
    | none => none
    | some (.error f) => if rest.isEmpty then some (.error f) else none
    | some (.ok t) =>
      if t.call = .idle then
        if rest.isEmpty then some (.ok ⟨t, bound ++ nowBound u, succeeds u⟩) else none
      else goOn rest (bound ++ nowBound u) t

def lightBindCall (s : State) (m : Nat) (alloc : Alloc) (answers : List Answer) :
    Option (Except Fault Outcome) :=
  let t := lightBind s m alloc
  if t.call = .idle then
    if answers.isEmpty then some (.ok ⟨t, [], false⟩) else none
  else goOn answers [] t

def Failed : Except Fault Outcome → Prop
  | .error _ => True
  | .ok o => o.success = false

instance : (r : Except Fault Outcome) → Decidable (Failed r)
  | .error _ => .isTrue trivial
  | .ok o => inferInstanceAs (Decidable (o.success = false))

def freed (s : State) (c : Nat) : Nat := s.free.items.count (some c) + (releases s).count c

structure Intact (s : State) (m : Nat) (o : Outcome) : Prop where
  closes : ∀ posted, ∃ t, lightClose o.state m posted = .ok t
  binds : ∀ alloc, (step o.state (.bind m alloc)).isSome = true
  single : bundle o.state m = [m]
  unbound : m ∉ o.bound
  freed_eq : ∀ c, freed o.state c = freed s c
  descriptors : o.state.descriptors = s.descriptors
  mapped : o.state.mapped = s.mapped
  others : ∀ c, c ≠ m → some c ∉ s.free.items → o.state.sockets c = s.sockets c ∧
    o.state.locals c = s.locals c ∧ o.state.kernel c = s.kernel c

def Atomic (s : State) (m : Nat) : Except Fault Outcome → Prop
  | .error _ => False
  | .ok o => Intact s m o

structure Opened (s : State) (m : Nat) : Prop where
  fault : s.fault = none
  call : s.call = .idle
  descriptor : m ∈ s.descriptors
  mapped : s.mapped m = true
  numProcs_pos : 0 < s.numProcs
  not_free : some m ∉ s.free.items
  hasSocket : (s.locals m).hasSocket = true
  room : s.free.items.length < fdRingCap

theorem Partition.opened {s : State} {m : Nat} (h : Partition s) (hidle : s.call = .idle)
    (hm : m ∈ s.descriptors) : Opened s m where
  fault := h.fault
  call := hidle
  descriptor := hm
  mapped := (h.mapped_iff m).mpr hm
  numProcs_pos := h.numProcs_pos
  not_free := fun hfree => h.not_owned_of_free hfree (h.descriptor_mem_owned hm)
  hasSocket := h.hasSocket m (h.descriptor_mem_owned hm)
  room := by
    have hroom := h.free_room
    have howned := List.length_pos_of_mem (h.descriptor_mem_owned hm)
    omega

def Undone (s : State) (alloc : Alloc) : List Answer → Prop
  | [] => s.numProcs = 1 ∧ alloc ≠ .noReturnValue
  | a :: rest => a.success = true ∧
      (s.numProcs = 1 ∨ rest = [] ∧
        (s.free.items = [] ∨ s.free.items.head? ≠ some none ∧ a.alloc = .noReturnValue))

instance (s : State) (alloc : Alloc) : (answers : List Answer) → Decidable (Undone s alloc answers)
  | [] | _ :: _ => inferInstanceAs (Decidable (_ ∧ _))

/-! ## Steps of a call -/

variable {main i posted : Nat} {alloc : Alloc} {bound : List Nat}

section Answers

variable {s t : State} {m : Nat} {a : Answer} {rest : List Answer} {r : Except Fault Outcome}

theorem serve_waitOpen {c : Nat} (h : s.call = .waitOpen main c i) (b : Bool) : serve s b = { s with
      pending := s.pending.dropLast
      kernel := if b then Function.update s.kernel c true else s.kernel
      reply := some b } := by
  unfold serve
  rw [h]
  cases b <;> rfl

theorem serve_waitBind (h : s.call = .waitBind main i) (b : Bool) : serve s b = { s with
      pending := s.pending.dropLast
      reply := some (s.kernel ((s.sockets main).copies i) && b) } := by
  unfold serve
  rw [h]
  rfl

theorem bindFail_ok (h : bindFail s main i posted = .ok t) :
    t.call = .idle ∧ ∃ u, (List.range' 1 (i - 1)).foldlM
      (fun s j => lightClose s ((s.sockets main).copies j) posted) s = .ok u ∧
      t.mapped = u.mapped := by
  unfold bindFail at h
  obtain ⟨u, hfold, ⟨⟩⟩ := of_bind_ok h
  exact ⟨rfl, u, hfold, rfl⟩

theorem lightBind_idle (h : Opened s m) (halloc : alloc ≠ .posted) :
    (lightBind s m alloc).call = .idle := by
  cases alloc with
  | posted => exact (halloc rfl).elim
  | _ => exact h.call

theorem goOn_idle {u t : State}
    (hresume : lightBindResume (serve u a.success) a.alloc a.posted = some (.ok t))
    (hidle : t.call = .idle) (hrun : goOn (a :: rest) bound u = some r) :
    rest = [] ∧
      r = .ok ⟨t, bound ++ nowBound (serve u a.success), succeeds (serve u a.success)⟩ := by
  simp only [goOn, hresume, if_pos hidle] at hrun
  split at hrun
  · rename_i hempty
    exact ⟨List.isEmpty_iff.mp hempty, (Option.some.inj hrun).symm⟩
  · cases hrun

theorem goOn_error {u : State} {f : Fault}
    (hresume : lightBindResume (serve u a.success) a.alloc a.posted = some (.error f))
    (hrun : goOn (a :: rest) bound u = some r) : r = .error f := by
  simp only [goOn, hresume] at hrun
  split at hrun
  · exact (Option.some.inj hrun).symm
  · cases hrun

theorem goOn_waits {u t : State}
    (hresume : lightBindResume (serve u a.success) a.alloc a.posted = some (.ok t))
    (hwaits : t.call ≠ .idle) (hrun : goOn (a :: rest) bound u = some r) :
    goOn rest (bound ++ nowBound (serve u a.success)) t = some r := by
  simpa only [goOn, hresume, if_neg hwaits] using hrun

end Answers

/-! ## A call as a run -/

/-- The steps in which the call meets `answers`, each given by the process named beside it. -/
def answersRun (procs : List Nat) (answers : List Answer) : List Action :=
  (List.zipWith (fun k a => [.stack k a.success, .resume a.alloc a.posted]) procs answers).flatten

theorem reply_of_succeeds {s : State} (h : succeeds s = true) : s.reply = some true := by
  unfold succeeds at h
  split at h
  · assumption
  · cases h

structure Waiting (s : State) : Prop where
  fault : s.fault = none
  up : ∀ k, s.down k = false
  asked : match s.call with
    | .idle => False
    | .waitOpen _ current i => s.pending = [(i, .openSocket current)]
    | .waitBind main i => s.pending = [(i, .bind ((s.sockets main).copies i))]

namespace Waiting

variable {s u t : State}

theorem not_idle (h : Waiting s) : s.call ≠ .idle := by
  intro hidle
  have hasked := h.asked
  rw [hidle] at hasked
  exact hasked

theorem step_serve (h : Waiting s) (b : Bool) :
    ∃ k, step s (.stack k b) = some (serve s b) ∧ (serve s b).pending = [] ∧
      (serve s b).fault = none ∧ ∀ j, (serve s b).down j = false := by
  have hasked := h.asked
  cases hcall : s.call with
  | idle => exact (h.not_idle hcall).elim
  | waitOpen main c i =>
    rw [hcall] at hasked
    refine ⟨i, ?_, ?_, ?_, ?_⟩
    · simp [step, h.up, hasked, Mailbox.take, serve, hcall]
    · rw [serve_waitOpen hcall, hasked]
      rfl
    · rw [serve_waitOpen hcall]
      exact h.fault
    · rw [serve_waitOpen hcall]
      exact h.up
  | waitBind main i =>
    rw [hcall] at hasked
    refine ⟨i, ?_, ?_, ?_, ?_⟩
    · simp [step, h.up, hasked, Mailbox.take, serve, hcall]
    · rw [serve_waitBind hcall, hasked]
      rfl
    · rw [serve_waitBind hcall]
      exact h.fault
    · rw [serve_waitBind hcall]
      exact h.up

section

variable (hfault : u.fault = none) (hup : ∀ k, u.down k = false) (hpending : u.pending = [])

include hfault hup hpending

theorem of_lightBindCopy (hwaits : (lightBindCopy u main i alloc).call ≠ .idle) :
    Waiting (lightBindCopy u main i alloc) := by
  cases alloc with
  | posted =>
    refine ⟨hfault, hup, ?_⟩
    show u.pending ++ [_] = [_]
    rw [hpending]
    rfl
  | _ => exact (hwaits rfl).elim

theorem of_bindNext {c : Nat} (hnext : bindNext u main c i alloc posted = .ok t)
    (hwaits : t.call ≠ .idle) : Waiting t := by
  unfold bindNext at hnext
  dsimp only at hnext
  have hreg : ∀ v : State, v = (if i = 0 then setLocal u c { u.locals c with isInit := true }
      else register (setLocal u c { u.locals c with isInit := true }) main c i) →
      v.fault = none ∧ (∀ k, v.down k = false) ∧ v.pending = [] := by
    rintro v rfl
    split
    · exact ⟨hfault, hup, hpending⟩
    · exact ⟨hfault, hup, hpending⟩
  generalize (if i = 0 then setLocal u c { u.locals c with isInit := true }
      else register (setLocal u c { u.locals c with isInit := true }) main c i) = v at hnext hreg
  obtain ⟨hfault, hup, hpending⟩ := hreg v rfl
  split at hnext
  · obtain ⟨x, hget, hnext⟩ := of_bind_ok hnext
    cases x with
    | none => exact (hwaits (bindFail_ok hnext).1).elim
    | some x =>
      obtain ⟨c', w⟩ := x
      have hw : w.fault = none ∧ (∀ k, w.down k = false) ∧ w.pending = [] := by
        unfold lightGetSocket at hget
        split at hget
        · cases hget
        · cases hget
        · obtain ⟨rfl, rfl⟩ := Prod.mk.inj (Option.some.inj (Except.ok.inj hget))
          exact ⟨hfault, hup, hpending⟩
      dsimp only at hnext
      split at hnext
      · rename_i v' hinit
        cases hnext
        cases alloc with
        | posted =>
          obtain ⟨rfl, -⟩ := Prod.mk.inj hinit
          refine ⟨hw.1, hw.2.1, ?_⟩
          show w.pending ++ [_] = [_]
          rw [hw.2.2]
          rfl
        | _ => cases (Prod.mk.inj hinit).2
      · exact (hwaits (bindFail_ok hnext).1).elim
  · cases hnext
    exact of_lightBindCopy (u := spread v main) hfault hup hpending hwaits

theorem of_resume (hresume : lightBindResume u alloc posted = some (.ok t))
    (hwaits : t.call ≠ .idle) : Waiting t ∧ u.reply = some true := by
  unfold lightBindResume at hresume
  split at hresume
  · rename_i main c i success hcall hreply
    have hresume := Option.some.inj hresume
    split at hresume
    · rename_i hsuccess
      rw [hreply, hsuccess]
      exact ⟨of_bindNext hfault hup hpending hresume hwaits, rfl⟩
    · -- whatever else is done, the call has ended
      refine (hwaits ?_).elim
      obtain ⟨w, -, hresume⟩ := of_bind_ok hresume
      split at hresume
      · cases hresume
        rfl
      · exact (bindFail_ok hresume).1
  · rename_i success hcall hreply
    have hresume := Except.ok.inj (Option.some.inj hresume)
    split at hresume
    · rename_i hnext
      subst hresume
      rw [hreply, (Bool.and_eq_true_iff.mp hnext).1]
      exact ⟨of_lightBindCopy hfault hup hpending hwaits, rfl⟩
    · subst hresume
      exact (hwaits rfl).elim
  · cases hresume

end

theorem success_of_reply {b : Bool} (h : Waiting s) (hreply : (serve s b).reply = some true) :
    b = true := by
  cases hcall : s.call with
  | idle => exact (h.not_idle hcall).elim
  | waitOpen main c i =>
    rw [serve_waitOpen hcall] at hreply
    exact Option.some.inj hreply
  | waitBind main i =>
    rw [serve_waitBind hcall] at hreply
    exact (Bool.and_eq_true_iff.mp (Option.some.inj hreply)).2

theorem exec_goOn {answers : List Answer} {o : Outcome} (h : Waiting s)
    (hrun : goOn answers bound s = some (.ok o)) :
    ∃ procs, procs.length = answers.length ∧
      system.exec s (answersRun procs answers) = some o.state ∧
      (o.success = true → ∀ a ∈ answers, a.success = true) := by
  induction answers generalizing bound s with
  | nil => cases hrun
  | cons a rest ih =>
    obtain ⟨k, hstep, hpending, hfault, hup⟩ := h.step_serve a.success
    cases hresume : lightBindResume (serve s a.success) a.alloc a.posted with
    | none =>
      simp only [goOn, hresume] at hrun
      cases hrun
    | some x =>
      cases x with
      | error f => cases goOn_error hresume hrun
      | ok t =>
        have hnext : step (serve s a.success) (.resume a.alloc a.posted) = some t := by
          simp [step, hfault, hresume, settle]
        by_cases hidle : t.call = .idle
        · obtain ⟨rfl, hout⟩ := goOn_idle hresume hidle hrun
          obtain rfl := Except.ok.inj hout
          refine ⟨[k], rfl, ?_, ?_⟩
          · simp [answersRun, TransitionSystem.exec, system, hstep, hnext]
          · intro hsuccess
            simpa using h.success_of_reply (reply_of_succeeds hsuccess)
        · have hrun := goOn_waits hresume hidle hrun
          obtain ⟨hwaiting, hreply⟩ := of_resume hfault hup hpending hresume hidle
          obtain ⟨procs, hlength, hexec, hsuccess⟩ := ih hwaiting hrun
          refine ⟨k :: procs, by simp [hlength], ?_, ?_⟩
          · simpa [answersRun, TransitionSystem.exec, system, hstep, hnext] using hexec
          · intro hout
            simpa [h.success_of_reply hreply] using hsuccess hout

end Waiting

/-- A call of `light_bind` that returns is a run of the system: the call itself, then for each of
the answers it meets a stack process that gives the answer and the call going on with it. It
succeeds only if its ring element is enqueued and every answer is a success. -/
theorem exec_lightBindCall {s : State} {m : Nat} {answers : List Answer}
    {o : Outcome} (hopened : Opened s m) (hpending : s.pending = []) (hup : ∀ k, s.down k = false)
    (hcall : lightBindCall s m alloc answers = some (.ok o)) :
    ∃ procs, procs.length = answers.length ∧
      system.exec s (.bind m alloc :: answersRun procs answers) = some o.state ∧
      (o.success = true → alloc = .posted ∧ ∀ a ∈ answers, a.success = true) := by
  have hstep : step s (.bind m alloc) = some (lightBind s m alloc) := by
    simp [step, ready, hopened.fault, hopened.call, hopened.descriptor]
  by_cases halloc : alloc = .posted
  · subst halloc
    have hwaiting : Waiting (lightBind s m .posted) := by
      refine ⟨hopened.fault, hup, ?_⟩
      show s.pending ++ [_] = [_]
      rw [hpending]
      rfl
    obtain ⟨procs, hlength, hexec, hsuccess⟩ := hwaiting.exec_goOn hcall
    refine ⟨procs, hlength, ?_, fun hout => ⟨rfl, hsuccess hout⟩⟩
    simpa [TransitionSystem.exec, system, hstep] using hexec
  · have hidle : (lightBind s m alloc).call = .idle := lightBind_idle hopened halloc
    unfold lightBindCall at hcall
    dsimp only at hcall
    rw [if_pos hidle] at hcall
    split at hcall
    · rename_i hempty
      cases hcall
      obtain rfl := List.isEmpty_iff.mp hempty
      refine ⟨[], rfl, ?_, fun hout => absurd hout Bool.false_ne_true⟩
      simp [answersRun, TransitionSystem.exec, system, hstep]
    · cases hcall

/-- Two processes, the descriptor `0` open and the index `1` free. -/
def openedZero : State :=
  { startWith 2 with
    free := ⟨[some 1], by decide⟩
    descriptors := [0]
    mapped := fun c => c == 0
    locals := fun _ => ⟨true, false, 0⟩ }

theorem exec_lightBindCall_two_processes : ∃ o procs, Opened openedZero 0 ∧
    lightBindCall openedZero 0 .posted (List.replicate 4 ⟨true, .posted, 0⟩) = some (.ok o) ∧
    o.success = true ∧ o.bound = [0, 1] ∧ procs.length = 4 ∧
    system.exec openedZero
      (.bind 0 .posted :: answersRun procs (List.replicate 4 ⟨true, .posted, 0⟩)) =
      some o.state := by
  have hopened : Opened openedZero 0 :=
    ⟨rfl, rfl, by simp [openedZero], rfl, by decide, by decide, rfl, by decide⟩
  obtain ⟨o, hcall, hsuccess, hbound⟩ : ∃ o, lightBindCall openedZero 0 .posted
      (List.replicate 4 ⟨true, .posted, 0⟩) = some (.ok o) ∧ o.success = true ∧
      o.bound = [0, 1] := ⟨_, rfl, rfl, rfl⟩
  obtain ⟨procs, hlength, hrun, -⟩ := exec_lightBindCall hopened rfl (fun _ => rfl) hcall
  exact ⟨o, procs, hopened, hcall, hsuccess, hbound, hlength, hrun⟩

end LightStack.Conn
