import LightStack.Service.Rings.Carried
import LightStack.Service.Up

/-!
# Every open kernel socket has an owner
-/

namespace LightStack.Service.Rings

open Lib Function List
open Conn (realSocket)

def OwnedOnce (s : State) (k a : Nat) : Prop :=
  (∃! c, (s.service.procs k).satellite c = some a) ∧ (k, a) ∉ carried s ∨
    (∀ c, (s.service.procs k).satellite c ≠ some a) ∧ (carried s).count (k, a) = 1

/-! ## The condition -/

def vacant (p : Proc) (c : Nat) : Bool :=
  match p.satellite c with
  | none => true
  | some a => !(p.memory a).live

def given (success : Bool) : Entry → Option Nat
  | .openSocket _ c _ => if success then some c else none
  | .setSocketRing c _ => some c
  | _ => none

def closing (s : State) (i : Nat) (a : Conn.Action) (stream : Bool) : List Nat :=
  match Service.call s.service i a stream with
  | none => []
  | some t => closesPosted s.service t

def supplied (s : State) (i : Nat) : Bool :=
  match s.service.free.items with
  | [] => true
  | some _ :: _ => decide (0 < (s.service.apps i).freeFds)
  | none :: _ => false

def HandedOn (s : State) : Action → Prop
  | .service (.call i a stream) => ∀ c ∈ closing s i a stream, noneWaits s c
  | .service (.accept i m k filled) =>
    match Mailbox.take ((s.service.sockets m).copies k) s.rx with
    | some (.command d, _) => d.1 = k ∧ filled = true ∧ supplied s i = true
    | _ => True
  | .service (.recv i m _) => noneWaits s (realSocket (view s.service i) m)
  | .service (.stack k success address) =>
    match Mailbox.take k s.service.ring with
    | none => True
    | some (e, _) =>
      (allocates e = true → unreferenced s k address) ∧
        (∀ c ∈ given success e, vacant (s.service.procs k) c = true) ∧
        ∀ c ∈ flushed (s.service.procs k) k e, noneWaits s c
  | .service (.connects k _ b filled) => filled = true ∧ unreferenced s k b
  | _ => True

theorem HandedOn.fresh {s : State} {a : Action} (h : HandedOn s a) : Fresh s a := by
  unfold Fresh
  split
  · rintro ⟨e, rest⟩ htake
    simp only [HandedOn, Option.mem_def.mp htake] at h
    exact h.1
  · exact h.2
  · trivial

variable {i m a b : Nat} {q : Proc}

theorem pending_ne_nil_of_accept {s : State} {k : Nat} {u : Conn.State}
    (hsupplied : supplied s i = true)
    (h : Conn.step (view s.service i) (.accept m k true) = some u) : u.pending ≠ [] := by
  obtain ⟨-, hu⟩ := Option.ite_none_right_eq_some.mp h
  cases hu
  unfold supplied at hsupplied
  unfold Conn.lightAccept
  split
  · simp [Conn.settle, Conn.post]
  · next hdequeue =>
    have hitems := Ring.dequeue_eq_some_iff.mp hdequeue
    change s.service.free.items = _ at hitems
    rw [hitems] at hsupplied
    cases hsupplied
  · next hdequeue =>
    have hitems := Ring.dequeue_eq_some_iff.mp hdequeue
    change s.service.free.items = _ at hitems
    rw [hitems] at hsupplied
    have hfds : (s.service.apps i).freeFds ≠ 0 :=
      Nat.pos_iff_ne_zero.mp (of_decide_eq_true hsupplied)
    simp [Conn.getNewLightFd, Conn.setLocal, Conn.setSocket, Conn.post, Conn.settle, view, hfds]

/-! ## The invariant -/

structure Owned (s : State) : Prop where
  core : Core s
  home : ∀ x ∈ s.service.ring, ∀ d, descr x.2 = some d → d.1 = x.1
  held : ∀ k a, ((s.service.procs k).memory a).live = true →
    (∃ c, (s.service.procs k).satellite c = some a) ∨ (k, a) ∈ carried s

namespace Owned

variable {s t : State} {k : Nat}

theorem start (h : Start s) : Owned s where
  core := .start h
  home := by simp [h.service.ring_eq]
  held := by
    intro k a hlive
    rw [h.service.procs_eq k] at hlive
    cases hlive

theorem ownedOnce (h : Owned s) (hlive : ((s.service.procs k).memory a).live = true) :
    OwnedOnce s k a := by
  rcases h.held k a hlive with ⟨c, hc⟩ | hcarried
  · refine .inl ⟨⟨c, hc, fun c' hc' => h.core.satellite_inj hc hc'⟩, fun hmem => ?_⟩
    exact h.core.satellite_ne (h.core.apart k a hmem) c hc
  · exact .inr ⟨h.core.satellite_ne (h.core.apart k a hcarried),
      count_eq_one_of_mem h.core.once hcarried⟩

theorem post (h : Owned s) (hcore : Core t) {new : List (Nat × Entry)}
    (hprocs : t.service.procs = s.service.procs) (hring : t.service.ring = s.service.ring ++ new)
    (hnew : ∀ x ∈ new, descr x.2 = none) (hrx : offered t.rx = offered s.rx) : Owned t where
  core := hcore
  home := by
    intro x hx d hd
    rw [hring] at hx
    rcases mem_append.mp hx with hx | hx
    · exact h.home x hx d hd
    · rw [hnew x hx] at hd
      cases hd
  held := by
    intro k a hlive
    have hcarried : carried t = carried s := by
      rw [carried, carried, hring, hrx, posted_append, posted_eq_nil hnew, append_nil]
    rw [hprocs] at hlive ⊢
    rw [hcarried]
    exact h.held k a hlive

theorem offered_flush {cs : List Nat} (h : ∀ c ∈ cs, noneWaits s c) :
    offered (s.rx.filter fun x => decide (x.1 ∉ cs)) = offered s.rx := by
  refine offered_filter fun x hx hmem => ?_
  have hin : x.1 ∈ cs := by simpa using hmem
  exact h x.1 hin x hx rfl

section

variable (h : Owned s)

include h

theorem call {a : Conn.Action} {stream : Bool} (hguard : HandedOn s (.service (.call i a stream)))
    (hstep : call s i a stream = some t) : Owned t := by
  have hcore := h.core.call hstep
  obtain ⟨u, hu, rfl⟩ := Option.map_eq_some_iff.mp hstep
  obtain ⟨hprocs, -, new, hring, hnew⟩ := of_call hu
  refine h.post hcore (by rw [foldl_flushRx_service]; exact hprocs)
    (by rw [foldl_flushRx_service]; exact hring) hnew ?_
  rw [foldl_flushRx_rx]
  refine offered_flush fun c hc => hguard c ?_
  simpa only [closing, hu] using hc

theorem accept {filled : Bool} (hguard : HandedOn s (.service (.accept i m k filled)))
    (hstep : accept s i m k filled = some t) : Owned t := by
  have hcore := h.core.accept hstep
  rcases of_accept hstep with ⟨d, rest, u, htake, hu, rfl, hring⟩ | ⟨rest, htake, rfl⟩
  · simp only [HandedOn, htake] at hguard
    obtain ⟨howner, rfl, hsupplied⟩ := hguard
    rcases hring with ⟨hnone, -⟩ | ⟨e, he, hring⟩
    · exact absurd hnone (pending_ne_nil_of_accept hsupplied hu)
    · refine ⟨hcore, ?_, ?_⟩
      · intro x hx d' hd'
        rw [hring] at hx
        rcases mem_append.mp hx with hx | hx
        · exact h.home x hx d' hd'
        · obtain rfl := mem_singleton.mp hx
          rw [he] at hd'
          cases hd'
          exact howner
      · intro j a hlive
        refine (h.held j a hlive).imp_right fun hmem => ?_
        unfold carried at hmem ⊢
        rw [hring, posted_append, mem_append, mem_append]
        rcases mem_append.mp hmem with hmem | hmem
        · rcases mem_cons.mp ((perm_offered_take htake).mem_iff.mp hmem) with rfl | hmem
          · exact .inr (.inr (by simp [posted, he]))
          · exact .inl hmem
        · exact .inr (.inl hmem)
  · exact h.post hcore rfl (append_nil _).symm (by simp) (offered_take_mbuf htake rfl)

theorem recv {kicked : Bool} (hguard : HandedOn s (.service (.recv i m kicked)))
    (hstep : recv s i m kicked = some t) : Owned t := by
  have hcore := h.core.recv hstep
  obtain ⟨new, hnew, rfl⟩ := of_recv hstep
  refine h.post hcore (by rw [Core.dequeueRxBuf_service]) (by rw [Core.dequeueRxBuf_service])
    hnew ?_
  unfold dequeueRxBuf
  split
  · rfl
  · next entry rest htake =>
    exact offered_take_mbuf htake (hguard _ (Mailbox.mem_of_take htake) rfl)

theorem of_process (hcore : Core t) {e : Entry} {rest : List (Nat × Entry)}
    (htake : Mailbox.take k s.service.ring = some (e, rest))
    (hprocs : t.service.procs = update s.service.procs k q) (hring : t.service.ring = rest)
    (hrx : offered t.rx = offered s.rx)
    (hheld : ∀ a, (q.memory a).live = true →
      (∃ c, q.satellite c = some a) ∨ (k, a) ∈ carried s ∧ descr e ≠ some (k, a)) :
    Owned t := by
  have hstays : ∀ x, x ∈ carried s → descr e ≠ some x → x ∈ carried t := by
    intro x hx hne
    unfold carried at hx ⊢
    rw [hrx, hring]
    rcases mem_append.mp hx with hx | hx
    · exact mem_append_left _ hx
    · refine mem_append_right _ ?_
      cases hd : descr e with
      | none => rwa [posted_take_none htake hd]
      | some d =>
        rcases mem_cons.mp ((perm_posted_take htake hd).mem_iff.mp hx) with rfl | hx
        · exact absurd hd hne
        · exact hx
  refine ⟨hcore, ?_, ?_⟩
  · intro x hx
    rw [hring] at hx
    exact h.home x (Mailbox.subset_of_take htake hx)
  · intro j a hlive
    rw [hprocs] at hlive ⊢
    by_cases hj : j = k
    · subst hj
      simp only [update_self] at hlive ⊢
      exact (hheld a hlive).imp_right fun hmem => hstays _ hmem.1 hmem.2
    · simp only [update_of_ne hj] at hlive ⊢
      refine (h.held j a hlive).imp_right fun hmem => hstays _ hmem fun hd => hj ?_
      exact h.home _ (Mailbox.mem_of_take htake) _ hd

theorem held_set {c : Nat} {y : KernelSocket} (hvacant : vacant (s.service.procs k) c = true)
    (hmemory : q.memory = update (s.service.procs k).memory a y)
    (hsatellite : q.satellite = update (s.service.procs k).satellite c (some a))
    (hlive : (q.memory b).live = true) :
    (∃ c', q.satellite c' = some b) ∨ (k, b) ∈ carried s ∧ b ≠ a := by
  by_cases hb : b = a
  · subst hb
    exact .inl ⟨c, by rw [hsatellite, update_self]⟩
  · rw [hmemory, update_of_ne hb] at hlive
    refine (h.held k b hlive).imp ?_ fun hmem => ⟨hmem, hb⟩
    rintro ⟨c', hc'⟩
    have hne : c' ≠ c := by
      rintro rfl
      simp [vacant, hc', hlive] at hvacant
    exact ⟨c', by rw [hsatellite, update_of_ne hne, hc']⟩

theorem held_close {y : KernelSocket} (hdead : y.live = false)
    (hmemory : q.memory = update (s.service.procs k).memory a y)
    (hsatellite : ∀ c b, b ≠ a → (s.service.procs k).satellite c = some b → q.satellite c = some b)
    (hlive : (q.memory b).live = true) :
    (∃ c', q.satellite c' = some b) ∨ (k, b) ∈ carried s ∧ b ≠ a := by
  have hb : b ≠ a := by
    rintro rfl
    rw [hmemory, update_self, hdead] at hlive
    cases hlive
  rw [hmemory, update_of_ne hb] at hlive
  refine (h.held k b hlive).imp ?_ fun hmem => ⟨hmem, hb⟩
  rintro ⟨c, hc⟩
  exact ⟨c, hsatellite c b hb hc⟩

theorem held_effect {e : Entry} {address : Nat} {success : Bool}
    (hvacant : ∀ c ∈ given success e, vacant (s.service.procs k) c = true)
    (heffect : Effect (s.service.procs k) k address success e q) (a : Nat)
    (hlive : (q.memory a).live = true) :
    (∃ c, q.satellite c = some a) ∨ (k, a) ∈ carried s ∧ descr e ≠ some (k, a) := by
  cases heffect with
  | keeps hkeeps hdescr =>
    have hwas := (hkeeps.alike a).live hlive
    refine (h.held k a hwas).imp ?_ fun hmem => ⟨hmem, fun hd => ?_⟩
    · rintro ⟨c, hc⟩
      exact ⟨c, by rw [hkeeps.satellite, hc]⟩
    · have hsk := (h.core.good k a).sk hwas
      rw [hdescr a hd] at hsk
      cases hsk
  | opens he hsuccess hmemory hsatellite =>
    subst he
    subst hsuccess
    refine (h.held_set (hvacant _ rfl) hmemory hsatellite hlive).imp_right fun hmem => ?_
    exact ⟨hmem.1, by simp [descr]⟩
  | blanks he hmemory hsatellite =>
    subst he
    refine (h.held_close rfl hmemory (fun c b _ hc => ?_) hlive).imp_right fun hmem => ?_
    · rw [hsatellite, hc]
    · exact ⟨hmem.1, by simp [descr]⟩
  | gives he hsk hmemory hsatellite =>
    subst he
    refine (h.held_set (hvacant _ rfl) hmemory hsatellite hlive).imp_right fun hmem => ?_
    refine ⟨hmem.1, fun hd => hmem.2 ?_⟩
    cases hd
    rfl
  | @closes c a' y he hc hmemory hgood hdead hsatellite =>
    refine (h.held_close hdead hmemory (fun c' b hb hc' => ?_) hlive).imp_right fun hmem => ?_
    · have hne : c' ≠ c := by
        rintro rfl
        rw [hc] at hc'
        exact hb (Option.some.inj hc').symm
      rw [hsatellite, update_of_ne hne, hc']
    · refine ⟨hmem.1, ?_⟩
      rcases he with rfl | rfl <;> simp [descr]
  | declines he hmemory hgood hdead huser hsatellite =>
    subst he
    refine (h.held_close hdead hmemory (fun c b _ hc => ?_) hlive).imp_right fun hmem => ?_
    · rw [hsatellite, hc]
    · refine ⟨hmem.1, fun hd => hmem.2 ?_⟩
      cases hd
      rfl

end

theorem offered_flushUser {c : Option Nat} (h : ∀ c' ∈ c, noneWaits s c') :
    offered (flushUser s c).rx = offered s.rx := by
  cases c with
  | none => rfl
  | some c =>
    refine offered_filter fun x hx hne => ?_
    have heq : x.1 = c := by simpa using hne
    exact h c rfl x hx heq

section

variable (h : Owned s)

include h

theorem process {success : Bool} {address : Nat}
    (hguard : HandedOn s (.service (.stack k success address)))
    (hstep : process s k success address = some t) : Owned t := by
  have hcore := h.core.process hguard.fresh hstep
  obtain ⟨e, rest, htake, -, q, u, heffect, hprocs, hring, -, rfl⟩ :=
    Rings.of_process (h.core.good k) hstep
  simp only [HandedOn, htake] at hguard
  refine h.of_process hcore htake ?_ ?_ ?_ (h.held_effect hguard.2.1 heffect)
  · rw [Core.flushUser_service]
    exact hprocs
  · rw [Core.flushUser_service]
    exact hring
  · exact offered_flushUser (s := { s with service := u }) hguard.2.2

theorem connects {filled : Bool} (hguard : HandedOn s (.service (.connects k a b filled)))
    (hstep : userOnAccept s k a b filled = some t) : Owned t := by
  have hcore := h.core.connects hguard.2 hstep
  obtain ⟨c, -, -, -, rfl⟩ := of_userOnAccept hstep
  obtain rfl := hguard.1
  simp only [reduceIte] at hcore ⊢
  have hperm : (carried { s with
      service := { s.service with
        procs := update s.service.procs k
          ((s.service.procs k).setMemory b (acceptedSocket none)) }
      rx := s.rx ++ [(c, .command (k, b))] }).Perm ((k, b) :: carried s) :=
    Core.perm_carried_offer rfl rfl
  refine ⟨hcore, h.home, fun j a' hlive => ?_⟩
  by_cases hnew : j = k ∧ a' = b
  · obtain ⟨rfl, rfl⟩ := hnew
    exact .inr (hperm.mem_iff.mpr (mem_cons_self ..))
  · have hsame : (update s.service.procs k
        ((s.service.procs k).setMemory b (acceptedSocket none)) j).memory a' =
        (s.service.procs j).memory a' := by
      by_cases hj : j = k
      · subst hj
        have hne : a' ≠ b := fun hb => hnew ⟨rfl, hb⟩
        simp [Proc.setMemory, hne]
      · simp [hj]
    have hsatellite : (update s.service.procs k
        ((s.service.procs k).setMemory b (acceptedSocket none)) j).satellite =
        (s.service.procs j).satellite := by
      by_cases hj : j = k
      · subst hj
        simp [Proc.setMemory]
      · simp [hj]
    rw [hsame] at hlive
    refine (h.held j a' hlive).imp ?_ fun hmem => hperm.mem_iff.mpr (mem_cons_of_mem _ hmem)
    rintro ⟨c', hc'⟩
    exact ⟨c', by rw [hsatellite, hc']⟩

theorem posts {a : Service.Action} (ha : posts a = true) (hstep : serviceStep s a = some t) :
    Owned t := by
  have hcore := h.core.posts ha hstep
  obtain ⟨new, rfl, hnew⟩ := of_posts ha hstep
  exact h.post hcore rfl rfl hnew rfl

theorem callsBack {a : Service.Action} (ha : callsBack a = true)
    (hstep : serviceStep s a = some t) : Owned t := by
  have hcore := h.core.callsBack ha hstep
  obtain ⟨k, q, -, hkeeps, rfl⟩ := of_callsBack ha h.core.good hstep
  refine ⟨hcore, h.home, fun j a hlive => ?_⟩
  by_cases hj : j = k
  · subst hj
    simp only [update_self] at hlive ⊢
    rw [hkeeps.satellite]
    exact h.held j a ((hkeeps.alike a).live hlive)
  · simp only [update_of_ne hj] at hlive ⊢
    exact h.held j a hlive

theorem arrives (hstep : userDataAvailable s k a = some t) : Owned t := by
  have hcore := h.core.arrives hstep
  obtain ⟨c, -, -, rfl⟩ := of_userDataAvailable hstep
  exact h.post hcore rfl (append_nil _).symm (by simp) (by simp [offered, commandOf])

theorem step {a : Action} (hguard : HandedOn s a) (hstep : step s a = some t) : Owned t := by
  cases a with
  | arrives k a => exact h.arrives (Option.ite_none_right_eq_some.mp hstep).2
  | service a =>
    replace hstep := (Option.ite_none_right_eq_some.mp hstep).2
    cases a with
    | call i a stream => exact h.call hguard hstep
    | accept i m k filled => exact h.accept hguard hstep
    | recv i m kicked => exact h.recv hguard hstep
    | stack k success address => exact h.process hguard hstep
    | connects k a b filled => exact h.connects hguard hstep
    | listen | send | sendNothing | setsockopt => exact h.posts rfl hstep
    | disconnects | closes | readable | reads | writable | writes | notifies =>
      exact h.callsBack rfl hstep

end

end Owned

/-- If commands with sockets can be posted, no ring with a connection is closed, shut down or read,
and no index gets a second socket, each open kernel socket has one index or one command. -/
theorem kernel_sockets_owned (s : State) (hreach : system.ReachableUnder HandedOn s) (k a : Nat)
    (hlive : ((s.service.procs k).memory a).live = true) : OwnedOnce s k a := by
  have howned : Owned s :=
    TransitionSystem.ReachableUnder.invariant (fun _ => Owned.start)
      (fun _ _ _ h hguard hstep => h.step hguard hstep) hreach
  exact howned.ownedOnce hlive

instance (s : State) (a : Action) : Decidable (HandedOn s a) := by
  unfold HandedOn
  split
  · infer_instance
  · split <;> infer_instance
  · infer_instance
  · split <;> infer_instance
  · infer_instance
  · infer_instance

def initial (n : Nat) : State := ⟨startWith n, [], false⟩

theorem start_initial (n : Nat) : Start (initial n) := ⟨start_startWith n, rfl, rfl⟩

def listening : List Action :=
  (bound 7).map .service ++ [Action.service (.listen 7 0 1), .service (.stack 0 true 0)]

theorem kernel_sockets_owned_listener :
    ∃ s, system.ReachableUnder HandedOn s ∧ ((s.service.procs 0).memory 0).live = true ∧
      ((s.service.procs 0).memory 1).live = false ∧ OwnedOnce s 0 0 := by
  obtain ⟨s, hreach, hlive, hclosed⟩ :=
    system.exists_reachableUnder HandedOn (initial 1)
      (listening ++ [Action.service (.connects 0 0 1 true), .service (.accept 7 0 0 true),
        .service (.stack 0 true 0), .arrives 0 1, .service (.recv 7 1 true),
        .service (.stack 0 true 0), .service (.call 7 (.close 1 1) false),
        .service (.stack 0 true 0)])
      (P := fun s => ((s.service.procs 0).memory 0).live = true ∧
        ((s.service.procs 0).memory 1).live = false)
      (start_initial 1) (by decide +kernel)
  exact ⟨s, hreach, hlive, hclosed, kernel_sockets_owned s hreach 0 0 hlive⟩

def orphaned (s : State) (k a : Nat) : Bool :=
  ((s.service.procs k).memory a).live && decide ((carried s).count (k, a) = 0) &&
    ((s.service.procs k).memory a).userData.all fun c =>
      decide ((s.service.procs k).satellite c ≠ some a)

theorem Core.not_ownedOnce {s : State} (h : Core s) {k : Nat}
    (horphaned : orphaned s k a = true) : ¬ OwnedOnce s k a := by
  simp only [orphaned, Bool.and_eq_true, decide_eq_true_eq] at horphaned
  obtain ⟨⟨-, hcarried⟩, hindex⟩ := horphaned
  rintro (⟨⟨c, hc, -⟩, -⟩ | ⟨-, hcount⟩)
  · rw [((h.procs k).user c a hc).1] at hindex
    exact of_decide_eq_true hindex hc
  · rw [hcarried] at hcount
    cases hcount

instance (s : State) (a : Action) : Decidable (Fresh s a) := by
  unfold Fresh
  split <;> infer_instance

/-- After the run, with no command under way, the socket `a` is open and has no owner. -/
def Orphans (run : List Action) (a : Nat) : Prop :=
  system.ReachesBy (initial 1) run fun s => s.service.ring = [] ∧
    ((s.service.procs 0).memory a).live = true ∧ ¬ OwnedOnce s 0 a

theorem orphans_of_execUnder {run : List Action} {a : Nat}
    (hrun : (system.execUnder Fresh (initial 1) run).any (fun s =>
      decide (orphaned s 0 a = true ∧ s.service.ring = [])) = true) : Orphans run a := by
  obtain ⟨s, hexec, htest⟩ := (Option.any_eq_true _ _).mp hrun
  obtain ⟨horphaned, hring⟩ := of_decide_eq_true htest
  have hreach : system.ReachableUnder Fresh s := .execUnder (.start (start_initial 1)) hexec
  have hcore : Core s :=
    TransitionSystem.ReachableUnder.invariant (fun _ => Core.start)
      (fun _ _ _ h hfresh hstep => h.step hfresh hstep) hreach
  refine ⟨s, hreach.reachable, TransitionSystem.exec_of_execUnder hexec, hring, ?_,
    hcore.not_ownedOnce horphaned⟩
  simp only [orphaned, Bool.and_eq_true] at horphaned
  exact horphaned.1.1

/-- A listener is closed while a connection waits, a connection is accepted without a command
buffer, or a bound socket is bound again. -/
theorem kernel_sockets_orphaned :
    Orphans (listening ++ [.service (.connects 0 0 1 true),
      .service (.call 7 (.close 0 1) false), .service (.stack 0 true 0)]) 1 ∧
    Orphans (listening ++ [.service (.connects 0 0 1 false)]) 1 ∧
    Orphans ((bound 7).map .service ++ [.service (.call 7 (.bind 0 .posted) false),
      .service (.stack 0 true 1), .service (.call 7 (.resume .posted 0) false),
      .service (.stack 0 true 1), .service (.call 7 (.resume .posted 0) false)]) 0 := by
  refine ⟨?_, ?_, ?_⟩
  all_goals exact orphans_of_execUnder (by decide +kernel)

end LightStack.Service.Rings
