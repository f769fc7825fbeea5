import LightStack.Service.Rings.Sockets

/-!
# The sockets that commands carry
-/

namespace LightStack.Service.Rings

open Lib Function List
open Conn (Command)

def commandOf : RxEntry → Option (Nat × Nat)
  | .command d => some d
  | .mbuf => none

def offered (rx : List (Nat × RxEntry)) : List (Nat × Nat) := rx.filterMap fun x => commandOf x.2

def posted (ring : List (Nat × Entry)) : List (Nat × Nat) := ring.filterMap fun x => descr x.2

def carried (s : State) : List (Nat × Nat) := offered s.rx ++ posted s.service.ring

def noneWaits (s : State) (c : Nat) : Prop := ∀ x ∈ s.rx, x.1 = c → x.2.isCommand = false

instance (s : State) (c : Nat) : Decidable (noneWaits s c) :=
  inferInstanceAs (Decidable (∀ x ∈ s.rx, _))

def unreferenced (s : State) (k a : Nat) : Prop :=
  ((s.service.procs k).memory a).userData = none ∧ (k, a) ∉ carried s

instance (s : State) (k a : Nat) : Decidable (unreferenced s k a) :=
  inferInstanceAs (Decidable (_ ∧ _))

theorem offered_append (rx rx' : List (Nat × RxEntry)) :
    offered (rx ++ rx') = offered rx ++ offered rx' :=
  filterMap_append ..

theorem posted_append (ring ring' : List (Nat × Entry)) :
    posted (ring ++ ring') = posted ring ++ posted ring' :=
  filterMap_append ..

variable {new : List (Nat × Entry)} {rx : List (Nat × RxEntry)} {c i m address a : Nat}
  {d : Nat × Nat} {filled success : Bool} {q : Proc} {y : KernelSocket}

theorem posted_eq_nil (h : ∀ x ∈ new, descr x.2 = none) : posted new = [] :=
  filterMap_eq_nil_iff.mpr h

theorem offered_filter {p : Nat × RxEntry → Bool}
    (h : ∀ x ∈ rx, p x = false → x.2.isCommand = false) : offered (rx.filter p) = offered rx := by
  induction rx with
  | nil => rfl
  | cons x rx ih =>
    have ih := ih fun y hy => h y (mem_cons_of_mem _ hy)
    by_cases hp : p x = true
    · rw [filter_cons_of_pos hp]
      simp only [offered, filterMap_cons] at ih ⊢
      rw [ih]
    · rw [filter_cons_of_neg hp, ih]
      have hx := h x (mem_cons_self ..) (Bool.eq_false_iff.mpr hp)
      obtain ⟨c, entry⟩ := x
      cases entry with
      | command d => cases hx
      | mbuf => rfl

theorem offered_take_mbuf {rest : List (Nat × RxEntry)} {entry : RxEntry}
    (h : Mailbox.take c rx = some (entry, rest)) (hentry : entry.isCommand = false) :
    offered rest = offered rx := by
  obtain ⟨before, after, rfl, rfl, -⟩ := Mailbox.take_split h
  cases entry with
  | command d => cases hentry
  | mbuf => simp [offered, commandOf]

theorem perm_offered_take {rest : List (Nat × RxEntry)}
    (h : Mailbox.take c rx = some (.command d, rest)) : (offered rx).Perm (d :: offered rest) :=
  (Mailbox.take_perm h).filterMap _

variable {k : Nat}

theorem perm_posted_take {ring rest : List (Nat × Entry)} {e : Entry}
    (h : Mailbox.take k ring = some (e, rest)) (hd : descr e = some d) :
    (posted ring).Perm (d :: posted rest) := by
  have hperm := (Mailbox.take_perm h).filterMap fun x => descr x.2
  rw [filterMap_cons_some (b := d) (by exact hd)] at hperm
  exact hperm

theorem posted_take_none {ring rest : List (Nat × Entry)} {e : Entry}
    (h : Mailbox.take k ring = some (e, rest)) (hd : descr e = none) :
    posted rest = posted ring := by
  obtain ⟨before, after, rfl, rfl, -⟩ := Mailbox.take_split h
  simp [posted, hd]

/-! ## Flushes -/

variable {s : State}

theorem noneWaits.flushRx (h : noneWaits s c) (c' : Nat) : noneWaits (flushRx s c') c :=
  fun x hx => h x (mem_of_mem_filter hx)

theorem flushRx_mistaken (h : noneWaits s c) : (flushRx s c).mistaken = s.mistaken := by
  have hany : s.rx.any (commandFor c) = false := by
    rw [any_eq_false]
    intro x hx hcommand
    obtain ⟨hc, hkind⟩ := Bool.and_eq_true_iff.mp hcommand
    rw [h x hx (of_decide_eq_true hc)] at hkind
    cases hkind
  rw [flushRx, hany, Bool.or_false]

theorem foldl_flushRx_mistaken (cs : List Nat) (h : ∀ c ∈ cs, noneWaits s c) :
    (cs.foldl flushRx s).mistaken = s.mistaken := by
  induction cs generalizing s with
  | nil => rfl
  | cons c cs ih =>
    rw [foldl_cons, ih fun c' hc' => (h c' (mem_cons_of_mem _ hc')).flushRx c]
    exact flushRx_mistaken (h c (mem_cons_self ..))

theorem foldl_flushRx_service (cs : List Nat) (s : State) :
    (cs.foldl flushRx s).service = s.service := by
  induction cs generalizing s with
  | nil => rfl
  | cons c cs ih => rw [foldl_cons, ih, flushRx]

theorem foldl_flushRx_rx (cs : List Nat) (s : State) :
    (cs.foldl flushRx s).rx = s.rx.filter fun x => decide (x.1 ∉ cs) := by
  induction cs generalizing s with
  | nil => simp
  | cons c cs ih =>
    rw [foldl_cons, ih, flushRx, filter_filter]
    refine filter_congr fun x _ => ?_
    simp [Bool.and_comm]

theorem of_call {s t : Service.State} {a : Conn.Action} {stream : Bool}
    (h : Service.call s i a stream = some t) :
    t.procs = s.procs ∧ t.numProcs = s.numProcs ∧
      ∃ new, t.ring = s.ring ++ new ∧ ∀ x ∈ new, descr x.2 = none := by
  unfold Service.call at h
  split at h
  · cases h
  · next hkind =>
    obtain ⟨u, hu, rfl⟩ := Option.map_eq_some_iff.mp h
    refine ⟨rfl, rfl, _, rfl, fun x hx => ?_⟩
    obtain ⟨y, hy, rfl⟩ := mem_map.mp hx
    have hstack : ∀ k success, a ≠ .stack k success := by
      rintro k success rfl
      exact hkind rfl
    have haccept : ∀ m k posted, a ≠ .accept m k posted := by
      rintro m k posted rfl
      exact hkind rfl
    obtain ⟨k, command⟩ := y
    rcases Conn.posted_of_step hu hstack haccept hy with hold | hplain | ⟨m, how, -, hcommand⟩
    · cases hold
    · cases command with
      | setSocketRing | decline => cases hplain
      | _ => rfl
    · obtain rfl : command = .shutdown m how := (Prod.mk.inj hcommand).2
      rfl

theorem of_postAll {s t : Service.State} (h : postAll s i m new = some t) :
    t = { s with ring := s.ring ++ new } := by
  obtain ⟨-, rfl⟩ := of_guard h
  rfl

theorem descr_listenEntries {s : Service.State} {n : Nat} :
    ∀ x ∈ listenEntries s m n, descr x.2 = none := by
  intro x hx
  obtain ⟨k, -, rfl⟩ := mem_map.mp hx
  rfl

theorem descr_dataEntry {s : Service.State} {posted : Bool} {e : Nat → Entry}
    (he : ∀ c, descr (e c) = none) : ∀ x ∈ dataEntry s i m posted e, descr x.2 = none := by
  intro x hx
  unfold dataEntry at hx
  split at hx
  · obtain rfl := mem_singleton.mp hx
    exact he _
  · cases hx

theorem descr_setsockoptEntries {s : Service.State} {n : Nat} :
    ∀ x ∈ setsockoptEntries s i m n, descr x.2 = none := by
  intro x hx
  obtain ⟨y, -, rfl⟩ := mem_map.mp hx
  rfl

variable {t : State}

theorem of_accept (h : accept s i m k filled = some t) :
    (∃ d rest u, Mailbox.take ((s.service.sockets m).copies k) s.rx = some (.command d, rest) ∧
      Conn.step (view s.service i) (.accept m k filled) = some u ∧
      t = { s with
        service := absorb s.service i (s.service.apps i).stream d u
        rx := rest } ∧
      (u.pending = [] ∧ t.service.ring = s.service.ring ∨
        ∃ e, descr e = some d ∧ t.service.ring = s.service.ring ++ [(k, e)])) ∨
    ∃ rest, Mailbox.take ((s.service.sockets m).copies k) s.rx = some (.mbuf, rest) ∧
      t = { s with rx := rest, mistaken := true } := by
  unfold accept at h
  split at h
  · cases h
  · next d rest htake =>
    obtain ⟨u, hu, rfl⟩ := Option.map_eq_some_iff.mp h
    refine .inl ⟨d, rest, u, htake, hu, rfl, ?_⟩
    rcases Conn.pending_of_accept hu with hnone | ⟨cmd, hone, hcmd⟩
    · left
      simp [absorb, hnone, view]
    · right
      refine ⟨ofCommand i (s.service.apps i).stream d cmd, ?_, ?_⟩
      · rcases hcmd with rfl | ⟨c, rfl⟩ <;> rfl
      · simp [absorb, hone, view]
  · next rest htake =>
    obtain ⟨-, rfl⟩ := of_guard h
    exact .inr ⟨rest, htake, rfl⟩

theorem of_recv {kicked : Bool} (h : recv s i m kicked = some t) :
    ∃ new, (∀ x ∈ new, descr x.2 = none) ∧
      t = dequeueRxBuf { s with service := { s.service with ring := s.service.ring ++ new } }
        (Conn.realSocket (view s.service i) m) := by
  obtain ⟨u, hu, rfl⟩ := Option.map_eq_some_iff.mp h
  rw [of_postAll hu]
  exact ⟨_, descr_dataEntry fun _ => rfl, rfl⟩

def posts : Service.Action → Bool
  | .listen _ _ _ => true
  | .send _ _ _ => true
  | .sendNothing _ _ _ => true
  | .setsockopt _ _ _ => true
  | _ => false

theorem of_posts {a : Service.Action} (ha : posts a = true) (h : serviceStep s a = some t) :
    ∃ new, t = { s with service := { s.service with ring := s.service.ring ++ new } } ∧
      ∀ x ∈ new, descr x.2 = none := by
  cases a with
  | listen i m n =>
    obtain ⟨u, hu, rfl⟩ := Option.map_eq_some_iff.mp h
    exact ⟨_, by rw [of_postAll hu], descr_listenEntries⟩
  | send | sendNothing =>
    obtain ⟨u, hu, rfl⟩ := Option.map_eq_some_iff.mp h
    exact ⟨_, by rw [of_postAll hu], descr_dataEntry fun _ => rfl⟩
  | setsockopt i m n =>
    obtain ⟨u, hu, rfl⟩ := Option.map_eq_some_iff.mp h
    exact ⟨_, by rw [of_postAll hu], descr_setsockoptEntries⟩
  | _ => cases ha

def callsBack : Service.Action → Bool
  | .disconnects _ _ => true
  | .closes _ _ => true
  | .readable _ _ => true
  | .reads _ => true
  | .writable _ _ => true
  | .writes _ => true
  | .notifies _ _ => true
  | _ => false

theorem of_callback {f : Proc → Option Proc}
    (h : (callback s.service k f).map (fun u => { s with service := u }) = some t)
    (hf : ∀ q, f (s.service.procs k) = some q → Keeps (s.service.procs k) q) :
    ∃ j q, some k = some j ∧ Keeps (s.service.procs j) q ∧
      t = { s with service := { s.service with
        procs := update s.service.procs j q } } := by
  obtain ⟨u, hu, rfl⟩ := Option.map_eq_some_iff.mp h
  obtain ⟨-, hu⟩ := Option.ite_none_left_eq_some.mp hu
  obtain ⟨q, hq, rfl⟩ := Option.map_eq_some_iff.mp hu
  exact ⟨k, q, rfl, hf q hq, rfl⟩

theorem of_callsBack {a : Service.Action} (ha : callsBack a = true)
    (hgood : ∀ k a, Good ((s.service.procs k).memory a)) (h : serviceStep s a = some t) :
    ∃ k q, actor a = some k ∧ Keeps (s.service.procs k) q ∧
      t = { s with service := { s.service with
        procs := update s.service.procs k q } } := by
  cases a with
  | disconnects k a =>
    simp only [serviceStep, Service.step] at h
    refine of_callback h fun q hq => ?_
    obtain ⟨-, rfl⟩ := of_guard hq
    exact .disconnects (hgood k) a
  | closes k a =>
    simp only [serviceStep, Service.step] at h
    refine of_callback h fun q hq => ?_
    obtain ⟨-, rfl⟩ := of_guard hq
    exact .processClosed (hgood k) a
  | readable k a =>
    simp only [serviceStep, Service.step] at h
    refine of_callback h fun q hq => ?_
    obtain ⟨-, rfl⟩ := of_guard hq
    exact .appGlueSockReadable (hgood k) a
  | reads k => exact of_callback h fun q hq => .processReadable (hgood k) hq
  | writable k a =>
    simp only [serviceStep, Service.step] at h
    refine of_callback h fun q hq => ?_
    obtain ⟨-, rfl⟩ := of_guard hq
    exact .appGlueSockWriteSpace (hgood k) a
  | writes k => exact of_callback h fun q hq => .processWritable (hgood k) hq
  | notifies k room =>
    simp only [serviceStep, Service.step] at h
    exact of_callback h fun q hq => .notifyFirst (hgood k) hq
  | _ => cases ha

theorem of_process (hgood : ∀ a, Good ((s.service.procs k).memory a))
    (h : process s k success address = some t) :
    ∃ e rest, Mailbox.take k s.service.ring = some (e, rest) ∧
      (allocates e = true → ((s.service.procs k).memory address).live = false) ∧
      ∃ q u, Effect (s.service.procs k) k address success e q ∧
        u.procs = update s.service.procs k q ∧ u.ring = rest ∧
        u.numProcs = s.service.numProcs ∧
        t = flushUser { s with service := u } (flushed (s.service.procs k) k e) := by
  unfold process at h
  split at h
  · cases h
  · next e rest htake =>
    obtain ⟨u, hu, rfl⟩ := Option.map_eq_some_iff.mp h
    unfold Service.process at hu
    rw [htake] at hu
    dsimp only at hu
    split at hu
    · cases hu
    · next hnot =>
      have hu := Option.some.inj hu
      refine ⟨e, rest, htake, fun he => ?_, processCommand _ k success address e, u,
        effect_processCommand hgood, by rw [← hu], by rw [← hu], by rw [← hu], rfl⟩
      simp only [he, Bool.true_and, Bool.or_eq_true, not_or] at hnot
      exact Bool.eq_false_iff.mpr hnot.2

theorem of_userOnAccept {b : Nat} (h : userOnAccept s k a b filled = some t) :
    ∃ c, getUserData ((s.service.procs k).memory a) = some c ∧
      ((s.service.procs k).memory a).live = true ∧
      ((s.service.procs k).memory a).state = .listen ∧
      t = { s with
        service := { s.service with
          procs := update s.service.procs k ((s.service.procs k).setMemory b
            (acceptedSocket (if filled then none else some c))) }
        rx := if filled then s.rx ++ [(c, .command (k, b))] else s.rx } := by
  obtain ⟨⟨c, u⟩, hu, h⟩ := Option.bind_eq_some_iff.mp h
  obtain ⟨hnot, hu⟩ := Option.ite_none_left_eq_some.mp hu
  obtain ⟨_, hc, hu⟩ := Option.map_eq_some_iff.mp hu
  obtain ⟨rfl, rfl⟩ := Prod.mk.inj hu
  obtain ⟨-, rfl⟩ := of_guard h
  simp only [Bool.or_eq_true, not_or, Bool.not_eq_true, decide_eq_false_iff_not, not_not] at hnot
  refine ⟨_, hc, ?_, ?_, rfl⟩
  · simpa using hnot.1.1.2
  · simpa using hnot.1.2

theorem of_userDataAvailable (h : userDataAvailable s k a = some t) :
    ∃ c, getUserData ((s.service.procs k).memory a) = some c ∧
      queueable ((s.service.procs k).memory a) = true ∧
      t = { s with rx := s.rx ++ [(c, .mbuf)] } := by
  obtain ⟨htest, h⟩ := Option.ite_none_right_eq_some.mp h
  split at h
  · cases h
  · next c hc =>
    obtain ⟨-, rfl⟩ := of_guard h
    exact ⟨c, hc, (Bool.and_eq_true_iff.mp htest).2, rfl⟩

/-! ## What holds as long as memory is used again only when nothing refers to it -/

def Fresh (s : State) : Action → Prop
  | .service (.stack k _ address) => ∀ taken ∈ Mailbox.take k s.service.ring,
    allocates taken.1 = true → unreferenced s k address
  | .service (.connects k _ b _) => unreferenced s k b
  | _ => True

structure Core (s : State) : Prop where
  procs : ∀ k, Sockets (s.service.procs k)
  apart : ∀ k a, (k, a) ∈ carried s → ((s.service.procs k).memory a).userData = none
  once : (carried s).Nodup

namespace Core

variable {s t : State} {k : Nat}

theorem start (h : Start s) : Core s where
  procs := by
    intro k
    rw [h.service.procs_eq k]
    exact ⟨fun _ => good_blank, by simp⟩
  apart := by simp [carried, offered, posted, h.rx_eq, h.service.ring_eq]
  once := by simp [carried, offered, posted, h.rx_eq, h.service.ring_eq]

section

variable (h : Core s)

include h

theorem good (k a : Nat) : Good ((s.service.procs k).memory a) := (h.procs k).good a

theorem satellite_ne (ha : ((s.service.procs k).memory a).userData = none) (c : Nat) :
    (s.service.procs k).satellite c ≠ some a := by
  intro hc
  rw [((h.procs k).user c a hc).1] at ha
  cases ha

theorem satellite_inj {c' : Nat} (hc : (s.service.procs k).satellite c = some a)
    (hc' : (s.service.procs k).satellite c' = some a) : c' = c := by
  have huser := ((h.procs k).user c a hc).1
  rw [((h.procs k).user c' a hc').1] at huser
  exact Option.some.inj huser

theorem of_procs_eq (hprocs : t.service.procs = s.service.procs)
    (hcarried : (carried t).Subperm (carried s)) : Core t where
  procs := hprocs ▸ h.procs
  apart := fun k a ha => by
    rw [hprocs]
    exact h.apart k a (hcarried.subset ha)
  once := by
    obtain ⟨l, hperm, hsub⟩ := hcarried
    exact hperm.nodup_iff.mp (h.once.sublist hsub)

theorem of_proc (hprocs : t.service.procs = update s.service.procs k q) (hq : Sockets q)
    (hcarried : (carried t).Nodup) (hold : ∀ x ∈ carried t, x.1 ≠ k → x ∈ carried s)
    (huser : ∀ a, (k, a) ∈ carried t → (q.memory a).userData = none) : Core t where
  procs := by
    rw [hprocs]
    exact forall_update (P := fun _ => Sockets) hq fun j _ => h.procs j
  apart := by
    intro j a ha
    rw [hprocs]
    by_cases hj : j = k
    · subst hj
      simpa using huser a ha
    · simpa [hj] using h.apart j a (hold _ ha hj)
  once := hcarried

theorem of_socket (hprocs : t.service.procs = update s.service.procs k q) (hq : Sockets q)
    (hmemory : q.memory = update (s.service.procs k).memory a y)
    (hcarried : (carried t).Sublist (carried s)) (hnot : (k, a) ∉ carried t) : Core t := by
  refine h.of_proc hprocs hq (h.once.sublist hcarried) (fun x hx _ => hcarried.subset hx) ?_
  intro b hb
  have hne : b ≠ a := by
    rintro rfl
    exact hnot hb
  rw [hmemory, update_of_ne hne]
  exact h.apart k b (hcarried.subset hb)

theorem of_keeps (hprocs : t.service.procs = update s.service.procs k q)
    (hkeeps : Keeps (s.service.procs k) q) (hcarried : (carried t).Subperm (carried s)) :
    Core t := by
  obtain ⟨l, hperm, hsub⟩ := hcarried
  refine h.of_proc hprocs (hkeeps.sockets (h.procs k)) ?_ ?_ ?_
  · exact hperm.nodup_iff.mp (h.once.sublist hsub)
  · exact fun x hx _ => hsub.subset (hperm.mem_iff.mpr hx)
  · intro a ha
    rw [(hkeeps.alike a).userData]
    exact h.apart k a (hsub.subset (hperm.mem_iff.mpr ha))

section

variable (hfree : ((s.service.procs k).memory a).userData = none)
  (hmemory : q.memory = update (s.service.procs k).memory a y) (hgood : Good y)

include hfree hmemory hgood

theorem sockets_set (huser : y.userData = some c) (hsk : y.sk = true)
    (hsatellite : q.satellite = update (s.service.procs k).satellite c (some a)) : Sockets q := by
  refine (h.procs k).update hmemory hgood fun c' b hb => ?_
  rw [hsatellite] at hb
  by_cases hcc : c' = c
  · subst hcc
    rw [update_self] at hb
    exact .inl ⟨(Option.some.inj hb).symm, huser, hsk⟩
  · rw [update_of_ne hcc] at hb
    refine .inr ⟨?_, hb⟩
    rintro rfl
    exact h.satellite_ne hfree c' hb

theorem sockets_free (hsatellite : q.satellite = (s.service.procs k).satellite) : Sockets q := by
  refine (h.procs k).update hmemory hgood fun c b hb => ?_
  rw [hsatellite] at hb
  refine .inr ⟨?_, hb⟩
  rintro rfl
  exact h.satellite_ne hfree c hb

end

theorem sockets_close (hc : (s.service.procs k).satellite c = some a)
    (hmemory : q.memory = update (s.service.procs k).memory a y) (hgood : Good y)
    (hsatellite : q.satellite = update (s.service.procs k).satellite c none) : Sockets q := by
  refine (h.procs k).update hmemory hgood fun c' b hb => ?_
  rw [hsatellite] at hb
  by_cases hcc : c' = c
  · subst hcc
    rw [update_self] at hb
    cases hb
  · rw [update_of_ne hcc] at hb
    refine .inr ⟨?_, hb⟩
    rintro rfl
    exact hcc (h.satellite_inj hc hb)

end

section Process

variable {e : Entry} {rest : List (Nat × Entry)} (h : Core s)
  (htake : Mailbox.take k s.service.ring = some (e, rest)) (hrx : t.rx.Sublist s.rx)
  (hring : t.service.ring = rest)

include htake hrx hring

theorem carried_sublist : (carried t).Sublist (carried s) := by
  unfold carried
  rw [hring]
  exact (hrx.filterMap _).append ((Mailbox.sublist_of_take htake).filterMap _)

include h

theorem not_carried (hd : descr e = some d) : d ∈ carried s ∧ d ∉ carried t := by
  have hperm : (carried s).Perm (d :: (offered s.rx ++ posted rest)) :=
    ((perm_posted_take htake hd).append_left _).trans perm_middle
  refine ⟨hperm.mem_iff.mpr (mem_cons_self ..), fun hmem => ?_⟩
  refine (nodup_cons.mp (hperm.nodup_iff.mp h.once)).1 ?_
  unfold carried at hmem
  rw [hring] at hmem
  exact ((hrx.filterMap _).append_right _).subset hmem

theorem process_effect (hfree : allocates e = true → unreferenced s k address)
    (hprocs : t.service.procs = update s.service.procs k q)
    (heffect : Effect (s.service.procs k) k address success e q) : Core t := by
  have hsub := carried_sublist htake hrx hring
  cases heffect with
  | keeps hkeeps hdescr => exact h.of_keeps hprocs hkeeps hsub.subperm
  | opens he hsuccess hmemory hsatellite =>
    obtain ⟨huser, hnot⟩ := hfree (by rw [he]; rfl)
    exact h.of_socket hprocs (h.sockets_set huser hmemory (good_opened _ _) rfl rfl hsatellite)
      hmemory hsub fun hmem => hnot (hsub.subset hmem)
  | blanks he hmemory hsatellite =>
    obtain ⟨huser, hnot⟩ := hfree (by rw [he]; rfl)
    exact h.of_socket hprocs (h.sockets_free huser hmemory good_blank hsatellite) hmemory hsub
      fun hmem => hnot (hsub.subset hmem)
  | @gives c a he hsk hmemory hsatellite =>
    obtain ⟨hmem, hnot⟩ := h.not_carried htake hrx hring (d := (k, a)) (by rw [he]; rfl)
    have hgood : Good { (s.service.procs k).memory a with userData := some c } :=
      ⟨(h.good k a).sk, (h.good k a).listen, (h.good k a).connection⟩
    exact h.of_socket hprocs
      (h.sockets_set (h.apart k a hmem) hmemory hgood rfl hsk hsatellite) hmemory hsub hnot
  | @closes c a y he hc hmemory hgood hlive hsatellite =>
    exact h.of_socket hprocs (h.sockets_close hc hmemory hgood hsatellite) hmemory hsub
      fun hmem => h.satellite_ne (h.apart k a (hsub.subset hmem)) c hc
  | @declines a y he hmemory hgood hlive huser hsatellite =>
    obtain ⟨hmem, hnot⟩ := h.not_carried htake hrx hring (d := (k, a)) (by rw [he]; rfl)
    exact h.of_socket hprocs (h.sockets_free (h.apart k a hmem) hmemory hgood hsatellite) hmemory
      hsub hnot

end Process

theorem flushUser_rx (s : State) (c : Option Nat) : (flushUser s c).rx.Sublist s.rx := by
  cases c with
  | none => exact .refl _
  | some c => exact filter_sublist ..

theorem flushUser_service (s : State) (c : Option Nat) : (flushUser s c).service = s.service := by
  cases c <;> rfl

theorem dequeueRxBuf_rx (s : State) (c : Nat) : (dequeueRxBuf s c).rx.Sublist s.rx := by
  unfold dequeueRxBuf
  split
  · exact .refl _
  · next htake => exact Mailbox.sublist_of_take htake

theorem dequeueRxBuf_service (s : State) (c : Nat) : (dequeueRxBuf s c).service = s.service := by
  unfold dequeueRxBuf
  split <;> rfl

theorem post (h : Core s) (hprocs : t.service.procs = s.service.procs)
    (hring : t.service.ring = s.service.ring ++ new) (hnew : ∀ x ∈ new, descr x.2 = none)
    (hrx : t.rx.Sublist s.rx) : Core t := by
  refine h.of_procs_eq hprocs (List.Sublist.subperm ?_)
  unfold carried
  rw [hring, posted_append, posted_eq_nil hnew, append_nil]
  exact (hrx.filterMap _).append_right _

theorem accept (h : Core s) (hstep : accept s i m k filled = some t) : Core t := by
  rcases of_accept hstep with ⟨d, rest, u, htake, -, rfl, hring⟩ | ⟨rest, htake, rfl⟩
  · have hperm := perm_offered_take htake
    rcases hring with ⟨-, hring⟩ | ⟨e, he, hring⟩
    · exact h.post rfl (by rw [hring, append_nil]) (by simp) (Mailbox.sublist_of_take htake)
    · refine h.of_procs_eq rfl (List.Perm.subperm ?_)
      have hposted : posted (s.service.ring ++ [(k, e)]) = posted s.service.ring ++ [d] := by
        rw [posted_append]
        simp [posted, he]
      unfold carried
      rw [hring, hposted, ← append_assoc]
      refine (perm_append_singleton _ _).trans ?_
      exact (hperm.append_right _).symm
  · exact h.post rfl (append_nil _).symm (by simp) (Mailbox.sublist_of_take htake)

theorem perm_carried_offer (hring : t.service.ring = s.service.ring)
    (hrx : t.rx = s.rx ++ [(c, .command d)]) : (carried t).Perm (d :: carried s) := by
  unfold carried
  rw [hring, hrx, offered_append]
  exact ((perm_append_singleton d (offered s.rx)).append_right _)

section

variable (h : Core s)

include h

theorem connects {b : Nat} (hfree : unreferenced s k b)
    (hstep : userOnAccept s k a b filled = some t) : Core t := by
  obtain ⟨c, -, -, -, rfl⟩ := of_userOnAccept hstep
  obtain ⟨huser, hnot⟩ := hfree
  have hsockets : ∀ user, Sockets ((s.service.procs k).setMemory b (acceptedSocket user)) :=
    fun user => h.sockets_free huser rfl (good_acceptedSocket user) rfl
  have hmade : ∀ user a', (k, a') ∈ carried s →
      (((s.service.procs k).setMemory b (acceptedSocket user)).memory a').userData = none := by
    intro user a' ha'
    have hne : a' ≠ b := by
      rintro rfl
      exact hnot ha'
    simp only [Proc.setMemory, update_of_ne hne]
    exact h.apart k a' ha'
  cases filled with
  | false => exact h.of_proc rfl (hsockets _) h.once (fun x hx _ => hx) (hmade _)
  | true =>
    have hperm : (carried { s with
        service := { s.service with
          procs := update s.service.procs k
            ((s.service.procs k).setMemory b (acceptedSocket none)) }
        rx := s.rx ++ [(c, .command (k, b))] }).Perm ((k, b) :: carried s) :=
      perm_carried_offer rfl rfl
    refine h.of_proc rfl (hsockets none) ?_ ?_ ?_
    · exact hperm.nodup_iff.mpr (nodup_cons.mpr ⟨hnot, h.once⟩)
    · intro x hx hxk
      rcases mem_cons.mp (hperm.mem_iff.mp hx) with rfl | hx
      · exact absurd rfl hxk
      · exact hx
    · intro a' ha'
      rcases mem_cons.mp (hperm.mem_iff.mp ha') with heq | hmem
      · cases heq
        simp [Proc.setMemory, acceptedSocket]
      · exact hmade none a' hmem

theorem arrives (hstep : userDataAvailable s k a = some t) : Core t := by
  obtain ⟨c, -, -, rfl⟩ := of_userDataAvailable hstep
  refine h.of_procs_eq rfl (List.Perm.subperm ?_)
  simp [carried, offered, commandOf]

theorem process (hfresh : Fresh s (.service (.stack k success address)))
    (hstep : process s k success address = some t) : Core t := by
  obtain ⟨e, rest, htake, -, q, u, heffect, hprocs, hring, -, rfl⟩ := of_process (h.good k) hstep
  refine h.process_effect htake (flushUser_rx ..) ?_ ?_ ?_ heffect
  · rw [flushUser_service]
    exact hring
  · intro he
    exact hfresh _ htake he
  · rw [flushUser_service]
    exact hprocs

theorem call {a : Conn.Action} {stream : Bool} (hstep : call s i a stream = some t) : Core t := by
  obtain ⟨u, hu, rfl⟩ := Option.map_eq_some_iff.mp hstep
  obtain ⟨hprocs, -, new, hring, hnew⟩ := of_call hu
  refine h.post (by rw [foldl_flushRx_service]; exact hprocs)
    (by rw [foldl_flushRx_service]; exact hring) hnew ?_
  rw [foldl_flushRx_rx]
  exact filter_sublist ..

theorem recv {kicked : Bool} (hstep : recv s i m kicked = some t) : Core t := by
  obtain ⟨new, hnew, rfl⟩ := of_recv hstep
  exact h.post (by rw [dequeueRxBuf_service]) (by rw [dequeueRxBuf_service]) hnew
    (dequeueRxBuf_rx ..)

theorem posts {a : Service.Action} (ha : posts a = true) (hstep : serviceStep s a = some t) :
    Core t := by
  obtain ⟨new, rfl, hnew⟩ := of_posts ha hstep
  exact h.post rfl rfl hnew (List.Sublist.refl _)

theorem callsBack {a : Service.Action} (ha : callsBack a = true)
    (hstep : serviceStep s a = some t) : Core t := by
  obtain ⟨k, q, -, hkeeps, rfl⟩ := of_callsBack ha h.good hstep
  exact h.of_keeps rfl hkeeps (List.Subperm.refl _)

theorem step {a : Action} (hfresh : Fresh s a) (hstep : step s a = some t) : Core t := by
  cases a with
  | arrives k a => exact h.arrives (Option.ite_none_right_eq_some.mp hstep).2
  | service a =>
    replace hstep := (Option.ite_none_right_eq_some.mp hstep).2
    cases a with
    | call i a stream => exact h.call hstep
    | accept i m k filled => exact h.accept hstep
    | recv i m kicked => exact h.recv hstep
    | stack k success address => exact h.process hfresh hstep
    | connects k a b filled => exact h.connects hfresh hstep
    | listen | send | sendNothing | setsockopt => exact h.posts rfl hstep
    | disconnects | closes | readable | reads | writable | writes | notifies =>
      exact h.callsBack rfl hstep

end

end Core

end LightStack.Service.Rings
