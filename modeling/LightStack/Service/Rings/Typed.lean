import LightStack.Service.Rings.Owned

/-!
# Commands and mbufs in the receive rings
-/

namespace LightStack.Service.Rings

open Lib Function List
open Conn (realSocket)

def dataSocket (x : KernelSocket) : Bool := !x.stream || !x.unconnected

def hosts (s : State) (c : Nat) (data : Bool) : Bool :=
  (List.range s.service.numProcs).any fun k =>
    ((s.service.procs k).satellite c).any fun a => dataSocket ((s.service.procs k).memory a) == data

def unhosted (s : State) (c : Nat) : Prop :=
  ∀ k ∈ List.range s.service.numProcs, (s.service.procs k).satellite c = none

instance (s : State) (c : Nat) : Decidable (unhosted s c) :=
  inferInstanceAs (Decidable (∀ k ∈ List.range s.service.numProcs, _))

def KeptApart (s : State) : Action → Prop
  | .service (.call i a stream) =>
    ∀ c ∈ closing s i a stream, hosts s c false = true → noneWaits s c
  | .service (.accept _ m k _) => hosts s ((s.service.sockets m).copies k) true = false
  | .service (.recv i m _) =>
    hosts s (realSocket (view s.service i) m) false = true →
      noneWaits s (realSocket (view s.service i) m)
  | .service (.stack k success address) =>
    match Mailbox.take k s.service.ring with
    | none => True
    | some (e, _) =>
      (allocates e = true → unreferenced s k address) ∧
        (∀ c ∈ given success e, unhosted s c) ∧
        ∀ c ∈ flushed (s.service.procs k) k e, hosts s c false = true → noneWaits s c
  | .service (.connects k _ b filled) => filled = true ∧ unreferenced s k b
  | _ => True

theorem KeptApart.fresh {s : State} {a : Action} (h : KeptApart s a) : Fresh s a := by
  unfold Fresh
  split
  · rintro ⟨e, rest⟩ htake
    simp only [KeptApart, Option.mem_def.mp htake] at h
    exact h.1
  · exact h.2
  · trivial

/-! ## The invariant -/

def Known (p : Proc) : Prop :=
  ∀ a c, (p.memory a).live = true → (p.memory a).userData = some c → p.satellite c = some a

def Fits (procs : Nat → Proc) (c : Nat) (entry : RxEntry) : Prop :=
  ∃ k a, (procs k).satellite c = some a ∧
    dataSocket ((procs k).memory a) = !entry.isCommand

structure Typed (s : State) : Prop where
  core : Core s
  right : s.mistaken = false
  hosted : ∀ k c, (s.service.procs k).satellite c ≠ none → k < s.service.numProcs
  sole : ∀ j k c, (s.service.procs j).satellite c ≠ none →
    (s.service.procs k).satellite c ≠ none → j = k
  known : ∀ k, Known (s.service.procs k)
  fits : ∀ x ∈ s.rx, Fits s.service.procs x.1 x.2

variable {c a i : Nat} {q : Proc} {y : KernelSocket}

namespace Typed

variable {s t : State} {k : Nat}

theorem start (h : Start s) : Typed s where
  core := .start h
  right := h.mistaken_eq
  hosted := by
    intro k c hc
    rw [h.service.procs_eq k] at hc
    exact absurd rfl hc
  sole := by
    intro j k c hc
    rw [h.service.procs_eq j] at hc
    exact absurd rfl hc
  known := by
    intro k a c hlive
    rw [h.service.procs_eq k] at hlive
    cases hlive
  fits := by
    rw [h.rx_eq]
    simp

theorem hosts_of_mem (h : Typed s) {entry : RxEntry} (hmem : (c, entry) ∈ s.rx) :
    hosts s c (!entry.isCommand) = true := by
  obtain ⟨k, a, ha, hkind⟩ := h.fits _ hmem
  have hk : k < s.service.numProcs := h.hosted k c (by rw [ha]; simp)
  refine any_eq_true.mpr ⟨k, mem_range.mpr hk, ?_⟩
  rw [ha, Option.any_some, hkind]
  exact beq_self_eq_true _

theorem noneWaits (h : Typed s) (hc : hosts s c false = true → Rings.noneWaits s c) :
    Rings.noneWaits s c := by
  intro x hx hxc
  obtain ⟨c', entry⟩ := x
  obtain rfl : c' = c := hxc
  cases entry with
  | mbuf => rfl
  | command d => exact hc (h.hosts_of_mem hx) _ hx rfl

theorem satellite_of_unhosted (h : Typed s) (hc : unhosted s c) (j : Nat) :
    (s.service.procs j).satellite c = none := by
  by_contra hne
  exact hne (hc j (mem_range.mpr (h.hosted j c hne)))

theorem of_procs_eq (h : Typed s) (hcore : Core t) (hright : t.mistaken = false)
    (hprocs : t.service.procs = s.service.procs)
    (hnum : t.service.numProcs = s.service.numProcs) (hrx : t.rx ⊆ s.rx) : Typed t where
  core := hcore
  right := hright
  hosted := by
    rw [hprocs, hnum]
    exact h.hosted
  sole := hprocs ▸ h.sole
  known := hprocs ▸ h.known
  fits := fun x hx => hprocs ▸ h.fits x (hrx hx)

def FitsIn (p : Proc) (x : Nat × RxEntry) : Prop :=
  ∃ a, p.satellite x.1 = some a ∧ dataSocket (p.memory a) = !x.2.isCommand

structure Replaces (s t : State) (k : Nat) (q : Proc) : Prop where
  core : Core t
  right : t.mistaken = false
  lt : k < s.service.numProcs
  procs : t.service.procs = update s.service.procs k q
  num : t.service.numProcs = s.service.numProcs

theorem of_proc (h : Typed s) (hrep : Replaces s t k q)
    (hsatellite : ∀ c, q.satellite c ≠ none → (s.service.procs k).satellite c ≠ none ∨
      unhosted s c)
    (hknown : Known q)
    (hfits : ∀ x ∈ t.rx, FitsIn q x ∨ x ∈ s.rx ∧ (s.service.procs k).satellite x.1 = none) :
    Typed t := by
  have hother : ∀ j, j ≠ k → t.service.procs j = s.service.procs j := by
    intro j hj
    rw [hrep.procs, update_of_ne hj]
  have hself : t.service.procs k = q := by rw [hrep.procs, update_self]
  have hsole : ∀ j c, j ≠ k → (t.service.procs j).satellite c ≠ none → q.satellite c = none := by
    intro j c hj hc
    rw [hother j hj] at hc
    by_contra hne
    rcases hsatellite c hne with hold | hnone
    · exact hj (h.sole j k c hc hold)
    · exact hc (h.satellite_of_unhosted hnone j)
  refine ⟨hrep.core, hrep.right, ?_, ?_, ?_, ?_⟩
  · intro j c hc
    rw [hrep.num]
    by_cases hj : j = k
    · exact hj ▸ hrep.lt
    · rw [hother j hj] at hc
      exact h.hosted j c hc
  · intro i j c hi hj
    by_cases hik : i = k
    · by_contra hne
      subst hik
      rw [hself] at hi
      exact hi (hsole j c (Ne.symm hne) hj)
    · by_cases hjk : j = k
      · subst hjk
        rw [hself] at hj
        exact absurd (hsole i c hik hi) hj
      · rw [hother i hik] at hi
        rw [hother j hjk] at hj
        exact h.sole i j c hi hj
  · intro j
    by_cases hj : j = k
    · rw [hj, hself]
      exact hknown
    · rw [hother j hj]
      exact h.known j
  · intro x hx
    rcases hfits x hx with hin | ⟨hmem, hnone⟩
    · exact ⟨k, hself ▸ hin⟩
    · obtain ⟨j, a, ha, hkind⟩ := h.fits x hmem
      have hj : j ≠ k := by
        rintro rfl
        rw [hnone] at ha
        cases ha
      exact ⟨j, a, by rw [hother j hj]; exact ha, by rw [hother j hj]; exact hkind⟩

theorem fits_cases (h : Typed s) (k : Nat) {x : Nat × RxEntry} (hx : x ∈ s.rx) :
    FitsIn (s.service.procs k) x ∨ x ∈ s.rx ∧ (s.service.procs k).satellite x.1 = none := by
  obtain ⟨j, a, ha, hkind⟩ := h.fits x hx
  by_cases hj : j = k
  · subst hj
    exact .inl ⟨a, ha, hkind⟩
  · refine .inr ⟨hx, ?_⟩
    by_contra hne
    exact hj (h.sole j k x.1 (by rw [ha]; simp) hne)

theorem known_keeps {p : Proc} (h : Known p) (hkeeps : Keeps p q) : Known q := by
  intro a c hlive huser
  rw [hkeeps.satellite]
  refine h a c ((hkeeps.alike a).live hlive) ?_
  rw [← (hkeeps.alike a).userData]
  exact huser

theorem dataSocket_alike {x : KernelSocket} (h : Alike x y) : dataSocket y = dataSocket x := by
  rw [dataSocket, dataSocket, h.stream, h.unconnected]

section

variable (h : Typed s) (hrep : Replaces s t k q)

include h hrep

theorem of_keeps (hkeeps : Keeps (s.service.procs k) q) (hrx : t.rx ⊆ s.rx) : Typed t := by
  refine h.of_proc hrep ?_ (known_keeps (h.known k) hkeeps) fun x hx => ?_
  · intro c hc
    rw [hkeeps.satellite] at hc
    exact .inl hc
  · refine (h.fits_cases k (hrx hx)).imp_left ?_
    rintro ⟨a, ha, hkind⟩
    refine ⟨a, by rw [hkeeps.satellite, ha], ?_⟩
    rw [dataSocket_alike (hkeeps.alike a)]
    exact hkind

theorem of_replaced (hmemory : q.memory = update (s.service.procs k).memory a y)
    (hnew : ∀ c, q.satellite c ≠ none → (s.service.procs k).satellite c ≠ none ∨ unhosted s c)
    (hself : ∀ c, y.live = true → y.userData = some c → q.satellite c = some a)
    (hold : ∀ b c, b ≠ a → (s.service.procs k).satellite c = some b → q.satellite c = some b)
    (hrx : ∀ x ∈ t.rx, (s.service.procs k).satellite x.1 ≠ some a ∧
      (FitsIn (s.service.procs k) x ∨ x ∈ s.rx ∧ (s.service.procs k).satellite x.1 = none)) :
    Typed t := by
  refine h.of_proc hrep hnew ?_ ?_
  · intro b c hlive hb
    by_cases hba : b = a
    · rw [hba, hmemory, update_self] at hlive hb
      exact hba ▸ hself c hlive hb
    · rw [hmemory, update_of_ne hba] at hlive hb
      exact hold b c hba (h.known k b c hlive hb)
  · intro x hx
    obtain ⟨hne, hcases⟩ := hrx x hx
    refine hcases.imp_left ?_
    rintro ⟨b, hb, hkind⟩
    have hba : b ≠ a := by
      rintro rfl
      exact hne hb
    exact ⟨b, hold b x.1 hba hb, by rw [hmemory, update_of_ne hba, hkind]⟩

theorem of_set (hvacant : unhosted s c) (hfree : ((s.service.procs k).memory a).userData = none)
    (hmemory : q.memory = update (s.service.procs k).memory a y) (huser : y.userData = some c)
    (hsatellite : q.satellite = update (s.service.procs k).satellite c (some a))
    (hrx : t.rx ⊆ s.rx) : Typed t := by
  refine h.of_replaced hrep hmemory ?_ ?_ ?_ ?_
  · intro c' hc'
    by_cases hcc : c' = c
    · exact .inr (hcc ▸ hvacant)
    · rw [hsatellite, update_of_ne hcc] at hc'
      exact .inl hc'
  · intro c' _ hc'
    rw [huser] at hc'
    rw [← Option.some.inj hc', hsatellite, update_self]
  · intro b c' _ hb
    have hcc : c' ≠ c := by
      rintro rfl
      rw [h.satellite_of_unhosted hvacant k] at hb
      cases hb
    rw [hsatellite, update_of_ne hcc]
    exact hb
  · exact fun x hx => ⟨h.core.satellite_ne hfree x.1, h.fits_cases k (hrx hx)⟩

theorem of_free (hfree : ((s.service.procs k).memory a).userData = none)
    (hmemory : q.memory = update (s.service.procs k).memory a y) (huser : y.userData = none)
    (hsatellite : q.satellite = (s.service.procs k).satellite)
    (hrx : ∀ x ∈ t.rx, x ∈ s.rx ∨ FitsIn (s.service.procs k) x) : Typed t := by
  refine h.of_replaced hrep hmemory ?_ ?_ ?_ ?_
  · exact fun c hc => .inl (hsatellite ▸ hc)
  · intro c _ hc
    rw [huser] at hc
    cases hc
  · exact fun b c _ hb => hsatellite ▸ hb
  · exact fun x hx => ⟨h.core.satellite_ne hfree x.1, (hrx x hx).elim (h.fits_cases k) .inl⟩

theorem of_close (hc : (s.service.procs k).satellite c = some a)
    (hmemory : q.memory = update (s.service.procs k).memory a y) (hdead : y.live = false)
    (hsatellite : q.satellite = update (s.service.procs k).satellite c none)
    (hrx : ∀ x ∈ t.rx, x ∈ s.rx ∧ x.1 ≠ c) : Typed t := by
  refine h.of_replaced hrep hmemory ?_ ?_ ?_ ?_
  · intro c' hc'
    by_cases hcc : c' = c
    · rw [hcc, hsatellite, update_self] at hc'
      exact absurd rfl hc'
    · rw [hsatellite, update_of_ne hcc] at hc'
      exact .inl hc'
  · intro c' hlive
    rw [hdead] at hlive
    cases hlive
  · intro b c' hba hb
    have hcc : c' ≠ c := by
      rintro rfl
      rw [hc] at hb
      exact hba (Option.some.inj hb).symm
    rw [hsatellite, update_of_ne hcc]
    exact hb
  · intro x hx
    obtain ⟨hmem, hne⟩ := hrx x hx
    exact ⟨fun hxa => hne (h.core.satellite_inj hc hxa), h.fits_cases k hmem⟩

end

/-! ### Steps -/

theorem flushUser_mistaken {c : Option Nat} (h : ∀ c' ∈ c, Rings.noneWaits s c') :
    (flushUser s c).mistaken = s.mistaken := by
  cases c with
  | none => rfl
  | some c => exact flushRx_mistaken (h c rfl)

theorem flushed_of_closes (h : Typed s) {e : Entry} (he : e = .close c ∨ e = .shutdown c 2)
    (hc : (s.service.procs k).satellite c = some a) : flushed (s.service.procs k) k e = some c := by
  obtain ⟨huser, hsk⟩ := (h.core.procs k).user c a hc
  rcases he with rfl | rfl
  · simp [flushed, hc, getUserData, hsk, huser]
  · simp [flushed, hc, getUserData, hsk, huser]

theorem process (h : Typed s) {success : Bool} {address : Nat} (hk : k < s.service.numProcs)
    (hguard : KeptApart s (.service (.stack k success address)))
    (hstep : process s k success address = some t) : Typed t := by
  have hcore := h.core.process hguard.fresh hstep
  obtain ⟨e, rest, htake, -, q, u, heffect, hprocs, hring, hnum, rfl⟩ :=
    Rings.of_process (h.core.good k) hstep
  simp only [KeptApart, htake] at hguard
  obtain ⟨hfree, hgiven, hflush⟩ := hguard
  have hservice := Core.flushUser_service { s with service := u } (flushed (s.service.procs k) k e)
  have hrep : Replaces s (flushUser { s with service := u }
      (flushed (s.service.procs k) k e)) k q := by
    refine ⟨hcore, ?_, hk, hservice ▸ hprocs, hservice ▸ hnum⟩
    rw [flushUser_mistaken (s := { s with service := u }) fun c hc => h.noneWaits (hflush c hc)]
    exact h.right
  have hrx := (Core.flushUser_rx { s with service := u } (flushed (s.service.procs k) k e)).subset
  have hmem : ∀ a, descr e = some (k, a) → ((s.service.procs k).memory a).userData = none := by
    intro a hd
    refine h.core.apart k a (mem_append_right _ ?_)
    exact (perm_posted_take htake hd).mem_iff.mpr (mem_cons_self ..)
  cases heffect with
  | keeps hkeeps hdescr => exact h.of_keeps hrep hkeeps hrx
  | opens he hsuccess hmemory hsatellite =>
    subst he
    subst hsuccess
    exact h.of_set hrep (hgiven _ rfl) (hfree rfl).1 hmemory rfl hsatellite hrx
  | blanks he hmemory hsatellite =>
    subst he
    exact h.of_free hrep (hfree rfl).1 hmemory rfl hsatellite fun x hx => .inl (hrx hx)
  | gives he hsk hmemory hsatellite =>
    subst he
    exact h.of_set hrep (hgiven _ rfl) (hmem _ rfl) hmemory rfl hsatellite hrx
  | closes he hc hmemory hgood hdead hsatellite =>
    refine h.of_close hrep hc hmemory hdead hsatellite fun x hx => ⟨hrx hx, ?_⟩
    rw [h.flushed_of_closes he hc] at hx
    exact of_decide_eq_true (mem_filter.mp hx).2
  | declines he hmemory hgood hdead huser hsatellite =>
    subst he
    exact h.of_free hrep (hmem _ rfl) hmemory huser hsatellite fun x hx => .inl (hrx hx)

theorem userData_of_get {x : KernelSocket} (h : getUserData x = some c) : x.userData = some c := by
  unfold getUserData at h
  split at h
  · exact h
  · cases h

section

variable (h : Typed s)

include h

theorem connects {b : Nat} (hk : k < s.service.numProcs) (hfree : unreferenced s k b)
    (hstep : userOnAccept s k a b true = some t) : Typed t := by
  have hcore := h.core.connects hfree hstep
  obtain ⟨c, hc, hlive, hlisten, rfl⟩ := of_userOnAccept hstep
  have huser := userData_of_get hc
  have hkind : dataSocket ((s.service.procs k).memory a) = false := by
    obtain ⟨hstream, hunconnected⟩ := (h.core.good k a).listen hlisten
    simp [dataSocket, hstream, hunconnected]
  refine h.of_free ⟨hcore, h.right, hk, rfl, rfl⟩ hfree.1 rfl rfl rfl fun x hx => ?_
  rcases mem_append.mp hx with hx | hx
  · exact .inl hx
  · obtain rfl := mem_singleton.mp hx
    exact .inr ⟨a, h.known k a c hlive huser, hkind⟩

theorem arrives (hstep : userDataAvailable s k a = some t) : Typed t := by
  have hcore := h.core.arrives hstep
  obtain ⟨c, hc, hqueueable, rfl⟩ := of_userDataAvailable hstep
  obtain ⟨hlive, hdata⟩ := Bool.and_eq_true_iff.mp hqueueable
  have huser := userData_of_get hc
  have hkind : dataSocket ((s.service.procs k).memory a) = true := by
    rcases Bool.or_eq_true_iff.mp hdata with hstream | hstate
    · simp [dataSocket, hstream]
    · simp [dataSocket, (h.core.good k a).connection (of_decide_eq_true hstate)]
  refine ⟨hcore, h.right, h.hosted, h.sole, h.known, fun x hx => ?_⟩
  rcases mem_append.mp hx with hx | hx
  · exact h.fits x hx
  · obtain rfl := mem_singleton.mp hx
    exact ⟨k, a, h.known k a c hlive huser, hkind⟩

theorem call {a : Conn.Action} {stream : Bool} (hguard : KeptApart s (.service (.call i a stream)))
    (hstep : call s i a stream = some t) : Typed t := by
  have hcore := h.core.call hstep
  obtain ⟨u, hu, rfl⟩ := Option.map_eq_some_iff.mp hstep
  obtain ⟨hprocs, hnum, -⟩ := of_call hu
  have hnone : ∀ c ∈ closesPosted s.service u, Rings.noneWaits { s with service := u } c := by
    intro c hc
    refine h.noneWaits (hguard c ?_)
    simpa only [closing, hu] using hc
  refine h.of_procs_eq hcore ?_ ?_ ?_ ?_
  · rw [foldl_flushRx_mistaken _ hnone]
    exact h.right
  · rw [foldl_flushRx_service]
    exact hprocs
  · rw [foldl_flushRx_service]
    exact hnum
  · rw [foldl_flushRx_rx]
    exact filter_sublist.subset

theorem accept {m : Nat} {filled : Bool} (hguard : KeptApart s (.service (.accept i m k filled)))
    (hstep : accept s i m k filled = some t) : Typed t := by
  have hcore := h.core.accept hstep
  rcases of_accept hstep with ⟨d, rest, u, htake, -, rfl, -⟩ | ⟨rest, htake, rfl⟩
  · exact h.of_procs_eq hcore h.right rfl rfl (Mailbox.subset_of_take htake)
  · have hdata := h.hosts_of_mem (Mailbox.mem_of_take htake)
    have hnot : hosts s ((s.service.sockets m).copies k) true = false := hguard
    rw [RxEntry.isCommand, Bool.not_false, hnot] at hdata
    cases hdata

theorem recv {m : Nat} {kicked : Bool} (hguard : KeptApart s (.service (.recv i m kicked)))
    (hstep : recv s i m kicked = some t) : Typed t := by
  have hcore := h.core.recv hstep
  have hnone := h.noneWaits hguard
  obtain ⟨new, -, rfl⟩ := of_recv hstep
  refine h.of_procs_eq hcore ?_ ?_ ?_ (Core.dequeueRxBuf_rx ..).subset
  · unfold dequeueRxBuf
    split
    · exact h.right
    · next entry rest htake =>
      have hentry := hnone _ (Mailbox.mem_of_take htake) rfl
      simp only [hentry, Bool.or_false]
      exact h.right
  · rw [Core.dequeueRxBuf_service]
  · rw [Core.dequeueRxBuf_service]

theorem posts {a : Service.Action} (ha : posts a = true) (hstep : serviceStep s a = some t) :
    Typed t := by
  have hcore := h.core.posts ha hstep
  obtain ⟨new, rfl, -⟩ := of_posts ha hstep
  exact h.of_procs_eq hcore h.right rfl rfl fun _ hx => hx

theorem callsBack {a : Service.Action} (ha : callsBack a = true)
    (hruns : runs s.service.numProcs (actor a) = true) (hstep : serviceStep s a = some t) :
    Typed t := by
  have hcore := h.core.callsBack ha hstep
  obtain ⟨k, q, hactor, hkeeps, rfl⟩ := of_callsBack ha h.core.good hstep
  rw [hactor] at hruns
  exact h.of_keeps ⟨hcore, h.right, of_decide_eq_true hruns, rfl, rfl⟩ hkeeps fun _ hx => hx

theorem step {a : Action} (hguard : KeptApart s a) (hstep : step s a = some t) : Typed t := by
  cases a with
  | arrives k a => exact h.arrives (Option.ite_none_right_eq_some.mp hstep).2
  | service a =>
    obtain ⟨hruns, hstep⟩ := Option.ite_none_right_eq_some.mp hstep
    cases a with
    | call i a stream => exact h.call hguard hstep
    | accept i m k filled => exact h.accept hguard hstep
    | recv i m kicked => exact h.recv hguard hstep
    | stack k success address => exact h.process (of_decide_eq_true hruns) hguard hstep
    | connects k a b filled =>
      obtain ⟨rfl, hfree⟩ := hguard
      exact h.connects (of_decide_eq_true hruns) hfree hstep
    | listen | send | sendNothing | setsockopt => exact h.posts rfl hstep
    | disconnects | closes | readable | reads | writable | writes | notifies =>
      exact h.callsBack rfl hruns hstep

end

end Typed

/-- If no listener is closed, shut down or read while connections wait, none is accepted from a data
socket, and no index gets a second socket, every entry is taken as what it is. -/
theorem ring_entries_typed (s : State) (hreach : system.ReachableUnder KeptApart s) :
    s.mistaken = false := by
  have htyped : Typed s :=
    TransitionSystem.ReachableUnder.invariant (fun _ => Typed.start)
      (fun _ _ _ h hguard hstep => h.step hguard hstep) hreach
  exact htyped.right

instance (s : State) (a : Action) : Decidable (KeptApart s a) := by
  rcases a with a | _
  · cases_type Service.Action <;> dsimp only [KeptApart] <;> try infer_instance
    generalize Mailbox.take _ s.service.ring = taken
    rcases taken with _ | ⟨e, _⟩ <;> infer_instance
  · exact .isTrue trivial

theorem ring_entries_typed_listener :
    ∃ s, system.ReachableUnder KeptApart s ∧ s.rx = [(0, .command (0, 2)), (1, .mbuf)] ∧
      s.mistaken = false := by
  obtain ⟨s, hreach, htest⟩ :=
    system.exists_reachableUnder KeptApart (initial 1)
      (listening ++ [Action.service (.connects 0 0 1 true), .service (.accept 7 0 0 true),
        .service (.stack 0 true 0), .service (.connects 0 0 2 true), .arrives 0 1])
      (P := fun s => s.rx = [(0, .command (0, 2)), (1, .mbuf)])
      (start_initial 1) (by decide +kernel)
  exact ⟨s, hreach, htest, ring_entries_typed s hreach⟩

def Mistakes (run : List Action) : Prop :=
  system.ReachesBy (initial 1) run fun s => s.mistaken = true

/-- A listener is closed, shut down or read while a connection waits; or a connection accepted
without a command buffer brings data for the listener, which `light_accept` takes. -/
theorem command_taken_as_mbuf :
    Mistakes (listening ++ [.service (.connects 0 0 1 true),
      .service (.call 7 (.close 0 1) false)]) ∧
    Mistakes (listening ++ [.service (.call 7 (.shutdown 0 0 true) false),
      .service (.connects 0 0 1 true), .service (.stack 0 true 0)]) ∧
    Mistakes (listening ++ [.service (.connects 0 0 1 true), .service (.recv 7 0 true)]) ∧
    Mistakes (listening ++ [.service (.connects 0 0 1 false), .arrives 0 1,
      .service (.accept 7 0 0 true)]) := by
  refine ⟨?_, ?_, ?_, ?_⟩
  all_goals exact system.reachesBy (start_initial 1) (by decide +kernel)

end LightStack.Service.Rings
