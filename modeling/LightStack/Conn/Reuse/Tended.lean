import LightStack.Conn.Attended
import LightStack.Conn.Reuse.Model

/-!
# Slots that fit the places of their indices

A set `write_done_from_app` has its `TX_KICK` in the ring.
-/

namespace LightStack.Conn.Reuse

open Lib List

/-! ## Slots and the places of their indices -/

def NoTimeouts (x : Slot) : Prop :=
  ∀ sec usec, x.sendTimeout ≠ .set sec usec ∧ x.receiveTimeout ≠ .set sec usec

structure Left (x : Slot) : Prop where
  isNonblock : x.isNonblock = false
  connectCloseSignal : x.connectCloseSignal = 0
  epollNodes : x.epollNodes = []
  timeouts : NoTimeouts x

structure Untouched (x : Slot) : Prop where
  connectCloseSignal : x.connectCloseSignal = 0
  txRing : x.txRing = []
  rxRing : x.rxRing = []
  timeouts : NoTimeouts x

structure Fits (s : Conn.State) (c : Nat) (x : Slot) : Prop where
  free : some c ∈ s.free.items → Left x ∧ Untouched x
  leaving : c ∈ releases s → Left x
  untold : c ∈ owned s → (s.locals c).isInit = false → s.kernel c = false → Untouched x

structure Shrinks (f : Slot → Slot) : Prop where
  left : ∀ x, Left x → Left (f x)
  untouched : ∀ x, Untouched x → Untouched (f x)
  writeDone : ∀ x, (f x).writeDone = true → x.writeDone = true
  presented : ∀ x, (f x).presentedInChain = x.presentedInChain

theorem noTimeouts_unlimited (x : Slot) (hsend : x.sendTimeout = .unlimited)
    (hreceive : x.receiveTimeout = .unlimited) : NoTimeouts x := by
  simp [NoTimeouts, hsend, hreceive]

namespace Shrinks

theorem initSlot : Shrinks initSlot where
  left _ hx := ⟨hx.isNonblock, rfl, rfl, noTimeouts_unlimited _ rfl rfl⟩
  untouched _ hx := ⟨rfl, hx.txRing, hx.rxRing, noTimeouts_unlimited _ rfl rfl⟩
  writeDone _ hx := hx
  presented _ := rfl

theorem acceptSlot : Shrinks acceptSlot where
  left _ hx := ⟨rfl, rfl, hx.epollNodes, noTimeouts_unlimited _ rfl rfl⟩
  untouched _ hx := ⟨rfl, hx.txRing, hx.rxRing, noTimeouts_unlimited _ rfl rfl⟩
  writeDone _ hx := hx
  presented _ := rfl

theorem dropRx (n : Nat) : Shrinks fun x => { x with rxRing := x.rxRing.drop n } where
  left _ hx := ⟨hx.isNonblock, hx.connectCloseSignal, hx.epollNodes, hx.timeouts⟩
  untouched _ hx := ⟨hx.connectCloseSignal, hx.txRing, by simp [hx.rxRing], hx.timeouts⟩
  writeDone _ hx := hx
  presented _ := rfl

theorem userOnTransmissionOpportunity (sent : Nat) :
    Shrinks (userOnTransmissionOpportunity sent) where
  left _ hx := ⟨hx.isNonblock, hx.connectCloseSignal, hx.epollNodes, hx.timeouts⟩
  untouched _ hx := by
    refine ⟨hx.connectCloseSignal, ?_, hx.rxRing, hx.timeouts⟩
    simp [Reuse.userOnTransmissionOpportunity, hx.txRing]
  writeDone _ hx := by cases hx
  presented _ := rfl

theorem userFlush (rx tx : Bool) : Shrinks (userFlush rx tx) where
  left _ hx := ⟨hx.isNonblock, hx.connectCloseSignal, hx.epollNodes, hx.timeouts⟩
  untouched _ hx := by
    refine ⟨hx.connectCloseSignal, ?_, ?_, hx.timeouts⟩
    · simp [Reuse.userFlush, hx.txRing]
    · simp [Reuse.userFlush, hx.rxRing]
  writeDone _ hx := hx
  presented _ := rfl

theorem epollDel (e : Nat) : Shrinks fun x => { x with epollNodes := x.epollNodes.erase e } where
  left _ hx := ⟨hx.isNonblock, hx.connectCloseSignal, by simp [hx.epollNodes], hx.timeouts⟩
  untouched _ hx := ⟨hx.connectCloseSignal, hx.txRing, hx.rxRing, hx.timeouts⟩
  writeDone _ hx := hx
  presented _ := rfl

end Shrinks

theorem Fits.shrink {s : Conn.State} {c : Nat} {x : Slot} {f : Slot → Slot}
    (hfits : Fits s c x) (hf : Shrinks f) : Fits s c (f x) where
  free hfree := (hfits.free hfree).imp (hf.left x) (hf.untouched x)
  leaving hrel := hf.left x (hfits.leaving hrel)
  untold howned hinit hkernel := hf.untouched x (hfits.untold howned hinit hkernel)

theorem Fits.move {s t : Conn.State} {c : Nat} {x : Slot} (hfits : Fits s c x)
    (hfree : some c ∈ t.free.items → some c ∈ s.free.items)
    (hleaving : c ∈ releases t → c ∈ releases s)
    (huntold : c ∈ owned t → (t.locals c).isInit = false → t.kernel c = false →
      some c ∈ s.free.items ∨
        c ∈ owned s ∧ (s.locals c).isInit = false ∧ s.kernel c = false) :
    Fits t c x where
  free h := hfits.free (hfree h)
  leaving h := hfits.leaving (hleaving h)
  untold howned hinit hkernel := by
    rcases huntold howned hinit hkernel with hfree | ⟨howned, hinit, hkernel⟩
    · exact (hfits.free hfree).2
    · exact hfits.untold howned hinit hkernel

section Places

variable {s : Conn.State} (h : Partition s) {c : Nat} {x : Slot}

include h

theorem fits_of_owned (howned : c ∈ owned s)
    (huntold : (s.locals c).isInit = false → s.kernel c = false → Untouched x) :
    Fits s c x where
  free hfree := absurd howned (h.not_owned_of_free hfree)
  leaving hrel := absurd hrel (h.not_releases_of_owned howned)
  untold _ := huntold

theorem fits_of_init (howned : c ∈ owned s) (hinit : (s.locals c).isInit = true) : Fits s c x :=
  fits_of_owned h howned fun hinit' => by
    rw [hinit] at hinit'
    cases hinit'

theorem fits_of_kernel (hkernel : KernelAttended s) (hc : s.kernel c = true)
    (hleft : c ∈ releases s → Left x) : Fits s c x where
  free hfree := by
    rcases hkernel c hc with hrel | ⟨howned, -⟩
    · exact absurd hrel (h.not_releases_of_free hfree)
    · exact absurd howned (h.not_owned_of_free hfree)
  leaving := hleft
  untold _ _ hkernel' := by
    rw [hc] at hkernel'
    cases hkernel'

end Places

def Ordered (x y : Nat × Entry) : Prop :=
  ∀ c, (y.2 = .txKick c → x.2 ≠ .command (.close c)) ∧
    (x.2 = .txKick c → y.2 ≠ .command (.setSocketRing c))

def Homed (s : Conn.State) (k c : Nat) : Prop :=
  (c ∈ s.descriptors ∧ (s.locals c).isInit = true ∧ (s.locals c).procId = k) ∨
    (k, .close c) ∈ s.pending

def asCommand : Entry → Option Command
  | .command cmd => some cmd
  | .txKick _ => none

structure Tended (s : State) : Prop where
  conn : Partition s.conn
  kernel : KernelAttended s.conn
  pending : s.conn.pending = Mailbox.select asCommand s.ring
  order : s.ring.Pairwise Ordered
  home : ∀ k c, (k, .txKick c) ∈ s.ring → Homed s.conn k c
  flagged : ∀ c, (s.slots c).writeDone = true → ∃ k, (k, .txKick c) ∈ s.ring
  userData : ∀ c, s.conn.kernel c = true → s.userData c = true
  stored : ∀ c, (s.privates c).stored = none
  presented : ∀ c, (s.slots c).presentedInChain = false
  strayed : ∀ c, s.strayed c = false
  fits : ∀ c, Fits s.conn c (s.slots c)

variable {k : Nat} {cmd : Command} {rest : List (Nat × Entry)} {new : List (Nat × Command)}

namespace Tended

variable {s : State}

theorem mem_pending (h : Tended s) : (k, cmd) ∈ s.conn.pending ↔ (k, .command cmd) ∈ s.ring := by
  rw [h.pending, Mailbox.mem_select]
  constructor
  · rintro ⟨e, hmem, he⟩
    cases e with
    | command cmd' =>
      cases he
      exact hmem
    | txKick c => cases he
  · exact fun hmem => ⟨_, hmem, rfl⟩

theorem releases_of_close {c : Nat} (hmem : (k, .close c) ∈ s.conn.pending) : c ∈ releases s.conn :=
  mem_filterMap.mpr ⟨_, hmem, rfl⟩

theorem ordered_of_take (h : Tended s) {e e' : Entry}
    (htake : Mailbox.take k s.ring = some (e, rest)) (hmem : (k, e') ∈ s.ring) (hne : e' ≠ e) :
    Ordered (k, e) (k, e') := by
  rcases mem_cons.mp ((Mailbox.take_perm htake).mem_iff.mp hmem) with heq | hmem
  · exact absurd (Prod.mk.inj heq).2 hne
  · exact Mailbox.rel_of_take htake h.order hmem

theorem no_kick_of_close (h : Tended s) {c : Nat}
    (htake : Mailbox.take k s.ring = some (.command (.close c), rest)) (j : Nat) :
    (j, .txKick c) ∉ s.ring := by
  intro hkick
  have hclose : (k, .close c) ∈ s.conn.pending := h.mem_pending.mpr (Mailbox.mem_of_take htake)
  rcases h.home j c hkick with ⟨hm, -⟩ | hclose'
  · exact h.conn.not_releases_of_owned (h.conn.descriptor_mem_owned hm) (releases_of_close hclose)
  · have habout : ∀ i, about c (i, .close c) = true := by simp [about]
    have hj : j = k := h.conn.core_of_life (mem_filter.mpr ⟨hclose, habout k⟩) _
      (mem_filter.mpr ⟨hclose', habout j⟩)
    rw [hj] at hkick
    exact (h.ordered_of_take htake hkick (by simp) c).1 rfl rfl

theorem kernel_of_kick (h : Tended s) {c : Nat}
    (htake : Mailbox.take k s.ring = some (.txKick c, rest)) : s.conn.kernel c = true := by
  have hnot : (k, .setSocketRing c) ∉ s.conn.pending := fun hmem =>
    (h.ordered_of_take htake (h.mem_pending.mp hmem) (by simp) c).2 rfl rfl
  have hlife : ∀ {cs}, life s.conn c = (k, .setSocketRing c) :: cs → False := by
    intro cs heq
    have hmem : (k, .setSocketRing c) ∈ life s.conn c := by simp [heq]
    exact hnot (mem_filter.mp hmem).1
  rcases h.home k c (Mailbox.mem_of_take htake) with ⟨hm, hinit, hproc⟩ | hclose
  · rcases h.conn.told c (h.conn.descriptor_mem_owned hm) hinit with ⟨-, hknown⟩ | hset
    · exact hknown
    · rw [hproc] at hset
      exact (hlife hset).elim
  · rcases h.conn.leaving c (releases_of_close hclose) with ⟨-, hknown⟩ | ⟨j, hset⟩
    · exact hknown
    · have hmem : (k, .close c) ∈ life s.conn c := mem_filter.mpr ⟨hclose, by simp [about]⟩
      have hj : k = j := by simpa [hset] using hmem
      exact (hlife (hj ▸ hset)).elim

theorem no_kick_of_free (h : Tended s) {c : Nat}
    (hfree : some c ∈ s.conn.free.items) : (k, .txKick c) ∉ s.ring := by
  intro hkick
  rcases h.home k c hkick with ⟨hm, -⟩ | hclose
  · exact h.conn.not_owned_of_free hfree (h.conn.descriptor_mem_owned hm)
  · exact h.conn.not_releases_of_free hfree (releases_of_close hclose)

end Tended

/-! ## Calls -/

section Changes

variable {s : Conn.State} {slots : Nat → Slot} {f : Slot → Slot}

theorem Fits.mapSlots (hf : Shrinks f) (cs : List Nat) {c : Nat}
    (hfits : Fits s c (slots c)) : Fits s c (mapSlots cs f slots c) := by
  unfold Reuse.mapSlots
  split
  · exact hfits.shrink hf
  · exact hfits

theorem Fits.updateNext (hf : Shrinks f) {c : Nat} (t : Conn.State)
    (hfits : Fits s c (slots c)) : Fits s c (updateNext t f slots c) := by
  unfold Reuse.updateNext
  split
  · exact hfits.shrink hf
  · exact hfits

theorem Fits.initSlots (cmds : List (Nat × Command)) {c : Nat}
    (hfits : Fits s c (slots c)) : Fits s c (initSlots cmds slots c) := by
  unfold Reuse.initSlots
  split
  · exact hfits.shrink .initSlot
  · exact hfits

end Changes

theorem callSlots_marks (s t : Conn.State) (slots : Nat → Slot) (a : Conn.Action) (c : Nat) :
    (callSlots s t slots a c).writeDone = (slots c).writeDone ∧
      (callSlots s t slots a c).presentedInChain = (slots c).presentedInChain := by
  have hinit : ∀ cmds (x : Nat → Slot), (initSlots cmds x c).writeDone = (x c).writeDone ∧
        (initSlots cmds x c).presentedInChain = (x c).presentedInChain := by
    intro cmds x
    unfold initSlots
    split <;> exact ⟨rfl, rfl⟩
  have hclose : ∀ k cmds, (closeSlots k cmds slots c).writeDone = (slots c).writeDone ∧
      (closeSlots k cmds slots c).presentedInChain = (slots c).presentedInChain := by
    intro k cmds
    unfold closeSlots
    split <;> exact ⟨rfl, rfl⟩
  cases a with
  | bind m alloc => exact hinit _ _
  | resume alloc posted =>
    simp only [callSlots, resumeSlots]
    split
    · refine (hinit _ _).imp (fun h => h.trans ?_) (fun h => h.trans ?_)
      all_goals
        unfold copyNonblock
        split <;> rfl
    · exact hclose _ _
    · exact ⟨rfl, rfl⟩
  | accept m k posted =>
    have hmap : ∀ x : Nat → Slot, (updateNext s acceptSlot x c).writeDone =
        (x c).writeDone ∧ (updateNext s acceptSlot x c).presentedInChain =
          (x c).presentedInChain := by
      intro x
      unfold updateNext
      split <;> exact ⟨rfl, rfl⟩
    refine (hmap _).imp (fun h => h.trans ?_) (fun h => h.trans ?_)
    all_goals
      unfold mapSlots
      split <;> rfl
  | close m posted => exact hclose _ _
  | openSocket | connect | shutdown | stack => exact ⟨rfl, rfl⟩

theorem callPrivates_stored (s t : Conn.State) (privates : Nat → Private) (a : Conn.Action)
    (c : Nat) : (callPrivates s t privates a c).stored = (privates c).stored := by
  have hnext : (updateNext s resetLocalDescriptor privates c).stored = (privates c).stored := by
    unfold updateNext
    split <;> rfl
  have hclose : ∀ cmds, (closePrivates cmds privates c).stored = (privates c).stored := by
    intro cmds
    unfold closePrivates
    split <;> rfl
  cases a with
  | openSocket | accept => exact hnext
  | close m posted => exact hclose _
  | resume alloc posted =>
    simp only [callPrivates, resumePrivates]
    split
    · split
      · exact hnext
      · rfl
    · exact hclose _
  | bind | connect | shutdown | stack => rfl

theorem posted_eq {s t : Conn.State} (hpending : t.pending = s.pending ++ new) :
    posted s t = new := by
  rw [posted, hpending, drop_left]

structure Posts (s t : Conn.State) (new : List (Nat × Command)) : Prop where
  pending : t.pending = s.pending ++ new
  kernel : t.kernel = s.kernel
  told : ∀ k c, (k, .setSocketRing c) ∈ new → some c ∈ s.free.items
  home : ∀ k c, Homed s k c → Homed t k c

theorem Tended.of_posts {s : State} (h : Tended s) {a : Conn.Action} {t : Conn.State}
    (heffect : Partition.Effect s.conn a t) (hposts : Posts s.conn t new)
    (hfits : ∀ c, Fits t c (callSlots s.conn t s.slots a c)) :
    Tended
      { s with
        conn := t
        ring := s.ring ++ (posted s.conn t).map fun x => (x.1, .command x.2)
        slots := callSlots s.conn t s.slots a
        privates := callPrivates s.conn t s.privates a } := by
  rw [posted_eq hposts.pending]
  have hnew : ∀ k c, (k, Entry.txKick c) ∉ new.map (fun x => (x.1, Entry.command x.2)) := by simp
  refine
    { conn := h.conn.of_effect heffect
      kernel := h.kernel.effect h.conn heffect
      pending := ?_
      order := ?_
      home := ?_
      flagged := ?_
      userData := ?_
      stored := ?_
      presented := ?_
      strayed := h.strayed
      fits := hfits }
  · rw [Mailbox.select_append, ← h.pending, hposts.pending]
    congr 1
    simp [Mailbox.select, filterMap_map, asCommand]
  · refine pairwise_append.mpr ⟨h.order, ?_, ?_⟩
    · refine pairwise_of_forall_mem_list ?_
      intro x hx y hy c
      obtain ⟨x', -, rfl⟩ := mem_map.mp hx
      obtain ⟨y', -, rfl⟩ := mem_map.mp hy
      simp
    · intro x hx y hy c
      obtain ⟨⟨k, cmd⟩, hy', rfl⟩ := mem_map.mp hy
      refine ⟨by simp, fun hkick heq => ?_⟩
      obtain rfl := Entry.command.inj heq
      refine h.no_kick_of_free (k := x.1) (hposts.told k c hy') ?_
      rw [← hkick]
      exact hx
  · intro k c hkick
    rcases mem_append.mp hkick with hkick | hkick
    · exact hposts.home k c (h.home k c hkick)
    · exact absurd hkick (hnew k c)
  · intro c hflag
    rw [(callSlots_marks ..).1] at hflag
    obtain ⟨k, hkick⟩ := h.flagged c hflag
    exact ⟨k, mem_append_left _ hkick⟩
  · intro c hc
    exact h.userData c (hposts.kernel ▸ hc)
  · exact fun c => (callPrivates_stored ..).trans (h.stored c)
  · exact fun c => (callSlots_marks ..).2.trans (h.presented c)

section Effects

variable {s : State} (h : Tended s) {t : Conn.State}

include h

theorem Tended.posts_acquire {c : Nat} {l : Local} (hacq : Partition.Acquires s.conn t c l new) :
    Posts s.conn t new where
  pending := hacq.pending
  kernel := hacq.same.kernel
  told k c' hmem := by
    rcases hacq.introduced with ⟨-, rfl⟩ | ⟨-, rfl, -⟩
    · cases hmem
    · simp only [mem_singleton, Prod.mk.injEq, Command.setSocketRing.injEq] at hmem
      rw [hmem.2]
      exact hacq.mem_free
  home k c' hhome := by
    rcases hhome with ⟨hm, hlocal⟩ | hclose
    · refine .inl ?_
      rw [hacq.same.locals c' (hacq.ne_of_owned h.conn (h.conn.descriptor_mem_owned hm)),
        hacq.descriptors]
      exact ⟨mem_append_left _ hm, hlocal⟩
    · rw [Homed, hacq.pending]
      exact .inr (mem_append_left _ hclose)

theorem Tended.fits_acquire (hidle : s.conn.call = .idle) {c : Nat} {l : Local}
    (hacq : Partition.Acquires s.conn t c l new) {c' : Nat} {x : Slot} (hfits : Fits s.conn c' x) :
    Fits t c' x := by
  refine hfits.move ?_ ?_ ?_
  · intro hfree
    rw [hacq.free]
    exact mem_cons_of_mem _ hfree
  · exact fun hrel => hacq.releases_eq ▸ hrel
  · intro howned hinit hkernel
    rw [hacq.owned_eq h.conn hidle, mem_append] at howned
    rcases howned with howned | hc
    · rw [hacq.same.locals c' (hacq.ne_of_owned h.conn howned)] at hinit
      exact .inr ⟨howned, hinit, hacq.same.kernel ▸ hkernel⟩
    · rw [mem_singleton.mp hc]
      exact .inl hacq.mem_free

theorem Tended.posts_binds {extra : List Nat} (hbinds : Partition.Binds s.conn t extra new) :
    Posts s.conn t new where
  pending := hbinds.pending
  kernel := hbinds.kernel
  told k c hmem := by
    have hasks := hbinds.asks _ hmem
    cases hasks
  home k c hhome := by
    rcases hhome with ⟨hm, hinit, hproc⟩ | hclose
    · rcases (hbinds.kept c (h.conn.descriptor_mem_owned hm)).2 with hsame | ⟨hinit', -⟩
      · rw [Homed, hsame, hbinds.descriptors]
        exact .inl ⟨hm, hinit, hproc⟩
      · rw [hinit] at hinit'
        cases hinit'
    · rw [Homed, hbinds.pending]
      exact .inr (mem_append_left _ hclose)

omit h in
theorem fits_binds {extra : List Nat} (hbinds : Partition.Binds s.conn t extra new) {c : Nat}
    {x : Slot} (hfits : Fits s.conn c x) : Fits t c x := by
  refine hfits.move ?_ ?_ ?_
  · intro hfree
    rw [hbinds.free]
    exact mem_append_right _ hfree
  · exact fun hrel => hbinds.releases_eq ▸ hrel
  · intro howned hinit hkernel
    rw [hbinds.kernel] at hkernel
    rcases mem_append.mp (hbinds.owned.mem_iff.mp howned) with howned | hextra
    · rcases (hbinds.kept c howned).2 with hsame | ⟨hinit', -⟩
      · exact .inr ⟨howned, hsame ▸ hinit, hkernel⟩
      · exact .inr ⟨howned, hinit', hkernel⟩
    · rw [hbinds.free]
      exact .inl (mem_append_left _ (mem_map_of_mem hextra))

omit h in
theorem posts_neutral {s : Conn.State} (hcmd : ∀ c, cmd ≠ .setSocketRing c) :
    Posts s (Conn.post s k cmd) [(k, cmd)] where
  pending := rfl
  kernel := rfl
  told j c hmem := by
    simp only [mem_singleton, Prod.mk.injEq] at hmem
    exact absurd hmem.2.symm (hcmd c)
  home j c hhome := hhome.imp_right fun hclose => mem_append_left _ hclose

omit h in
theorem posts_refl (s : Conn.State) : Posts s s [] where
  pending := (append_nil _).symm
  kernel := rfl
  told k c hmem := by cases hmem
  home k c hhome := hhome

omit h in
theorem fits_post {s : Conn.State} (hrelease : release cmd = none)
    {c : Nat} {x : Slot} (hfits : Fits s c x) : Fits (Conn.post s k cmd) c x := by
  have howned : owned (Conn.post s k cmd) = owned s := owned_congr rfl rfl rfl rfl
  refine hfits.move id ?_ ?_
  · intro hrel
    rw [releases_append rfl] at hrel
    simpa [hrelease] using hrel
  · intro hown hinit hkernel
    exact .inr ⟨howned ▸ hown, hinit, hkernel⟩

end Effects

/-! ### Closing -/

theorem closedBy_map (g : Nat → Nat) (cs : List Nat) (c : Nat) :
    closedBy (cs.map fun c => (g c, .close c)) c = if c ∈ cs then some (g c) else none := by
  induction cs with
  | nil => rfl
  | cons c' cs ih =>
    by_cases hc : c' = c
    · simp [closedBy, hc]
    · have hfind : closedBy ((c' :: cs).map fun c => (g c, .close c)) c =
          closedBy (cs.map fun c => (g c, .close c)) c := by
        simp [closedBy, hc]
      rw [hfind, ih]
      simp [Ne.symm hc]

section Closing

variable {s : State} (h : Tended s) (hidle : s.conn.call = .idle) {m : Nat}
  (hm : m ∈ s.conn.descriptors)

include h hidle hm

omit hidle in
theorem Tended.posts_closes {t : Conn.State} (hcloses : Partition.Closes s.conn t m) :
    Posts s.conn t (((bundle s.conn m).filter fun c => (s.conn.locals c).isInit).map
      fun c => ((s.conn.locals c).procId, .close c)) where
  pending := hcloses.pending
  kernel := hcloses.same.kernel
  told k c hmem := by
    obtain ⟨c', -, heq⟩ := mem_map.mp hmem
    cases heq
  home k c hhome := by
    rcases hhome with ⟨hc, hinit, hproc⟩ | hclose
    · by_cases hmem : c ∈ bundle s.conn m
      · refine .inr ?_
        rw [hcloses.pending, mem_append]
        refine .inr (mem_map.mpr ⟨c, mem_filter.mpr ⟨hmem, hinit⟩, ?_⟩)
        rw [hproc]
      · refine .inl ?_
        have hne : c ≠ m := by
          rintro rfl
          exact hmem (h.conn.self_mem_bundle hc)
        rw [hcloses.same.locals c hmem, hcloses.descriptors]
        exact ⟨(mem_erase_of_ne hne).mpr hc, hinit, hproc⟩
    · rw [Homed, hcloses.pending]
      exact .inr (mem_append_left _ hclose)

theorem Tended.kernel_of_uninit {c : Nat} (hc : c ∈ bundle s.conn m)
    (hinit : (s.conn.locals c).isInit = false) : s.conn.kernel c = false := by
  by_contra hkernel
  rcases h.kernel c (Bool.eq_true_of_not_eq_false hkernel) with hrel | ⟨-, hstate⟩
  · exact h.conn.not_releases_of_owned (Partition.mem_owned_of_descriptor hm hc) hrel
  · rcases hstate with hinit' | ⟨main, i, hcall⟩
    · rw [hinit] at hinit'
      cases hinit'
    · rw [hidle] at hcall
      cases hcall

theorem Tended.fits_closes {t : Conn.State} {posted : Nat}
    (hcloses : Partition.Closes s.conn t m) (hundone : Undone s m) (c : Nat) :
    Fits t c (callSlots s.conn t s.slots (.close m posted) c) := by
  have hslot : callSlots s.conn t s.slots (.close m posted) c =
      if c ∈ (bundle s.conn m).filter fun c => (s.conn.locals c).isInit then
        closeSlot (decide ((s.conn.locals c).procId = (s.conn.locals m).procId)) (s.slots c)
      else s.slots c := by
    simp only [callSlots, closeSlots, posted_eq hcloses.pending, closedBy_map]
    split
    · rename_i k hk
      split at hk
      · rename_i hmem
        cases hk
        rw [if_pos hmem]
      · cases hk
    · rename_i hk
      split at hk
      · cases hk
      · rename_i hmem
        rw [if_neg hmem]
  have hnodup := h.conn.owned_nodup
  rw [(Partition.owned_perm_erase hidle hm).nodup_iff, nodup_append] at hnodup
  have howned := hcloses.owned_eq h.conn hidle hm
  rw [hslot]
  by_cases hmem : c ∈ bundle s.conn m
  · have hown := Partition.mem_owned_of_descriptor hm hmem
    have hgone : c ∉ owned t := by
      rw [howned]
      exact fun hc => hnodup.2.2 c hmem c hc rfl
    cases hinit : (s.conn.locals c).isInit with
    | true =>
      have hclosed : c ∈ (bundle s.conn m).filter fun c => (s.conn.locals c).isInit :=
        mem_filter.mpr ⟨hmem, hinit⟩
      rw [if_pos hclosed]
      refine ⟨fun hfree => ?_, fun _ => ?_, fun hc => absurd hc hgone⟩
      · rw [hcloses.free, mem_append] at hfree
        rcases hfree with hfree | hfree
        · exact absurd hown (h.conn.not_owned_of_free hfree)
        · obtain ⟨c', hc', heq⟩ := mem_map.mp hfree
          cases heq
          have huninit := (mem_filter.mp hc').2
          rw [hinit] at huninit
          cases huninit
      · refine ⟨rfl, rfl, ?_, noTimeouts_unlimited _ rfl rfl⟩
        -- the copies of a listener other than the main one keep their nodes
        by_cases hcm : c = m
        · simp [closeSlot, hcm]
        · simp [closeSlot, (hundone c hmem).1 (.inl hcm)]
    | false =>
      have hnot : c ∉ (bundle s.conn m).filter fun c => (s.conn.locals c).isInit := by
        intro hc
        have hinit' := (mem_filter.mp hc).2
        rw [hinit] at hinit'
        cases hinit'
      rw [if_neg hnot]
      have huntouched := (h.fits c).untold hown hinit (h.kernel_of_uninit hidle hm hmem hinit)
      obtain ⟨hnodes, hnonblock⟩ := hundone c hmem
      refine ⟨fun _ => ⟨?_, huntouched⟩, fun hrel => ?_, fun hc => absurd hc hgone⟩
      · exact ⟨hnonblock hinit, huntouched.connectCloseSignal, hnodes (.inr hinit),
          huntouched.timeouts⟩
      · rw [hcloses.releases_eq, mem_append] at hrel
        exact absurd (hrel.resolve_right hnot) (h.conn.not_releases_of_owned hown)
  · have hnot : c ∉ (bundle s.conn m).filter fun c => (s.conn.locals c).isInit :=
      fun hc => hmem (mem_filter.mp hc).1
    rw [if_neg hnot]
    refine (h.fits c).move (fun hfree => ?_) (fun hrel => ?_) fun hc hinit hkernel => .inr ?_
    · rw [hcloses.free, mem_append] at hfree
      refine hfree.resolve_right fun hfree => ?_
      obtain ⟨c', hc', heq⟩ := mem_map.mp hfree
      cases heq
      exact hmem (mem_filter.mp hc').1
    · rw [hcloses.releases_eq, mem_append] at hrel
      exact hrel.resolve_right hnot
    · rw [hcloses.same.locals c hmem] at hinit
      rw [hcloses.same.kernel] at hkernel
      rw [howned] at hc
      refine ⟨?_, hinit, hkernel⟩
      exact (Partition.owned_perm_erase hidle hm).mem_iff.mpr (mem_append_right _ hc)

end Closing

theorem Tended.call {s t : State} (h : Tended s) {a : Conn.Action} (hsupplied : Supplied s.conn a)
    (hundone : ∀ m posted, a = .close m posted → Undone s m) (hstep : call s a = some t) :
    Tended t := by
  unfold Reuse.call at hstep
  split at hstep
  · cases hstep
  · obtain ⟨u, hconn, rfl⟩ := Option.map_eq_some_iff.mp hstep
    have heffect := h.conn.effect hsupplied hconn
    cases heffect with
    | opens hidle hacq hinit =>
      exact h.of_posts (.opens hidle hacq hinit) (h.posts_acquire hacq)
        fun c => h.fits_acquire hidle hacq (h.fits c)
    | binds hbinds hnext =>
      exact h.of_posts (.binds hbinds hnext) (h.posts_binds hbinds)
        fun c => fits_binds hbinds ((h.fits c).initSlots _)
    | resumes hbinds hnext =>
      refine h.of_posts (.resumes hbinds hnext) (h.posts_binds hbinds) fun c => fits_binds hbinds ?_
      simp only [callSlots, resumeSlots]
      split
      · rename_i main current i hcall hreply
        refine Fits.initSlots _ ?_
        unfold copyNonblock
        split
        · rename_i hc
          have howned : c ∈ owned s.conn := hc.2 ▸ h.conn.current_mem_owned hcall
          refine fits_of_owned h.conn howned fun hinit hkernel => ?_
          have hold := (h.fits c).untold howned hinit hkernel
          exact ⟨hold.connectCloseSignal, hold.txRing, hold.rxRing, hold.timeouts⟩
        · exact h.fits c
      · rename_i main current i hcall hreply
        cases (h.conn.answered hcall hreply).1
      · exact h.fits c
    | connects => exact h.of_posts .connects (posts_refl _) h.fits
    | accepts hidle hacq =>
      refine h.of_posts (.accepts hidle hacq) (h.posts_acquire hacq)
        fun c => h.fits_acquire hidle hacq ?_
      exact Fits.updateNext .acceptSlot _ ((h.fits c).mapSlots (.dropRx 1) _)
    | @declines m k posted hidle hfree =>
      have hfits : ∀ c, Fits s.conn c
          (callSlots s.conn (if posted then Conn.post s.conn k .decline else s.conn) s.slots
            (.accept m k posted) c) := fun c =>
        Fits.updateNext .acceptSlot _ ((h.fits c).mapSlots (.dropRx 1) _)
      cases posted with
      | false => exact h.of_posts (.declines hidle hfree) (posts_refl _) hfits
      | true =>
        exact h.of_posts (.declines hidle hfree) (posts_neutral (by simp))
          fun c => fits_post rfl (hfits c)
    | @shuts m how posted hidle hhow =>
      cases posted with
      | false => exact h.of_posts (.shuts hidle hhow) (posts_refl _) h.fits
      | true =>
        have hhow' : how ≠ 2 := hhow.resolve_right (by simp)
        exact h.of_posts (.shuts hidle hhow) (posts_neutral (by simp))
          fun c => fits_post (by simp [release, hhow']) (h.fits c)
    | closes hidle hm hcloses =>
      exact h.of_posts (.closes hidle hm hcloses) (h.posts_closes hm hcloses)
        (h.fits_closes hidle hm hcloses (hundone _ _ rfl))
    | processes htake hopens => contradiction

end LightStack.Conn.Reuse
