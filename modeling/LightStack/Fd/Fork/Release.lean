import LightStack.Fd.Fork.Model

/-!
# Inherited descriptors are released once, by a sole holder
-/

namespace LightStack.Fd.Fork

open Lib Function List

variable {s : State} {p p' : Process} {held rest : List (Nat × Nat)} {q r c fd fd' m posted : Nat}

/-! ## The closing loop -/

theorem items_putFree (free : Ring Nat fdRingCap) (c : Nat)
    (hroom : free.items.length < fdRingCap) :
    (putFree free c).items = free.items ++ [c] :=
  Ring.items_getD_enqueue free c hroom

/-- From `l` to `l'` the connections of `cs` are released, but for those in `left`. -/
structure Releases (cs : List Nat) (posted : Nat) (l l' : CloseLoop) (left : List Nat) : Prop where
  left_suffix : left <:+ cs
  left_iff : left = [] ↔ cs.countP l.isInit ≤ posted
  perm : (l'.free.items ++ l'.closing ++ left).Perm (l.free.items ++ l.closing ++ cs)
  closing : ∀ c ∈ l'.closing, c ∈ l.closing ∨ c ∈ cs ∧ l.isInit c = true
  isInit : ∀ c, l'.isInit c = true → l.isInit c = true

theorem update_false_le {f : Nat → Bool} {x : Nat}
    (hx : update f c false x = true) : f x = true := by
  by_cases hxc : x = c
  · simp [hxc] at hx
  · simpa [hxc] using hx

theorem closeCopies_releases (cs : List Nat) (posted : Nat) (l : CloseLoop) (hnodup : cs.Nodup)
    (hroom : l.free.items.length + cs.length ≤ fdRingCap) :
    ∃ left, Releases cs posted l (closeCopies cs posted l) left := by
  induction cs generalizing posted l with
  | nil =>
    exact ⟨[], suffix_rfl, by simp, by simp [closeCopies], fun c hc => .inl hc, fun c hc => hc⟩
  | cons c rest ih =>
    obtain ⟨hnot, hrest⟩ := nodup_cons.mp hnodup
    rw [length_cons] at hroom
    cases hinit : l.isInit c with
    | false =>
      have hitems := items_putFree l.free c (by omega)
      obtain ⟨left, h⟩ := ih posted { l with free := putFree l.free c } hrest (by
        rw [hitems, length_append, length_singleton]
        omega)
      simp only [closeCopies, hinit, Bool.not_false, if_true]
      refine ⟨left, h.left_suffix.trans (suffix_cons c rest), ?_, h.perm.trans ?_, fun x hx => ?_,
        h.isInit⟩
      · rw [countP_cons_of_neg (by simp [hinit])]
        exact h.left_iff
      · simp only [hitems, append_assoc, singleton_append]
        exact perm_middle.symm.append_left _
      · exact (h.closing x hx).imp_right (And.imp_left (mem_cons_of_mem c))
    | true =>
      cases posted with
      | zero =>
        simp only [closeCopies, hinit, Bool.not_true, Bool.false_eq_true, if_false]
        exact ⟨c :: rest, suffix_rfl, by simp [hinit], .refl _, fun x hx => .inl hx, fun x hx => hx⟩
      | succ posted =>
        have hsame : rest.countP (update l.isInit c false) = rest.countP l.isInit := by
          apply countP_congr
          intro x hx
          have hxc : x ≠ c := fun h => hnot (h ▸ hx)
          simp [hxc]
        obtain ⟨left, h⟩ := ih posted { l with
          closing := l.closing ++ [c]
          isInit := update l.isInit c false } hrest (by simp only; omega)
        simp only [closeCopies, hinit, Bool.not_true, Bool.false_eq_true, if_false]
        refine ⟨left, h.left_suffix.trans (suffix_cons c rest), ?_, h.perm.trans ?_,
          fun x hx => ?_, fun x hx => update_false_le (h.isInit x hx)⟩
        · rw [countP_cons_of_pos hinit, Nat.add_le_add_iff_right, ← hsame]
          exact h.left_iff
        · simp only [append_assoc, singleton_append]
          exact .refl _
        · rcases h.closing x hx with hx | ⟨hx, hxi⟩
          · refine (mem_append.mp hx).imp_right fun hx => ?_
            obtain rfl := mem_singleton.mp hx
            exact ⟨mem_cons_self .., hinit⟩
          · exact .inr ⟨mem_cons_of_mem c hx, update_false_le hxi⟩

/-! ## Held descriptors -/

def Holder (s : State) (r fd m : Nat) : Prop := ∃ p, ProcAt s r p ∧ p.tables.trueToLight fd = some m

theorem holdsAt_eq_true_iff : holdsAt s r fd = true ↔ ∃ m, Holder s r fd m := by
  unfold holdsAt Holder ProcAt
  constructor
  · intro h
    split at h
    · rename_i p hp
      obtain ⟨m, hm⟩ := Option.isSome_iff_exists.mp h
      exact ⟨m, p, hp, hm⟩
    · cases h
  · rintro ⟨m, p, hp, hm⟩
    simp [hp, hm]

def mainBundle (s : State) (m : Nat) : List Nat :=
  if m < connectionPoolSize then bundle s m else []

theorem closesNeeded_eq (hp : ProcAt s q p) (hm : p.tables.trueToLight fd = some m) :
    closesNeeded s q fd = (mainBundle s m).countP p.isInit := by
  unfold ProcAt at hp
  simp only [closesNeeded, hp, hm, mainBundle]
  split <;> simp

/-- The connections of held descriptors. -/
def bundles (s : State) (held : List (Nat × Nat)) : List Nat :=
  held.flatMap fun x => mainBundle s x.2

/-- The processes together hold the descriptors `held`, each with its light object. -/
def Holds (s : State) (held : List (Nat × Nat)) : Prop :=
  ∀ fd m, (∃ r, Holder s r fd m) ↔ (fd, m) ∈ held

theorem Holds.held_iff (h : Holds s held) : Held s fd ↔ ∃ m, (fd, m) ∈ held := by
  constructor
  · rintro ⟨r, p, m, hp⟩
    exact ⟨m, (h fd m).mp ⟨r, p, hp⟩⟩
  · rintro ⟨m, hm⟩
    obtain ⟨r, p, hp⟩ := (h fd m).mpr hm
    exact ⟨r, p, m, hp⟩

theorem Holds.heldMain (h : Holds s held) (hmem : (fd, m) ∈ held) (hlt : m < connectionPoolSize) :
    HeldMain s m := by
  obtain ⟨r, p, hp, hm⟩ := (h fd m).mpr hmem
  exact ⟨r, p, fd, hp, hm, hlt⟩

theorem Holds.heldConnection_iff (h : Holds s held) : HeldConnection s c ↔ c ∈ bundles s held := by
  simp only [bundles, mem_flatMap, mainBundle, mem_ite_nil_right]
  constructor
  · rintro ⟨m, ⟨r, p, fd, hp, hm, hlt⟩, hc⟩
    exact ⟨(fd, m), (h fd m).mp ⟨r, p, hp, hm⟩, hlt, hc⟩
  · rintro ⟨⟨fd, m⟩, hmem, hlt, hc⟩
    exact ⟨m, h.heldMain hmem hlt, hc⟩

/-- Every placeholder is in the ring or held, and every connection is released or belongs to a held
descriptor. -/
structure Once (held : List (Nat × Nat)) (s : State) : Prop where
  holds : Holds s held
  distinct : (held.map Prod.snd).Nodup
  bounded : ∀ x ∈ held, x.2 < connectionPoolSize + epollPoolSize
  ring : (s.shared.ring.items ++ held.map fun x => (x.1 : Int)).Perm (s.placeholders.map Int.ofNat)
  storage : s.shared.storage = held.length
  connections : (s.freeConnections.items ++ s.closing ++ bundles s held).Perm s.managed
  known : ∀ r p, ProcAt s r p → ∀ c ∈ bundles s held, p.isInit c = true → s.socket c = true
  closing_known : ∀ c ∈ s.closing, s.socket c = true
  proc : ∀ r p, ProcAt s r p →
    (∀ fd, p.tables.fullTrueFd fd = true ↔ fd ∈ s.placeholders) ∧
      PartialInverse p.tables.lightToTrue p.tables.trueToLight
  placeholders_nodup : s.placeholders.Nodup
  placeholders_length : s.placeholders.length = trueFdNum
  placeholders_lt : ∀ fd ∈ s.placeholders, fd < trueFdMaxSize
  managed_nodup : s.managed.Nodup
  managed_length : s.managed.length ≤ fdRingCap

namespace Once

section

variable (h : Once held s)

include h

theorem of_perm {held' : List (Nat × Nat)} (hperm : held.Perm held') : Once held' s :=
  { h with
    holds := fun fd m => (h.holds fd m).trans hperm.mem_iff
    distinct := (hperm.map _).nodup_iff.mp h.distinct
    bounded := fun x hx => h.bounded x (hperm.mem_iff.mpr hx)
    ring := ((hperm.map _).symm.append_left _).trans h.ring
    storage := h.storage.trans hperm.length_eq
    connections := ((hperm.flatMap_right _).symm.append_left _).trans h.connections
    known := fun r p hp c hc => h.known r p hp c ((hperm.flatMap_right _).mem_iff.mpr hc) }

theorem nodup_ring : (s.shared.ring.items ++ held.map fun x => (x.1 : Int)).Nodup :=
  h.ring.nodup_iff.mpr (h.placeholders_nodup.map fun _ _ => Int.ofNat.inj)

theorem nodup_connections : (s.freeConnections.items ++ s.closing ++ bundles s held).Nodup :=
  h.connections.nodup_iff.mpr h.managed_nodup

theorem released_add (c : Nat) : released s c + (bundles s held).count c = s.managed.count c := by
  rw [← h.connections.count_eq c, released, count_append, count_append]

theorem length_connections :
    s.freeConnections.items.length + s.closing.length + (bundles s held).length ≤ fdRingCap := by
  have hlength := h.connections.length_eq
  rw [length_append, length_append] at hlength
  exact hlength.trans_le h.managed_length

theorem mem_placeholders (hmem : (fd, m) ∈ held) : fd ∈ s.placeholders := by
  have hring := h.ring.mem_iff.mp (mem_append_right _ (mem_map_of_mem hmem))
  simpa using hring

theorem forkSafe : ForkSafe s where
  ring_nodup := h.nodup_ring.of_append_left
  free_nodup := h.nodup_connections.of_append_left.of_append_left
  held_placeholder := by
    intro fd _ hheld
    obtain ⟨m, hm⟩ := h.holds.held_iff.mp hheld
    exact count_eq_zero.mpr fun hring =>
      disjoint_of_nodup_append h.nodup_ring hring (mem_map_of_mem hm)
  released_placeholder := by
    intro fd hfd hfree
    have hmem := h.ring.mem_iff.mpr (mem_map_of_mem hfd)
    refine count_eq_one_of_mem h.nodup_ring.of_append_left ?_
    refine (mem_append.mp hmem).resolve_right fun hheld => hfree (h.holds.held_iff.mpr ?_)
    obtain ⟨⟨fd', m⟩, hm, heq⟩ := mem_map.mp hheld
    obtain rfl := Int.ofNat_inj.mp heq
    exact ⟨m, hm⟩
  held_connection := by
    intro c hc hheld
    have hadd := h.released_add c
    have hpos := count_pos_iff.mpr (h.holds.heldConnection_iff.mp hheld)
    rw [count_eq_one_of_mem h.managed_nodup hc] at hadd
    omega
  released_connection := by
    intro c hc hfree
    have hadd := h.released_add c
    rw [count_eq_one_of_mem h.managed_nodup hc,
      count_eq_zero.mpr (mt h.holds.heldConnection_iff.mpr hfree)] at hadd
    exact hadd

end

end Once

/-! ## Closing a descriptor -/

structure Closed (s : State) (p : Process) (fd m : Nat) (p' : Process) (shared : Shared)
    (isMulticore : Nat → Bool) : Prop where
  tables : p'.tables = p.tables.unlink m fd
  isInit : ∀ c, p'.isInit c = true → p.isInit c = true
  ring : shared.ring.items = s.shared.ring.items ++ [(fd : Int)]
  storage : shared.storage + 1 = s.shared.storage
  isMulticore : ∀ m', m' ≠ m → isMulticore m' = s.isMulticore m'

def closeLoop (s : State) (p : Process) (m posted : Nat) : CloseLoop :=
  closeCopies (mainBundle s m) posted ⟨s.freeConnections, s.closing, p.isInit, false⟩

abbrev closeState (s : State) (p : Process) (m posted : Nat) (shared : Shared)
    (isMulticore : Nat → Bool) : State :=
  { s with
    shared := shared
    freeConnections := (closeLoop s p m posted).free
    closing := (closeLoop s p m posted).closing
    isMulticore := isMulticore }

abbrev setProc (s : State) (q : Nat) (p : Process) : State :=
  { s with procs := s.procs.set q (some p) }

theorem procAt_setProc {x : Process} (hx : ProcAt (setProc s q p') r x) :
    x = p' ∨ ProcAt s r x := by
  simp only [ProcAt, getElem?_set] at hx
  split at hx
  · split at hx
    · exact .inl (by simpa using hx.symm)
    · cases hx
  · exact .inr hx

theorem holder_close (hp : ProcAt s q p) (htables : p'.tables = p.tables.unlink m fd) {m' : Nat} :
    Holder (setProc s q p') r fd' m' ↔ Holder s r fd' m' ∧ ¬(r = q ∧ fd' = fd) := by
  have hlt : q < s.procs.length := (List.getElem?_eq_some_iff.mp hp).1
  unfold Holder
  by_cases hr : r = q
  · subst hr
    have hold : ∀ x, ProcAt s r x ↔ x = p := by
      unfold ProcAt at hp ⊢
      simp [hp, eq_comm]
    have hnew : ∀ x, ProcAt (setProc s r p') r x ↔ x = p' := by simp [ProcAt, hlt, eq_comm]
    by_cases hfd : fd' = fd
    · simp [hold, hnew, htables, Tables.unlink, hfd]
    · simp [hold, hnew, htables, Tables.unlink, hfd]
  · simp [ProcAt, hr, Ne.symm hr]

namespace Once

variable {shared : Shared} {isMulticore : Nat → Bool}

section

variable (h : Once ((fd, m) :: rest) s)

include h

theorem releases (p : Process) (posted : Nat) :
    ∃ left, Releases (mainBundle s m) posted ⟨s.freeConnections, s.closing, p.isInit, false⟩
      (closeLoop s p m posted) left := by
  have hlength := h.length_connections
  rw [bundles, flatMap_cons, length_append] at hlength
  refine closeCopies_releases _ _ _ ?_ (by dsimp only at hlength ⊢; omega)
  have hnodup := h.nodup_connections.of_append_right
  rw [bundles, flatMap_cons] at hnodup
  exact hnodup.of_append_left

theorem lightClose_ok (hp : ProcAt s q p) (hm : p.tables.trueToLight fd = some m) (posted : Nat) :
    ∃ p' shared isMulticore,
      lightClose s p fd posted = .ok (p', closeState s p m posted shared isMulticore) ∧
        Closed s p fd m p' shared isMulticore := by
  obtain ⟨hfull, hinverse⟩ := h.proc q p hp
  have hfd := h.mem_placeholders mem_cons_self
  have hmlt := h.bounded (fd, m) mem_cons_self
  have hfdlt := h.placeholders_lt fd hfd
  have hsizes : connectionPoolSize + epollPoolSize < trueFdMaxSize := by decide
  have hcap : trueFdNum ≤ fdRingCap := by decide
  have hlength := h.ring.length_eq
  rw [length_append, length_map, length_map, length_cons, h.placeholders_length] at hlength
  have hstorage : s.shared.storage = rest.length + 1 := h.storage
  obtain ⟨ring, henqueue⟩ : ∃ ring, s.shared.ring.enqueue (fd : Int) = some ring := by
    cases henqueue : s.shared.ring.enqueue (fd : Int) with
    | some ring => exact ⟨ring, rfl⟩
    | none => exact absurd (Ring.enqueue_eq_none_iff.mp henqueue) (by omega)
  have hitems := (Ring.enqueue_eq_some_iff.mp henqueue).2
  have hput := putBackLightFd_eq hstorage henqueue hm (by omega) hfdlt
  have hlight := isLightFd_natCast p.tables hfdlt
  rw [(hfull fd).mpr hfd] at hlight
  obtain ⟨index, kind, hlookup, hindex, hsocket⟩ := lightFdToSocketEpollIndex_of_some hfdlt hm
  have hback := socketEpollIndexToLightFd_eq (t := p.tables) hindex
    (show m < trueFdMaxSize by omega)
  rw [(hinverse m fd).mpr hm, entry_some] at hback
  cases kind with
  | socket =>
    obtain rfl : index = m := by simpa [lightIndex] using hindex
    have hlt := hsocket rfl
    have hbundle : mainBundle s index = bundle s index := if_pos hlt
    obtain ⟨left, hreleases⟩ := h.releases p posted
    simp only [lightClose, hlight, hlookup, lightCloseSocket, hback, hput, slot_natCast hlt,
      pure, Except.pure, bind, Except.bind, Bool.not_true, Bool.false_eq_true, if_false]
    rw [← hbundle]
    refine ⟨_, _, _, rfl, rfl, fun c hc => ?_, hitems, hstorage.symm, fun m' hne => ?_⟩
    · dsimp only at hc
      split at hc
      · exact hreleases.isInit c hc
      · exact hc
    · split <;> simp [hne]
  | epoll =>
    simp only [lightIndex] at hindex
    have hbundle : mainBundle s m = [] := if_neg (by omega)
    have hslot : slot epollPoolSize (index : Int) = .ok index := slot_natCast (by omega)
    simp only [lightClose, hlight, hlookup, epollClose, hslot, hback, hput, closeState, closeLoop,
      hbundle, pure, Except.pure, bind, Except.bind, Bool.not_true, Bool.false_eq_true, if_false]
    exact ⟨_, _, _, rfl, rfl, fun c hc => hc, hitems, hstorage.symm, fun m' _ => rfl⟩

theorem bundles_close (hclosed : Closed s p fd m p' shared isMulticore) (q posted : Nat) :
    bundles (setProc (closeState s p m posted shared isMulticore) q p') rest = bundles s rest := by
  refine flatMap_congr fun x hx => ?_
  have hne : x.2 ≠ m := fun hx' => (nodup_cons.mp h.distinct).1 (mem_map.mpr ⟨x, hx, hx'⟩)
  simp only [mainBundle, bundle, hclosed.isMulticore x.2 hne]

end

variable (hp : ProcAt s q p) (hclosed : Closed s p fd m p' shared isMulticore)

include hp hclosed

theorem not_forkSafe_of_other (h : Once ((fd, m) :: rest) s)
    (hother : ∃ r m', Holder s r fd m' ∧ r ≠ q) :
    ¬ForkSafe (setProc (closeState s p m posted shared isMulticore) q p') := by
  intro hsafe
  obtain ⟨r, m', hholder, hne⟩ := hother
  obtain ⟨x, hx, hm'⟩ := (holder_close hp hclosed.tables).mpr ⟨hholder, fun hsame => hne hsame.1⟩
  have hcount := hsafe.held_placeholder fd (h.mem_placeholders mem_cons_self) ⟨r, x, m', hx, hm'⟩
  rw [hclosed.ring, count_eq_zero] at hcount
  exact hcount (by simp)

variable (h : Once ((fd, m) :: rest) s) (hsole : ∀ r m', Holder s r fd m' → r = q)

include h hsole

theorem holds_close :
    Holds (setProc (closeState s p m posted shared isMulticore) q p') rest := by
  intro fd' m'
  change (∃ r, Holder (setProc s q p') r fd' m') ↔ _
  simp only [holder_close hp hclosed.tables]
  constructor
  · rintro ⟨r, hholder, hnot⟩
    rcases mem_cons.mp ((h.holds fd' m').mp ⟨r, hholder⟩) with heq | hmem
    · cases heq
      exact absurd ⟨hsole r _ hholder, rfl⟩ hnot
    · exact hmem
  · intro hmem
    obtain ⟨r, hholder⟩ := (h.holds fd' m').mpr (mem_cons_of_mem _ hmem)
    refine ⟨r, hholder, ?_⟩
    rintro ⟨-, rfl⟩
    exact (nodup_cons.mp h.nodup_ring.of_append_right).1 (mem_map.mpr ⟨_, hmem, rfl⟩)

theorem close (hposted : (mainBundle s m).countP p.isInit ≤ posted) :
    Once rest (setProc (closeState s p m posted shared isMulticore) q p') := by
  obtain ⟨left, hreleases⟩ := h.releases p posted
  obtain rfl := hreleases.left_iff.mpr hposted
  have hperm := hreleases.perm
  rw [append_nil] at hperm
  have hbundles := h.bundles_close hclosed q posted
  have hring := h.ring
  have hconnections := h.connections
  rw [map_cons, append_cons, ← hclosed.ring] at hring
  rw [bundles, flatMap_cons, ← append_assoc] at hconnections
  refine { h with
    holds := holds_close hp hclosed h hsole
    distinct := (nodup_cons.mp h.distinct).2
    bounded := fun x hx => h.bounded x (mem_cons_of_mem _ hx)
    ring := hring
    storage := Nat.succ.inj (hclosed.storage.trans h.storage)
    connections := hbundles ▸ (hperm.append_right _).trans hconnections
    known := fun r x hx c hc hinit => ?_
    closing_known := fun c hc => ?_
    proc := fun r x hx => ?_ }
  · rw [hbundles] at hc
    have hc : c ∈ bundles s ((fd, m) :: rest) := mem_append_right _ hc
    rcases procAt_setProc hx with rfl | hx
    · exact h.known q p hp c hc (hclosed.isInit c hinit)
    · exact h.known r x hx c hc hinit
  · rcases hreleases.closing c hc with hc | ⟨hc, hinit⟩
    · exact h.closing_known c hc
    · exact h.known q p hp c (mem_append_left _ hc) hinit
  · rcases procAt_setProc hx with rfl | hx
    · obtain ⟨hfull, hinverse⟩ := h.proc q p hp
      obtain ⟨r', x', hx', hm'⟩ := (h.holds fd m).mpr mem_cons_self
      obtain rfl := hsole r' m ⟨x', hx', hm'⟩
      obtain rfl : x' = p := by simpa [ProcAt] using hx'.symm.trans hp
      rw [hclosed.tables]
      exact ⟨hfull, hinverse.unlink ((hinverse m fd).mpr hm')⟩
    · exact h.proc r x hx

theorem not_forkSafe_of_short (hshort : posted < (mainBundle s m).countP p.isInit) :
    ¬ForkSafe (setProc (closeState s p m posted shared isMulticore) q p') := by
  intro hsafe
  obtain ⟨left, hreleases⟩ := h.releases p posted
  obtain ⟨c, hc⟩ := exists_mem_of_ne_nil left fun hleft =>
    Nat.not_le_of_lt hshort (hreleases.left_iff.mp hleft)
  have hown : c ∈ mainBundle s m := hreleases.left_suffix.subset hc
  have hcount := hreleases.perm.count_eq c
  have hone := nodup_iff_count_le_one.mp h.nodup_connections c
  simp only [bundles, flatMap_cons, count_append] at hcount hone
  have hpos := count_pos_iff.mpr hown
  have hpos' := count_pos_iff.mpr hc
  have hmanaged : c ∈ s.managed :=
    h.connections.mem_iff.mp (mem_append_right _ (mem_append_left _ hown))
  have hfree : ¬HeldConnection (setProc (closeState s p m posted shared isMulticore) q p') c := by
    rw [(holds_close hp hclosed h hsole).heldConnection_iff, h.bundles_close hclosed q posted,
      ← count_eq_zero, bundles]
    omega
  have hreleased := hsafe.released_connection c hmanaged hfree
  dsimp only [released] at hreleased
  omega

end Once

/-! ## The other steps -/

namespace Once

theorem exists_procAt_fork (hp : ProcAt s q p) {x : Process} :
    (∃ r, ProcAt { s with procs := s.procs ++ [some p] } r x) ↔
      ∃ r, ProcAt s r x := by
  unfold ProcAt
  constructor
  · rintro ⟨r, hx⟩
    rcases Nat.lt_trichotomy r s.procs.length with hlt | rfl | hgt
    · exact ⟨r, by simpa only [List.getElem?_append_left hlt] using hx⟩
    · obtain rfl : p = x := by simpa using hx
      exact ⟨q, hp⟩
    · simp [List.getElem?_eq_none, Nat.succ_le_of_lt hgt] at hx
  · rintro ⟨r, hx⟩
    have hlt := (List.getElem?_eq_some_iff.mp hx).1
    exact ⟨r, by simpa only [List.getElem?_append_left hlt] using hx⟩

theorem fork (h : Once held s) (hp : ProcAt s q p) :
    Once held { s with procs := s.procs ++ [some p] } := by
  refine { h with holds := fun fd m => ?_, known := fun r x hx => ?_, proc := fun r x hx => ?_ }
  · rw [← h.holds fd m]
    simp only [Holder]
    rw [exists_comm, exists_comm (p := fun r x => ProcAt s r x ∧ _)]
    simp only [exists_and_right, exists_procAt_fork hp]
  · obtain ⟨r', hx'⟩ := (exists_procAt_fork hp).mp ⟨r, hx⟩
    exact h.known r' x hx'
  · obtain ⟨r', hx'⟩ := (exists_procAt_fork hp).mp ⟨r, hx⟩
    exact h.proc r' x hx'

theorem stackClose (h : Once held s) {rest : List Nat} (hclosing : s.closing = c :: rest) :
    s.socket c = true ∧ Once held { s with
      closing := rest
      socket := update s.socket c false
      freeConnections := putFree s.freeConnections c } := by
  have hlength := h.length_connections
  have hconnections := h.connections
  have hnodup := h.nodup_connections
  rw [hclosing, length_cons] at hlength
  rw [hclosing, append_cons] at hconnections hnodup
  rw [append_assoc, append_assoc, singleton_append] at hnodup
  have hnot := (nodup_cons.mp hnodup.of_append_right).1
  rw [mem_append, not_or] at hnot
  refine ⟨h.closing_known c (by simp [hclosing]), { h with
    connections := items_putFree s.freeConnections c (by omega) ▸ hconnections
    known := fun r p hp x hx hinit => ?_
    closing_known := fun x hx => ?_ }⟩
  · have hne : x ≠ c := ne_of_mem_of_not_mem hx hnot.2
    simpa [hne] using h.known r p hp x hx hinit
  · have hne : x ≠ c := ne_of_mem_of_not_mem hx hnot.1
    simpa [hne] using h.closing_known x (by simp [hclosing, hx])

end Once

section Start

variable (hstart : Start s) (hholds : Holds s held)

include hstart hholds

theorem Start.perm_ring (hnodup : (held.map fun x => (x.1 : Int)).Nodup)
    (hplaceholder : ∀ x ∈ held, x.1 ∈ s.placeholders) :
    (s.shared.ring.items ++ held.map fun x => (x.1 : Int)).Perm
      (s.placeholders.map Int.ofNat) := by
  refine (perm_ext_iff_of_nodup ?_ ?_).mpr fun x => ?_
  · refine nodup_append'.mpr ⟨hstart.ring_nodup, hnodup, fun x hx hx' => ?_⟩
    obtain ⟨fd, -, rfl, hfree⟩ := (hstart.ring_iff x).mp hx
    obtain ⟨⟨fd', m⟩, hm, heq⟩ := mem_map.mp hx'
    obtain rfl := Int.ofNat_inj.mp heq
    exact hfree (hholds.held_iff.mpr ⟨m, hm⟩)
  · exact hstart.placeholders_nodup.map fun _ _ => Int.ofNat.inj
  · rw [mem_append, hstart.ring_iff, mem_map, mem_map]
    constructor
    · rintro (⟨fd, hfd, rfl, -⟩ | ⟨x, hx, rfl⟩)
      · exact ⟨fd, hfd, rfl⟩
      · exact ⟨x.1, hplaceholder x hx, rfl⟩
    · rintro ⟨fd, hfd, rfl⟩
      by_cases hheld : Held s fd
      · obtain ⟨m, hm⟩ := hholds.held_iff.mp hheld
        exact .inr ⟨(fd, m), hm, rfl⟩
      · exact .inl ⟨fd, hfd, rfl, hheld⟩

theorem Start.perm_connections (hnodup : held.Nodup)
    (hdistinct : ∀ x ∈ held, ∀ y ∈ held, x.2 = y.2 → x = y) :
    (s.freeConnections.items ++ s.closing ++ bundles s held).Perm s.managed := by
  rw [hstart.nothing_closing, append_nil]
  refine (perm_ext_iff_of_nodup ?_ hstart.managed_nodup).mpr fun c => ?_
  · refine nodup_append'.mpr ⟨hstart.free_nodup, nodup_flatMap.mpr ⟨?_, ?_⟩, fun c hc hc' => ?_⟩
    · rintro ⟨fd, m⟩ hx
      unfold mainBundle
      split
      · exact hstart.bundle_nodup m (hholds.heldMain hx (by assumption))
      · exact nodup_nil
    · refine hnodup.pairwise_of_forall_ne fun x hx y hy hne c hc hc' => hne ?_
      simp only [mainBundle, mem_ite_nil_right] at hc hc'
      exact hdistinct x hx y hy (hstart.bundle_disjoint _ _ c (hholds.heldMain hx hc.1)
        (hholds.heldMain hy hc'.1) hc.2 hc'.2)
    · exact ((hstart.free_iff c).mp hc).2 (hholds.heldConnection_iff.mpr hc')
  · have hmanaged := hstart.held_managed c
    rw [mem_append, hstart.free_iff, ← hholds.heldConnection_iff]
    tauto

end Start

theorem Once.start (hstart : Start s) : ∃ held, Once held s := by
  obtain ⟨p, hprocs, hlight, hinverse, hmapped, hknown⟩ := hstart.one_process
  have hproc : ∀ r x, ProcAt s r x ↔ r = 0 ∧ x = p := by
    intro r x
    unfold ProcAt
    rw [hprocs]
    cases r with
    | zero => simp [eq_comm]
    | succ r => simp
  let held := s.placeholders.filterMap fun fd => (p.tables.trueToLight fd).map fun m => (fd, m)
  have hheld : ∀ fd m, (fd, m) ∈ held ↔ p.tables.trueToLight fd = some m := by
    intro fd m
    simp only [held, mem_filterMap, Option.map_eq_some_iff, Prod.mk.injEq]
    constructor
    · rintro ⟨fd, -, m, hm, rfl, rfl⟩
      exact hm
    · exact fun hm => ⟨fd, (hmapped fd m hm).1, m, hm, rfl, rfl⟩
  have hholds : Holds s held := by
    intro fd m
    rw [hheld]
    simp only [Holder, hproc]
    simp
  have hnodup : held.Nodup := by
    refine hstart.placeholders_nodup.filterMap fun fd fd' x hx hx' => ?_
    obtain ⟨m, -, rfl⟩ := Option.map_eq_some_iff.mp hx
    obtain ⟨m', -, heq⟩ := Option.map_eq_some_iff.mp hx'
    exact (Prod.mk.inj heq).1.symm
  have hdistinct : ∀ x ∈ held, ∀ y ∈ held, x.2 = y.2 → x = y := by
    rintro ⟨fd, m⟩ hx ⟨fd', m'⟩ hy rfl
    rw [hheld, ← hinverse] at hx hy
    rw [Option.some.inj (hx.symm.trans hy)]
  have hfirst : (held.map fun x => (x.1 : Int)).Nodup := by
    refine hnodup.map_on ?_
    rintro ⟨fd, m⟩ hx ⟨fd', m'⟩ hy heq
    obtain rfl := Int.ofNat_inj.mp heq
    rw [hheld] at hx hy
    rw [Option.some.inj (hx.symm.trans hy)]
  have hring := hstart.perm_ring hholds hfirst fun x hx =>
    (hmapped x.1 x.2 ((hheld x.1 x.2).mp hx)).1
  refine ⟨held, { hstart with
    holds := hholds
    distinct := hnodup.map_on hdistinct
    bounded := fun x hx => (hmapped x.1 x.2 ((hheld x.1 x.2).mp hx)).2
    ring := hring
    storage := ?_
    connections := hstart.perm_connections hholds hnodup hdistinct
    known := fun r x hx c _ hinit => hknown c (((hproc r x).mp hx).2 ▸ hinit)
    closing_known := by simp [hstart.nothing_closing]
    proc := fun r x hx => ((hproc r x).mp hx).2 ▸ ⟨hlight, hinverse⟩ }⟩
  have hlength := hring.length_eq
  have hstorage := hstart.storage
  rw [length_append, length_map, length_map, hstart.placeholders_length] at hlength
  omega

theorem soleHolder_close_iff (hp : ProcAt s q p) (hm : p.tables.trueToLight fd = some m) :
    SoleHolder s (.close q fd posted) ↔
      (∀ r m', Holder s r fd m' → r = q) ∧
        (mainBundle s m).countP p.isInit ≤ posted := by
  rw [SoleHolder, closesNeeded_eq hp hm]
  apply and_congr_left'
  constructor
  · intro hsole r m' hholder
    by_contra hne
    have hlt : r < s.procs.length := by
      obtain ⟨x, hx, -⟩ := hholder
      exact (List.getElem?_eq_some_iff.mp hx).1
    have htrue := holdsAt_eq_true_iff.mpr ⟨m', hholder⟩
    rw [hsole r hlt hne] at htrue
    cases htrue
  · intro hsole r _ hne
    rw [← Bool.not_eq_true, holdsAt_eq_true_iff]
    rintro ⟨m', hholder⟩
    exact hne (hsole r m' hholder)

theorem Once.step {t : State} {a : Action} (h : Once held s) (hstep : step s a = some t) :
    (SoleHolder s a → ∃ held, Once held t) ∧ (¬SoleHolder s a → ¬ForkSafe t) := by
  cases a with
  | fork q =>
    refine ⟨fun _ => ?_, fun hnot => absurd trivial hnot⟩
    simp only [Fork.step] at hstep
    split at hstep
    · rename_i p hp
      cases hstep
      exact ⟨held, h.fork hp⟩
    · cases hstep
  | stackClose =>
    refine ⟨fun _ => ?_, fun hnot => absurd trivial hnot⟩
    simp only [Fork.step] at hstep
    split at hstep
    · cases hstep
    · rename_i c rest hclosing
      obtain ⟨hsocket, honce⟩ := h.stackClose hclosing
      rw [if_pos hsocket] at hstep
      cases hstep
      exact ⟨held, honce⟩
  | close q fd posted =>
    simp only [Fork.step] at hstep
    split at hstep
    · rename_i p hp
      split at hstep
      · rename_i hsome
        obtain ⟨m, hm⟩ := Option.isSome_iff_exists.mp hsome
        have hmem : (fd, m) ∈ held := (h.holds fd m).mp ⟨q, p, hp, hm⟩
        have h := h.of_perm (perm_cons_erase hmem)
        obtain ⟨p', shared, isMulticore, hclose, hclosed⟩ := h.lightClose_ok hp hm posted
        rw [hclose] at hstep
        cases hstep
        rw [soleHolder_close_iff hp hm]
        refine ⟨fun ⟨hsole, hposted⟩ => ⟨_, close hp hclosed h hsole hposted⟩, fun hnot => ?_⟩
        by_cases hsole : ∀ r m', Holder s r fd m' → r = q
        · exact not_forkSafe_of_short hp hclosed h hsole
            (Nat.lt_of_not_le fun hposted => hnot ⟨hsole, hposted⟩)
        · push Not at hsole
          exact not_forkSafe_of_other hp hclosed h hsole
      · cases hstep
    · cases hstep

def ReleasedOnce (s : State) : Prop := ∃ held, Once held s

theorem releasedOnce_of_reachable (hreach : system.ReachableUnder SoleHolder s) :
    ReleasedOnce s := by
  refine hreach.invariant ?_ ?_
  · exact fun s hs => Once.start hs
  · rintro s a t ⟨held, h⟩ hguard hstep
    exact (h.step hstep).1 hguard

/-- Inherited descriptors are released once as long as each close is by a sole holder with a command
buffer, and no longer. -/
theorem inherited_released_once {s : State} (hreach : system.ReachableUnder SoleHolder s) :
    ForkSafe s ∧ ∀ a t, system.step s a = some t → (ForkSafe t ↔ SoleHolder s a) := by
  obtain ⟨held, h⟩ := releasedOnce_of_reachable hreach
  refine ⟨h.forkSafe, fun a t hstep => ?_⟩
  obtain ⟨hkeep, hbreak⟩ := h.step hstep
  constructor
  · intro hsafe
    by_contra hnot
    exact hbreak hnot hsafe
  · intro hguard
    obtain ⟨held, h⟩ := hkeep hguard
    exact h.forkSafe

def parent : Process where
  tables := ({ emptyTables with
    fullTrueFd := fun n => decide (n ∈ firstFds) }.link 0 3).link 1 4
  isInit := fun c => decide (c < 3)

def parentAlone : State where
  procs := [some parent]
  shared := ⟨⟨(firstFds.drop 2).map Int.ofNat, by
    rw [length_map, length_drop, length_firstFds]; decide⟩, 2⟩
  freeConnections := ⟨[3], by decide⟩
  closing := []
  socket := fun c => decide (c < 3)
  isMulticore := fun m => decide (m = 1)
  copies := fun _ => [1, 2]
  placeholders := firstFds
  managed := [0, 1, 2, 3]

theorem placeholders_parentAlone : parentAlone.placeholders = firstFds := by simp only [parentAlone]

theorem fullTrueFd_parent (fd : Nat) : parent.tables.fullTrueFd fd = decide (fd ∈ firstFds) := by
  simp only [parent, Tables.link]

theorem trueToLight_parent :
    parent.tables.trueToLight fd = some m ↔ fd = 3 ∧ m = 0 ∨ fd = 4 ∧ m = 1 := by
  by_cases h4 : fd = 4
  · simp [parent, Tables.link, h4, eq_comm]
  · by_cases h3 : fd = 3
    · simp [parent, Tables.link, h3, eq_comm]
    · simp [parent, Tables.link, emptyTables, h3, h4]

theorem procAt_parentAlone {q : Nat} {p : Process} :
    ProcAt parentAlone q p ↔ q = 0 ∧ p = parent := by
  unfold ProcAt
  cases q with
  | zero => simp [parentAlone, eq_comm]
  | succ q => simp [parentAlone]

theorem held_parentAlone : Held parentAlone fd ↔ fd = 3 ∨ fd = 4 := by
  simp only [Held, procAt_parentAlone]
  constructor
  · rintro ⟨q, p, m, ⟨-, rfl⟩, hm⟩
    rcases trueToLight_parent.mp hm with h | h
    · exact .inl h.1
    · exact .inr h.1
  · rintro (rfl | rfl)
    · exact ⟨0, parent, 0, ⟨rfl, rfl⟩, by simp [trueToLight_parent]⟩
    · exact ⟨0, parent, 1, ⟨rfl, rfl⟩, by simp [trueToLight_parent]⟩

theorem heldMain_parentAlone : HeldMain parentAlone m ↔ m = 0 ∨ m = 1 := by
  simp only [HeldMain, procAt_parentAlone]
  constructor
  · rintro ⟨q, p, fd, ⟨-, rfl⟩, hm, -⟩
    rcases trueToLight_parent.mp hm with h | h
    · exact .inl h.2
    · exact .inr h.2
  · rintro (rfl | rfl)
    · exact ⟨0, parent, 3, ⟨rfl, rfl⟩, by simp [trueToLight_parent], by decide⟩
    · exact ⟨0, parent, 4, ⟨rfl, rfl⟩, by simp [trueToLight_parent], by decide⟩

theorem heldConnection_parentAlone : HeldConnection parentAlone c ↔ c < 3 := by
  simp only [HeldConnection, heldMain_parentAlone, or_and_right, exists_or, exists_eq_left]
  simp only [bundle, parentAlone]
  simp
  omega

theorem nodup_ring_parentAlone : parentAlone.shared.ring.items.Nodup := by
  simp only [parentAlone]
  exact (nodup_firstFds.sublist (drop_sublist 2 _)).map fun _ _ => Int.ofNat.inj

theorem mem_ring_parentAlone {x : Int} : x ∈ parentAlone.shared.ring.items ↔
      ∃ fd ∈ firstFds, x = (fd : Int) ∧ ¬(fd = 3 ∨ fd = 4) := by
  have hdrop : ∀ fd, fd ∈ firstFds.drop 2 ↔ fd ∈ firstFds ∧ ¬(fd = 3 ∨ fd = 4) := by
    intro fd
    have htake : firstFds.take 2 = [3, 4] := by decide +kernel
    have hsplit : firstFds = [3, 4] ++ firstFds.drop 2 := by rw [← htake, take_append_drop]
    have hnodup := nodup_firstFds
    rw [hsplit] at hnodup
    have hdisjoint := disjoint_of_nodup_append hnodup
    constructor
    · intro hfd
      refine ⟨mem_of_mem_drop hfd, fun hheld => ?_⟩
      exact hdisjoint (by simpa using hheld) hfd
    · rintro ⟨hfd, hne⟩
      rw [hsplit, mem_append] at hfd
      exact hfd.resolve_left (by simpa using hne)
  simp only [parentAlone, mem_map, hdrop]
  constructor
  · rintro ⟨fd, ⟨hfd, hne⟩, rfl⟩
    exact ⟨fd, hfd, rfl, hne⟩
  · rintro ⟨fd, hfd, rfl, hne⟩
    exact ⟨fd, ⟨hfd, hne⟩, rfl⟩

theorem storage_parentAlone :
    parentAlone.shared.storage + parentAlone.shared.ring.items.length = trueFdNum := by
  simp only [parentAlone, length_map, length_drop, length_firstFds]
  decide

theorem start_parentAlone : Start parentAlone where
  one_process := by
    refine ⟨parent, rfl, fun fd => ?_, ?_, fun fd m hm => ?_, fun c hc => hc⟩
    · rw [fullTrueFd_parent, placeholders_parentAlone, decide_eq_true_iff]
    · apply PartialInverse.link
      · exact PartialInverse.empty.link rfl rfl
      · rfl
      · rfl
    · have hsizes : 1 < connectionPoolSize + epollPoolSize := by decide
      have hnum : 1 < trueFdNum := by decide
      rw [placeholders_parentAlone, mem_firstFds_iff]
      rcases trueToLight_parent.mp hm with ⟨rfl, rfl⟩ | ⟨rfl, rfl⟩ <;> omega
  placeholders_nodup := placeholders_parentAlone ▸ nodup_firstFds
  placeholders_length := placeholders_parentAlone ▸ length_firstFds
  placeholders_lt := placeholders_parentAlone ▸ fun _ => lt_of_mem_firstFds
  ring_nodup := nodup_ring_parentAlone
  ring_iff := by
    intro x
    rw [mem_ring_parentAlone, placeholders_parentAlone]
    simp only [held_parentAlone]
  storage := storage_parentAlone
  managed_nodup := by decide
  managed_length := by decide
  nothing_closing := rfl
  free_nodup := by decide
  free_iff := by
    intro c
    rw [heldConnection_parentAlone]
    simp only [parentAlone, mem_cons, not_mem_nil, or_false]
    omega
  held_managed := by
    intro c hc
    rw [heldConnection_parentAlone] at hc
    simp only [parentAlone, mem_cons, not_mem_nil, or_false]
    omega
  bundle_nodup := by
    intro m hm
    rcases heldMain_parentAlone.mp hm with rfl | rfl <;> decide
  bundle_disjoint := by
    intro m m' c hm hm' hc hc'
    rcases heldMain_parentAlone.mp hm with rfl | rfl <;>
      rcases heldMain_parentAlone.mp hm' with rfl | rfl <;>
      simp_all [bundle, parentAlone]

theorem inherited_released_once_listener :
    ∃ s, system.ReachableUnder SoleHolder s ∧ ForkSafe s ∧ s.procs.length = 3 ∧
      s.freeConnections.items = [3, 0] := by
  obtain ⟨s, hreach, htest⟩ :=
    system.exists_reachableUnder SoleHolder parentAlone
      [.close 0 3 1, .fork 0, .stackClose, .fork 1]
      (P := fun s => s.procs.length = 3 ∧ s.freeConnections.items = [3, 0])
      start_parentAlone (by decide +kernel)
  exact ⟨s, hreach, (inherited_released_once hreach).1, htest⟩

theorem both_close_queues_placeholder_twice : ¬∀ s, system.Reachable s → ForkSafe s := by
  intro hall
  obtain ⟨s, hreach, htest⟩ :=
    system.exists_reachable parentAlone [.fork 0, .close 0 3 1, .close 1 3 1]
      (P := fun s => s.shared.ring.items.count 3 = 2)
      start_parentAlone (by decide +kernel)
  have hle := nodup_iff_count_le_one.mp (hall s hreach).ring_nodup 3
  rw [htest] at hle
  omega

end LightStack.Fd.Fork
