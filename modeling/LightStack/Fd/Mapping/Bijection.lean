import LightStack.Fd.Mapping.Model

/-!
# The descriptor mapping is a bijection

A call keeps the tables, links a fresh pair or unlinks a linked one.
-/

namespace LightStack.Fd.Mapping

open Lib Function List

/-! ## The invariant -/

/-- The tables hold the `pairs` of a light object and its descriptor, every placeholder is in the
ring or in one pair, and no light object is `unused` or in a pair more than once. -/
structure Mapped (fds : List Nat) (pairs : List (Nat × Nat)) (t : Tables) (sh : Shared)
    (live : Nat → Bool) (unused : List Nat) : Prop where
  fds_length : fds.length = trueFdNum
  fds_nodup : fds.Nodup
  fds_lt : ∀ fd ∈ fds, fd < trueFdMaxSize
  placeholder_iff : ∀ fd, t.fullTrueFd fd = true ↔ fd ∈ fds
  inverse : PartialInverse t.lightToTrue t.trueToLight
  pair_iff : ∀ light fd, t.trueToLight fd = some light ↔ (light, fd) ∈ pairs
  live_iff : ∀ light, live light = true ↔ light ∈ pairs.map Prod.fst
  ring : (sh.ring.items ++ pairs.map fun x => (x.2 : Int)).Perm (fds.map Int.ofNat)
  storage : sh.storage = pairs.length
  once : ∀ light, unused.count light + (pairs.map Prod.fst).count light ≤ 1
  light_lt : ∀ light, 0 < unused.count light + (pairs.map Prod.fst).count light →
    light < connectionPoolSize + epollPoolSize

variable {light fd e : Nat}

namespace Mapped

variable {fds unused unused' : List Nat} {pairs pairs' : List (Nat × Nat)} {t : Tables}
  {sh : Shared} {live : Nat → Bool}

section

variable (h : Mapped fds pairs t sh live unused)

include h

theorem of_perm (hperm : pairs.Perm pairs') : Mapped fds pairs' t sh live unused :=
  { h with
    pair_iff := fun light fd => (h.pair_iff light fd).trans hperm.mem_iff
    live_iff := fun light => (h.live_iff light).trans (hperm.map _).mem_iff
    ring := ((hperm.map _).symm.append_left _).trans h.ring
    storage := h.storage.trans hperm.length_eq
    once := fun light => (hperm.map _).count_eq light ▸ h.once light
    light_lt := fun light => (hperm.map _).count_eq light ▸ h.light_lt light }

theorem keep (hcount : ∀ l, unused'.count l ≤ unused.count l) :
    Mapped fds pairs t sh live unused' :=
  { h with
    once := fun light => (Nat.add_le_add_right (hcount light) _).trans (h.once light)
    light_lt := fun light hpos =>
      h.light_lt light (hpos.trans_le (Nat.add_le_add_right (hcount light) _)) }

theorem nodup_ring : (sh.ring.items ++ pairs.map fun x => (x.2 : Int)).Nodup :=
  h.ring.nodup_iff.mpr (h.fds_nodup.map fun _ _ => Int.ofNat.inj)

theorem not_mem_ring (hpair : (light, fd) ∈ pairs) : (fd : Int) ∉ sh.ring.items := fun hmem =>
  disjoint_of_nodup_append h.nodup_ring hmem (mem_map_of_mem hpair)

theorem mapped_live (hmapped : t.trueToLight fd = some light) : live light = true :=
  (h.live_iff light).mpr (mem_map_of_mem ((h.pair_iff light fd).mp hmapped))

theorem mem_fds (hpair : (light, fd) ∈ pairs) : fd ∈ fds := by
  have hmem := h.ring.mem_iff.mp (mem_append_right _ (mem_map_of_mem hpair))
  simpa using hmem

theorem ring_head {x : Int} {rest : List Int} (hring : sh.ring.items = x :: rest) :
    ∃ fd ∈ fds, (fd : Int) = x := by
  have hmem := h.ring.mem_iff.mp (mem_append_left _ (hring ▸ mem_cons_self))
  simpa using hmem

theorem unused_unmapped (hunused : light ∈ unused) : t.lightToTrue light = none := by
  rw [Option.eq_none_iff_forall_ne_some]
  intro fd hfd
  have hpair := (h.pair_iff light fd).mp ((h.inverse light fd).mp hfd)
  have hpos := count_pos_iff.mpr hunused
  have hpos' := count_pos_iff.mpr (mem_map_of_mem (f := Prod.fst) hpair)
  have hone := h.once light
  dsimp only at hpos'
  omega

theorem link (sh' : Shared) (hring : sh.ring.items = (fd : Int) :: sh'.ring.items)
    (hstorage : sh'.storage = sh.storage + 1)
    (hcount : ∀ l, unused'.count l + (if l = light then 1 else 0) = unused.count l) :
    Mapped fds ((light, fd) :: pairs) (t.link light fd) sh' (update live light true) unused' := by
  have hunused : light ∈ unused := by
    rw [← count_pos_iff, ← hcount, if_pos rfl]
    omega
  have hfd : ∀ l, (l, fd) ∉ pairs := fun l hpair =>
    h.not_mem_ring hpair (by simp [hring])
  refine { h with
    inverse := h.inverse.link (h.unused_unmapped hunused) ?_
    pair_iff := fun l x => ?_
    live_iff := fun l => ?_
    ring := ?_
    storage := hstorage.trans (congrArg (· + 1) h.storage)
    once := fun l => ?_
    light_lt := fun l hpos => h.light_lt l ?_ }
  · rw [Option.eq_none_iff_forall_ne_some]
    exact fun l hl => hfd l ((h.pair_iff l fd).mp hl)
  · by_cases hx : x = fd
    · simp [Tables.link, hx, hfd l, eq_comm]
    · simp [Tables.link, hx, h.pair_iff l x]
  · by_cases hl : l = light
    · simp [hl]
    · simp [hl, h.live_iff l]
  · have hperm := h.ring
    rw [hring] at hperm
    exact perm_middle.trans hperm
  all_goals
    have hl := hcount l
    have hone := h.once l
    simp only [map_cons, count_cons, beq_iff_eq, eq_comm (a := light)] at *
    omega

end

theorem unlink (h : Mapped fds ((light, fd) :: pairs) t sh live unused) (sh' : Shared)
    (hring : sh'.ring.items = sh.ring.items ++ [(fd : Int)])
    (hstorage : sh.storage = sh'.storage + 1)
    (hcount : ∀ l, unused'.count l ≤ unused.count l + if l = light then 1 else 0) :
    Mapped fds pairs (t.unlink light fd) sh' (update live light false) unused' := by
  have hmapped := (h.pair_iff light fd).mpr mem_cons_self
  have hfd : ∀ l, (l, fd) ∉ pairs := fun l hpair =>
    (nodup_cons.mp h.nodup_ring.of_append_right).1 (mem_map.mpr ⟨_, hpair, rfl⟩)
  have hlight : light ∉ pairs.map Prod.fst := by
    have hone := h.once light
    rw [map_cons, count_cons_self] at hone
    exact count_eq_zero.mp (by omega)
  refine { h with
    inverse := h.inverse.unlink ((h.inverse light fd).mpr hmapped)
    pair_iff := fun l x => ?_
    live_iff := fun l => ?_
    ring := ?_
    storage := Nat.succ.inj (hstorage.symm.trans h.storage)
    once := fun l => ?_
    light_lt := fun l hpos => h.light_lt l ?_ }
  · by_cases hx : x = fd
    · simp [Tables.unlink, hx, hfd l]
    · simp [Tables.unlink, hx, h.pair_iff l x]
  · by_cases hl : l = light
    · simpa [hl] using hlight
    · simp [hl, h.live_iff l]
  · rw [hring, append_assoc]
    exact h.ring
  all_goals
    have hl := hcount l
    have hone := h.once l
    simp only [map_cons, count_cons, beq_iff_eq, eq_comm (a := light)] at *
    omega

theorem getNewLightFd_ok (h : Mapped fds pairs t sh live unused) (index : Int) (kind : Kind)
    (unused' : List Nat) (hlight : lightIndex index kind = light) (hring : sh.ring.items ≠ [])
    (hcount : ∀ l, unused'.count l + (if l = light then 1 else 0) = unused.count l) :
    ∃ fd tables shared, getNewLightFd t sh index kind = .ok (fd, tables, shared) ∧
      ∃ pairs, Mapped fds pairs tables shared (update live light true) unused' := by
  obtain ⟨x, ring, hdequeue⟩ : ∃ x ring, sh.ring.dequeue = some (x, ring) := by
    cases hdequeue : sh.ring.dequeue with
    | none => exact absurd (Ring.dequeue_eq_none_iff.mp hdequeue) hring
    | some p => exact ⟨p.1, p.2, rfl⟩
  have hitems := Ring.dequeue_eq_some_iff.mp hdequeue
  obtain ⟨fd, hfds, rfl⟩ := h.ring_head hitems
  have hlt : light < trueFdMaxSize := by
    refine Nat.lt_trans (h.light_lt light ?_) (by decide)
    rw [← hcount, if_pos rfl]
    omega
  exact ⟨fd, _, _, getNewLightFd_eq hitems hlight hlt (h.fds_lt fd hfds), _,
    h.link ⟨ring, sh.storage + 1⟩ hitems rfl hcount⟩

theorem putBackLightFd_ok (h : Mapped fds pairs t sh live unused)
    (hmapped : t.trueToLight fd = some light) :
    light < connectionPoolSize + epollPoolSize ∧
      ∃ tables shared, putBackLightFd t sh fd = .ok (tables, shared) ∧
        ∀ unused' : List Nat,
          (∀ l, unused'.count l ≤ unused.count l + if l = light then 1 else 0) →
            ∃ pairs, Mapped fds pairs tables shared (update live light false) unused' := by
  have hpair := (h.pair_iff light fd).mp hmapped
  have hfd := h.fds_lt fd (h.mem_fds hpair)
  have h := h.of_perm (perm_cons_erase hpair)
  have hlength := h.ring.length_eq
  rw [length_append, length_map, length_map, length_cons, h.fds_length] at hlength
  have hcap : trueFdNum ≤ fdRingCap := by decide
  obtain ⟨ring, hring⟩ : ∃ ring, sh.ring.enqueue (fd : Int) = some ring := by
    cases hring : sh.ring.enqueue (fd : Int) with
    | some ring => exact ⟨ring, rfl⟩
    | none => exact absurd (Ring.enqueue_eq_none_iff.mp hring) (by omega)
  have hlt : light < connectionPoolSize + epollPoolSize := h.light_lt light (by simp)
  refine ⟨hlt, _, _, putBackLightFd_eq h.storage hring hmapped (hlt.trans (by decide)) hfd, ?_⟩
  exact fun unused' hcount =>
    ⟨_, h.unlink ⟨ring, _⟩ (Ring.enqueue_eq_some_iff.mp hring).2 h.storage hcount⟩

end Mapped

/-! ## The calls -/

def unused (s : State) : List Nat :=
  s.freeConnections.items ++ s.closing ++ s.elsewhere ++
    s.epollRing.items.map (· + connectionPoolSize)

theorem count_unused (s : State) (light : Nat) : (unused s).count light =
      s.freeConnections.items.count light + s.closing.count light + s.elsewhere.count light +
        (s.epollRing.items.map (· + connectionPoolSize)).count light := by
  simp only [unused, count_append]

abbrev Maps (fds : List Nat) (s : State) : Prop :=
  ∃ pairs, Mapped fds pairs s.tables s.shared s.live (unused s)

def Outcome (s : State) (fds : List Nat) (ok : Prop) (r : Except Fault State) : Prop :=
  (ok ∧ ∃ t, r = .ok t ∧ Maps fds t ∧ t.fault = s.fault) ∨ (¬ok ∧ ∃ f, r = .error f)

variable {fds : List Nat} {s : State}

theorem freeSocket_maps {pairs : List (Nat × Nat)} {l : List Nat} {index : Nat}
    (h : Mapped fds pairs s.tables s.shared s.live l)
    (hcount : ∀ x, (unused s).count x + (if x = index then 1 else 0) ≤ l.count x) :
    Maps fds (s.freeSocket index) ∧ (s.freeSocket index).fault = s.fault := by
  unfold State.freeSocket
  split
  · rename_i ring hring
    have hitems := (Ring.enqueue_eq_some_iff.mp hring).2
    refine ⟨⟨pairs, h.keep fun x => (Nat.le_of_eq ?_).trans (hcount x)⟩, rfl⟩
    simp only [count_unused, hitems, count_append, count_singleton, beq_iff_eq,
      eq_comm (a := index)]
    omega
  · refine ⟨⟨pairs, h.keep fun x => (Nat.le_of_eq ?_).trans (hcount x)⟩, rfl⟩
    simp only [count_unused, count_cons, beq_iff_eq, eq_comm (a := index)]
    omega

theorem lightOpenSocket_outcome (h : Maps fds s) :
    Outcome s fds (Provided s .openSocket) (lightOpenSocket s) := by
  obtain ⟨pairs, h⟩ := h
  cases hdequeue : s.freeConnections.dequeue with
  | none =>
    have hfree := Ring.dequeue_eq_none_iff.mp hdequeue
    refine .inr ⟨fun hok => hok.1 hfree, ?_⟩
    by_cases hring : s.shared.ring.items = []
    · exact ⟨.uninitialised, by
        simp [lightOpenSocket, lightGetSocket, hdequeue,
          getNewLightFd_of_empty hring, bind, Except.bind]⟩
    · exact ⟨.outOfBounds (-1), by
        simp [lightOpenSocket, lightGetSocket, hdequeue,
          getNewLightFd_neg_one hring, bind, Except.bind]⟩
  | some p =>
    obtain ⟨index, ring⟩ := p
    have hitems := Ring.dequeue_eq_some_iff.mp hdequeue
    have hfree : s.freeConnections.items ≠ [] := by simp [hitems]
    by_cases hring : s.shared.ring.items = []
    · refine .inr ⟨fun hok => hok.2 hring, .uninitialised, ?_⟩
      simp [lightOpenSocket, lightGetSocket, hdequeue,
        getNewLightFd_of_empty hring, bind, Except.bind]
    · obtain ⟨fd, tables, shared, hnew, hmaps⟩ := h.getNewLightFd_ok
        index .socket (unused { s with freeConnections := ring }) rfl hring fun l => by
          simp only [count_unused, hitems, count_cons, beq_iff_eq, eq_comm (a := index)]
          omega
      refine .inl ⟨⟨hfree, hring⟩, State.handOut { s with
        freeConnections := ring
        isInit := update s.isInit index false } index tables shared, ?_, hmaps, rfl⟩
      simp [lightOpenSocket, lightGetSocket, hdequeue, hnew, pure, Except.pure, bind, Except.bind]

theorem lightAccept_outcome (h : Maps fds s) (queued posted : Bool) :
    Outcome s fds (Provided s (.accept queued posted)) (lightAccept s queued posted) := by
  cases queued with
  | false =>
    refine .inl ⟨fun hq => absurd hq (by decide), s, rfl, h, rfl⟩
  | true =>
    cases hdequeue : s.freeConnections.dequeue with
    | none =>
      have hfree := Ring.dequeue_eq_none_iff.mp hdequeue
      refine .inl ⟨fun _ _ hne => absurd hfree hne, s, ?_, h, rfl⟩
      simp [lightAccept, hdequeue, pure, Except.pure]
    | some p =>
      obtain ⟨pairs, h⟩ := h
      obtain ⟨index, ring⟩ := p
      have hitems := Ring.dequeue_eq_some_iff.mp hdequeue
      cases posted with
      | false =>
        refine .inl ⟨fun _ hp => absurd hp (by decide),
          { s with
            freeConnections := ring
            isInit := update s.isInit index false
            elsewhere := index :: s.elsewhere }, ?_, ⟨pairs, h.keep fun l => ?_⟩, rfl⟩
        · simp [lightAccept, hdequeue, pure, Except.pure]
        · simp only [count_unused, hitems, count_cons]
          omega
      | true =>
        by_cases hring : s.shared.ring.items = []
        · refine .inr ⟨fun hok => hok rfl rfl (by simp [hitems]) hring, .uninitialised, ?_⟩
          simp [lightAccept, hdequeue, getNewLightFd_of_empty hring, bind, Except.bind]
        · obtain ⟨fd, tables, shared, hnew, hmaps⟩ := h.getNewLightFd_ok
            index .socket (unused { s with freeConnections := ring }) rfl hring fun l => by
              simp only [count_unused, hitems, count_cons, beq_iff_eq, eq_comm (a := index)]
              omega
          refine .inl ⟨fun _ _ _ => hring, State.handOut { s with
            freeConnections := ring
            isInit := update (update s.isInit index false) index true } index tables shared,
            ?_, hmaps, rfl⟩
          simp [lightAccept, hdequeue, hnew, pure, Except.pure, bind, Except.bind]

theorem epollClose_unmapped (hunmapped : s.tables.lightToTrue (e + connectionPoolSize) = none) :
    ∃ f, epollClose s e = .error f := by
  by_cases he : e < epollPoolSize
  · have hlt : e + connectionPoolSize < trueFdMaxSize :=
      Nat.lt_trans (Nat.add_lt_add_right he _) (by decide)
    have hindex : lightIndex (e : Int) .epoll = (e + connectionPoolSize : Nat) := rfl
    have hfd : socketEpollIndexToLightFd s.tables e .epoll = .ok (-1) := by
      rw [socketEpollIndexToLightFd_eq hindex hlt, hunmapped]
      rfl
    obtain ⟨f, hf⟩ := putBackLightFd_neg_one s.tables s.shared
    exact ⟨f, by simp [epollClose, slot_natCast he, hfd, hf, bind, Except.bind]⟩
  · exact ⟨.outOfBounds e, by simp [epollClose, slot, he, bind, Except.bind]⟩

section

variable (h : Maps fds s)

include h

theorem finishEpollCreate_outcome {ring : Ring Nat epollRingCap}
    (hitems : s.epollRing.items = e :: ring.items) (outcome : EpollOutcome) :
    Outcome s fds (outcome = .kernelFails ∨ outcome = .noCommand ∨
        outcome = .created ∧ s.shared.ring.items ≠ [])
      (finishEpollCreate { s with epollRing := ring } e outcome) := by
  obtain ⟨pairs, h⟩ := h
  have hcount : ∀ l, (unused { s with epollRing := ring }).count l +
      (if l = e + connectionPoolSize then 1 else 0) = (unused s).count l := by
    intro l
    simp only [count_unused, hitems, map_cons, count_cons,
      beq_iff_eq, eq_comm (a := e + connectionPoolSize)]
    omega
  have hdropped : Maps fds { s with epollRing := ring } :=
    ⟨pairs, h.keep fun l => Nat.le_of_add_right_le (hcount l).le⟩
  have hunused : e + connectionPoolSize ∈ unused s := by simp [unused, hitems]
  obtain ⟨f, hclose⟩ :=
    epollClose_unmapped (s := { s with epollRing := ring }) (h.unused_unmapped hunused)
  cases outcome with
  | kernelFails => exact .inl ⟨.inl rfl, _, rfl, hdropped, rfl⟩
  | fifoFails | enqueueFails | ctlFails => exact .inr ⟨by simp, f, hclose⟩
  | noCommand => exact .inl ⟨.inr (.inl rfl), _, rfl, hdropped, rfl⟩
  | created =>
    by_cases hring : s.shared.ring.items = []
    · refine .inr ⟨by simp [hring], .uninitialised, ?_⟩
      simp [finishEpollCreate, getNewLightFd_of_empty hring, bind, Except.bind]
    · obtain ⟨fd, tables, shared, hnew, hmaps⟩ :=
        h.getNewLightFd_ok e .epoll _ rfl hring hcount
      refine .inl ⟨.inr (.inr ⟨rfl, hring⟩),
        State.handOut { s with epollRing := ring } (e + connectionPoolSize) tables shared,
        ?_, hmaps, rfl⟩
      simp [finishEpollCreate, hnew, pure, Except.pure, bind, Except.bind]

theorem lightEpollCreate_outcome (size : Int) (outcome : EpollOutcome) :
    Outcome s fds (Provided s (.epollCreate size outcome)) (lightEpollCreate s size outcome) := by
  by_cases hsize : size < 0
  · refine .inl ⟨fun hge => absurd hge (by omega), s, ?_, h, rfl⟩
    simp [lightEpollCreate, hsize, pure, Except.pure]
  · cases hdequeue : s.epollRing.dequeue with
    | none =>
      have hnone := Ring.dequeue_eq_none_iff.mp hdequeue
      refine .inl ⟨fun _ hne => absurd hnone hne, s, ?_, h, rfl⟩
      simp [lightEpollCreate, hsize, hdequeue, pure, Except.pure]
    | some p =>
      obtain ⟨e, ring⟩ := p
      have hitems := Ring.dequeue_eq_some_iff.mp hdequeue
      have hne : s.epollRing.items ≠ [] := by simp [hitems]
      simp only [lightEpollCreate, hsize, if_false, hdequeue]
      rcases finishEpollCreate_outcome h hitems outcome with hok | hbad
      · exact .inl ⟨fun _ _ => hok.1, hok.2⟩
      · exact .inr ⟨fun hok => hbad.1 (hok (by omega) hne), hbad.2⟩

theorem lightCloseSocket_maps {i : Nat} (hi : i < connectionPoolSize)
    (hmapped : s.tables.trueToLight fd = some i) (posted : Bool) :
    ∃ t, lightCloseSocket s i posted = .ok t ∧ Maps fds t ∧ t.fault = s.fault := by
  obtain ⟨pairs, h⟩ := h
  obtain ⟨hlt, tables, shared, hput, hmaps⟩ := h.putBackLightFd_ok hmapped
  have hfd : socketEpollIndexToLightFd s.tables i .socket = .ok (fd : Int) := by
    have hindex : lightIndex (i : Int) .socket = i := rfl
    rw [socketEpollIndexToLightFd_eq hindex (hlt.trans (by decide)),
      (h.inverse i fd).mpr hmapped]
    rfl
  have hclose : lightCloseSocket s i posted =
      if !s.isInit i then .ok ((s.takeBack i tables shared).freeSocket i)
      else if !posted then
        .ok { s.takeBack i tables shared with elsewhere := i :: s.elsewhere }
      else
        .ok { s.takeBack i tables shared with closing := s.closing ++ [i] } := by
    simp only [lightCloseSocket, hfd, hput, slot_natCast hi, bind, Except.bind,
      pure, Except.pure, State.takeBack]
    rfl
  rw [hclose]
  split
  · obtain ⟨pairs, h⟩ := hmaps (i :: unused s) fun l => by
      simp only [count_cons, beq_iff_eq, eq_comm (a := i), le_refl]
    refine ⟨_, rfl, freeSocket_maps (s := s.takeBack i tables shared) h fun l => ?_⟩
    simp only [count_cons, beq_iff_eq, eq_comm (a := i)]
    exact le_rfl
  · split
    · refine ⟨_, rfl, hmaps _ fun l => ?_, rfl⟩
      simp only [count_unused, State.takeBack, count_cons, beq_iff_eq, eq_comm (a := i)]
      omega
    · refine ⟨_, rfl, hmaps _ fun l => ?_, rfl⟩
      simp only [count_unused, State.takeBack, count_append,
        count_singleton, beq_iff_eq, eq_comm (a := i)]
      omega

theorem epollClose_maps (hmapped : s.tables.trueToLight fd = some (e + connectionPoolSize)) :
    ∃ t, epollClose s e = .ok t ∧ Maps fds t ∧ t.fault = s.fault := by
  obtain ⟨pairs, h⟩ := h
  obtain ⟨hlt, tables, shared, hput, hmaps⟩ := h.putBackLightFd_ok hmapped
  have he : e < epollPoolSize := by omega
  have hfd : socketEpollIndexToLightFd s.tables e .epoll = .ok (fd : Int) := by
    have hindex : lightIndex (e : Int) .epoll = (e + connectionPoolSize : Nat) := rfl
    rw [socketEpollIndexToLightFd_eq hindex (hlt.trans (by decide)), (h.inverse _ fd).mpr hmapped]
    rfl
  refine ⟨s.takeBack (e + connectionPoolSize) tables shared, ?_,
    hmaps _ fun l => Nat.le_add_right .., rfl⟩
  simp [epollClose, slot_natCast he, hfd, hput, pure, Except.pure, bind, Except.bind]

theorem lightClose_outcome (fd : Int) (posted : Bool) :
    Outcome s fds (Provided s (.close fd posted)) (lightClose s fd posted) := by
  by_cases hrange : 0 ≤ fd ∧ fd < trueFdMaxSize
  · obtain ⟨n, rfl⟩ := Int.eq_ofNat_of_zero_le hrange.1
    have hn : n < trueFdMaxSize := by omega
    cases hplace : s.tables.fullTrueFd n with
    | false =>
      refine .inl ⟨⟨hrange.1, hrange.2, by simp [hplace]⟩, s, ?_, h, rfl⟩
      simp [lightClose, isLightFd_natCast s.tables hn, hplace, pure,
        Except.pure, bind, Except.bind]
    | true =>
      cases hmapped : s.tables.trueToLight n with
      | none =>
        refine .inr ⟨fun hok => ?_, .outOfBounds (-1), ?_⟩
        · exact hok.2.2 (by simpa using hplace) (by simpa using hmapped)
        · simp [lightClose, isLightFd_natCast s.tables hn, hplace,
            lightFdToSocketEpollIndex_of_none hn hmapped, lightCloseSocket,
            socketEpollIndexToLightFd, lightIndex, slot_neg_one, bind,
            Except.bind]
      | some light =>
        have hok : Provided s (.close n posted) := ⟨hrange.1, hrange.2, fun _ => by simp [hmapped]⟩
        obtain ⟨index, kind, hresolve, hlight, hsocket⟩ :=
          lightFdToSocketEpollIndex_of_some hn hmapped
        cases kind with
        | socket =>
          obtain rfl : index = light := Int.ofNat_inj.mp hlight
          obtain ⟨t, ht, hmaps⟩ := lightCloseSocket_maps h (hsocket rfl) hmapped posted
          refine .inl ⟨hok, t, ?_, hmaps⟩
          simp [lightClose, isLightFd_natCast s.tables hn, hplace, hresolve, ht, bind, Except.bind]
        | epoll =>
          obtain rfl : index + connectionPoolSize = light := Int.ofNat_inj.mp hlight
          obtain ⟨t, ht, hmaps⟩ := epollClose_maps h hmapped
          refine .inl ⟨hok, t, ?_, hmaps⟩
          simp [lightClose, isLightFd_natCast s.tables hn, hplace, hresolve, ht, bind, Except.bind]
  · refine .inr ⟨fun hok => hrange ⟨hok.1, hok.2.1⟩, .outOfBounds fd, ?_⟩
    simp only [lightClose, isLightFd, slot, if_neg hrange, bind, Except.bind]

end

/-! ## Steps and runs -/

theorem step_outcome {t : State} {a : Action} (h : Maps fds s) (hstep : step s a = some t) :
    (Provided s a ∧ Maps fds t ∧ t.fault = s.fault) ∨
      (¬Provided s a ∧ ∃ f, t = { s with fault := some f }) := by
  have hcall : ∀ {ok : Prop} {r : Except Fault State}, Outcome s fds ok r →
      s.after r = t → (ok ∧ Maps fds t ∧ t.fault = s.fault) ∨
        (¬ok ∧ ∃ f, t = { s with fault := some f }) := by
    rintro ok r (⟨hok, u, rfl, hmaps⟩ | ⟨hbad, f, rfl⟩) hafter
    · exact .inl ⟨hok, hafter ▸ hmaps⟩
    · exact .inr ⟨hbad, f, hafter.symm⟩
  unfold step at hstep
  split at hstep
  · cases hstep
  cases a with
  | openSocket => exact hcall (lightOpenSocket_outcome h) (Option.some.inj hstep)
  | accept queued posted =>
    exact hcall (lightAccept_outcome h queued posted) (Option.some.inj hstep)
  | epollCreate size outcome =>
    exact hcall (lightEpollCreate_outcome h size outcome) (Option.some.inj hstep)
  | close fd posted => exact hcall (lightClose_outcome h fd posted) (Option.some.inj hstep)
  | stackClose =>
    obtain ⟨pairs, h⟩ := h
    simp only at hstep
    split at hstep
    · cases hstep
    · rename_i index rest hclosing
      cases hstep
      refine .inl ⟨trivial, freeSocket_maps (s := { s with closing := rest }) h fun l => ?_⟩
      simp only [count_unused, hclosing, count_cons, beq_iff_eq, eq_comm (a := index)]
      omega
  | otherTakes =>
    obtain ⟨pairs, h⟩ := h
    simp only at hstep
    split at hstep
    · cases hstep
    · rename_i index ring hdequeue
      cases hstep
      have hitems := Ring.dequeue_eq_some_iff.mp hdequeue
      refine .inl ⟨trivial, ⟨pairs, h.keep fun l => ?_⟩, rfl⟩
      simp only [count_unused, hitems, count_cons]
      omega
  | otherReturns index =>
    obtain ⟨pairs, h⟩ := h
    simp only at hstep
    split at hstep
    · rename_i hmem
      cases hstep
      refine .inl ⟨trivial, freeSocket_maps
        (s := { s with elsewhere := s.elsewhere.erase index }) h fun l => ?_⟩
      have hperm := (perm_cons_erase hmem).count_eq l
      simp only [count_unused, count_cons, beq_iff_eq, eq_comm (a := index)] at hperm ⊢
      omega
    · cases hstep
  | otherTakesEpoll =>
    obtain ⟨pairs, h⟩ := h
    simp only at hstep
    split at hstep
    · cases hstep
    · rename_i e ring hdequeue
      cases hstep
      have hitems := Ring.dequeue_eq_some_iff.mp hdequeue
      refine .inl ⟨trivial, ⟨pairs, h.keep fun l => ?_⟩, rfl⟩
      simp only [count_unused, hitems, map_cons, count_cons]
      omega

theorem unused_start (hstart : Start s) : (unused s).Nodup ∧
      ∀ l ∈ unused s, l < connectionPoolSize + epollPoolSize := by
  have hlist : unused s = (s.freeConnections.items ++ s.elsewhere) ++
      s.epollRing.items.map (· + connectionPoolSize) := by
    simp [unused, hstart.nothing_closing]
  rw [hlist]
  constructor
  · refine nodup_append.mpr ⟨hstart.connections.1, ?_, ?_⟩
    · exact hstart.epolls.1.map fun _ _ => Nat.add_right_cancel
    · rintro i hi l hl rfl
      obtain ⟨e, -, rfl⟩ := mem_map.mp hl
      exact absurd (hstart.connections.2 _ hi) (Nat.not_lt.mpr (Nat.le_add_left ..))
  · intro l hl
    rcases mem_append.mp hl with hi | hl
    · exact Nat.lt_of_lt_of_le (hstart.connections.2 l hi) (Nat.le_add_right ..)
    · obtain ⟨e, he, rfl⟩ := mem_map.mp hl
      rw [Nat.add_comm]
      exact Nat.add_lt_add_left (hstart.epolls.2 e he) _

theorem maps_start (hstart : Start s) : ∃ fds, Maps fds s := by
  obtain ⟨fds, hlen, hnodup, hlt, hinit⟩ := hstart.placeholders
  obtain ⟨sh, heq, hring, hstorage⟩ := fdMappingInit_eq fds hlt (Nat.le_of_eq hlen)
  rw [hinit, Except.ok.injEq, Prod.mk.injEq] at heq
  obtain ⟨htables, rfl⟩ := heq
  obtain ⟨hunused, hunused_lt⟩ := unused_start hstart
  rw [hlen] at hstorage
  refine ⟨fds, [], ?_⟩
  rw [htables, hstart.nothing_live]
  exact
    { fds_length := hlen
      fds_nodup := hnodup
      fds_lt := hlt
      placeholder_iff := by simp
      inverse := PartialInverse.empty
      pair_iff := by simp [emptyTables]
      live_iff := by simp
      ring := by simp [hring]
      storage := by simpa using hstorage
      once := nodup_iff_count_le_one.mp hunused
      light_lt := fun light hpos => hunused_lt light (count_pos_iff.mp hpos) }

theorem Maps.bijection (h : Maps fds s) (hfault : s.fault = none) : DescriptorBijection s := by
  obtain ⟨pairs, h⟩ := h
  refine ⟨hfault, h.inverse, fun fd hplace => ?_, fun light fd hlight => ?_⟩
  · have hmem := h.ring.mem_iff.mpr (mem_map_of_mem ((h.placeholder_iff fd).mp hplace))
    cases hmapped : s.tables.trueToLight fd with
    | none =>
      refine .inl ⟨count_eq_one_of_mem h.nodup_ring.of_append_left ?_, rfl⟩
      refine (mem_append.mp hmem).resolve_right fun hmem => ?_
      obtain ⟨⟨light, fd'⟩, hpair, heq⟩ := mem_map.mp hmem
      obtain rfl := Int.ofNat_inj.mp heq
      rw [(h.pair_iff light fd').mpr hpair] at hmapped
      cases hmapped
    | some light =>
      have hpair := (h.pair_iff light fd).mp hmapped
      exact .inr ⟨count_eq_zero.mpr (h.not_mem_ring hpair), light, rfl, h.mapped_live hmapped⟩
  · have hmapped := (h.inverse light fd).mp hlight
    have hfd := h.mem_fds ((h.pair_iff light fd).mp hmapped)
    exact ⟨(h.placeholder_iff fd).mpr hfd, h.mapped_live hmapped⟩

def Sound (s : State) : Prop := (∃ fds, Maps fds s) ∧ s.fault = none

theorem step_sound {t : State} {a : Action} (h : Sound s) (hprovided : Provided s a)
    (hstep : step s a = some t) : Sound t := by
  obtain ⟨⟨fds, hmaps⟩, hfault⟩ := h
  rcases step_outcome hmaps hstep with ⟨-, hmaps, hsame⟩ | ⟨hbad, -⟩
  · exact ⟨⟨fds, hmaps⟩, hsame.trans hfault⟩
  · exact absurd hprovided hbad

theorem sound_of_reachable (hreach : system.ReachableUnder Provided s) : Sound s :=
  hreach.invariant (fun _ hstart => ⟨maps_start hstart, hstart.no_fault⟩)
    (fun _ _ _ h hprovided hstep => step_sound h hprovided hstep)

/-- The mapping is a bijection as long as all that the calls rely on is provided, and no longer. -/
theorem descriptor_mapping_bijective {s : State} (hreach : system.ReachableUnder Provided s) :
    DescriptorBijection s ∧
      ∀ a t, step s a = some t → (DescriptorBijection t ↔ Provided s a) := by
  obtain ⟨⟨fds, hmaps⟩, hfault⟩ := sound_of_reachable hreach
  refine ⟨hmaps.bijection hfault, fun a t hstep => ⟨fun hbij => ?_, fun hok => ?_⟩⟩
  · rcases step_outcome hmaps hstep with ⟨hok, -⟩ | ⟨-, f, rfl⟩
    · exact hok
    · exact absurd hbij.no_fault (by simp)
  · obtain ⟨⟨fds', hmaps'⟩, hfault'⟩ := step_sound ⟨⟨fds, hmaps⟩, hfault⟩ hok hstep
    exact hmaps'.bijection hfault'

def startWith (free : List Nat) (hfree : free.length ≤ fdRingCap) : State where
  tables := { emptyTables with fullTrueFd := fun n => decide (n ∈ firstFds) }
  shared := ⟨⟨firstFds.map Int.ofNat, by rw [length_map, length_firstFds]; decide⟩, 0⟩
  freeConnections := ⟨free, hfree⟩
  epollRing := ⟨[0], by decide⟩
  isInit := fun _ => false
  closing := []
  elsewhere := []
  live := fun _ => false
  fault := none

theorem start_startWith {free : List Nat} (hfree : free.length ≤ fdRingCap) (hnodup : free.Nodup)
    (hlt : ∀ i ∈ free, i < connectionPoolSize) : Start (startWith free hfree) := by
  have hfds : ∀ fd ∈ firstFds, fd < trueFdMaxSize := fun _ => lt_of_mem_firstFds
  constructor
  · refine ⟨firstFds, length_firstFds, nodup_firstFds, hfds, ?_⟩
    · obtain ⟨⟨ring, storage⟩, heq, hring, hstorage⟩ :=
        fdMappingInit_eq _ hfds (Nat.le_of_eq length_firstFds)
      have hzero : storage = 0 := by
        simp only [length_firstFds] at hstorage
        omega
      have hring' : ring = (startWith free hfree).shared.ring := by
        apply Ring.ext_items
        simpa only [startWith] using hring
      rw [heq, hzero, hring']
      simp only [startWith]
  · simpa [startWith] using ⟨hnodup, hlt⟩
  · simp [startWith, epollPoolSize]
  · rfl
  · rfl
  · rfl

theorem descriptor_mapping_bijective_threeObjects :
    ∃ s, system.ReachableUnder Provided s ∧ DescriptorBijection s ∧
      s.freeConnections.items = [0, 1] ∧ s.shared.ring.items.length = 2000 := by
  obtain ⟨s, hreach, htest⟩ :=
    system.exists_reachableUnder Provided (startWith [0, 1] (by decide))
      [.openSocket, .accept true true, .epollCreate 1 .created, .close 3 true,
        .close 5 true, .close 4 true, .stackClose]
      (P := fun s => s.freeConnections.items = [0, 1] ∧
        s.shared.ring.items.length = 2000)
      (start_startWith _ (by decide) (by decide)) (by decide +kernel)
  exact ⟨s, hreach, (descriptor_mapping_bijective hreach).1, htest⟩

theorem open_without_connection_faults : ¬∀ s, system.Reachable s → DescriptorBijection s := by
  intro hall
  obtain ⟨s, hreach, htest⟩ :=
    system.exists_reachable (startWith [] (by decide)) [.openSocket]
      (P := fun s => s.fault = some (.outOfBounds (-1)))
      (start_startWith _ (by decide) (by decide)) (by decide +kernel)
  have hfault := (hall s hreach).no_fault
  rw [htest] at hfault
  cases hfault

end LightStack.Fd.Mapping
