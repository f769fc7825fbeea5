import LightStack.Conn.Model

/-!
# The partition of the connection indices
-/

namespace LightStack.Conn

open Lib Function List
open Fd (connectionPoolSize trueFdNum fdRingCap)

/-! ## The free ring -/

theorem items_putFree (free : Ring (Option Nat) fdRingCap) (x : Option Nat)
    (hroom : free.items.length < fdRingCap) : (putFree free x).items = free.items ++ [x] :=
  Ring.items_getD_enqueue free x hroom

theorem putFree_of_full (free : Ring (Option Nat) fdRingCap) (x : Option Nat)
    (hfull : free.items.length = fdRingCap) : putFree free x = free := by
  simp [putFree, Ring.enqueue_eq_none_iff.mpr hfull]

theorem foldl_putFree (cs : List Nat) (free : Ring (Option Nat) fdRingCap) :
    (cs.foldl (fun free c => putFree free (some c)) free).items =
      free.items ++ (cs.take (fdRingCap - free.items.length)).map some := by
  induction cs generalizing free with
  | nil => simp
  | cons c cs ih =>
    rw [foldl_cons, ih]
    by_cases hroom : free.items.length < fdRingCap
    · obtain ⟨k, hk⟩ : ∃ k, fdRingCap - free.items.length = k + 1 :=
        ⟨fdRingCap - free.items.length - 1, by omega⟩
      have hk' : fdRingCap - (free.items.length + 1) = k := by omega
      rw [items_putFree free _ hroom, hk, length_append, length_singleton,
        hk', take_succ_cons, map_cons, append_assoc,
        singleton_append]
    · have hfull : free.items.length = fdRingCap :=
        Nat.le_antisymm free.bounded (Nat.le_of_not_lt hroom)
      rw [putFree_of_full free _ hfull, hfull]
      simp

theorem length_indices_le : ((List.range fdRingCap).map some).length ≤ fdRingCap := by
  rw [length_map, length_range]

theorem items_serviceFree : serviceFree.items = (List.range fdRingCap).map some := by
  have hle : min fdRingCap connectionPoolSize = fdRingCap := by decide
  rw [serviceFree, foldl_putFree]
  simp [take_range, hle]

def about (c : Nat) (x : Nat × Command) : Bool := decide (x.2 = .close c ∨ x.2 = .setSocketRing c)

def life (s : State) (c : Nat) : List (Nat × Command) := s.pending.filter (about c)

def asks : Command → Bool
  | .openSocket _ => true
  | .bind _ => true
  | _ => false

def questions (s : State) : List (Nat × Command) := s.pending.filter fun x => asks x.2

def Told (s : State) (c : Nat) : Prop :=
  life s c = [] ∧ s.kernel c = true ∨
    life s c = [((s.locals c).procId, .setSocketRing c)]

def Leaving (s : State) (c : Nat) : Prop :=
  (∃ k, life s c = [(k, .close c)]) ∧ s.kernel c = true ∨
    ∃ k, life s c = [(k, .setSocketRing c), (k, .close c)]

def Awaits (s : State) : Prop :=
  match s.call with
  | .idle => questions s = []
  | .waitOpen main current i =>
    (main ∈ s.descriptors ∧ i < s.numProcs ∧
      (s.sockets main).isMulticore = true ∧ (s.sockets main).copies 0 = main ∧
      (s.locals main).procId = 0 ∧
      (∀ j, 1 ≤ j → j < i → (s.locals ((s.sockets main).copies j)).procId = j) ∧
      (s.locals current).isInit = false ∧ (i = 0 → current = main) ∧
      (i ≠ 0 → (s.locals main).isInit = true)) ∧
    (s.reply = none ∧ questions s = [(i, .openSocket current)] ∨
      s.reply = some true ∧ questions s = [] ∧ s.kernel current = true)
  | .waitBind _ i =>
    (s.reply = none ∧ ∃ c, questions s = [(i, .bind c)]) ∨
      s.reply.isSome = true ∧ questions s = []

def inProgress (s : State) (m : Nat) : Bool :=
  match s.call with
  | .waitOpen main _ _ => decide (m = main)
  | _ => false

theorem bundle_eq (s : State) (m : Nat) : bundle s m =
      if (s.sockets m).isMulticore && !inProgress s m then
        (List.range s.numProcs).map (s.sockets m).copies
      else [m] := by
  unfold bundle inProgress
  cases s.call <;> simp

/-! ## The invariant -/

def everywhere (s : State) : List (Option Nat) :=
  s.free.items ++ (owned s).map some ++ (releases s).map some

structure Partition (s : State) : Prop where
  fault : s.fault = none
  numProcs_pos : 0 < s.numProcs
  perm : (everywhere s).Perm ((List.range fdRingCap).map some)
  mapped_iff : ∀ c, s.mapped c = true ↔ c ∈ s.descriptors
  hasSocket : ∀ c ∈ owned s, (s.locals c).hasSocket = true
  quiet : ∀ c, life s c ≠ [] → c ∈ releases s ∨ c ∈ owned s ∧ (s.locals c).isInit = true
  told : ∀ c ∈ owned s, (s.locals c).isInit = true → Told s c
  leaving : ∀ c ∈ releases s, Leaving s c
  no_shutdown : ∀ x ∈ s.pending, ∀ c, x.2 ≠ .shutdown c 2
  single : ∀ m ∈ s.descriptors, (s.locals m).isInit = false →
    inProgress s m = false → (s.sockets m).isMulticore = false
  multicore : ∀ m ∈ s.descriptors, (s.sockets m).isMulticore = true →
    inProgress s m = false → (s.sockets m).copies 0 = m ∧
      ∀ k < s.numProcs, (s.locals ((s.sockets m).copies k)).procId = k
  route : ∀ m ∈ s.descriptors, (s.locals m).isInit = true →
    (s.sockets m).copies (s.locals m).procId = m
  awaits : Awaits s

namespace Partition

variable {s : State}

theorem nodup (h : Partition s) : (everywhere s).Nodup := by
  rw [h.perm.nodup_iff]
  exact nodup_range.map (Option.some_injective Nat)

theorem count_everywhere (c : Nat) : (everywhere s).count (some c) = places s c := by
  have hmap : ∀ l : List Nat, (l.map some).count (some c) = l.count c := fun l =>
    count_map_of_injective l some (Option.some_injective Nat) c
  simp only [everywhere, count_append, hmap, places]

section

variable (h : Partition s)

include h

theorem places_eq (c : Nat) : places s c = if c < fdRingCap then 1 else 0 := by
  rw [← count_everywhere, h.perm.count_eq]
  rw [count_map_of_injective _ some (Option.some_injective Nat) c]
  split
  · rename_i hlt
    exact count_eq_one_of_mem nodup_range (mem_range.mpr hlt)
  · rename_i hge
    exact count_eq_zero.mpr fun hmem => hge (mem_range.mp hmem)

theorem places_le_one (c : Nat) : places s c ≤ 1 := by
  rw [h.places_eq]
  split <;> omega

theorem disjoint (c : Nat) :
    (some c ∈ s.free.items → c ∉ owned s ∧ c ∉ releases s) ∧ (c ∈ owned s → c ∉ releases s) := by
  have hle := h.places_le_one c
  simp only [places, ← count_pos_iff] at hle ⊢
  omega

theorem not_owned_of_free {c : Nat} (hc : some c ∈ s.free.items) : c ∉ owned s :=
  ((h.disjoint c).1 hc).1

theorem not_releases_of_free {c : Nat} (hc : some c ∈ s.free.items) : c ∉ releases s :=
  ((h.disjoint c).1 hc).2

theorem not_releases_of_owned {c : Nat} (hc : c ∈ owned s) : c ∉ releases s :=
  (h.disjoint c).2 hc

theorem owned_nodup : (owned s).Nodup := by
  have hnodup := h.nodup
  unfold everywhere at hnodup
  exact (List.Nodup.of_append_right (List.Nodup.of_append_left hnodup)).of_map some

theorem releases_nodup : (releases s).Nodup := by
  have hnodup := h.nodup
  unfold everywhere at hnodup
  exact (List.Nodup.of_append_right hnodup).of_map some

theorem life_of_free {c : Nat} (hc : some c ∈ s.free.items) : life s c = [] := by
  by_contra hne
  rcases h.quiet c hne with hrel | ⟨howned, -⟩
  · exact h.not_releases_of_free hc hrel
  · exact h.not_owned_of_free hc howned

theorem life_of_uninit {c : Nat} (hc : c ∈ owned s) (hinit : (s.locals c).isInit = false) :
    life s c = [] := by
  by_contra hne
  rcases h.quiet c hne with hrel | ⟨-, hinit'⟩
  · exact h.not_releases_of_owned hc hrel
  · rw [hinit] at hinit'
    cases hinit'

theorem length_everywhere : (everywhere s).length = fdRingCap := by
  rw [h.perm.length_eq, length_map, length_range]

theorem free_room : s.free.items.length + (owned s).length + (releases s).length = fdRingCap := by
  have hlength := h.length_everywhere
  simpa only [everywhere, length_append, length_map] using hlength

end

theorem mem_owned_of_descriptor {m c : Nat} (hm : m ∈ s.descriptors)
    (hc : c ∈ bundle s m) : c ∈ owned s :=
  mem_append_left _ (mem_flatMap.mpr ⟨m, hm, hc⟩)

theorem self_mem_bundle (h : Partition s) {m : Nat} (hm : m ∈ s.descriptors) : m ∈ bundle s m := by
  rw [bundle_eq]
  split
  · rename_i hmulti
    rw [Bool.and_eq_true, Bool.not_eq_true'] at hmulti
    have hfirst := (h.multicore m hm hmulti.1 hmulti.2).1
    exact mem_map.mpr ⟨0, mem_range.mpr h.numProcs_pos, hfirst⟩
  · exact mem_singleton.mpr rfl

structure Settled (s : State) (c : Nat) : Prop where
  hasSocket : c ∈ owned s → (s.locals c).hasSocket = true
  quiet : life s c ≠ [] → c ∈ releases s ∨ c ∈ owned s ∧ (s.locals c).isInit = true
  told : c ∈ owned s → (s.locals c).isInit = true → Told s c
  leaving : c ∈ releases s → Leaving s c

structure Shaped (s : State) (m : Nat) : Prop where
  single : (s.locals m).isInit = false → inProgress s m = false → (s.sockets m).isMulticore = false
  multicore : (s.sockets m).isMulticore = true → inProgress s m = false →
    (s.sockets m).copies 0 = m ∧
      ∀ k < s.numProcs, (s.locals ((s.sockets m).copies k)).procId = k
  route : (s.locals m).isInit = true → (s.sockets m).copies (s.locals m).procId = m

theorem of_settled (hfault : s.fault = none) (hpos : 0 < s.numProcs)
    (hperm : (everywhere s).Perm ((List.range fdRingCap).map some))
    (hmapped : ∀ c, s.mapped c = true ↔ c ∈ s.descriptors) (hsettled : ∀ c, Settled s c)
    (hshutdown : ∀ x ∈ s.pending, ∀ c, x.2 ≠ .shutdown c 2)
    (hshaped : ∀ m ∈ s.descriptors, Shaped s m) (hawaits : Awaits s) : Partition s where
  fault := hfault
  numProcs_pos := hpos
  perm := hperm
  mapped_iff := hmapped
  hasSocket c := (hsettled c).hasSocket
  quiet c := (hsettled c).quiet
  told c := (hsettled c).told
  leaving c := (hsettled c).leaving
  no_shutdown := hshutdown
  single m hm := (hshaped m hm).single
  multicore m hm := (hshaped m hm).multicore
  route m hm := (hshaped m hm).route
  awaits := hawaits

section Frame

variable {t : State}

theorem settled_of_same (h : Partition s) {c : Nat} (howned : c ∈ owned t ↔ c ∈ owned s)
    (hreleases : c ∈ releases t ↔ c ∈ releases s) (hlife : life t c = life s c)
    (hlocals : t.locals c = s.locals c) (hkernel : s.kernel c = true → t.kernel c = true) :
    Settled t c := by
  refine ⟨?_, ?_, ?_, ?_⟩
  · rw [howned, hlocals]
    exact h.hasSocket c
  · rw [hlife, hreleases, howned, hlocals]
    exact h.quiet c
  · rw [howned, Told, hlife, hlocals]
    exact fun hc hinit => (h.told c hc hinit).imp_left fun hknown => ⟨hknown.1, hkernel hknown.2⟩
  · rw [hreleases, Leaving, hlife]
    exact fun hc => (h.leaving c hc).imp_left fun hknown => ⟨hknown.1, hkernel hknown.2⟩

theorem shaped_of_same (h : Partition s) {m : Nat} (hm : m ∈ s.descriptors)
    (hnum : t.numProcs = s.numProcs) (hprogress : inProgress t m = inProgress s m)
    (hsockets : t.sockets m = s.sockets m)
    (hlocals : ∀ c ∈ bundle s m, t.locals c = s.locals c) : Shaped t m := by
  have hlocal := hlocals m (h.self_mem_bundle hm)
  refine ⟨?_, ?_, ?_⟩
  · rw [hlocal, hprogress, hsockets]
    exact h.single m hm
  · rw [hsockets, hprogress, hnum]
    intro hmulti hnot
    obtain ⟨hfirst, hprocs⟩ := h.multicore m hm hmulti hnot
    refine ⟨hfirst, fun k hk => ?_⟩
    rw [hlocals]
    · exact hprocs k hk
    · rw [bundle_eq, hmulti, hnot]
      exact mem_map_of_mem (mem_range.mpr hk)
  · rw [hlocal, hsockets]
    exact h.route m hm

theorem no_shutdown_append (h : Partition s) {new : List (Nat × Command)}
    (hpending : t.pending = s.pending ++ new) (hnew : ∀ x ∈ new, ∀ c, x.2 ≠ .shutdown c 2) :
    ∀ x ∈ t.pending, ∀ c, x.2 ≠ .shutdown c 2 := by
  intro x hx
  rw [hpending, mem_append] at hx
  exact hx.elim (h.no_shutdown x) (hnew x)

end Frame

end Partition

/-! ## Steps of the stack -/

variable {s t : State}

theorem owned_congr (hprocs : t.numProcs = s.numProcs) (hsockets : t.sockets = s.sockets)
    (hdescriptors : t.descriptors = s.descriptors) (hcall : t.call = s.call) :
    owned t = owned s := by
  have hbundle : bundle t = bundle s := by
    funext m
    simp only [bundle, hcall, hsockets, hprocs]
  simp only [owned, inFlight, hbundle, hdescriptors, hcall, hsockets]

theorem inProgress_congr (hcall : t.call = s.call) : inProgress t = inProgress s := by
  funext m
  simp only [inProgress, hcall]

section Taken

variable {s : State} {k : Nat} {cmd : Command} {rest : List (Nat × Command)}
  (htake : Mailbox.take k s.pending = some (cmd, rest))

include htake

theorem releases_of_take :
    (releases s).Perm ((release cmd).toList ++ releases { s with pending := rest }) := by
  have hperm := (Mailbox.take_perm htake).filterMap fun x => release x.2
  cases hrelease : release cmd with
  | none | some => simpa [releases, filterMap_cons, hrelease] using hperm

theorem life_of_take_other {c : Nat} (hclose : cmd ≠ .close c)
    (hset : cmd ≠ .setSocketRing c) : life { s with pending := rest } c = life s c := by
  apply Mailbox.filter_of_take_neg htake
  simp [about, hclose, hset]

theorem questions_of_take_other (hasks : asks cmd = false) :
    questions { s with pending := rest } = questions s :=
  Mailbox.filter_of_take_neg htake hasks

theorem life_of_take {c : Nat} (habout : about c (k, cmd) = true) (hall : ∀ x ∈ life s c, x.1 = k) :
    life s c = (k, cmd) :: life { s with pending := rest } c := by
  apply Mailbox.filter_of_take_pos htake habout
  exact fun x hx hp => hall x (mem_filter.mpr ⟨hx, hp⟩)

end Taken

structure SameApp (s t : State) : Prop where
  numProcs : t.numProcs = s.numProcs
  sockets : t.sockets = s.sockets
  locals : t.locals = s.locals
  descriptors : t.descriptors = s.descriptors
  mapped : t.mapped = s.mapped
  call : t.call = s.call
  fault : t.fault = s.fault

theorem SameApp.owned (happ : SameApp s t) : owned t = owned s :=
  owned_congr happ.numProcs happ.sockets happ.descriptors happ.call

namespace Partition

variable {s t : State}

theorem of_sameApp (h : Partition s) (happ : SameApp s t) (hpending : t.pending ⊆ s.pending)
    (hperm : (t.free.items ++ (releases t).map some).Perm (s.free.items ++ (releases s).map some))
    (hsettled : ∀ c, Settled t c) (hawaits : Awaits t) : Partition t := by
  refine of_settled (happ.fault.trans h.fault) (happ.numProcs ▸ h.numProcs_pos) ?_ ?_ hsettled
    (fun x hx => h.no_shutdown x (hpending hx)) (fun m hm => ?_) hawaits
  · refine List.Perm.trans ?_ h.perm
    rw [perm_iff_count] at hperm ⊢
    intro x
    have hx := hperm x
    simp only [everywhere, happ.owned, count_append] at hx ⊢
    omega
  · rw [happ.mapped, happ.descriptors]
    exact h.mapped_iff
  · exact h.shaped_of_same (happ.descriptors ▸ hm) happ.numProcs
      (congrFun (inProgress_congr happ.call) m) (congrFun happ.sockets m)
      fun c _ => congrFun happ.locals c

theorem of_neutral (h : Partition s) {k : Nat} {cmd : Command} {rest : List (Nat × Command)}
    (htake : Mailbox.take k s.pending = some (cmd, rest)) (happ : SameApp s t)
    (hpending : t.pending = rest) (hfree : t.free = s.free)
    (hkernel : ∀ c, s.kernel c = true → t.kernel c = true)
    (hneutral : ∀ c, about c (k, cmd) = false) (hrelease : release cmd = none)
    (hawaits : Awaits t) : Partition t := by
  have hreleases : (releases s).Perm (releases t) := by
    have hperm := releases_of_take htake
    rw [hrelease] at hperm
    simpa only [releases, hpending, Option.toList_none, nil_append] using hperm
  refine h.of_sameApp happ ?_ ?_ (fun c => ?_) hawaits
  · rw [hpending]
    exact Mailbox.subset_of_take htake
  · rw [hfree]
    exact (hreleases.symm.map some).append_left _
  · refine h.settled_of_same (by rw [happ.owned]) hreleases.mem_iff.symm ?_
      (congrFun happ.locals c) (hkernel c)
    rw [life, hpending]
    exact Mailbox.filter_of_take_neg htake (hneutral c)

theorem current_mem_owned (h : Partition s) {main current i : Nat}
    (hcall : s.call = .waitOpen main current i) : current ∈ owned s := by
  have hawaits := h.awaits
  simp only [Awaits, hcall] at hawaits
  obtain ⟨⟨hmain, -, -, -, -, -, -, hfirst, -⟩, -⟩ := hawaits
  by_cases hi : i = 0
  · rw [hfirst hi]
    apply mem_owned_of_descriptor hmain
    simp [bundle_eq, inProgress, hcall]
  · apply mem_append_right
    simp [inFlight, hcall, hi]

theorem awaits_of_same (h : Partition s) (happ : SameApp s t)
    (hreply : t.reply = s.reply) (hquestions : questions t = questions s)
    (hkernel : ∀ c ∈ owned s, s.kernel c = true → t.kernel c = true) : Awaits t := by
  have hawaits := h.awaits
  unfold Awaits at hawaits ⊢
  rw [happ.call, hreply, hquestions, happ.descriptors, happ.numProcs, happ.sockets, happ.locals]
  cases hcall : s.call with
  | idle | waitBind => simpa only [hcall] using hawaits
  | waitOpen main current i =>
    simp only [hcall] at hawaits ⊢
    refine ⟨hawaits.1, hawaits.2.imp_right fun hanswered => ?_⟩
    exact ⟨hanswered.1, hanswered.2.1, hkernel _ (h.current_mem_owned hcall) hanswered.2.2⟩

section Stack

variable {k : Nat} {rest : List (Nat × Command)}

section

variable (h : Partition s)

include h

theorem stack_decline (htake : Mailbox.take k s.pending = some (.decline, rest)) :
    Partition { s with pending := rest } := by
  have happ : SameApp s { s with pending := rest } := ⟨rfl, rfl, rfl, rfl, rfl, rfl, rfl⟩
  refine h.of_neutral htake happ rfl rfl (fun _ hc => hc) (fun c => ?_) rfl ?_
  · simp [about]
  · exact h.awaits_of_same happ rfl (questions_of_take_other htake rfl) fun _ _ hc => hc

variable {c : Nat}

theorem stack_shutdown {how : Int}
    (htake : Mailbox.take k s.pending = some (.shutdown c how, rest)) :
    how ≠ 2 ∧ Partition { s with pending := rest } := by
  have hhow : how ≠ 2 := by
    rintro rfl
    exact h.no_shutdown _ (Mailbox.mem_of_take htake) c rfl
  have happ : SameApp s { s with pending := rest } := ⟨rfl, rfl, rfl, rfl, rfl, rfl, rfl⟩
  refine ⟨hhow, h.of_neutral htake happ rfl rfl (fun _ hc => hc) (fun c => ?_) ?_ ?_⟩
  · simp [about]
  · simp [release, hhow]
  · exact h.awaits_of_same happ rfl (questions_of_take_other htake rfl) fun _ _ hc => hc

theorem questions_of_take {cmd : Command} (htake : Mailbox.take k s.pending = some (cmd, rest))
    (hasks : asks cmd = true) :
    questions s = [(k, cmd)] ∧ questions { s with pending := rest } = [] := by
  have hmem : (k, cmd) ∈ questions s := mem_filter.mpr ⟨Mailbox.mem_of_take htake, hasks⟩
  have hone : ∃ x, questions s = [x] := by
    have hawaits := h.awaits
    unfold Awaits at hawaits
    split at hawaits
    · rw [hawaits] at hmem
      cases hmem
    · rcases hawaits.2 with ⟨-, hq⟩ | ⟨-, hq, -⟩
      · exact ⟨_, hq⟩
      · rw [hq] at hmem
        cases hmem
    · rcases hawaits with ⟨-, c, hq⟩ | ⟨-, hq⟩
      · exact ⟨_, hq⟩
      · rw [hq] at hmem
        cases hmem
  obtain ⟨x, hx⟩ := hone
  rw [hx] at hmem
  obtain rfl := mem_singleton.mp hmem
  refine ⟨hx, ?_⟩
  have hfirst : questions s = (k, cmd) :: questions { s with pending := rest } := by
    refine Mailbox.filter_of_take_pos (p := fun x => asks x.2) htake hasks ?_
    intro y hy hasks'
    have hy' : y ∈ questions s := mem_filter.mpr ⟨hy, hasks'⟩
    rw [hx] at hy'
    rw [mem_singleton.mp hy']
  rw [hx] at hfirst
  exact (List.cons.inj hfirst).2.symm

theorem stack_openSocket (htake : Mailbox.take k s.pending = some (.openSocket c, rest)) :
    Partition { s with
      pending := rest
      kernel := update s.kernel c true
      reply := some true } := by
  have happ : SameApp s { s with
      pending := rest
      kernel := update s.kernel c true
      reply := some true } := ⟨rfl, rfl, rfl, rfl, rfl, rfl, rfl⟩
  obtain ⟨hbefore, hafter⟩ := h.questions_of_take htake rfl
  refine h.of_neutral htake happ rfl rfl ?_ (fun c => by simp [about]) rfl ?_
  · intro c' hc'
    by_cases hcc : c' = c
    · simp [hcc]
    · simpa [hcc] using hc'
  · have hawaits := h.awaits
    unfold Awaits at hawaits ⊢
    simp only [hbefore] at hawaits
    split at hawaits
    · cases hawaits
    · rename_i hcall
      rcases hawaits with ⟨hbind, ⟨-, hq⟩ | ⟨-, hq, -⟩⟩
      · simp only [List.cons.injEq, Prod.mk.injEq, Command.openSocket.injEq] at hq
        obtain ⟨⟨-, rfl⟩, -⟩ := hq
        simp only [hcall]
        exact ⟨hbind, .inr ⟨trivial, hafter, by simp⟩⟩
      · cases hq
    · rcases hawaits with ⟨-, c', hq⟩ | ⟨-, hq⟩
      · simp at hq
      · cases hq

theorem stack_bind {success : Bool} (htake : Mailbox.take k s.pending = some (.bind c, rest)) :
    Partition { s with pending := rest, reply := some success } := by
  have happ : SameApp s { s with pending := rest, reply := some success } :=
    ⟨rfl, rfl, rfl, rfl, rfl, rfl, rfl⟩
  obtain ⟨hbefore, hafter⟩ := h.questions_of_take htake rfl
  refine h.of_neutral htake happ rfl rfl (fun _ hc => hc) (fun c => by simp [about]) rfl ?_
  have hawaits := h.awaits
  unfold Awaits at hawaits ⊢
  simp only [hbefore] at hawaits
  split at hawaits
  · cases hawaits
  · rcases hawaits with ⟨-, ⟨-, hq⟩ | ⟨-, hq, -⟩⟩
    · simp at hq
    · cases hq
  · rename_i hcall
    simp only [hcall]
    exact .inr ⟨rfl, hafter⟩

theorem core_of_life {x : Nat × Command} (hx : x ∈ life s c) : ∀ y ∈ life s c, y.1 = x.1 := by
  have hne : life s c ≠ [] := ne_nil_of_mem hx
  intro y hy
  rcases h.quiet c hne with hrel | ⟨howned, hinit⟩
  · rcases h.leaving c hrel with ⟨⟨k, hlife⟩, -⟩ | ⟨k, hlife⟩
    · rw [hlife] at hx hy
      rw [mem_singleton.mp hx, mem_singleton.mp hy]
    · rw [hlife] at hx hy
      simp only [mem_cons, not_mem_nil, or_false] at hx hy
      rcases hx with rfl | rfl <;> rcases hy with rfl | rfl <;> rfl
  · rcases h.told c howned hinit with ⟨hlife, -⟩ | hlife
    · exact absurd hlife hne
    · rw [hlife] at hx hy
      rw [mem_singleton.mp hx, mem_singleton.mp hy]

theorem life_of_taken {cmd : Command} (htake : Mailbox.take k s.pending = some (cmd, rest))
    (habout : about c (k, cmd) = true) :
    life s c = (k, cmd) :: life { s with pending := rest } c := by
  have hmem : (k, cmd) ∈ life s c := mem_filter.mpr ⟨Mailbox.mem_of_take htake, habout⟩
  exact life_of_take htake habout fun y hy => h.core_of_life hmem y hy

theorem stack_setSocketRing (htake : Mailbox.take k s.pending = some (.setSocketRing c, rest)) :
    Partition { s with
      pending := rest
      kernel := update s.kernel c true } := by
  have happ : SameApp s { s with
      pending := rest
      kernel := update s.kernel c true } := ⟨rfl, rfl, rfl, rfl, rfl, rfl, rfl⟩
  have hkernel : ∀ c', s.kernel c' = true → update s.kernel c true c' = true := by
    intro c' hc'
    by_cases hcc : c' = c
    · simp [hcc]
    · simpa [hcc] using hc'
  have hlife : life s c = (k, .setSocketRing c) :: life { s with pending := rest } c :=
    h.life_of_taken htake (by simp [about])
  have hreleases : (releases s).Perm (releases { s with pending := rest }) := by
    simpa [release] using releases_of_take htake
  refine h.of_sameApp happ (Mailbox.subset_of_take htake) ?_ (fun c' => ?_) ?_
  · exact (hreleases.symm.map some).append_left _
  · by_cases hcc : c' = c
    · subst hcc
      refine ⟨h.hasSocket c', fun _ => ?_, fun howned hinit => ?_, fun hrel => ?_⟩
      · exact (h.quiet c' (by simp [hlife])).imp_left hreleases.mem_iff.mp
      · have htold := h.told c' howned hinit
        rw [Told, hlife] at htold
        rcases htold with ⟨hnil, -⟩ | hone
        · cases hnil
        · exact .inl ⟨(List.cons.inj hone).2, by simp⟩
      · have hleaving := h.leaving c' (hreleases.mem_iff.mpr hrel)
        rw [Leaving, hlife] at hleaving
        rcases hleaving with ⟨⟨j, hone⟩, -⟩ | ⟨j, htwo⟩
        · simp at hone
        · exact .inl ⟨⟨j, (List.cons.inj htwo).2⟩, by simp⟩
    · exact h.settled_of_same Iff.rfl hreleases.mem_iff.symm
        (life_of_take_other htake (by simp) (by simpa using Ne.symm hcc)) rfl (hkernel c')
  · exact h.awaits_of_same happ rfl (questions_of_take_other htake rfl)
      fun c' _ hc' => hkernel c' hc'

theorem stack_close (htake : Mailbox.take k s.pending = some (.close c, rest)) :
    s.kernel c = true ∧ Partition (lightFreeSocket { s with pending := rest } c) := by
  have happ : SameApp s (lightFreeSocket { s with pending := rest } c) :=
    ⟨rfl, rfl, rfl, rfl, rfl, rfl, rfl⟩
  have hreleases : (releases s).Perm (c :: releases { s with pending := rest }) := by
    simpa [release] using releases_of_take htake
  have hmem : c ∈ releases s := hreleases.mem_iff.mpr (mem_cons_self ..)
  have hnot : c ∉ releases { s with pending := rest } :=
    (nodup_cons.mp (hreleases.nodup_iff.mp h.releases_nodup)).1
  have hunowned : c ∉ owned s := fun howned => h.not_releases_of_owned howned hmem
  have hlife : life s c = (k, .close c) :: life { s with pending := rest } c :=
    h.life_of_taken htake (by simp [about])
  have hlast : s.kernel c = true ∧ life { s with pending := rest } c = [] := by
    have hleaving := h.leaving c hmem
    rw [Leaving, hlife] at hleaving
    rcases hleaving with ⟨⟨j, hone⟩, hknown⟩ | ⟨j, htwo⟩
    · exact ⟨hknown, (List.cons.inj hone).2⟩
    · simp at htwo
  have hroom : s.free.items.length < fdRingCap := by
    have hroom := h.free_room
    have hpos := length_pos_of_mem hmem
    omega
  have hkernel : ∀ c', c' ≠ c → s.kernel c' = true → update s.kernel c false c' = true := by
    intro c' hne hc'
    simpa [hne] using hc'
  refine ⟨hlast.1, h.of_sameApp happ (Mailbox.subset_of_take htake) ?_ (fun c' => ?_) ?_⟩
  · have hitems := items_putFree s.free (some c) hroom
    have hperm := (hreleases.map some).append_left s.free.items
    refine List.Perm.trans ?_ hperm.symm
    simp only [lightFreeSocket, hitems, map_cons, append_assoc, singleton_append]
    exact List.Perm.refl _
  · by_cases hcc : c' = c
    · subst hcc
      exact ⟨fun howned => absurd howned hunowned, fun hne => absurd hlast.2 hne,
        fun howned => absurd howned hunowned, fun hrel => absurd hrel hnot⟩
    · refine h.settled_of_same Iff.rfl ?_
        (life_of_take_other htake (by simpa using Ne.symm hcc) (by simp)) rfl (hkernel c' hcc)
      rw [hreleases.mem_iff, mem_cons, or_iff_right hcc]
      rfl
  · refine h.awaits_of_same happ rfl (questions_of_take_other htake rfl) ?_
    intro c' howned
    exact hkernel c' fun heq => hunowned (heq ▸ howned)

theorem stack {cmd : Command} {success : Bool} (htake : Mailbox.take k s.pending = some (cmd, rest))
    (hopens : opens s k = true → success = true) :
    Partition (processCommand { s with pending := rest } k success cmd) := by
  cases cmd with
  | openSocket c =>
    have hsuccess : success = true := hopens (by simp [opens, htake])
    simpa [processCommand, hsuccess] using h.stack_openSocket htake
  | bind c => exact h.stack_bind htake
  | close c =>
    obtain ⟨hknown, hclosed⟩ := h.stack_close htake
    simpa [processCommand, hknown] using hclosed
  | shutdown c how =>
    obtain ⟨hhow, hsame⟩ := h.stack_shutdown htake
    simpa [processCommand, hhow] using hsame
  | setSocketRing c => exact h.stack_setSocketRing htake
  | decline => exact h.stack_decline htake

end

end Stack

end Partition

/-! ## Steps of the application -/

structure Touches (C : List Nat) (s t : State) : Prop where
  numProcs : t.numProcs = s.numProcs
  kernel : t.kernel = s.kernel
  sockets : ∀ c ∉ C, t.sockets c = s.sockets c
  locals : ∀ c ∉ C, t.locals c = s.locals c
  life : ∀ c ∉ C, life t c = life s c

theorem Touches.settled {C : List Nat} (htouch : Touches C s t) (h : Partition s) {c : Nat}
    (hc : c ∉ C) (howned : c ∈ owned t ↔ c ∈ owned s)
    (hreleases : c ∈ releases t ↔ c ∈ releases s) : Partition.Settled t c :=
  h.settled_of_same howned hreleases (htouch.life c hc) (htouch.locals c hc)
    fun hknown => htouch.kernel ▸ hknown

theorem life_append {new : List (Nat × Command)} (hpending : t.pending = s.pending ++ new)
    (c : Nat) : life t c = life s c ++ new.filter (about c) := by
  simp only [life, hpending, filter_append]

theorem releases_append {new : List (Nat × Command)} (hpending : t.pending = s.pending ++ new) :
    releases t = releases s ++ new.filterMap fun x => release x.2 := by
  simp only [releases, hpending, filterMap_append]

theorem questions_append {new : List (Nat × Command)} (hpending : t.pending = s.pending ++ new) :
    questions t = questions s ++ new.filter fun x => asks x.2 := by
  simp only [questions, hpending, filter_append]

theorem inProgress_of_idle (hidle : s.call = .idle) (m : Nat) : inProgress s m = false := by
  simp only [inProgress, hidle]

theorem owned_of_idle (hidle : s.call = .idle) : owned s = s.descriptors.flatMap (bundle s) := by
  simp [owned, inFlight, hidle]

theorem bundle_of_idle (hidle : s.call = .idle) (m : Nat) : bundle s m =
      if (s.sockets m).isMulticore then
        (List.range s.numProcs).map (s.sockets m).copies
      else [m] := by
  simp [bundle, hidle]

namespace Partition

variable {s t : State}

theorem descriptor_mem_owned (h : Partition s) {m : Nat} (hm : m ∈ s.descriptors) : m ∈ owned s :=
  mem_owned_of_descriptor hm (h.self_mem_bundle hm)

theorem descriptors_nodup (h : Partition s) : s.descriptors.Nodup := by
  have hnodup := h.owned_nodup
  rw [owned, nodup_append, nodup_flatMap] at hnodup
  refine hnodup.1.2.imp_of_mem ?_
  rintro m m' hm - hdisjoint rfl
  exact hdisjoint (h.self_mem_bundle hm) (h.self_mem_bundle hm)

theorem bundle_disjoint (h : Partition s) {m m' c : Nat} (hm : m ∈ s.descriptors)
    (hm' : m' ∈ s.descriptors) (hne : m' ≠ m) (hc : c ∈ bundle s m') : c ∉ bundle s m := by
  have hnodup := h.owned_nodup
  rw [owned, nodup_append] at hnodup
  have hperm := (perm_cons_erase hm).flatMap_right (bundle s)
  have hsplit := nodup_append.mp (hperm.nodup_iff.mp hnodup.1)
  intro hc'
  exact hsplit.2.2 c hc' c (mem_flatMap.mpr ⟨m', (mem_erase_of_ne hne).mpr hm', hc⟩) rfl

theorem questions_of_idle (h : Partition s) (hidle : s.call = .idle) : questions s = [] := by
  have hawaits := h.awaits
  simpa only [Awaits, hidle] using hawaits

def Introduced (c : Nat) (x : Socket) (l : Local) (new : List (Nat × Command)) : Prop :=
  l.isInit = false ∧ new = [] ∨
    l.isInit = true ∧ new = [(l.procId, .setSocketRing c)] ∧ x.copies l.procId = c

structure Acquires (s t : State) (c : Nat) (l : Local) (new : List (Nat × Command)) :
    Prop where
  free : s.free.items = some c :: t.free.items
  same : Touches [c] s t
  pending : t.pending = s.pending ++ new
  single : (t.sockets c).isMulticore = false
  locals : t.locals c = l
  introduced : Introduced c (t.sockets c) l new
  hasSocket : l.hasSocket = true
  descriptors : t.descriptors = s.descriptors ++ [c]
  mapped : t.mapped = update s.mapped c true
  call : t.call = s.call
  fault : t.fault = s.fault

section Acquire

variable {c : Nat} {l : Local} {new : List (Nat × Command)} (hacq : Acquires s t c l new)

include hacq

theorem Acquires.releases_eq : releases t = releases s := by
  rw [releases_append hacq.pending]
  rcases hacq.introduced with ⟨-, rfl⟩ | ⟨-, rfl, -⟩ <;> simp [release]

theorem Acquires.mem_free : some c ∈ s.free.items := by simp [hacq.free]

theorem Acquires.ne_of_owned (h : Partition s) {c' : Nat} (hc' : c' ∈ owned s) : c' ∉ [c] := by
  intro heq
  rw [mem_singleton.mp heq] at hc'
  exact h.not_owned_of_free hacq.mem_free hc'

theorem Acquires.owned_eq (h : Partition s) (hidle : s.call = .idle) :
    owned t = owned s ++ [c] := by
  have hidle' : t.call = .idle := hacq.call.trans hidle
  have hbundle : ∀ m ∈ s.descriptors, bundle t m = bundle s m := by
    intro m hm
    rw [bundle_of_idle hidle, bundle_of_idle hidle',
      hacq.same.sockets m (hacq.ne_of_owned h (h.descriptor_mem_owned hm)),
      hacq.same.numProcs]
  rw [owned_of_idle hidle, owned_of_idle hidle', hacq.descriptors,
    flatMap_append, flatMap_congr hbundle]
  simp [bundle_of_idle hidle', hacq.single]

theorem acquire (h : Partition s) (hidle : s.call = .idle) : Partition t := by
  have hmem := hacq.mem_free
  have howned := hacq.owned_eq h hidle
  have hreleases := hacq.releases_eq
  have hquestions : questions t = questions s := by
    rw [questions_append hacq.pending]
    rcases hacq.introduced with ⟨-, rfl⟩ | ⟨-, rfl, -⟩ <;> simp [asks]
  have hlife : life t c = new := by
    rw [life_append hacq.pending, h.life_of_free hmem]
    rcases hacq.introduced with ⟨-, rfl⟩ | ⟨-, rfl, -⟩ <;> simp [about]
  refine of_settled (hacq.fault.trans h.fault) (hacq.same.numProcs ▸ h.numProcs_pos) ?_ ?_ ?_
    (h.no_shutdown_append hacq.pending ?_) ?_ ?_
  · refine List.Perm.trans ?_ h.perm
    rw [perm_iff_count]
    intro y
    simp only [everywhere, howned, hreleases, hacq.free, map_append,
      count_append, map_cons, map_nil, count_cons, count_nil]
    omega
  · intro c'
    rw [hacq.mapped, hacq.descriptors]
    by_cases hcc : c' = c
    · simp [hcc]
    · simp [hcc, h.mapped_iff]
  · intro c'
    by_cases hcc : c' = c
    · subst hcc
      have hnot := h.not_releases_of_free hmem
      rcases hacq.introduced with ⟨hinit, hnew⟩ | ⟨hinit, hnew, -⟩
      · exact ⟨fun _ => hacq.locals ▸ hacq.hasSocket, by simp [hlife, hnew],
          by simp [hacq.locals, hinit], fun hrel => absurd (hreleases ▸ hrel) hnot⟩
      · exact ⟨fun _ => hacq.locals ▸ hacq.hasSocket,
          fun _ => .inr ⟨by simp [howned], hacq.locals ▸ hinit⟩,
          fun _ _ => .inr (by rw [hlife, hacq.locals, hnew]),
          fun hrel => absurd (hreleases ▸ hrel) hnot⟩
    · exact hacq.same.settled h (by simpa using hcc) (by simp [howned, hcc]) (by rw [hreleases])
  · intro y hy c'
    rcases hacq.introduced with ⟨-, rfl⟩ | ⟨-, rfl, -⟩
    · cases hy
    · simp [mem_singleton.mp hy]
  · intro m hm
    rw [hacq.descriptors, mem_append, mem_singleton] at hm
    rcases hm with hm | rfl
    · exact h.shaped_of_same hm hacq.same.numProcs (congrFun (inProgress_congr hacq.call) m)
        (hacq.same.sockets m (hacq.ne_of_owned h (h.descriptor_mem_owned hm)))
        fun c' hc' => hacq.same.locals c' (hacq.ne_of_owned h (mem_owned_of_descriptor hm hc'))
    · refine ⟨fun _ _ => hacq.single, by simp [hacq.single], ?_⟩
      rw [hacq.locals]
      rcases hacq.introduced with ⟨hinit, -⟩ | ⟨-, -, hroute⟩
      · simp [hinit]
      · exact fun _ => hroute
  · rw [Awaits, hacq.call.trans hidle]
    exact hquestions.trans (h.questions_of_idle hidle)

end Acquire

structure Closes (s t : State) (m : Nat) : Prop where
  free : t.free.items = s.free.items ++ ((bundle s m).filter fun c => !(s.locals c).isInit).map some
  pending : t.pending = s.pending ++ ((bundle s m).filter fun c => (s.locals c).isInit).map
      fun c => ((s.locals c).procId, .close c)
  same : Touches (bundle s m) s t
  descriptors : t.descriptors = s.descriptors.erase m
  mapped : t.mapped = update s.mapped m false
  call : t.call = s.call
  fault : t.fault = s.fault

theorem filter_about_close (f : Nat → Nat) (cs : List Nat) (hnodup : cs.Nodup) (c : Nat) :
    (cs.map fun c' => (f c', Command.close c')).filter (about c) =
      if c ∈ cs then [(f c, .close c)] else [] := by
  have habout : (about c ∘ fun c' => (f c', Command.close c')) = fun c' => c' == c := by
    funext c'
    by_cases hcc : c' = c <;> simp [about, hcc]
  rw [filter_map, habout, filter_beq]
  split
  · rename_i hc
    rw [count_eq_one_of_mem hnodup hc]
    rfl
  · rename_i hc
    rw [count_eq_zero.mpr hc]
    rfl

section Close

variable {m : Nat}

theorem owned_perm_erase (hidle : s.call = .idle) (hm : m ∈ s.descriptors) :
    (owned s).Perm (bundle s m ++ (s.descriptors.erase m).flatMap (bundle s)) := by
  rw [owned_of_idle hidle]
  exact (perm_cons_erase hm).flatMap_right (bundle s)

theorem not_mem_bundle_of_erase (h : Partition s) (hm : m ∈ s.descriptors) {m' c : Nat}
    (hm' : m' ∈ s.descriptors.erase m) (hc : c ∈ bundle s m') : c ∉ bundle s m := by
  obtain ⟨hne, hm'⟩ := h.descriptors_nodup.mem_erase_iff.mp hm'
  exact h.bundle_disjoint hm hm' hne hc

theorem Closes.releases_eq (hcloses : Closes s t m) :
    releases t = releases s ++ (bundle s m).filter fun c => (s.locals c).isInit := by
  rw [releases_append hcloses.pending, filterMap_map]
  simp [Function.comp_def, release]

theorem Closes.owned_eq (hcloses : Closes s t m) (h : Partition s) (hidle : s.call = .idle)
    (hm : m ∈ s.descriptors) : owned t = (s.descriptors.erase m).flatMap (bundle s) := by
  have hidle' : t.call = .idle := hcloses.call.trans hidle
  have hbundle : ∀ m' ∈ s.descriptors.erase m, bundle t m' = bundle s m' := by
    intro m' hm'
    have hold := h.not_mem_bundle_of_erase hm hm' (h.self_mem_bundle (mem_of_mem_erase hm'))
    rw [bundle_of_idle hidle, bundle_of_idle hidle', hcloses.same.sockets m' hold,
      hcloses.same.numProcs]
  rw [owned_of_idle hidle', hcloses.descriptors, flatMap_congr hbundle]

theorem close (h : Partition s) (hidle : s.call = .idle) (hm : m ∈ s.descriptors)
    (hcloses : Closes s t m) : Partition t := by
  have hperm := owned_perm_erase hidle hm
  have hnodup := nodup_append.mp (hperm.nodup_iff.mp h.owned_nodup)
  have howned := hcloses.owned_eq h hidle hm
  have hreleases := hcloses.releases_eq
  have hquestions : questions t = questions s := by
    rw [questions_append hcloses.pending, filter_map]
    simp [Function.comp_def, asks]
  have hlife : ∀ c ∈ bundle s m, life t c = life s c ++
      if (s.locals c).isInit = true then [((s.locals c).procId, .close c)] else [] := by
    intro c hc
    rw [life_append hcloses.pending, filter_about_close _ _ (hnodup.1.filter _) c]
    simp [hc]
  refine of_settled (hcloses.fault.trans h.fault) (hcloses.same.numProcs ▸ h.numProcs_pos)
    ?_ ?_ ?_ (h.no_shutdown_append hcloses.pending ?_) ?_ ?_
  · refine List.Perm.trans ?_ h.perm
    have hsplit := filter_append_perm (fun c => (s.locals c).isInit) (bundle s m)
    rw [perm_iff_count]
    intro y
    have hcount := (hperm.map some).count_eq y
    have hcount' := (hsplit.map some).count_eq y
    simp only [everywhere, howned, hreleases, hcloses.free, map_append,
      count_append] at hcount hcount' ⊢
    omega
  · intro c
    rw [hcloses.mapped, hcloses.descriptors, h.descriptors_nodup.mem_erase_iff]
    by_cases hc : c = m
    · simp [hc]
    · simp [hc, h.mapped_iff]
  · intro c
    by_cases hmem : c ∈ bundle s m
    · have hown := mem_owned_of_descriptor hm hmem
      have hgone : c ∉ owned t := fun hc => hnodup.2.2 c hmem c (howned ▸ hc) rfl
      refine ⟨fun hc => absurd hc hgone, fun hc => ?_, fun hc => absurd hc hgone, fun hc => ?_⟩
      · rw [hreleases]
        by_cases hinit : (s.locals c).isInit = true
        · exact .inl (mem_append_right _ (mem_filter.mpr ⟨hmem, hinit⟩))
        · rw [hlife c hmem, h.life_of_uninit hown (Bool.eq_false_iff.mpr hinit), if_neg hinit] at hc
          exact absurd rfl hc
      · rw [hreleases, mem_append, or_iff_right (h.not_releases_of_owned hown)] at hc
        have hinit := (mem_filter.mp hc).2
        rw [Leaving, hlife c hmem, if_pos hinit, hcloses.same.kernel]
        rcases h.told c hown hinit with ⟨hnil, hknown⟩ | hone
        · exact .inl ⟨⟨_, by rw [hnil]; rfl⟩, hknown⟩
        · exact .inr ⟨_, by rw [hone]; rfl⟩
    · refine hcloses.same.settled h hmem ?_ (by simp [hreleases, hmem])
      rw [howned, hperm.mem_iff, mem_append, or_iff_right hmem]
  · intro y hy c
    obtain ⟨c', -, rfl⟩ := mem_map.mp hy
    simp
  · intro m' hm'
    rw [hcloses.descriptors] at hm'
    have hold := mem_of_mem_erase hm'
    have hout : ∀ c ∈ bundle s m', c ∉ bundle s m := fun c => h.not_mem_bundle_of_erase hm hm'
    exact h.shaped_of_same hold hcloses.same.numProcs (congrFun (inProgress_congr hcloses.call) m')
      (hcloses.same.sockets m' (hout m' (h.self_mem_bundle hold)))
      fun c hc => hcloses.same.locals c (hout c hc)
  · rw [Awaits, hcloses.call.trans hidle]
    exact hquestions.trans (h.questions_of_idle hidle)

end Close

/-! ### The calls -/

theorem post (h : Partition s) (hidle : s.call = .idle) {k : Nat} {cmd : Command}
    (habout : ∀ c, about c (k, cmd) = false) (hrelease : release cmd = none)
    (hasks : asks cmd = false) (hshutdown : ∀ c, cmd ≠ .shutdown c 2) :
    Partition (post s k cmd) := by
  have hreleases : releases (Conn.post s k cmd) = releases s := by
    rw [releases_append rfl]
    simp [hrelease]
  have hquestions : questions (Conn.post s k cmd) = questions s := by
    rw [questions_append rfl]
    simp [hasks]
  have howned : owned (Conn.post s k cmd) = owned s := owned_congr rfl rfl rfl rfl
  refine of_settled h.fault h.numProcs_pos ?_ h.mapped_iff (fun c => ?_)
    (h.no_shutdown_append rfl ?_) (fun m hm => ?_) ?_
  · rw [everywhere, howned, hreleases]
    exact h.perm
  · refine h.settled_of_same (by rw [howned]) (by rw [hreleases]) ?_ rfl id
    rw [life_append rfl]
    simp [habout]
  · simpa using hshutdown
  · exact h.shaped_of_same hm rfl rfl rfl fun _ _ => rfl
  · have hidle' : (Conn.post s k cmd).call = .idle := hidle
    rw [Awaits, hidle']
    exact hquestions.trans (h.questions_of_idle hidle)

theorem dequeue_free (h : Partition s) (hne : s.free.items ≠ []) :
    ∃ c ring, s.free.dequeue = some (some c, ring) ∧
      s.free.items = some c :: ring.items := by
  cases hdequeue : s.free.dequeue with
  | none => exact absurd (Ring.dequeue_eq_none_iff.mp hdequeue) hne
  | some taken =>
    obtain ⟨x, ring⟩ := taken
    have hitems := Ring.dequeue_eq_some_iff.mp hdequeue
    have hmem : x ∈ (List.range fdRingCap).map some := by
      rw [← h.perm.mem_iff]
      simp [everywhere, hitems]
    obtain ⟨c, -, rfl⟩ := mem_map.mp hmem
    exact ⟨c, ring, rfl, hitems⟩

theorem lightOpenSocket_acquires (h : Partition s) (hfree : s.free.items ≠ [])
    (hfds : 0 < s.freeFds) :
    ∃ t c l, lightOpenSocket s = .ok t ∧ Acquires s t c l [] ∧ l.isInit = false := by
  obtain ⟨c, ring, hdequeue, hitems⟩ := h.dequeue_free hfree
  have hfds' : s.freeFds ≠ 0 := Nat.ne_of_gt hfds
  simp only [Conn.lightOpenSocket, lightGetSocket, hdequeue, getNewLightFd, setLocal,
    setSocket, hfds', bind, Except.bind, if_false]
  refine ⟨_, c, { s.locals c with hasSocket := true, isInit := false }, rfl,
    { free := hitems
      same := ⟨rfl, rfl, ?_, ?_, fun _ _ => rfl⟩
      pending := (append_nil _).symm
      single := by simp
      locals := by simp
      introduced := .inl ⟨rfl, rfl⟩
      hasSocket := rfl
      descriptors := rfl
      mapped := rfl
      call := rfl
      fault := rfl }, rfl⟩
  · intro c' hc'
    simp [mem_singleton.not.mp hc']
  · intro c' hc'
    simp [mem_singleton.not.mp hc']

theorem lightAccept_acquires (h : Partition s) {k : Nat} (hfree : s.free.items ≠ [])
    (hfds : 0 < s.freeFds) :
    ∃ t c, lightAccept s k true = .ok t ∧
      Acquires s t c ⟨true, true, k⟩ [(k, .setSocketRing c)] := by
  obtain ⟨c, ring, hdequeue, hitems⟩ := h.dequeue_free hfree
  have hfds' : s.freeFds ≠ 0 := Nat.ne_of_gt hfds
  simp only [Conn.lightAccept, hdequeue, getNewLightFd, setLocal, setSocket, Conn.post,
    hfds', if_true, if_false]
  refine ⟨_, c, rfl,
    { free := hitems
      same := ⟨rfl, rfl, ?_, ?_, ?_⟩
      pending := rfl
      single := by simp
      locals := by simp
      introduced := .inr ⟨rfl, rfl, by simp⟩
      hasSocket := rfl
      descriptors := rfl
      mapped := rfl
      call := rfl
      fault := rfl }⟩
  · intro c' hc'
    simp [mem_singleton.not.mp hc']
  · intro c' hc'
    simp [mem_singleton.not.mp hc']
  · intro c' hc'
    rw [life_append rfl]
    simp [about, Ne.symm (mem_singleton.not.mp hc')]

theorem lightAccept_declines (hfree : s.free.items = []) (k : Nat) (posted : Bool) :
    lightAccept s k posted = .ok (if posted then Conn.post s k .decline else s) := by
  simp only [Conn.lightAccept, Ring.dequeue_eq_none_iff.mpr hfree]

theorem lightShutdown (h : Partition s) (hidle : s.call = .idle) {m : Nat} {how : Int}
    {posted : Bool} (hhow : how ≠ 2 ∨ posted = false) :
    Partition (lightShutdown s m how posted) := by
  cases posted with
  | false => exact h
  | true =>
    have hhow : how ≠ 2 := hhow.resolve_right (by simp)
    refine h.post hidle (fun c => by simp [about]) ?_ rfl ?_
    · simp [release, hhow]
    · rintro c ⟨⟩
      exact hhow rfl

end Partition

structure Looped (main : Nat) (ks : List Nat) (s t : State) : Prop where
  free : t.free.items = s.free.items ++
    (ks.filter fun k => !(s.locals ((s.sockets main).copies k)).isInit).map
      fun k => some ((s.sockets main).copies k)
  pending : t.pending = s.pending ++
    (ks.filter fun k => (s.locals ((s.sockets main).copies k)).isInit).map
      fun k => (k, .close ((s.sockets main).copies k))
  locals : ∀ c ∉ ks.map (s.sockets main).copies, t.locals c = s.locals c
  rest : t = { s with free := t.free, pending := t.pending, locals := t.locals }

theorem closeCopies_looped (main : Nat) (ks : List Nat) (posted : Nat) (s : State)
    (hnodup : (ks.map (s.sockets main).copies).Nodup)
    (hsocket : ∀ k ∈ ks, (s.locals ((s.sockets main).copies k)).hasSocket = true)
    (hposted : ks.countP (fun k => (s.locals ((s.sockets main).copies k)).isInit) ≤ posted)
    (hroom : s.free.items.length + ks.length ≤ fdRingCap) :
    ∃ t, closeCopies main ks posted s = (t, true) ∧ Looped main ks s t := by
  induction ks generalizing posted s with
  | nil => exact ⟨s, rfl, by simp, by simp, fun _ _ => rfl, rfl⟩
  | cons k ks ih =>
    obtain ⟨hnot, hnodup⟩ := nodup_cons.mp hnodup
    simp only [length_cons] at hroom
    have hfirst := hsocket k (mem_cons_self ..)
    have hothers := fun k' hk' => hsocket k' (mem_cons_of_mem k hk')
    cases hinit : (s.locals ((s.sockets main).copies k)).isInit with
    | false =>
      have hitems := items_putFree s.free (some ((s.sockets main).copies k)) (by omega)
      rw [countP_cons_of_neg (by simp [hinit])] at hposted
      obtain ⟨t, hloop, hlooped⟩ := ih posted
        { s with free := putFree s.free (some ((s.sockets main).copies k)) }
        hnodup hothers hposted
        (by simp only [hitems, length_append, length_singleton]; omega)
      refine ⟨t, ?_, ?_, ?_, ?_, ?_⟩
      · simp only [closeCopies, closeCopy, hinit, pointer, hfirst, Bool.not_false, if_true]
        exact hloop
      · rw [hlooped.free, hitems, filter_cons_of_pos (by simp [hinit])]
        simp
      · rw [hlooped.pending, filter_cons_of_neg (by simp [hinit])]
      · intro c hc
        exact hlooped.locals c fun hmem => hc (mem_cons_of_mem _ hmem)
      · rw [hlooped.rest]
    | true =>
      rw [countP_cons_of_pos (by exact hinit)] at hposted
      obtain ⟨posted, rfl⟩ : ∃ n, posted = n + 1 := ⟨posted - 1, by omega⟩
      obtain ⟨u, hu⟩ : ∃ u, u = setLocal (post s k (.close ((s.sockets main).copies k)))
        ((s.sockets main).copies k)
        { s.locals ((s.sockets main).copies k) with isInit := false } := ⟨_, rfl⟩
      have hsockets : u.sockets = s.sockets := by rw [hu]; rfl
      have hfree : u.free = s.free := by rw [hu]; rfl
      have hpending : u.pending = s.pending ++ [(k, .close ((s.sockets main).copies k))] := by
        rw [hu]
        rfl
      have hlocals : ∀ c, c ≠ (s.sockets main).copies k → u.locals c = s.locals c := by
        intro c hc
        rw [hu]
        exact update_of_ne hc ..
      -- the copies are different, so the rest of the loop does not see the update
      have hsame : ∀ k' ∈ ks, u.locals ((u.sockets main).copies k') =
          s.locals ((s.sockets main).copies k') := by
        intro k' hk'
        rw [hsockets]
        apply hlocals
        intro heq
        exact hnot (heq ▸ mem_map_of_mem hk')
      have hcount : ks.countP (fun k => (u.locals ((u.sockets main).copies k)).isInit) =
          ks.countP fun k => (s.locals ((s.sockets main).copies k)).isInit :=
        countP_congr fun k' hk' => by rw [hsame k' hk']
      have htold : ks.filter (fun k => (u.locals ((u.sockets main).copies k)).isInit) =
          ks.filter fun k => (s.locals ((s.sockets main).copies k)).isInit :=
        filter_congr fun k' hk' => by rw [hsame k' hk']
      have huntold : ks.filter (fun k => !(u.locals ((u.sockets main).copies k)).isInit) =
          ks.filter fun k => !(s.locals ((s.sockets main).copies k)).isInit :=
        filter_congr fun k' hk' => by rw [hsame k' hk']
      obtain ⟨t, hloop, hlooped⟩ := ih posted u (hsockets ▸ hnodup)
        (fun k' hk' => by rw [hsame k' hk']; exact hothers k' hk')
        (by omega) (by rw [hfree]; omega)
      refine ⟨t, ?_, ?_, ?_, ?_, ?_⟩
      · simp only [closeCopies, closeCopy, hinit, Bool.not_true, Bool.false_eq_true, if_false, ← hu]
        exact hloop
      · rw [hlooped.free, huntold, hfree, hsockets, filter_cons_of_neg (by simp [hinit])]
      · rw [hlooped.pending, htold, hpending, hsockets, filter_cons_of_pos (by exact hinit)]
        simp
      · intro c hc
        rw [map_cons, mem_cons, not_or] at hc
        rw [hlooped.locals c (hsockets ▸ hc.2)]
        exact hlocals c hc.1
      · rw [hlooped.rest, hu]
        rfl

namespace Partition

variable {s : State} {m posted : Nat}

def withoutFd (s : State) (m : Nat) : State :=
  { s with
    freeFds := s.freeFds + 1
    descriptors := s.descriptors.erase m
    mapped := update s.mapped m false }

theorem putBackLightFd_eq (h : Partition s) (hm : m ∈ s.descriptors) :
    putBackLightFd s m = .ok (withoutFd s m) :=
  if_pos ((h.mapped_iff m).mpr hm)

section

variable (h : Partition s) (hidle : s.call = .idle) (hm : m ∈ s.descriptors)

include h hidle hm

theorem lightClose_single (hsingle : (s.sockets m).isMulticore = false)
    (hposted : closesNeeded s m ≤ posted) : ∃ t, lightClose s m posted = .ok t ∧ Closes s t m := by
  have hbundle : bundle s m = [m] := by simp [bundle_of_idle hidle, hsingle]
  have hsocket := h.hasSocket m (h.descriptor_mem_owned hm)
  rw [closesNeeded, hbundle] at hposted
  cases hinit : (s.locals m).isInit with
  | false =>
    have hroom : s.free.items.length < fdRingCap := by
      have hroom := h.free_room
      have hpos := length_pos_of_mem (h.descriptor_mem_owned hm)
      omega
    have hitems := items_putFree s.free (some m) hroom
    simp only [lightClose, h.putBackLightFd_eq hm, withoutFd, hsingle, hinit, pointer,
      hsocket, bind, Except.bind, pure, Except.pure, Bool.not_false, if_true]
    refine ⟨_, rfl, ?_, ?_, ?_, rfl, rfl, rfl, rfl⟩
    · simp [hbundle, hinit, hitems]
    · simp [hbundle, hinit]
    · exact ⟨rfl, rfl, fun _ _ => rfl, fun _ _ => rfl, fun _ _ => rfl⟩
  | true =>
    obtain ⟨n, rfl⟩ : ∃ n, posted = n + 1 := by
      simp only [countP_cons, countP_nil, hinit, if_true] at hposted
      exact ⟨posted - 1, by omega⟩
    simp only [lightClose, h.putBackLightFd_eq hm, withoutFd, hsingle, hinit, setLocal,
      Conn.post, bind, Except.bind, pure, Except.pure, Bool.not_false, Bool.not_true,
      Bool.false_eq_true, if_true, if_false]
    refine ⟨_, rfl, ?_, ?_, ?_, rfl, rfl, rfl, rfl⟩
    · simp [hbundle, hinit]
    · simp [hbundle, hinit]
    · refine ⟨rfl, rfl, fun _ _ => rfl, fun c hc => ?_, fun c hc => ?_⟩
      · rw [hbundle, mem_singleton] at hc
        exact update_of_ne hc ..
      · rw [hbundle, mem_singleton] at hc
        rw [life_append rfl]
        simp [about, Ne.symm hc]

theorem lightClose_multicore (hmulti : (s.sockets m).isMulticore = true)
    (hposted : closesNeeded s m ≤ posted) : ∃ t, lightClose s m posted = .ok t ∧ Closes s t m := by
  have hbundle : bundle s m = (List.range s.numProcs).map (s.sockets m).copies := by
    rw [bundle_of_idle hidle, if_pos hmulti]
  have hown : ∀ c ∈ bundle s m, c ∈ owned s := fun c => mem_owned_of_descriptor hm
  obtain ⟨hfirst, hprocs⟩ := h.multicore m hm hmulti (inProgress_of_idle hidle m)
  have hperm := owned_perm_erase hidle hm
  have hnodup := (nodup_append.mp (hperm.nodup_iff.mp h.owned_nodup)).1
  have hroom : s.free.items.length + (List.range s.numProcs).length ≤ fdRingCap := by
    have hroom := h.free_room
    have hlength := hperm.length_eq
    rw [hbundle, length_append, length_map] at hlength
    omega
  obtain ⟨u, hloop, hlooped⟩ := closeCopies_looped m (List.range s.numProcs) posted
    (withoutFd s m) (hbundle ▸ hnodup)
    (fun k hk => h.hasSocket _ (hown _ (hbundle ▸ mem_map_of_mem hk)))
    (by rwa [closesNeeded, hbundle, countP_map] at hposted) hroom
  have hrest := hlooped.rest
  have hsockets : u.sockets = s.sockets := by rw [hrest]; rfl
  have hmulti' : ((withoutFd s m).sockets m).isMulticore = true := hmulti
  have hprocs' : (withoutFd s m).numProcs = s.numProcs := rfl
  have hpending : u.pending = s.pending ++ ((bundle s m).filter fun c => (s.locals c).isInit).map
        fun c => ((s.locals c).procId, .close c) := by
    rw [hlooped.pending, hbundle, filter_map, map_map]
    refine congrArg (s.pending ++ ·) (map_congr_left fun k hk => ?_)
    have hk := hprocs k (mem_range.mp (mem_of_mem_filter hk))
    simp only [Function.comp, hk]
    rfl
  have hother : ∀ c ∉ bundle s m, c ≠ m := by
    rintro c hc rfl
    exact hc (h.self_mem_bundle hm)
  refine ⟨setLocal (setSocket u m { u.sockets m with isMulticore := false }) m
    { u.locals m with procId := 0 }, ?_, ?_, hpending, ?_, ?_, ?_, ?_, ?_⟩
  · simp only [lightClose, h.putBackLightFd_eq hm, hmulti', hprocs', hloop, bind,
      Except.bind, pure, Except.pure, Bool.not_true, Bool.false_eq_true, if_false,
      if_true]
  · rw [hbundle, filter_map, map_map]
    exact hlooped.free
  · refine ⟨by rw [hrest]; rfl, by rw [hrest]; rfl, fun c hc => ?_, fun c hc => ?_, fun c hc => ?_⟩
    · rw [← hsockets]
      exact update_of_ne (hother c hc) ..
    · refine (update_of_ne (hother c hc) ..).trans ?_
      exact hlooped.locals c (hbundle ▸ hc)
    · have hlife : life u c = life s c := by
        rw [life_append hpending, filter_about_close _ _ (hnodup.filter _) c,
          if_neg fun hmem => hc (mem_of_mem_filter hmem), append_nil]
      exact hlife
  · exact congrArg State.descriptors hrest
  · exact congrArg State.mapped hrest
  · exact (congrArg State.call hrest).trans rfl
  · exact (congrArg State.fault hrest).trans rfl

theorem lightClose_closes (hposted : closesNeeded s m ≤ posted) :
    ∃ t, lightClose s m posted = .ok t ∧ Closes s t m := by
  cases hmulti : (s.sockets m).isMulticore with
  | false => exact h.lightClose_single hidle hm hmulti hposted
  | true => exact h.lightClose_multicore hidle hm hmulti hposted

end

end Partition

end LightStack.Conn
