import LightStack.Conn.Partition

/-!
# Every connection index has one place

The last index of the pool never enters the ring, which has room for one entry less.
-/

namespace LightStack.Conn

open Lib Function List
open Fd (connectionPoolSize trueFdNum fdRingCap)

variable {t u : State} {extra : List Nat} {new : List (Nat × Command)} {c : Nat} {a : Action}

namespace Partition

variable {s : State} {m : Nat}

/-! ## Binding -/

def Kept (s t : State) (c : Nat) : Prop :=
  (t.locals c).hasSocket = (s.locals c).hasSocket ∧
    (t.locals c = s.locals c ∨
      (s.locals c).isInit = false ∧
        ((t.locals c).isInit = true → s.kernel c = true))

structure Binds (s t : State) (extra : List Nat) (new : List (Nat × Command)) :
    Prop where
  free : s.free.items = extra.map some ++ t.free.items
  owned : (owned t).Perm (owned s ++ extra)
  pending : t.pending = s.pending ++ new
  asks : ∀ x ∈ new, asks x.2 = true
  kept : ∀ c ∈ Conn.owned s, Kept s t c
  extra : ∀ c ∈ extra, (t.locals c).hasSocket = true ∧ (t.locals c).isInit = false
  opened : ∀ main c i, s.call = .waitOpen main c i → (t.locals c).isInit = true
  numProcs : t.numProcs = s.numProcs
  kernel : t.kernel = s.kernel
  descriptors : t.descriptors = s.descriptors
  mapped : t.mapped = s.mapped
  fault : t.fault = s.fault

theorem Binds.releases_eq (hbinds : Binds s t extra new) : releases t = releases s := by
  rw [releases_append hbinds.pending, filterMap_eq_nil_iff.mpr, append_nil]
  intro x hx
  have hasks := hbinds.asks x hx
  cases hcmd : x.2 <;> simp_all [Conn.asks, release]

theorem Binds.trans {new' : List (Nat × Command)} (h : Partition s) (hst : Binds s t [] new)
    (htu : Binds t u extra new') : Binds s u extra (new ++ new') := by
  have howned : ∀ c ∈ Conn.owned s, c ∈ Conn.owned t := fun c hc =>
    hst.owned.mem_iff.mpr (mem_append_left _ hc)
  refine
    { free := ?_
      owned := ?_
      pending := by rw [htu.pending, hst.pending, append_assoc]
      asks := ?_
      kept := ?_
      extra := htu.extra
      opened := ?_
      numProcs := htu.numProcs.trans hst.numProcs
      kernel := htu.kernel.trans hst.kernel
      descriptors := htu.descriptors.trans hst.descriptors
      mapped := htu.mapped.trans hst.mapped
      fault := htu.fault.trans hst.fault }
  · exact hst.free.trans htu.free
  · have hsame := hst.owned
    rw [append_nil] at hsame
    exact htu.owned.trans (hsame.append_right extra)
  · intro x hx
    rcases mem_append.mp hx with hx | hx
    · exact hst.asks x hx
    · exact htu.asks x hx
  · intro c hc
    obtain ⟨hsocket, hfirst⟩ := hst.kept c hc
    obtain ⟨hsocket', hnext⟩ := htu.kept c (howned c hc)
    refine ⟨hsocket'.trans hsocket, ?_⟩
    rcases hfirst with hsame | ⟨hinit, hknown⟩
    · rw [hsame, hst.kernel] at hnext
      exact hnext
    · refine .inr ⟨hinit, fun hinit' => ?_⟩
      rcases hnext with hsame | ⟨-, hknown'⟩
      · exact hknown (hsame ▸ hinit')
      · exact hst.kernel ▸ hknown' hinit'
  · intro main c i hcall
    have hinit := hst.opened main c i hcall
    rcases (htu.kept c (howned c (h.current_mem_owned hcall))).2 with hsame | ⟨hinit', -⟩
    · rw [hsame]
      exact hinit
    · rw [hinit] at hinit'
      cases hinit'

theorem of_binds (h : Partition s) (hbinds : Binds s t extra new)
    (hshaped : ∀ m ∈ t.descriptors, Shaped t m) (hawaits : Awaits t) : Partition t := by
  have hlife : ∀ c, life t c = life s c := by
    intro c
    rw [life_append hbinds.pending, filter_eq_nil_iff.mpr, append_nil]
    intro x hx habout
    have hasks := hbinds.asks x hx
    rcases of_decide_eq_true habout with heq | heq <;> rw [heq] at hasks <;> cases hasks
  have hreleases := hbinds.releases_eq
  refine of_settled (hbinds.fault.trans h.fault) (hbinds.numProcs ▸ h.numProcs_pos) ?_ ?_
    (fun c => ?_) (h.no_shutdown_append hbinds.pending ?_) hshaped hawaits
  · refine List.Perm.trans ?_ h.perm
    rw [perm_iff_count]
    intro x
    have hcount := (hbinds.owned.map some).count_eq x
    simp only [everywhere, hreleases, hbinds.free, map_append, count_append] at hcount ⊢
    omega
  · rw [hbinds.mapped, hbinds.descriptors]
    exact h.mapped_iff
  · have hmem := hbinds.owned.mem_iff (a := c)
    rw [mem_append] at hmem
    have hleaving : c ∈ releases t → Leaving t c := by
      rw [hreleases, Leaving, hlife, hbinds.kernel]
      exact h.leaving c
    by_cases hold : c ∈ owned s
    · obtain ⟨hsocket, hsame | ⟨hinit, hknown⟩⟩ := hbinds.kept c hold
      · exact h.settled_of_same (by simp [hmem, hold]) (by rw [hreleases]) (hlife c) hsame
          fun hc => hbinds.kernel ▸ hc
      · have hnil := (hlife c).trans (h.life_of_uninit hold hinit)
        exact ⟨fun _ => hsocket ▸ h.hasSocket c hold, fun hne => absurd hnil hne,
          fun _ hinit' => .inl ⟨hnil, hbinds.kernel ▸ hknown hinit'⟩, hleaving⟩
    · refine ⟨fun hc => ?_, fun hne => ?_, fun hc hinit => ?_, hleaving⟩
      · exact (hbinds.extra c ((hmem.mp hc).resolve_left hold)).1
      · rw [hreleases]
        exact (h.quiet c (hlife c ▸ hne)).imp_right fun hown => absurd hown.1 hold
      · rw [(hbinds.extra c ((hmem.mp hc).resolve_left hold)).2] at hinit
        cases hinit
  · intro x hx c heq
    have hasks := hbinds.asks x hx
    rw [heq] at hasks
    cases hasks

theorem lightBind (h : Partition s) (hidle : s.call = .idle) (hm : m ∈ s.descriptors)
    (hinit : (s.locals m).isInit = false) :
    Binds s (lightBind s m .posted) [] [(0, .openSocket m)] ∧
      Partition (lightBind s m .posted) := by
  obtain ⟨t, ht⟩ : ∃ t, t = Conn.lightBind s m .posted := ⟨_, rfl⟩
  rw [← ht]
  have hsingle := h.single m hm hinit (inProgress_of_idle hidle m)
  have hcall : t.call = .waitOpen m m 0 := by rw [ht]; rfl
  have hpending : t.pending = s.pending ++ [(0, .openSocket m)] := by rw [ht]; rfl
  have hsockets : ∀ c, c ≠ m → t.sockets c = s.sockets c := by
    intro c hc
    rw [ht]
    exact update_of_ne hc ..
  have hlocals : ∀ c, c ≠ m → t.locals c = s.locals c := by
    intro c hc
    rw [ht]
    exact update_of_ne hc ..
  have hsocket : t.sockets m = ⟨true, update (s.sockets m).copies 0 m⟩ := by
    rw [ht]
    exact update_self ..
  have hlocal : t.locals m = { s.locals m with procId := 0 } := by
    rw [ht]
    exact update_self ..
  obtain ⟨hnum, hfree, hdescriptors, hmapped, hkernel, hfault, hreply⟩ :
      t.numProcs = s.numProcs ∧ t.free = s.free ∧ t.descriptors = s.descriptors ∧
        t.mapped = s.mapped ∧ t.kernel = s.kernel ∧ t.fault = s.fault ∧
        t.reply = none := by
    rw [ht]
    exact ⟨rfl, rfl, rfl, rfl, rfl, rfl, rfl⟩
  have hprogress : ∀ m', inProgress t m' = decide (m' = m) := by
    intro m'
    simp only [inProgress, hcall]
  have hbundle : ∀ m' ∈ s.descriptors, bundle t m' = bundle s m' := by
    intro m' _
    rw [bundle_eq, bundle_of_idle hidle, hprogress]
    by_cases hmm : m' = m
    · simp [hmm, hsingle]
    · simp [hmm, hsockets m' hmm, hnum]
  have howned : owned t = owned s := by
    rw [owned_of_idle hidle, owned, hdescriptors, flatMap_congr hbundle]
    simp [inFlight, hcall]
  have hkept : ∀ c ∈ owned s, Kept s t c := by
    intro c _
    by_cases hc : c = m
    · subst hc
      refine ⟨by rw [hlocal], .inr ⟨hinit, fun htrue => ?_⟩⟩
      rw [hlocal, hinit] at htrue
      cases htrue
    · exact ⟨by rw [hlocals c hc], .inl (hlocals c hc)⟩
  have hbinds : Binds s t [] [(0, .openSocket m)] :=
    { free := by rw [hfree]; rfl
      owned := by rw [howned, append_nil]
      pending := hpending
      asks := by simp [asks]
      kept := hkept
      extra := by simp
      opened := by simp [hidle]
      numProcs := hnum
      kernel := hkernel
      descriptors := hdescriptors
      mapped := hmapped
      fault := hfault }
  refine ⟨hbinds, h.of_binds hbinds (fun m' hm' => ?_) ?_⟩
  · rw [hdescriptors] at hm'
    by_cases hmm : m' = m
    · subst hmm
      exact ⟨by simp [hprogress], by simp [hprogress], by simp [hlocal, hinit]⟩
    · refine h.shaped_of_same hm' hnum ?_ (hsockets m' hmm) fun c hc => hlocals c ?_
      · simp [hprogress, hmm, inProgress_of_idle hidle]
      · rintro rfl
        exact h.bundle_disjoint hm hm' hmm hc (h.self_mem_bundle hm)
  · have hquestions : questions t = [(0, .openSocket m)] := by
      rw [questions_append hpending, h.questions_of_idle hidle]
      simp [asks]
    simp only [Awaits, hcall, hsocket, hlocal, hinit, hdescriptors, hnum]
    refine ⟨⟨hm, h.numProcs_pos, trivial, update_self .., trivial, ?_, trivial,
      fun _ => trivial, fun hne => absurd rfl hne⟩, .inl ⟨hreply, hquestions⟩⟩
    omega

structure Registered (s u : State) (main current i : Nat) : Prop where
  rest : u = { s with sockets := u.sockets, locals := u.locals }
  sockets : ∀ c, c ≠ main → c ≠ current → u.sockets c = s.sockets c
  locals : ∀ c, c ≠ current → u.locals c = s.locals c
  opened : u.locals current = ⟨(s.locals current).hasSocket, true, i⟩
  multicore : (u.sockets main).isMulticore = true
  copies : ∀ j, (u.sockets main).copies j =
    if j = i then current else (s.sockets main).copies j

section Opening

variable {main current i : Nat}

theorem opening (h : Partition s) (hcall : s.call = .waitOpen main current i) :
    main ∈ s.descriptors ∧ i < s.numProcs ∧ (s.sockets main).isMulticore = true ∧
      (s.sockets main).copies 0 = main ∧ (s.locals main).procId = 0 ∧
      (∀ j, 1 ≤ j → j < i → (s.locals ((s.sockets main).copies j)).procId = j) ∧
      (s.locals current).isInit = false ∧ (i = 0 → current = main) ∧
      (i ≠ 0 → (s.locals main).isInit = true) := by
  have hawaits := h.awaits
  simp only [Awaits, hcall] at hawaits
  exact hawaits.1

theorem answered (h : Partition s) (hcall : s.call = .waitOpen main current i)
    {success : Bool} (hreply : s.reply = some success) :
    success = true ∧ questions s = [] ∧ s.kernel current = true := by
  have hawaits := h.awaits
  simp only [Awaits, hcall, hreply] at hawaits
  rcases hawaits.2 with ⟨hnone, -⟩ | ⟨hsome, hrest⟩
  · cases hnone
  · exact ⟨by simpa using hsome, hrest⟩

theorem inProgress_main (hcall : s.call = .waitOpen main current i) : inProgress s main = true := by
  simp [inProgress, hcall]

theorem not_mem_bundle_of_inFlight (h : Partition s) {m : Nat} (hc : c ∈ inFlight s)
    (hm : m ∈ s.descriptors) : c ∉ bundle s m := by
  have hnodup := h.owned_nodup
  rw [owned, nodup_append] at hnodup
  intro hc'
  exact hnodup.2.2 c (mem_flatMap.mpr ⟨m, hm, hc'⟩) c hc rfl

theorem current_mem_inFlight (hcall : s.call = .waitOpen main current i) (hi : i ≠ 0) :
    current ∈ inFlight s := by
  simp [inFlight, hcall, hi]

theorem current_ne_main (h : Partition s) (hcall : s.call = .waitOpen main current i)
    (hi : i ≠ 0) : current ≠ main := by
  have hmain := (h.opening hcall).1
  rintro rfl
  exact h.not_mem_bundle_of_inFlight (current_mem_inFlight hcall hi) hmain (h.self_mem_bundle hmain)

theorem registered (h : Partition s) (hcall : s.call = .waitOpen main current i) : Registered s
      (if i = 0 then setLocal s current { s.locals current with isInit := true }
        else register (setLocal s current { s.locals current with isInit := true })
          main current i) main current i := by
  obtain ⟨-, -, hmulti, hfirst, hproc, -, -, hcurrent, -⟩ := h.opening hcall
  by_cases hi : i = 0
  · obtain rfl := hcurrent hi
    subst hi
    rw [if_pos rfl]
    refine ⟨rfl, fun _ _ _ => rfl, fun c hc => ?_, ?_, hmulti, fun j => ?_⟩
    · exact update_of_ne hc ..
    · refine (update_self ..).trans ?_
      rw [hproc]
    · by_cases hj : j = 0
      · simp [hj, setLocal, hfirst]
      · simp [hj, setLocal]
  · have hne := h.current_ne_main hcall hi
    rw [if_neg hi]
    refine ⟨rfl, fun c hm hc => ?_, fun c hc => ?_, ?_, ?_, fun j => ?_⟩
    · simp [register, setSocket, setLocal, hm, hc]
    · simp [register, setSocket, setLocal, hc]
    · simp [register, setSocket, setLocal]
    · simp [register, setSocket, setLocal, hne.symm, hmulti]
    · by_cases hj : j = i
      · simp [register, setSocket, setLocal, hne.symm, hj]
      · simp [register, setSocket, setLocal, hne.symm, hj]

theorem inFlight_eq_copies (hcall : s.call = .waitOpen main current i)
    (hreg : Registered s u main current i) :
    inFlight s = (List.range' 1 i).map (u.sockets main).copies := by
  have hbefore : ∀ k ≤ i, (List.range' 1 (k - 1)).map (s.sockets main).copies =
      (List.range' 1 (k - 1)).map (u.sockets main).copies := by
    intro k hk
    refine map_congr_left fun j hj => ?_
    have hrange := mem_range'_1.mp hj
    have hji : j ≠ i := by omega
    rw [hreg.copies, if_neg hji]
  simp only [inFlight, hcall]
  cases i with
  | zero => simp
  | succ n =>
    have hlast : (u.sockets main).copies (n + 1) = current := by rw [hreg.copies, if_pos rfl]
    have hrange : List.range' 1 (n + 1) = List.range' 1 n ++ [n + 1] := by
      rw [List.range'_concat]
      simp [Nat.add_comm]
    rw [hbefore _ (Nat.le_refl _), hrange, map_append, map_singleton, hlast]
    simp

section

variable (h : Partition s) (hcall : s.call = .waitOpen main current i)

include h hcall

theorem untouched {m : Nat} (hm : m ∈ s.descriptors) (hne : m ≠ main) (hc : c ∈ bundle s m) :
    c ≠ main ∧ c ≠ current := by
  obtain ⟨hmain, -, -, -, -, -, -, hcurrent, -⟩ := h.opening hcall
  have hcmain : c ≠ main := by
    rintro rfl
    exact h.bundle_disjoint hmain hm hne hc (h.self_mem_bundle hmain)
  refine ⟨hcmain, ?_⟩
  by_cases hi : i = 0
  · rw [hcurrent hi]
    exact hcmain
  · rintro rfl
    exact h.not_mem_bundle_of_inFlight (current_mem_inFlight hcall hi) hm hc

section

variable (hreg : Registered s u main current i)

include hreg

theorem procId_copies {j : Nat} (hj : j ≤ i) :
    (u.locals ((u.sockets main).copies j)).procId = j := by
  obtain ⟨hmain, -, -, hfirst, hproc, hprocs, -, hcurrent, -⟩ := h.opening hcall
  rw [hreg.copies]
  by_cases hji : j = i
  · rw [if_pos hji, hreg.opened, hji]
  · rw [if_neg hji]
    have hi : i ≠ 0 := by omega
    by_cases hj0 : j = 0
    · rw [hj0, hfirst, hreg.locals main (h.current_ne_main hcall hi).symm, hproc]
    · have hne : (s.sockets main).copies j ≠ current := by
        have hnodup := h.owned_nodup
        rw [owned, nodup_append] at hnodup
        have hflight := hnodup.2.1
        simp only [inFlight, hcall, if_neg hi] at hflight
        have hdisjoint := (nodup_append.mp hflight).2.2
        refine hdisjoint _ (mem_map_of_mem ?_) current (mem_singleton.mpr rfl)
        rw [mem_range'_1]
        omega
      rw [hreg.locals _ hne]
      exact hprocs j (by omega) (by omega)

theorem copies_zero : (u.sockets main).copies 0 = main ∧ (u.locals main).procId = 0 := by
  obtain ⟨-, -, -, hfirst, -, -, -, hcurrent, -⟩ := h.opening hcall
  have hzero : (u.sockets main).copies 0 = main := by
    rw [hreg.copies]
    split
    · rename_i hi
      exact hcurrent hi.symm
    · exact hfirst
  have hproc := h.procId_copies hcall hreg (Nat.zero_le i)
  rw [hzero] at hproc
  exact ⟨hzero, hproc⟩

theorem main_registered : (u.locals main).isInit = true := by
  obtain ⟨-, -, -, -, -, -, -, hcurrent, hinit⟩ := h.opening hcall
  by_cases hi : i = 0
  · rw [← hcurrent hi, hreg.opened]
  · rw [hreg.locals main (h.current_ne_main hcall hi).symm]
    exact hinit hi

theorem kept_registered (hknown : s.kernel current = true) (c : Nat) : Kept s u c := by
  obtain ⟨-, -, -, -, -, -, hinit, -, -⟩ := h.opening hcall
  by_cases hc : c = current
  · subst hc
    exact ⟨by rw [hreg.opened], .inr ⟨hinit, fun _ => hknown⟩⟩
  · exact ⟨by rw [hreg.locals c hc], .inl (hreg.locals c hc)⟩

theorem sockets_registered {m : Nat} (hm : m ∈ s.descriptors) (hne : m ≠ main)
    (hc : c ∈ bundle s m) : u.sockets c = s.sockets c ∧ u.locals c = s.locals c := by
  obtain ⟨hmain, hcurrent⟩ := h.untouched hcall hm hne hc
  exact ⟨hreg.sockets c hmain hcurrent, hreg.locals c hcurrent⟩

end

end

structure TakesNext (u t : State) (main c i : Nat) : Prop where
  free : u.free.items = some c :: t.free.items
  sockets : ∀ c', c' ≠ c → t.sockets c' = u.sockets c'
  locals : ∀ c', c' ≠ c → t.locals c' = u.locals c'
  taken : t.locals c = { u.locals c with hasSocket := true, isInit := false }
  pending : t.pending = u.pending ++ [(i + 1, .openSocket c)]
  call : t.call = .waitOpen main c (i + 1)
  reply : t.reply = none
  numProcs : t.numProcs = u.numProcs
  descriptors : t.descriptors = u.descriptors
  mapped : t.mapped = u.mapped
  kernel : t.kernel = u.kernel
  fault : t.fault = u.fault

section

variable (h : Partition s) (hcall : s.call = .waitOpen main current i)
  (hreg : Registered s u main current i)

include h hcall hreg

theorem of_takesNext (htakes : TakesNext u t main c i) (hquestions : questions s = [])
    (hknown : s.kernel current = true) (hmore : i + 1 < s.numProcs) :
    Binds s t [c] [(i + 1, .openSocket c)] ∧ Partition t := by
  obtain ⟨hmain, -⟩ := h.opening hcall
  have hrest := hreg.rest
  have hitems : s.free.items = some c :: t.free.items := by rw [← htakes.free, hrest]
  have hcall' := htakes.call
  have hsockets := htakes.sockets
  have hlocals := htakes.locals
  have hnum : t.numProcs = s.numProcs := by rw [htakes.numProcs, hrest]
  have hdescriptors : t.descriptors = s.descriptors := by rw [htakes.descriptors, hrest]
  have hpending : t.pending = s.pending ++ [(i + 1, .openSocket c)] := by rw [htakes.pending, hrest]
  have hnew : c ∉ owned s := h.not_owned_of_free (by simp [hitems])
  have hout : ∀ {c'}, c' ∈ owned s → c' ≠ c := by
    rintro c' hc' rfl
    exact hnew hc'
  have hmainc : main ≠ c := hout (h.descriptor_mem_owned hmain)
  have hprogress : ∀ m, inProgress t m = inProgress s m := by
    intro m
    simp only [inProgress, hcall, hcall']
  have hbundle : ∀ m ∈ s.descriptors, bundle t m = bundle s m := by
    intro m hm
    rw [bundle_eq, bundle_eq, hprogress, hnum]
    by_cases hmm : m = main
    · simp [hmm, inProgress_main hcall]
    · rw [hsockets m (hout (h.descriptor_mem_owned hm)),
        (h.sockets_registered hcall hreg hm hmm (h.self_mem_bundle hm)).1]
  have howned : owned t = owned s ++ [c] := by
    rw [owned, hdescriptors, flatMap_congr hbundle, owned, inFlight_eq_copies hcall hreg]
    simp [inFlight, hcall', hsockets main hmainc]
  have hother : ∀ {m c'}, m ∈ s.descriptors → m ≠ main → c' ∈ bundle s m →
      t.sockets c' = s.sockets c' ∧ t.locals c' = s.locals c' := by
    intro m c' hm hmm hc'
    have hne := hout (mem_owned_of_descriptor hm hc')
    obtain ⟨hsock, hloc⟩ := h.sockets_registered hcall hreg hm hmm hc'
    exact ⟨(hsockets c' hne).trans hsock, (hlocals c' hne).trans hloc⟩
  have hopened : ∀ main' c' i', s.call = .waitOpen main' c' i' → (t.locals c').isInit = true := by
    intro main' c' i' hcall''
    rw [hcall] at hcall''
    obtain ⟨rfl, rfl, rfl⟩ := Call.waitOpen.inj hcall''
    rw [hlocals current (hout (h.current_mem_owned hcall)), hreg.opened]
  have hbinds : Binds s t [c] [(i + 1, .openSocket c)] :=
    { free := hitems
      owned := by rw [howned]
      pending := hpending
      asks := by simp [asks]
      kept := fun c' hc' => by
        have hkept := h.kept_registered hcall hreg hknown c'
        rwa [Kept, hlocals c' (hout hc')]
      extra := fun c' hc' => by
        rw [mem_singleton.mp hc', htakes.taken]
        exact ⟨rfl, rfl⟩
      opened := hopened
      numProcs := hnum
      kernel := by rw [htakes.kernel, hrest]
      descriptors := hdescriptors
      mapped := by rw [htakes.mapped, hrest]
      fault := by rw [htakes.fault, hrest] }
  obtain ⟨hzero, hproc⟩ := h.copies_zero hcall hreg
  refine ⟨hbinds, h.of_binds hbinds (fun m hm => ?_) ?_⟩
  · rw [hdescriptors] at hm
    by_cases hmm : m = main
    · subst hmm
      refine ⟨by simp [hprogress, inProgress_main hcall],
        by simp [hprogress, inProgress_main hcall], fun _ => ?_⟩
      rw [hlocals m hmainc, hsockets m hmainc, hproc, hzero]
    · exact h.shaped_of_same hm hnum (hprogress m) (hother hm hmm (h.self_mem_bundle hm)).1
        fun c' hc' => (hother hm hmm hc').2
  · have hquestions' : questions t = [(i + 1, .openSocket c)] := by
      rw [questions_append hpending, hquestions]
      simp [asks]
    simp only [Awaits, hcall', hdescriptors, hnum, hsockets main hmainc,
      hlocals main hmainc, htakes.taken, hreg.multicore]
    refine ⟨⟨hmain, hmore, trivial, hzero, hproc, fun j _ hj => ?_, trivial, ?_,
      fun _ => h.main_registered hcall hreg⟩, .inl ⟨htakes.reply, hquestions'⟩⟩
    · have hj' : j ≤ i := Nat.le_of_lt_succ hj
      have hne : (u.sockets main).copies j ≠ c := by
        apply hout
        by_cases hj0 : j = 0
        · rw [hj0, hzero]
          exact h.descriptor_mem_owned hmain
        · refine mem_append_right _ ?_
          rw [inFlight_eq_copies hcall hreg]
          exact mem_map_of_mem (mem_range'_1.mpr ⟨by omega, by omega⟩)
      rw [hlocals _ hne]
      exact h.procId_copies hcall hreg hj'
    · omega

theorem bindMore (hquestions : questions s = []) (hknown : s.kernel current = true)
    (hmore : i + 1 < s.numProcs) (hfree : s.free.items ≠ []) :
    ∃ c v t, lightGetSocket u = .ok (some (c, v)) ∧
      t = { (lightSocketInit v c (i + 1) .posted).1 with
        call := .waitOpen main c (i + 1) } ∧
      Binds s t [c] [(i + 1, .openSocket c)] ∧ Partition t := by
  obtain ⟨c, ring, hdequeue, hitems⟩ := h.dequeue_free hfree
  have hufree : u.free = s.free := by rw [hreg.rest]
  have hdequeue' : u.free.dequeue = some (some c, ring) := by rw [hufree, hdequeue]
  simp only [lightGetSocket, hdequeue']
  refine ⟨c, _, _, rfl, rfl, h.of_takesNext (c := c) hcall hreg ?_ hquestions hknown hmore⟩
  exact ⟨hufree ▸ hitems, fun _ hc => update_of_ne hc ..,
    fun _ hc => update_of_ne hc .., update_self .., rfl, rfl, rfl,
    rfl, rfl, rfl, rfl, rfl⟩

end

theorem spread_other (hcall : s.call = .waitOpen main current i)
    (hreg : Registered s u main current i) (hlast : i + 1 = s.numProcs) (hc : c ∉ inFlight s) :
    (spread u main).sockets c = u.sockets c := by
  have hnum : u.numProcs = s.numProcs := by rw [hreg.rest]
  have hi : s.numProcs - 1 = i := by omega
  simp only [spread]
  rw [hnum, hi, ← inFlight_eq_copies hcall hreg, if_neg hc]

theorem bindAll (h : Partition s) (hcall : s.call = .waitOpen main current i)
    (hreg : Registered s u main current i) (hquestions : questions s = [])
    (hknown : s.kernel current = true) (hlast : i + 1 = s.numProcs) :
    Binds s { spread u main with call := .idle } [] [] ∧
      Partition { spread u main with call := .idle } := by
  obtain ⟨t, ht⟩ : ∃ t, t = ({ spread u main with call := .idle } : State) := ⟨_, rfl⟩
  rw [← ht]
  obtain ⟨hmain, -⟩ := h.opening hcall
  have hrest := hreg.rest
  have hidle : t.call = .idle := by rw [ht]
  have hlocals : t.locals = u.locals := by rw [ht]; rfl
  have hsockets : ∀ c ∉ inFlight s, t.sockets c = u.sockets c := by
    intro c hc
    rw [ht]
    exact spread_other hcall hreg hlast hc
  obtain ⟨hnum, hfree, hdescriptors, hmapped, hkernel, hfault, hpending⟩ :
      t.numProcs = s.numProcs ∧ t.free = s.free ∧ t.descriptors = s.descriptors ∧
        t.mapped = s.mapped ∧ t.kernel = s.kernel ∧ t.fault = s.fault ∧
        t.pending = s.pending := by
    rw [ht, hrest]
    exact ⟨rfl, rfl, rfl, rfl, rfl, rfl, rfl⟩
  have hdescriptor : ∀ m ∈ s.descriptors, m ∉ inFlight s := fun m hm hmem =>
    h.not_mem_bundle_of_inFlight hmem hm (h.self_mem_bundle hm)
  have hother : ∀ {m}, m ∈ s.descriptors → m ≠ main → t.sockets m = s.sockets m :=
    fun hm hmm => (hsockets _ (hdescriptor _ hm)).trans
      (h.sockets_registered hcall hreg hm hmm (h.self_mem_bundle hm)).1
  have hmulti : (t.sockets main).isMulticore = true := by
    rw [hsockets main (hdescriptor main hmain)]
    exact hreg.multicore
  have hcopies : (t.sockets main).copies = (u.sockets main).copies := by
    rw [hsockets main (hdescriptor main hmain)]
  obtain ⟨hzero, hproc⟩ := h.copies_zero hcall hreg
  have hbundle : bundle t main = main :: inFlight s := by
    have hrange : List.range s.numProcs = 0 :: List.range' 1 i := by
      rw [← hlast, range_eq_range', List.range'_succ]
    rw [bundle_of_idle hidle, if_pos hmulti, hcopies, hnum, hrange, map_cons, hzero,
      inFlight_eq_copies hcall hreg]
  have hothers : ∀ m ∈ s.descriptors.erase main, bundle t m = bundle s m := by
    intro m hm
    obtain ⟨hmm, hm⟩ := h.descriptors_nodup.mem_erase_iff.mp hm
    have hprogress : inProgress s m = false := by simp [inProgress, hcall, hmm]
    rw [bundle_of_idle hidle, bundle_eq, hprogress, hother hm hmm, hnum]
    simp
  have howned : (owned t).Perm (owned s) := by
    have hperm := perm_cons_erase hmain
    have ht' := hperm.flatMap_right (bundle t)
    have hs' := (hperm.flatMap_right (bundle s)).append_right (inFlight s)
    have hmain' : bundle s main = [main] := by simp [bundle_eq, inProgress_main hcall]
    rw [flatMap_cons, hbundle, flatMap_congr hothers] at ht'
    rw [flatMap_cons, hmain'] at hs'
    rw [owned_of_idle hidle, hdescriptors]
    refine ht'.trans (List.Perm.trans ?_ hs'.symm)
    exact perm_append_comm.cons main
  have hopened : ∀ main' c' i', s.call = .waitOpen main' c' i' → (t.locals c').isInit = true := by
    intro main' c' i' hcall'
    rw [hcall] at hcall'
    obtain ⟨rfl, rfl, rfl⟩ := Call.waitOpen.inj hcall'
    rw [hlocals, hreg.opened]
  have hbinds : Binds s t [] [] :=
    { free := by rw [hfree]; rfl
      owned := by rwa [append_nil]
      pending := by rw [hpending, append_nil]
      asks := by simp
      kept := fun c _ => by
        have hkept := h.kept_registered hcall hreg hknown c
        rwa [Kept, hlocals]
      extra := by simp
      opened := hopened
      numProcs := hnum
      kernel := hkernel
      descriptors := hdescriptors
      mapped := hmapped
      fault := hfault }
  refine ⟨hbinds, h.of_binds hbinds (fun m hm => ?_) ?_⟩
  · rw [hdescriptors] at hm
    by_cases hmm : m = main
    · subst hmm
      refine ⟨?_, fun _ _ => ?_, fun _ => ?_⟩
      · simp [hlocals, h.main_registered hcall hreg]
      · rw [hcopies, hlocals, hnum]
        exact ⟨hzero, fun k hk => h.procId_copies hcall hreg (by omega)⟩
      · rw [hcopies, hlocals, hproc, hzero]
    · refine h.shaped_of_same hm hnum ?_ (hother hm hmm) fun c hc => ?_
      · simp [inProgress, hcall, hidle, hmm]
      · rw [hlocals]
        exact (h.sockets_registered hcall hreg hm hmm hc).2
  · simp only [Awaits, hidle]
    rw [questions, hpending]
    exact hquestions

end Opening

section

variable (h : Partition s)

include h

theorem of_recall (hcall : ∀ main current i, s.call ≠ .waitOpen main current i)
    (hcall' : ∀ main current i, t.call ≠ .waitOpen main current i)
    (hrest : t = { s with call := t.call, reply := t.reply, pending := t.pending })
    (hpending : t.pending = s.pending ++ new) (hasks : ∀ x ∈ new, asks x.2 = true)
    (hawaits : Awaits t) : Binds s t [] new ∧ Partition t := by
  have hprogress : ∀ m, inProgress s m = false := by
    intro m
    unfold inProgress
    split
    · rename_i hwait
      exact absurd hwait (hcall _ _ _)
    · rfl
  have hprogress' : ∀ m, inProgress t m = false := by
    intro m
    unfold inProgress
    split
    · rename_i hwait
      exact absurd hwait (hcall' _ _ _)
    · rfl
  have hflight : inFlight t = inFlight s := by
    unfold inFlight
    cases hs : s.call with
    | waitOpen main current i => exact absurd hs (hcall _ _ _)
    | idle | waitBind main i =>
      cases ht : t.call with
      | waitOpen main current i => exact absurd ht (hcall' _ _ _)
      | idle | waitBind main i => rfl
  have hsockets : t.sockets = s.sockets := by rw [hrest]
  have hlocals : t.locals = s.locals := by rw [hrest]
  have hnum : t.numProcs = s.numProcs := by rw [hrest]
  have hdescriptors : t.descriptors = s.descriptors := by rw [hrest]
  have hbundle : bundle t = bundle s := by
    funext m
    rw [bundle_eq, bundle_eq, hprogress, hprogress', hsockets, hnum]
  have hbinds : Binds s t [] new :=
    { free := by rw [hrest]; rfl
      owned := by rw [owned, owned, hbundle, hflight, hdescriptors, append_nil]
      pending := hpending
      asks := hasks
      kept := fun c _ => ⟨by rw [hlocals], .inl (by rw [hlocals])⟩
      extra := by simp
      opened := fun main c i hwait => absurd hwait (hcall main c i)
      numProcs := hnum
      kernel := by rw [hrest]
      descriptors := hdescriptors
      mapped := by rw [hrest]
      fault := by rw [hrest] }
  refine ⟨hbinds, h.of_binds hbinds (fun m hm => ?_) hawaits⟩
  exact h.shaped_of_same (hdescriptors ▸ hm) hnum (by rw [hprogress, hprogress'])
    (congrFun hsockets m) fun c _ => congrFun hlocals c

theorem lightBindCopy (hidle : s.call = .idle) (main i : Nat) (alloc : Alloc) :
    ∃ new, Binds s (lightBindCopy s main i alloc) [] new ∧
      Partition (lightBindCopy s main i alloc) := by
  have hquestions := h.questions_of_idle hidle
  have hsame : Binds s { s with call := .idle } [] [] ∧ Partition { s with call := .idle } :=
    h.of_recall (by simp [hidle]) (by simp) rfl (append_nil _).symm (by simp) hquestions
  cases alloc with
  | posted =>
    refine ⟨_, h.of_recall (by simp [hidle]) (by simp [Conn.lightBindCopy]) rfl rfl ?_ ?_⟩
    · simp [asks]
    · refine .inl ⟨rfl, (s.sockets main).copies i, ?_⟩
      refine (questions_append rfl).trans ?_
      rw [hquestions]
      simp [asks]
  | noCommand | noReturnValue | notQueued => exact ⟨_, hsame⟩

theorem bound {main i : Nat} (hcall : s.call = .waitBind main i) (hreply : s.reply.isSome = true) :
    Binds s { s with call := .idle } [] [] ∧ Partition { s with call := .idle } := by
  have hquestions : questions s = [] := by
    have hawaits := h.awaits
    simp only [Awaits, hcall] at hawaits
    rcases hawaits with ⟨hnone, -⟩ | ⟨-, hquestions⟩
    · rw [hnone] at hreply
      cases hreply
    · exact hquestions
  exact h.of_recall (by simp [hcall]) (by simp) rfl (append_nil _).symm (by simp) hquestions

theorem bindNext {main current i : Nat} {alloc : Alloc} {posted : Nat}
    (hcall : s.call = .waitOpen main current i) (hquestions : questions s = [])
    (hknown : s.kernel current = true)
    (hsupplied : i + 1 < s.numProcs → s.free.items ≠ [] ∧ alloc = .posted) :
    ∃ t extra new, bindNext s main current i alloc posted = .ok t ∧
      Binds s t extra new ∧ Partition t := by
  obtain ⟨u, hu⟩ : ∃ u, u =
      if i = 0 then setLocal s current { s.locals current with isInit := true }
      else register (setLocal s current { s.locals current with isInit := true })
        main current i := ⟨_, rfl⟩
  have hreg : Registered s u main current i := hu ▸ h.registered hcall
  have hnum : u.numProcs = s.numProcs := by rw [hreg.rest]
  have hlt := (h.opening hcall).2.1
  simp only [Conn.bindNext, ← hu, hnum]
  by_cases hmore : i + 1 < s.numProcs
  · obtain ⟨hfree, rfl⟩ := hsupplied hmore
    obtain ⟨c, v, t, hget, rfl, hbinds, hnext⟩ :=
      h.bindMore hcall hreg hquestions hknown hmore hfree
    simp only [hmore, if_true, hget, bind, Except.bind]
    exact ⟨_, _, _, rfl, hbinds, hnext⟩
  · have hlast : i + 1 = s.numProcs := by omega
    simp only [hmore, if_false]
    obtain ⟨hbinds, hall⟩ := h.bindAll hcall hreg hquestions hknown hlast
    obtain ⟨new, hbinds', hbind⟩ := hall.lightBindCopy rfl main 0 alloc
    have hboth := hbinds.trans h hbinds'
    refine ⟨_, [], [] ++ new, rfl, ?_, ?_⟩
    · cases alloc <;> exact hboth
    · cases alloc <;> exact hbind

theorem lightBindResume {alloc : Alloc} {posted : Nat}
    (hsupplied : opensNext s = true → s.free.items ≠ [] ∧ alloc = .posted) {r : Except Fault State}
    (hresume : lightBindResume s alloc posted = some r) :
    ∃ t extra new, r = .ok t ∧ Binds s t extra new ∧ Partition t := by
  unfold Conn.lightBindResume at hresume
  split at hresume
  · rename_i main current i success hcall hreply
    obtain ⟨rfl, hquestions, hknown⟩ := h.answered hcall hreply
    cases hresume
    rw [if_pos rfl]
    refine h.bindNext hcall hquestions hknown fun hmore => hsupplied ?_
    simp [opensNext, hcall, hmore]
  · rename_i main i success hcall hreply
    cases hresume
    obtain ⟨hbinds, hbound⟩ := h.bound hcall (by simp [hreply])
    split
    · obtain ⟨new, hbinds', hbind⟩ := hbound.lightBindCopy rfl main (i + 1) alloc
      have hboth := hbinds.trans h hbinds'
      refine ⟨_, [], [] ++ new, rfl, ?_, ?_⟩
      · cases alloc <;> exact hboth
      · cases alloc <;> exact hbind
    · exact ⟨_, _, _, rfl, hbinds, hbound⟩
  · cases hresume

end

inductive Effect (s : State) : Action → State → Prop where
  | opens {t : State} {c : Nat} {l : Local} (hidle : s.call = .idle)
      (hacq : Acquires s t c l []) (hinit : l.isInit = false) : Effect s .openSocket t
  | binds {m : Nat} {alloc : Alloc} {t : State} {new : List (Nat × Command)}
      (hbinds : Binds s t [] new) (hnext : Partition t) : Effect s (.bind m alloc) t
  | resumes {alloc : Alloc} {posted : Nat} {t : State} {extra : List Nat}
      {new : List (Nat × Command)} (hbinds : Binds s t extra new) (hnext : Partition t) :
      Effect s (.resume alloc posted) t
  | connects {m : Nat} : Effect s (.connect m false) s
  | accepts {m k c : Nat} {t : State} (hidle : s.call = .idle)
      (hacq : Acquires s t c ⟨true, true, k⟩ [(k, .setSocketRing c)]) :
      Effect s (.accept m k true) t
  | declines {m k : Nat} {posted : Bool} (hidle : s.call = .idle) (hfree : s.free.items = []) :
      Effect s (.accept m k posted) (if posted then Conn.post s k .decline else s)
  | shuts {m : Nat} {how : Int} {posted : Bool} (hidle : s.call = .idle)
      (hhow : how ≠ 2 ∨ posted = false) :
      Effect s (.shutdown m how posted) (Conn.lightShutdown s m how posted)
  | closes {m posted : Nat} {t : State} (hidle : s.call = .idle)
      (hm : m ∈ s.descriptors) (hcloses : Closes s t m) : Effect s (.close m posted) t
  | processes {k : Nat} {success : Bool} {cmd : Command} {rest : List (Nat × Command)}
      (htake : Mailbox.take k s.pending = some (cmd, rest))
      (hopens : opens s k = true → success = true) :
      Effect s (.stack k success) (processCommand { s with pending := rest } k success cmd)

theorem effect (h : Partition s) (hsupplied : Supplied s a)
    (hstep : Conn.step s a = some t) : Effect s a t := by
  have hready : ready s = true → s.call = .idle := by
    intro hready
    simpa [ready] using (Bool.and_eq_true_iff.mp hready).2
  cases a with
  | openSocket =>
    simp only [Conn.step] at hstep
    split at hstep
    · rename_i hr
      obtain ⟨u, c, l, hopen, hacq, hinit⟩ := h.lightOpenSocket_acquires hsupplied.1 hsupplied.2
      rw [hopen] at hstep
      cases hstep
      exact .opens (hready hr) hacq hinit
    · cases hstep
  | bind m alloc =>
    simp only [Conn.step] at hstep
    split at hstep
    · rename_i hr
      obtain ⟨hr, hm⟩ := Bool.and_eq_true_iff.mp hr
      cases hstep
      obtain ⟨hinit, rfl⟩ := hsupplied
      obtain ⟨hbinds, hnext⟩ := h.lightBind (hready hr) (of_decide_eq_true hm) hinit
      exact .binds hbinds hnext
    · cases hstep
  | resume alloc posted =>
    simp only [Conn.step] at hstep
    split at hstep
    · obtain ⟨r, hresume, rfl⟩ := Option.map_eq_some_iff.mp hstep
      obtain ⟨u, extra, new, rfl, hbinds, hnext⟩ := h.lightBindResume hsupplied hresume
      exact .resumes hbinds hnext
    · cases hstep
  | connect m inet =>
    simp only [Conn.step] at hstep
    split at hstep
    · cases hstep
      obtain rfl : inet = false := hsupplied
      exact .connects
    · cases hstep
  | accept m k posted =>
    simp only [Conn.step] at hstep
    split at hstep
    · rename_i hr
      obtain ⟨hr, -⟩ := Bool.and_eq_true_iff.mp hr
      by_cases hfree : s.free.items = []
      · rw [lightAccept_declines hfree] at hstep
        cases hstep
        exact .declines (hready hr) hfree
      · obtain ⟨rfl, hfds⟩ := hsupplied.resolve_left hfree
        obtain ⟨u, c, haccept, hacq⟩ := h.lightAccept_acquires (k := k) hfree hfds
        rw [haccept] at hstep
        cases hstep
        exact .accepts (hready hr) hacq
    · cases hstep
  | shutdown m how posted =>
    simp only [Conn.step] at hstep
    split at hstep
    · rename_i hr
      obtain ⟨hr, -⟩ := Bool.and_eq_true_iff.mp hr
      cases hstep
      exact .shuts (hready hr) hsupplied
    · cases hstep
  | close m posted =>
    simp only [Conn.step] at hstep
    split at hstep
    · rename_i hr
      obtain ⟨hr, hm⟩ := Bool.and_eq_true_iff.mp hr
      have hm := of_decide_eq_true hm
      obtain ⟨u, hclose, hcloses⟩ := h.lightClose_closes (hready hr) hm hsupplied
      rw [hclose] at hstep
      cases hstep
      exact .closes (hready hr) hm hcloses
    · cases hstep
  | stack k success =>
    simp only [Conn.step] at hstep
    split at hstep
    · cases hstep
    · obtain ⟨⟨cmd, rest⟩, htake, rfl⟩ := Option.map_eq_some_iff.mp hstep
      exact .processes htake hsupplied

theorem of_effect (h : Partition s) (heffect : Effect s a t) : Partition t := by
  cases heffect with
  | opens hidle hacq _ | accepts hidle hacq => exact acquire hacq h hidle
  | binds _ hnext | resumes _ hnext => exact hnext
  | connects => exact h
  | @declines m k posted hidle _ =>
    cases posted with
    | false => exact h
    | true => exact h.post hidle (fun c => by simp [about]) rfl rfl (by simp)
  | shuts hidle hhow => exact h.lightShutdown hidle hhow
  | closes hidle hm hcloses => exact h.close hidle hm hcloses
  | processes htake hopens => exact h.stack htake hopens

theorem start (hstart : Start s) : Partition s := by
  have hnil : owned s = [] := by simp [owned, inFlight, hstart.call_eq, hstart.descriptors_eq]
  have hreleases : releases s = [] := by simp [releases, hstart.pending_eq]
  have hlife : ∀ c, life s c = [] := by simp [life, hstart.pending_eq]
  refine
    { fault := hstart.fault_eq
      numProcs_pos := hstart.numProcs_pos
      perm := ?_
      mapped_iff := by simp [hstart.mapped_eq, hstart.descriptors_eq]
      hasSocket := by simp [hnil]
      quiet := fun c hc => absurd (hlife c) hc
      told := by simp [hnil]
      leaving := by simp [hreleases]
      no_shutdown := by simp [hstart.pending_eq]
      single := by simp [hstart.descriptors_eq]
      multicore := by simp [hstart.descriptors_eq]
      route := by simp [hstart.descriptors_eq]
      awaits := ?_ }
  · rw [everywhere, hnil, hreleases, hstart.free_eq, items_serviceFree]
    simp
  · simp [Awaits, hstart.call_eq, questions, hstart.pending_eq]

theorem step (h : Partition s) (hsupplied : Supplied s a)
    (hstep : step s a = some t) : Partition t :=
  h.of_effect (h.effect hsupplied hstep)

end Partition

theorem partition_of_reachable {s : State}
    (hreach : system.ReachableUnder Supplied s) : Partition s := by
  refine hreach.invariant ?_ ?_
  · exact fun s hs => Partition.start hs
  · exact fun s a t h hsupplied hstep => h.step hsupplied hstep

/-- While nothing a call asks for is missing, every connection index but the last is in one place.
-/
theorem connection_has_one_place {s : State} (hreach : system.ReachableUnder Supplied s) :
    s.fault = none ∧ ∀ c < connectionPoolSize, (places s c = 1 ↔ c ≠ connectionPoolSize - 1) := by
  have h := partition_of_reachable hreach
  refine ⟨h.fault, fun c hc => ?_⟩
  have hsize : fdRingCap = connectionPoolSize - 1 := by decide
  rw [h.places_eq, hsize]
  split
  · rename_i hlt
    exact iff_of_true rfl (Nat.ne_of_lt hlt)
  · rename_i hge
    refine iff_of_false (by simp) ?_
    omega

def startWith (n : Nat) : State where
  numProcs := n
  free := ⟨(List.range fdRingCap).map some, length_indices_le⟩
  sockets := fun _ => ⟨false, fun _ => 0⟩
  locals := fun _ => ⟨false, false, 0⟩
  descriptors := []
  mapped := fun _ => false
  freeFds := trueFdNum
  pending := []
  kernel := fun _ => false
  down := fun _ => false
  call := .idle
  reply := none
  fault := none

theorem start_startWith {n : Nat} (hn : 0 < n) : Start (startWith n) := by
  have hfree : (startWith n).free = serviceFree := by
    apply Ring.ext_items
    rw [items_serviceFree]
    simp only [startWith]
  exact ⟨hn, hfree, fun _ => rfl, rfl, fun _ => rfl, rfl, rfl, fun _ => rfl,
    fun _ => rfl, rfl, rfl, rfl⟩

theorem connection_has_one_place_listener :
    ∃ s, system.ReachableUnder Supplied s ∧ s.descriptors = [] ∧
      s.pending.length = 3 ∧ ∀ c < connectionPoolSize,
        (places s c = 1 ↔ c ≠ connectionPoolSize - 1) := by
  obtain ⟨s, hreach, hclosed, hpending⟩ :=
    system.exists_reachableUnder Supplied (startWith 2)
      [.openSocket, .bind 0 .posted, .stack 0 true, .resume .posted 0, .stack 1 true,
        .resume .posted 0, .stack 0 true, .resume .posted 0, .stack 1 true,
        .resume .noCommand 0, .accept 0 1 true, .stack 1 true, .close 0 2, .close 2 1]
      (P := fun s => s.descriptors = [] ∧ s.pending.length = 3)
      (start_startWith (by decide)) (by decide +kernel)
  exact ⟨s, hreach, hclosed, hpending, (connection_has_one_place hreach).2⟩

theorem bind_frees_owned_connection :
    ∃ s, system.Reachable s ∧ s.fault = none ∧ places s 0 = 2 ∧ places s 2047 = 0 :=
  system.exists_reachable (startWith 1) [.openSocket, .bind 0 .noReturnValue]
    (start_startWith (by decide)) (by decide +kernel)

end LightStack.Conn
