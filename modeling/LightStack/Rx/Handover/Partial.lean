import LightStack.Rx.Handover.Exact
import LightStack.Tx.Frame.Model

/-!
# Taking an sk_buff in parts

`skb_copy_datagram_iovec` links the mbufs themselves into the chain.
-/

namespace LightStack.Rx.Handover.Partial

open Function Lib List
open LightStack.Tx.Frame (Frag)

structure State where
  heap : Heap
  refcnt : Nat → UInt16

structure Paged where
  headerMbuf : Nat
  data : Nat
  headlen : Nat
  frags : List Frag

def memcpyToiovec (s : State) (iov : Iovec) (id offset len : Nat) : Option (State × Iovec) :=
  match Handover.memcpyToiovec s.heap iov id offset len with
  | none => none
  | some (heap, iov) => some (⟨heap, update s.refcnt id (s.refcnt id + 1)⟩, iov)

def takeFrags (s : State) (iov : Iovec) : List Frag → Nat → Nat → Nat → Option (State × Iovec)
  | [], _, _, len => if len = 0 then some (s, iov) else none
  | f :: rest, start, offset, len =>
    if offset < start + f.size then
      let copy := min (start + f.size - offset) len
      match memcpyToiovec s iov f.mbuf (f.pageOffset + offset - start) copy with
      | none => none
      | some (s, iov) =>
        if len - copy = 0 then some (s, iov)
        else takeFrags s iov rest (start + f.size) (offset + copy) (len - copy)
    else takeFrags s iov rest (start + f.size) offset len

/-- The copy, or `none` where it fails or the process exits. -/
def skbCopyDatagramIovec (s : State) (iov : Iovec) (skb : Paged) (offset len : Nat) :
    Option (State × Iovec × Paged) :=
  match adj (s.heap skb.headerMbuf) (skb.data - (s.heap skb.headerMbuf).dataOff) with
  | none => none
  | some m =>
    let s := { s with heap := update s.heap skb.headerMbuf m }
    if offset < skb.headlen then
      let copy := min (skb.headlen - offset) len
      match memcpyToiovec s iov skb.headerMbuf offset copy with
      | none => none
      | some (s, iov) =>
        let skb := { skb with data := skb.data + copy }
        if len - copy = 0 then some (s, iov, skb)
        else
          (takeFrags s iov skb.frags skb.headlen (offset + copy) (len - copy)).map
            fun r => (r.1, r.2, skb)
    else (takeFrags s iov skb.frags skb.headlen offset len).map fun r => (r.1, r.2, skb)

/-- Successive takes and their chains; a take that is marked begins a chain. -/
def takes (s : State) (skb : Paged) (out : List Iovec) (iov : Iovec) (offset : Nat) :
    List (Bool × Nat) → Option (State × List Iovec)
  | [] => some (s, out ++ [iov])
  | (fresh, len) :: rest =>
    match skbCopyDatagramIovec s (if fresh then ⟨[], 0⟩ else iov) skb offset len with
    | none => none
    | some (s, iov', skb) =>
      takes s skb (if fresh then out ++ [iov] else out) iov' (offset + len) rest

namespace Paged

def mbufs (skb : Paged) : List Nat := skb.headerMbuf :: skb.frags.map Frag.mbuf

def linear (skb : Paged) (heap : Heap) : Frag :=
  ⟨skb.headerMbuf, skb.data - (heap skb.headerMbuf).dataOff, skb.headlen⟩

def pieces (skb : Paged) (heap : Heap) : List Frag :=
  (if skb.headlen = 0 then [] else [skb.linear heap]) ++ skb.frags

/-- Takes of whole fragments where there is no linear part, and otherwise one of everything. -/
def Whole (skb : Paged) (lens : List Nat) : Prop :=
  if skb.headlen = 0 then
    ∃ runs : List (List Frag), runs.flatten = skb.frags ∧ (∀ run ∈ runs, run ≠ []) ∧
      lens = runs.map fun run => (run.map Frag.size).sum
  else lens = [skb.headlen + (skb.frags.map Frag.size).sum]

/-- Consecutive ranges that make up the payload; `tcp_recvmsg` takes no empty one. -/
structure Split (skb : Paged) (lens : List Nat) : Prop where
  pos : ∀ len ∈ lens, 0 < len
  total : lens.sum = skb.headlen + (skb.frags.map Frag.size).sum

structure WellFormed (skb : Paged) (s : State) : Prop where
  nodup : skb.mbufs.Nodup
  small : ∀ m ∈ skb.mbufs, (s.heap m).dataLen < 2 ^ 16
  data_ge : (s.heap skb.headerMbuf).dataOff ≤ skb.data
  data_le : skb.data + skb.headlen ≤
    (s.heap skb.headerMbuf).dataOff + (s.heap skb.headerMbuf).dataLen
  fits : ∀ f ∈ skb.frags, 0 < f.size ∧ f.pageOffset + f.size ≤ (s.heap f.mbuf).dataLen
  refcnt : ∀ m ∈ skb.mbufs, s.refcnt m = 1

end Paged

def placed (heap : Heap) (m off len : Nat) : List (Nat × Nat × Option UInt8) :=
  (List.range' off len).map fun i => (m, i, (heap m).buf[i]?)

/-- The chains carry the payload, and once the sk_buff is freed every reference is one of theirs. -/
def Delivered (s : State) (skb : Paged) (ts : List (Bool × Nat)) : Prop :=
  ∃ t chains, takes s skb [] ⟨[], 0⟩ 0 ts = some (t, chains) ∧
    ((chains.flatMap Iovec.segs).flatMap fun m =>
        placed t.heap m (t.heap m).dataOff (t.heap m).dataLen) =
      ((skb.pieces s.heap).flatMap fun f =>
        placed s.heap f.mbuf ((s.heap f.mbuf).dataOff + f.pageOffset) f.size) ∧
    ∀ m ∈ skb.mbufs, t.refcnt m - UInt16.ofNat (skb.mbufs.count m) =
      UInt16.ofNat ((chains.flatMap Iovec.segs).count m)

/-! ## Whole fragments -/

def opened (heap : Heap) (f : Frag) : Mbuf :=
  { heap f.mbuf with
    dataOff := (heap f.mbuf).dataOff + f.pageOffset
    dataLen := (heap f.mbuf).dataLen - f.pageOffset }

/-- From `s` to `t` each fragment of the run was handed over once, and nothing else but in `skip`.
-/
structure Moved (skip : List Nat) (s : State) (run : List Frag) (t : State) : Prop where
  moved : ∀ f ∈ run, SameWindow (opened s.heap f) (t.heap f.mbuf)
  others : ∀ m, m ∉ skip → m ∉ run.map Frag.mbuf → SameWindow (s.heap m) (t.heap m)
  refcnt : ∀ m, t.refcnt m = s.refcnt m + UInt16.ofNat ((run.map Frag.mbuf).count m)

def Fits (s : State) (f : Frag) : Prop :=
  0 < f.size ∧ f.pageOffset ≤ (s.heap f.mbuf).dataLen ∧ (s.heap f.mbuf).dataLen < 2 ^ 16

variable {skip : List Nat} {s t u : State} {run run' : List Frag} {f : Frag} {skb : Paged}

theorem Moved.trans (h : Moved skip s run t) (h' : Moved skip t run' u)
    (hnodup : (skip ++ (run ++ run').map Frag.mbuf).Nodup) : Moved skip s (run ++ run') u := by
  rw [map_append, nodup_append', nodup_append'] at hnodup
  obtain ⟨-, ⟨-, -, hdisjoint⟩, hskip⟩ := hnodup
  refine ⟨fun f hf => ?_, fun m hm hrun => ?_, fun m => ?_⟩
  · rcases mem_append.mp hf with hf | hf
    · have hmem : f.mbuf ∈ run.map Frag.mbuf := mem_map_of_mem hf
      have hlater := h'.others f.mbuf
        (fun hm => hskip hm (mem_append_left _ hmem)) (fun hm => hdisjoint hmem hm)
      have hnow := h.moved f hf
      exact ⟨hlater.buf.trans hnow.buf, hlater.dataOff.trans hnow.dataOff,
        hlater.dataLen.trans hnow.dataLen⟩
    · have hmem : f.mbuf ∈ run'.map Frag.mbuf := mem_map_of_mem hf
      have hbefore := h.others f.mbuf
        (fun hm => hskip hm (mem_append_right _ hmem)) (fun hm => hdisjoint hm hmem)
      have hnow := h'.moved f hf
      exact ⟨hnow.buf.trans hbefore.buf, hnow.dataOff.trans (congrArg (· + _) hbefore.dataOff),
        hnow.dataLen.trans (congrArg (· - _) hbefore.dataLen)⟩
  · rw [map_append, mem_append, not_or] at hrun
    have hbefore := h.others m hm hrun.1
    have hlater := h'.others m hm hrun.2
    exact ⟨hlater.buf.trans hbefore.buf, hlater.dataOff.trans hbefore.dataOff,
      hlater.dataLen.trans hbefore.dataLen⟩
  · rw [h'.refcnt, h.refcnt, map_append, count_append, UInt16.ofNat_add,
      UInt16.add_assoc]

theorem Moved.weaken (h : Moved [] s run t) : Moved skip s run t :=
  ⟨h.moved, fun m _ => h.others m not_mem_nil, h.refcnt⟩

theorem Moved.fits (h : Moved skip s run t) (hnodup : (skip ++ (run ++ run').map Frag.mbuf).Nodup)
    (hfits : ∀ f ∈ run', Fits s f) : ∀ f ∈ run', Fits t f := by
  intro f hf
  rw [map_append, ← append_assoc, nodup_append'] at hnodup
  have hnotMem : f.mbuf ∉ skip ++ run.map Frag.mbuf :=
    hnodup.2.2.symm (mem_map_of_mem hf)
  rw [mem_append, not_or] at hnotMem
  rw [Fits, (h.others f.mbuf hnotMem.1 hnotMem.2).dataLen]
  exact hfits f hf

theorem memcpyToiovec_eq (s : State) (iov : Iovec) (f : Frag) (len : Nat)
    (hoffset : f.pageOffset ≤ (s.heap f.mbuf).dataLen) (hsmall : (s.heap f.mbuf).dataLen < 2 ^ 16)
    (hnew : f.mbuf ∉ iov.segs) :
    ∃ t iov', memcpyToiovec s iov f.mbuf f.pageOffset len = some (t, iov') ∧
      iov'.segs = iov.segs ++ [f.mbuf] ∧ Moved [] s [f] t := by
  obtain ⟨heap, hcopy, hmoved, hothers, -⟩ :=
    memcpyToiovec_spec s.heap iov f.mbuf f.pageOffset len hoffset (by omega) hnew
  rw [memcpyToiovec, hcopy]
  refine ⟨_, _, rfl, rfl, ⟨?_, fun m _ hm => ?_, fun m => ?_⟩⟩
  · rw [forall_mem_singleton]
    exact hmoved
  · rw [map_singleton, mem_singleton] at hm
    exact hothers m hm
  · by_cases hm : m = f.mbuf
    · simp [hm]
    · simp [hm, Ne.symm hm]

theorem takeFrags_skip (s : State) (iov : Iovec) (done rest : List Frag) (start len : Nat) :
    takeFrags s iov (done ++ rest) start (start + (done.map Frag.size).sum) len =
      takeFrags s iov rest (start + (done.map Frag.size).sum)
        (start + (done.map Frag.size).sum) len := by
  induction done generalizing start with
  | nil => rfl
  | cons f done ih =>
    rw [map_cons, sum_cons, ← Nat.add_assoc, ← ih, cons_append, takeFrags,
      if_neg (by omega)]

theorem takeFrags_run (rest : List Frag) (iov : Iovec) (start : Nat) (hrun : run ≠ [])
    (hfits : ∀ f ∈ run, Fits s f) (hnodup : (iov.segs ++ run.map Frag.mbuf).Nodup) :
    ∃ t iov', takeFrags s iov (run ++ rest) start start (run.map Frag.size).sum =
        some (t, iov') ∧ iov'.segs = iov.segs ++ run.map Frag.mbuf ∧ Moved [] s run t := by
  induction run generalizing s iov start with
  | nil => exact absurd rfl hrun
  | cons f run ih =>
    obtain ⟨⟨hpos, hoffset, hsmall⟩, hrest⟩ := forall_mem_cons.mp hfits
    rw [map_cons, append_cons] at hnodup
    have hnew : f.mbuf ∉ iov.segs := fun hm =>
      (nodup_append'.mp (nodup_append'.mp hnodup).1).2.2 hm (mem_singleton_self _)
    obtain ⟨t, iov', hcopy, hsegs, hmoved⟩ := memcpyToiovec_eq s iov f f.size hoffset hsmall hnew
    rw [cons_append, map_cons, sum_cons, takeFrags, if_pos (by omega)]
    dsimp only
    rw [Nat.add_sub_cancel_left, Nat.add_sub_cancel, Nat.min_eq_left (by omega), hcopy]
    dsimp only
    rw [Nat.add_sub_cancel_left]
    cases run with
    | nil => exact ⟨t, iov', if_pos rfl, hsegs, hmoved⟩
    | cons g run =>
      have hgpos := (hrest g mem_cons_self).1
      rw [if_neg (by rw [map_cons, sum_cons]; omega)]
      have hdistinct : (f.mbuf :: (g :: run).map Frag.mbuf).Nodup := by
        rw [append_assoc, singleton_append] at hnodup
        exact hnodup.of_append_right
      obtain ⟨u, iov'', hloop, hsegs', hmoved'⟩ := ih iov' (start + f.size)
        (cons_ne_nil g run) (hmoved.fits hdistinct hrest) (hsegs ▸ hnodup)
      refine ⟨u, iov'', hloop, ?_, hmoved.trans hmoved' hdistinct⟩
      rw [hsegs', hsegs, append_assoc]
      rfl

/-! ## Whole takes -/

/-- The header's data begins at the payload or before it. -/
structure Reachable (skb : Paged) (s : State) : Prop where
  data_ge : (s.heap skb.headerMbuf).dataOff ≤ skb.data
  data_le : skb.data ≤ (s.heap skb.headerMbuf).dataOff + (s.heap skb.headerMbuf).dataLen
  small : (s.heap skb.headerMbuf).dataLen < 2 ^ 16

theorem Reachable.adj (h : Reachable skb s) :
    ∃ m t, Handover.adj (s.heap skb.headerMbuf) (skb.data - (s.heap skb.headerMbuf).dataOff) =
        some m ∧ { s with heap := update s.heap skb.headerMbuf m } = t ∧
      SameWindow (opened s.heap (skb.linear s.heap)) (t.heap skb.headerMbuf) ∧
      Moved [skb.headerMbuf] s [] t := by
  have hge := h.data_ge
  have hle := h.data_le
  have hsmall := h.small
  rw [show (skb.data : Int) - (s.heap skb.headerMbuf).dataOff =
    ((skb.data - (s.heap skb.headerMbuf).dataOff : Nat) : Int) by omega]
  refine ⟨_, _, adj_eq_some _ _ (by omega) (by omega), rfl, ?_, ?_⟩
  · dsimp only
    rw [update_self]
    exact ⟨rfl, rfl, rfl⟩
  · refine ⟨by simp, fun m hm _ => ?_, by simp⟩
    dsimp only
    rw [update_of_ne (ne_of_not_mem_cons hm)]
    exact SameWindow.refl _

theorem take_run {done rest : List Frag} (iov : Iovec) (hheadlen : skb.headlen = 0)
    (hreach : Reachable skb s) (hfrags : skb.frags = done ++ (run ++ rest)) (hrun : run ≠ [])
    (hfits : ∀ f ∈ run, Fits s f) (hnodup : (iov.segs ++ run.map Frag.mbuf).Nodup)
    (hheader : (skb.headerMbuf :: run.map Frag.mbuf).Nodup) :
    ∃ t iov', skbCopyDatagramIovec s iov skb (done.map Frag.size).sum (run.map Frag.size).sum =
        some (t, iov', skb) ∧ iov'.segs = iov.segs ++ run.map Frag.mbuf ∧
      Moved [skb.headerMbuf] s run t ∧ Reachable skb t := by
  obtain ⟨m, t, hadj, hopen, hm, hmoved⟩ := hreach.adj
  obtain ⟨u, iov', hloop, hsegs, hmoved'⟩ := takeFrags_run rest iov (done.map Frag.size).sum hrun
    (hmoved.fits hheader hfits) hnodup
  have hskip := takeFrags_skip t iov done (run ++ rest) 0 (run.map Frag.size).sum
  rw [Nat.zero_add] at hskip
  rw [skbCopyDatagramIovec, hadj, hheadlen]
  dsimp only
  rw [hopen, if_neg (Nat.not_lt_zero _), hfrags, hskip, hloop]
  refine ⟨u, iov', rfl, hsegs, hmoved.trans hmoved'.weaken hheader, ?_⟩
  have h := hmoved'.others skb.headerMbuf not_mem_nil (nodup_cons.mp hheader).1
  have hge := hreach.data_ge
  have hle := hreach.data_le
  have hsmall := hreach.small
  have hoff := h.dataOff.trans hm.dataOff
  have hlen := h.dataLen.trans hm.dataLen
  simp only [opened, Paged.linear] at hoff hlen
  exact ⟨by omega, by omega, by omega⟩

theorem takes_runs {runs : List (List Frag)} {ts : List (Bool × Nat)} (done : List Frag)
    (out : List Iovec) (iov : Iovec) (hheadlen : skb.headlen = 0) (hreach : Reachable skb s)
    (hfrags : skb.frags = done ++ runs.flatten) (hruns : ∀ run ∈ runs, run ≠ [])
    (hts : ts.map Prod.snd = runs.map fun run => (run.map Frag.size).sum)
    (hfits : ∀ f ∈ runs.flatten, Fits s f)
    (hnodup : (iov.segs ++ runs.flatten.map Frag.mbuf).Nodup)
    (hheader : (skb.headerMbuf :: runs.flatten.map Frag.mbuf).Nodup) :
    ∃ t chains, takes s skb out iov (done.map Frag.size).sum ts = some (t, chains) ∧
      chains.flatMap Iovec.segs =
        out.flatMap Iovec.segs ++ iov.segs ++ runs.flatten.map Frag.mbuf ∧
      Moved [skb.headerMbuf] s runs.flatten t := by
  induction runs generalizing s done ts out iov with
  | nil =>
    rw [map_nil, map_eq_nil_iff] at hts
    subst hts
    refine ⟨s, _, rfl, by simp, ⟨by simp, fun m _ _ => SameWindow.refl _, by simp⟩⟩
  | cons run runs ih =>
    cases ts with
    | nil => cases hts
    | cons x ts =>
      obtain ⟨fresh, len⟩ := x
      rw [map_cons, map_cons, List.cons.injEq] at hts
      obtain ⟨hlen, hts⟩ := hts
      dsimp only at hlen
      subst hlen
      rw [flatten_cons] at hfrags hfits hnodup hheader ⊢
      obtain ⟨hrun, hruns⟩ := forall_mem_cons.mp hruns
      obtain ⟨hfits, hrest⟩ := forall_mem_append.mp hfits
      have hiov : ((if fresh then (⟨[], 0⟩ : Iovec) else iov).segs ++
          (run.map Frag.mbuf ++ runs.flatten.map Frag.mbuf)).Nodup := by
        rw [← map_append]
        cases fresh with
        | true => exact hheader.of_cons
        | false => exact hnodup
      rw [← append_assoc] at hiov
      have hheader' := hheader
      rw [map_append, ← cons_append] at hheader'
      obtain ⟨t, iov', htake, hsegs, hmoved, hreach'⟩ := take_run _ hheadlen hreach hfrags hrun
        hfits hiov.of_append_left hheader'.of_append_left
      have hlater : (skb.headerMbuf :: runs.flatten.map Frag.mbuf).Nodup :=
        hheader'.sublist (List.Sublist.cons_cons _ (sublist_append_right _ _))
      obtain ⟨u, chains, htakes, hchains, hmoved'⟩ := ih (done ++ run)
        (if fresh then out ++ [iov] else out) iov' hreach' (by rw [hfrags, append_assoc])
        hruns hts (hmoved.fits hheader hrest) (hsegs ▸ hiov) hlater
      rw [takes, htake]
      dsimp only
      rw [map_append, sum_append] at htakes
      refine ⟨u, chains, htakes, ?_, hmoved.trans hmoved' hheader⟩
      rw [hchains, hsegs]
      cases fresh <;> simp

theorem take_whole (hwf : skb.WellFormed s) (hheadlen : skb.headlen ≠ 0) :
    ∃ t iov' skb', skbCopyDatagramIovec s ⟨[], 0⟩ skb 0
        (skb.headlen + (skb.frags.map Frag.size).sum) = some (t, iov', skb') ∧
      iov'.segs = skb.mbufs ∧ Moved [] s (skb.linear s.heap :: skb.frags) t := by
  have hge := hwf.data_ge
  have hle := hwf.data_le
  have hsmall := hwf.small skb.headerMbuf mem_cons_self
  have hreach : Reachable skb s := ⟨hge, by omega, hsmall⟩
  obtain ⟨m, t, hadj, hopen, hm, hmoved⟩ := hreach.adj
  have hsmall' : (t.heap skb.headerMbuf).dataLen < 2 ^ 16 := by
    rw [hm.dataLen, opened, Paged.linear]
    dsimp only
    omega
  obtain ⟨u, iov, hcopy, hsegs, hmoved'⟩ := memcpyToiovec_eq t ⟨[], 0⟩
    ⟨skb.headerMbuf, 0, skb.headlen⟩ skb.headlen (Nat.zero_le _) hsmall' not_mem_nil
  have hfirst : Moved [] s [skb.linear s.heap] u := by
    refine ⟨?_, fun k _ hk => ?_, fun k => ?_⟩
    · rw [forall_mem_singleton]
      have h := hmoved'.moved _ (mem_singleton_self _)
      exact ⟨h.buf.trans hm.buf, h.dataOff.trans hm.dataOff, h.dataLen.trans hm.dataLen⟩
    · have h := hmoved'.others k not_mem_nil hk
      have h' := hmoved.others k hk not_mem_nil
      exact ⟨h.buf.trans h'.buf, h.dataOff.trans h'.dataOff, h.dataLen.trans h'.dataLen⟩
    · rw [hmoved'.refcnt, hmoved.refcnt]
      simp [Paged.linear]
  have hfits : ∀ f ∈ skb.frags, Fits s f := fun f hf =>
    ⟨(hwf.fits f hf).1, by have := (hwf.fits f hf).2; omega,
      hwf.small f.mbuf (mem_cons_of_mem _ (mem_map_of_mem hf))⟩
  rw [skbCopyDatagramIovec, hadj]
  dsimp only
  rw [hopen, if_pos (Nat.pos_of_ne_zero hheadlen), Nat.sub_zero, Nat.min_eq_left (by omega), hcopy]
  dsimp only
  rw [Nat.add_sub_cancel_left, Nat.zero_add]
  by_cases hfrags : skb.frags = []
  · rw [hfrags]
    refine ⟨u, iov, _, if_pos rfl, ?_, hfirst⟩
    rw [hsegs, Paged.mbufs, hfrags]
    rfl
  · obtain ⟨v, iov', hloop, hsegs', hmoved''⟩ := takeFrags_run [] iov skb.headlen hfrags
      (hfirst.fits hwf.nodup hfits) (hsegs ▸ hwf.nodup)
    rw [append_nil] at hloop
    rw [if_neg, hloop]
    · refine ⟨v, iov', _, rfl, ?_, hfirst.trans hmoved'' hwf.nodup⟩
      rw [hsegs', hsegs]
      rfl
    · obtain ⟨f, rest, hcons⟩ := exists_cons_of_ne_nil hfrags
      have hpos := (hwf.fits f (hcons ▸ mem_cons_self)).1
      rw [hcons, map_cons, sum_cons]
      omega

theorem mem_placed {heap : Heap} {m off len : Nat} {x : Nat × Nat × Option UInt8} :
    x ∈ placed heap m off len ↔ ∃ i, off ≤ i ∧ i < off + len ∧ (m, i, (heap m).buf[i]?) = x := by
  simp only [placed, mem_map, mem_range'_1, and_assoc]

theorem Paged.WellFormed.pieces_fit (hwf : skb.WellFormed s) (hf : f ∈ skb.pieces s.heap) :
    0 < f.size ∧ f.pageOffset + f.size ≤ (s.heap f.mbuf).dataLen := by
  rw [Paged.pieces, mem_append] at hf
  rcases hf with hf | hf
  · split at hf
    · cases hf
    · rw [mem_singleton.mp hf, Paged.linear]
      have hge := hwf.data_ge
      have hle := hwf.data_le
      dsimp only
      omega
  · exact hwf.fits f hf

theorem Paged.WellFormed.nodup_pieces (hwf : skb.WellFormed s) :
    ((skb.pieces s.heap).map Frag.mbuf).Nodup := by
  rw [Paged.pieces]
  split
  · exact hwf.nodup.of_cons
  · exact hwf.nodup

/-- Where each piece was handed over once, only the bytes behind the payload can be in the way. -/
theorem Moved.delivered_iff {ts : List (Bool × Nat)} (chains : List Iovec)
    (hwf : skb.WellFormed s) (htakes : takes s skb [] ⟨[], 0⟩ 0 ts = some (t, chains))
    (hchains : chains.flatMap Iovec.segs = (skb.pieces s.heap).map Frag.mbuf)
    (hmoved : Moved skip s (skb.pieces s.heap) t) :
    Delivered s skb ts ↔
      ∀ f ∈ skb.pieces s.heap, f.pageOffset + f.size = (s.heap f.mbuf).dataLen := by
  have hplaced : ∀ f ∈ skb.pieces s.heap,
      placed t.heap f.mbuf (t.heap f.mbuf).dataOff (t.heap f.mbuf).dataLen =
        placed s.heap f.mbuf ((s.heap f.mbuf).dataOff + f.pageOffset)
          ((s.heap f.mbuf).dataLen - f.pageOffset) := by
    intro f hf
    have hf' := hmoved.moved f hf
    rw [placed, placed, hf'.buf, hf'.dataOff, hf'.dataLen]
    rfl
  constructor
  · rintro ⟨t', chains', htakes', hbytes, -⟩ f hf
    rw [htakes] at htakes'
    cases htakes'
    obtain ⟨hpos, hfits⟩ := hwf.pieces_fit hf
    -- The last byte of the mbuf is among the bytes of the payload.
    have hlast : (f.mbuf, (s.heap f.mbuf).dataOff + (s.heap f.mbuf).dataLen - 1,
        (s.heap f.mbuf).buf[(s.heap f.mbuf).dataOff + (s.heap f.mbuf).dataLen - 1]?) ∈
        (skb.pieces s.heap).flatMap fun f =>
          placed s.heap f.mbuf ((s.heap f.mbuf).dataOff + f.pageOffset) f.size := by
      rw [← hbytes, hchains, flatMap_map]
      refine mem_flatMap.mpr ⟨f, hf, ?_⟩
      rw [hplaced f hf]
      exact mem_placed.mpr ⟨_, by omega, by omega, rfl⟩
    obtain ⟨g, hg, hmem⟩ := mem_flatMap.mp hlast
    obtain ⟨i, -, hi, heq⟩ := mem_placed.mp hmem
    simp only [Prod.mk.injEq] at heq
    obtain rfl := inj_on_of_nodup_map hwf.nodup_pieces hg hf heq.1
    omega
  · intro hends
    refine ⟨t, chains, htakes, ?_, fun m hm => ?_⟩
    · rw [hchains, flatMap_map]
      refine flatMap_congr fun f hf => ?_
      rw [hplaced f hf, ← hends f hf, Nat.add_sub_cancel_left]
    · rw [hmoved.refcnt, hchains, hwf.refcnt m hm, count_eq_one_of_mem hwf.nodup hm]
      simp

theorem Paged.Whole.delivered_iff {ts : List (Bool × Nat)} (hwf : skb.WellFormed s)
    (hwhole : skb.Whole (ts.map Prod.snd)) :
    Delivered s skb ts ↔
      ∀ f ∈ skb.pieces s.heap, f.pageOffset + f.size = (s.heap f.mbuf).dataLen := by
  unfold Paged.Whole at hwhole
  split at hwhole
  · rename_i hheadlen
    obtain ⟨runs, hfrags, hruns, hts⟩ := hwhole
    have hpieces : skb.pieces s.heap = runs.flatten := by
      rw [Paged.pieces, if_pos hheadlen, nil_append, hfrags]
    have hnodup : (skb.headerMbuf :: runs.flatten.map Frag.mbuf).Nodup := hfrags ▸ hwf.nodup
    have hsmall := hwf.small skb.headerMbuf mem_cons_self
    obtain ⟨t, chains, htakes, hchains, hmoved⟩ := takes_runs [] [] ⟨[], 0⟩ hheadlen
      ⟨hwf.data_ge, by have := hwf.data_le; omega, hsmall⟩ hfrags.symm hruns hts
      (fun f hf => ⟨(hwf.fits f (hfrags ▸ hf)).1,
        by have := (hwf.fits f (hfrags ▸ hf)).2; omega,
        hwf.small f.mbuf (mem_cons_of_mem _ (mem_map_of_mem (hfrags ▸ hf)))⟩)
      hnodup.of_cons hnodup
    rw [← hpieces] at hchains hmoved
    exact hmoved.delivered_iff chains hwf htakes hchains
  · rename_i hheadlen
    obtain ⟨t, iov', skb', htake, hsegs, hmoved⟩ := take_whole hwf hheadlen
    have hpieces : skb.pieces s.heap = skb.linear s.heap :: skb.frags := by
      rw [Paged.pieces, if_neg hheadlen, singleton_append]
    obtain ⟨x, rfl, hx⟩ := map_eq_singleton_iff.mp hwhole
    obtain ⟨fresh, len⟩ := x
    dsimp only at hx
    subst hx
    rw [← hpieces] at hmoved
    refine hmoved.delivered_iff ((if fresh then [⟨[], 0⟩] else []) ++ [iov']) hwf ?_ ?_
    · rw [takes, show (if fresh then (⟨[], 0⟩ : Iovec) else ⟨[], 0⟩) = ⟨[], 0⟩ from ite_self _,
        htake]
      rfl
    · rw [hpieces]
      cases fresh <;> simp [hsegs, Paged.mbufs, Paged.linear]

/-! ## Takes that begin inside a piece -/

theorem adj_dataOff {m m' : Mbuf} {len : Int} (h : adj m len = some m') :
    m'.dataOff = m.dataOff + toUInt16 len := by
  simp only [adj, Option.ite_none_left_eq_some, Option.some.injEq] at h
  rw [← h.2]

theorem memcpyToiovec_dataOff {iov iov' : Iovec} {id offset len : Nat}
    (h : memcpyToiovec s iov id offset len = some (t, iov')) (m : Nat) :
    (t.heap m).dataOff = (s.heap m).dataOff + if m = id then toUInt16 offset else 0 := by
  unfold memcpyToiovec Handover.memcpyToiovec at h
  cases hadj : adj (s.heap id) offset with
  | none => simp [hadj] at h
  | some m' =>
    have hoff := adj_dataOff hadj
    simp only [hadj] at h
    cases hsegs : iov.segs with
    | nil =>
      simp only [hsegs, Option.some.injEq, Prod.mk.injEq] at h
      rw [← h.1]
      dsimp only
      rw [update_apply]
      split <;> simp_all
    | cons head rest =>
      simp only [hsegs] at h
      split at h
      · cases h
      · rename_i hlink
        simp only [Option.some.injEq, Prod.mk.injEq] at h
        rw [← h.1]
        dsimp only
        split at hlink <;> cases hlink <;> simp only [update_apply] <;> split_ifs <;> simp_all

theorem takeFrags_dataOff_le {frags : List Frag} {iov iov' : Iovec} {start offset len : Nat}
    (h : takeFrags s iov frags start offset len = some (t, iov')) (m : Nat) :
    (s.heap m).dataOff ≤ (t.heap m).dataOff := by
  fun_induction takeFrags s iov frags start offset len <;>
    grind [memcpyToiovec_dataOff]

theorem takeFrags_inside {frags done rest : List Frag} {iov iov' : Iovec} {start offset len : Nat}
    (h : takeFrags s iov frags start offset len = some (t, iov'))
    (hfrags : frags = done ++ f :: rest) (hsmall : f.pageOffset + f.size < 2 ^ 16)
    (hin : start + (done.map Frag.size).sum < offset)
    (hout : offset < start + (done.map Frag.size).sum + f.size) :
    (s.heap f.mbuf).dataOff + f.pageOffset < (t.heap f.mbuf).dataOff := by
  subst hfrags
  induction done generalizing start with
  | nil =>
    rw [map_nil, sum_nil, Nat.add_zero] at hin hout
    rw [nil_append, takeFrags, if_pos hout] at h
    dsimp only at h
    split at h
    · cases h
    · rename_i u iov₁ hcopy
      have hoff := memcpyToiovec_dataOff hcopy f.mbuf
      rw [if_pos rfl] at hoff
      have hlen := toUInt16_of_lt (x := (f.pageOffset + offset - start : Nat)) (by omega) (by omega)
      have hlater : (u.heap f.mbuf).dataOff ≤ (t.heap f.mbuf).dataOff := by
        split at h
        · cases h
          rfl
        · exact takeFrags_dataOff_le h f.mbuf
      omega
  | cons g done ih =>
    rw [map_cons, sum_cons] at hin hout
    rw [cons_append, takeFrags, if_neg (by omega)] at h
    exact ih (by omega) (by omega) h

/-- A copy first moves the data of the header's mbuf up to `skb->data`. -/
theorem skbCopyDatagramIovec_dataOff {skb' : Paged} {iov iov' : Iovec} {offset len : Nat}
    (h : skbCopyDatagramIovec s iov skb offset len = some (t, iov', skb')) (m : Nat) :
    ((s.heap m).dataOff + if m = skb.headerMbuf then
        toUInt16 (skb.data - (s.heap skb.headerMbuf).dataOff) else 0) ≤ (t.heap m).dataOff ∧
      skb' = { skb with data := skb.data + min (skb.headlen - offset) len } := by
  unfold skbCopyDatagramIovec at h
  split at h
  · cases h
  · rename_i m' hadj
    have hoff := adj_dataOff hadj
    have hopened : (update s.heap skb.headerMbuf m' m).dataOff = (s.heap m).dataOff +
        if m = skb.headerMbuf then toUInt16 (skb.data - (s.heap skb.headerMbuf).dataOff)
        else 0 := by
      rw [update_apply]
      split <;> simp_all
    rw [← hopened]
    dsimp only at h
    split at h
    · split at h
      · cases h
      · rename_i u iov₁ hcopy
        have hhead := Nat.le_of_add_right_le (memcpyToiovec_dataOff hcopy m).ge
        split at h
        · cases h
          exact ⟨hhead, rfl⟩
        · obtain ⟨⟨v, iov₂⟩, hfrags, heq⟩ := Option.map_eq_some_iff.mp h
          cases heq
          exact ⟨hhead.trans (takeFrags_dataOff_le hfrags m), rfl⟩
    · obtain ⟨⟨v, iov₂⟩, hfrags, heq⟩ := Option.map_eq_some_iff.mp h
      cases heq
      refine ⟨takeFrags_dataOff_le hfrags m, ?_⟩
      rw [Nat.sub_eq_zero_of_le (by omega), Nat.zero_min, Nat.add_zero]

theorem takes_dataOff_le {ts : List (Bool × Nat)} {out chains : List Iovec} {iov : Iovec}
    {offset : Nat} (h : takes s skb out iov offset ts = some (t, chains)) (m : Nat) :
    (s.heap m).dataOff ≤ (t.heap m).dataOff := by
  induction ts generalizing s skb out iov offset with
  | nil =>
    cases h
    rfl
  | cons x ts ih =>
    rw [takes] at h
    split at h
    · cases h
    · rename_i u iov₁ skb₁ hcopy
      have hfirst := (skbCopyDatagramIovec_dataOff hcopy m).1
      have hlater := ih h
      omega

/-- A take that begins inside a fragment drops bytes of it that were taken before. -/
theorem takes_inside {ts us : List (Bool × Nat)} {x : Bool × Nat} {out chains : List Iovec}
    {iov : Iovec} {offset : Nat} {done rest : List Frag}
    (h : takes s skb out iov offset (ts ++ x :: us) = some (t, chains))
    (hheadlen : skb.headlen = 0) (hfrags : skb.frags = done ++ f :: rest)
    (hsmall : f.pageOffset + f.size < 2 ^ 16)
    (hin : (done.map Frag.size).sum < offset + (ts.map Prod.snd).sum)
    (hout : offset + (ts.map Prod.snd).sum < (done.map Frag.size).sum + f.size) :
    (s.heap f.mbuf).dataOff + f.pageOffset < (t.heap f.mbuf).dataOff := by
  induction ts generalizing s skb out iov offset with
  | nil =>
    rw [map_nil, sum_nil, Nat.add_zero] at hin hout
    rw [nil_append, takes] at h
    split at h
    · cases h
    · rename_i u iov₁ skb₁ hcopy
      have hlater := takes_dataOff_le h f.mbuf
      unfold skbCopyDatagramIovec at hcopy
      split at hcopy
      · cases hcopy
      · rename_i m' hadj
        have hoff := adj_dataOff hadj
        dsimp only at hcopy
        rw [if_neg (by omega)] at hcopy
        obtain ⟨⟨v, iov₂⟩, hloop, heq⟩ := Option.map_eq_some_iff.mp hcopy
        cases heq
        have hinside := takeFrags_inside hloop hfrags hsmall (by omega) (by omega)
        have hopened :
            (s.heap f.mbuf).dataOff ≤ (update s.heap skb.headerMbuf m' f.mbuf).dataOff := by
          rw [update_apply]
          split <;> simp_all
        dsimp only at hinside hlater
        omega
  | cons y ts ih =>
    rw [map_cons, sum_cons] at hin hout
    rw [cons_append, takes] at h
    split at h
    · cases h
    · rename_i u iov₁ skb₁ hcopy
      obtain ⟨hfirst, rfl⟩ := skbCopyDatagramIovec_dataOff hcopy f.mbuf
      have hlater := ih h hheadlen hfrags (by omega) (by omega)
      omega

/-- What is delivered is still at its place. -/
theorem Delivered.dataOff_le {ts : List (Bool × Nat)} {chains : List Iovec}
    (h : Delivered s skb ts) (htakes : takes s skb [] ⟨[], 0⟩ 0 ts = some (t, chains))
    (hf : f ∈ skb.pieces s.heap) (hpos : 0 < f.size) :
    (t.heap f.mbuf).dataOff ≤ (s.heap f.mbuf).dataOff + f.pageOffset := by
  obtain ⟨t', chains', htakes', hbytes, -⟩ := h
  rw [htakes] at htakes'
  cases htakes'
  have hfirst : (f.mbuf, (s.heap f.mbuf).dataOff + f.pageOffset,
      (s.heap f.mbuf).buf[(s.heap f.mbuf).dataOff + f.pageOffset]?) ∈
      (chains.flatMap Iovec.segs).flatMap fun m =>
        placed t.heap m (t.heap m).dataOff (t.heap m).dataLen := by
    rw [hbytes]
    exact mem_flatMap.mpr ⟨f, hf, mem_placed.mpr ⟨_, le_rfl, by omega, rfl⟩⟩
  obtain ⟨m, -, hmem⟩ := mem_flatMap.mp hfirst
  obtain ⟨i, hi, -, heq⟩ := mem_placed.mp hmem
  simp only [Prod.mk.injEq] at heq
  obtain ⟨rfl, rfl, -⟩ := heq
  exact hi

/-! ## Splits -/

/-- A position in the fragments is between two of them or inside one. -/
theorem exists_boundary_or_inside (frags : List Frag) (n : Nat)
    (hn : n ≤ (frags.map Frag.size).sum) :
    (∃ done rest, frags = done ++ rest ∧ (done.map Frag.size).sum = n) ∨
      ∃ done f rest, frags = done ++ f :: rest ∧ (done.map Frag.size).sum < n ∧
        n < (done.map Frag.size).sum + f.size := by
  induction frags generalizing n with
  | nil => exact .inl ⟨[], [], rfl, (Nat.le_zero.mp hn).symm⟩
  | cons g frags ih =>
    rw [map_cons, sum_cons] at hn
    rcases Nat.eq_zero_or_pos n with rfl | hpos
    · exact .inl ⟨[], g :: frags, rfl, rfl⟩
    · by_cases hg : n < g.size
      · exact .inr ⟨[], g, frags, rfl, by simpa using hpos, by simpa using hg⟩
      · rcases ih (n - g.size) (by omega) with
          ⟨done, rest, rfl, hsum⟩ | ⟨done, f, rest, rfl, hin, hout⟩
        · exact .inl ⟨g :: done, rest, rfl, by rw [map_cons, sum_cons]; omega⟩
        · exact .inr ⟨g :: done, f, rest, rfl, by rw [map_cons, sum_cons]; omega,
            by rw [map_cons, sum_cons]; omega⟩

/-- Positive lengths that begin nowhere inside a fragment cover runs of whole fragments. -/
theorem exists_runs (frags : List Frag) (lens : List Nat) (hpos : ∀ len ∈ lens, 0 < len)
    (hsum : lens.sum = (frags.map Frag.size).sum) (hsizes : ∀ f ∈ frags, 0 < f.size)
    (hcuts : ∀ ls len ls', lens = ls ++ len :: ls' → ∀ done f rest, frags = done ++ f :: rest →
      ¬ ((done.map Frag.size).sum < ls.sum ∧ ls.sum < (done.map Frag.size).sum + f.size)) :
    ∃ runs : List (List Frag), runs.flatten = frags ∧ (∀ run ∈ runs, run ≠ []) ∧
      lens = runs.map fun run => (run.map Frag.size).sum := by
  induction lens generalizing frags with
  | nil =>
    cases frags with
    | nil => exact ⟨[], rfl, by simp, rfl⟩
    | cons f frags =>
      have := hsizes f mem_cons_self
      simp at hsum
      omega
  | cons len lens ih =>
    obtain ⟨hlen, hpos⟩ := forall_mem_cons.mp hpos
    rw [sum_cons] at hsum
    rcases exists_boundary_or_inside frags len (by omega) with
      ⟨run, rest, rfl, hrun⟩ | ⟨done, f, rest, hfrags, hin, hout⟩
    · rw [map_append, sum_append] at hsum
      obtain ⟨runs, hflat, hruns, hlens⟩ := ih rest hpos (by omega)
        (fun f hf => hsizes f (mem_append_right _ hf)) (by
          intro ls l ls' hls done f rest' hrest hinside
          refine hcuts (len :: ls) l ls' (by rw [hls]; rfl) (run ++ done) f rest'
            (by rw [hrest, append_assoc]) ?_
          rw [map_append, sum_append, sum_cons]
          omega)
      refine ⟨run :: runs, by rw [flatten_cons, hflat], ?_, by rw [map_cons, hrun, hlens]⟩
      refine forall_mem_cons.mpr ⟨?_, hruns⟩
      rintro rfl
      simp at hrun
      omega
    · cases lens with
      | nil =>
        rw [hfrags, map_append, sum_append, map_cons, sum_cons, sum_nil] at hsum
        omega
      | cons l ls =>
        exact absurd ⟨by simpa using hin, by simpa using hout⟩
          (hcuts [len] l ls rfl done f rest hfrags)

theorem Delivered.whole {ts : List (Bool × Nat)} (h : Delivered s skb ts)
    (hwf : skb.WellFormed s) (hsplit : skb.Split (ts.map Prod.snd)) :
    skb.Whole (ts.map Prod.snd) := by
  obtain ⟨t, chains, htakes, -, -⟩ := id h
  have htotal := hsplit.total
  unfold Paged.Whole
  split
  · rename_i hheadlen
    have hpieces : skb.pieces s.heap = skb.frags := by
      rw [Paged.pieces, if_pos hheadlen, nil_append]
    rw [hheadlen, Nat.zero_add] at htotal
    refine exists_runs skb.frags _ hsplit.pos htotal (fun f hf => (hwf.fits f hf).1) ?_
    rintro ls len ls' hlens done f rest hfrags ⟨hin, hout⟩
    obtain ⟨us, xs, rfl, rfl, hxs⟩ := map_eq_append_iff.mp hlens
    obtain ⟨x, vs, rfl, -, -⟩ := map_eq_cons_iff.mp hxs
    have hf : f ∈ skb.frags := by
      rw [hfrags]
      exact mem_append_right _ mem_cons_self
    obtain ⟨hpos, hfits⟩ := hwf.fits f hf
    have hsmall := hwf.small f.mbuf (mem_cons_of_mem _ (mem_map_of_mem hf))
    have hdropped := takes_inside htakes hheadlen hfrags (by omega) (by omega) (by omega)
    have hkept := h.dataOff_le htakes (hpieces ▸ hf) hpos
    omega
  · rename_i hheadlen
    match ts with
    | [] =>
      simp at htotal
      omega
    | [x] => simpa using htotal
    | x :: y :: us =>
      exfalso
      have hx := hsplit.pos x.2 mem_cons_self
      have hlinear : skb.linear s.heap ∈ skb.pieces s.heap := by
        rw [Paged.pieces, if_neg hheadlen]
        exact mem_append_left _ (mem_singleton_self _)
      obtain ⟨hpos, hfits⟩ := hwf.pieces_fit hlinear
      have hkept := h.dataOff_le htakes hlinear hpos
      rw [takes] at htakes
      split at htakes
      · cases htakes
      rename_i u iov₁ skb₁ hcopy
      obtain ⟨hfirst, rfl⟩ := skbCopyDatagramIovec_dataOff hcopy skb.headerMbuf
      rw [takes] at htakes
      split at htakes
      · cases htakes
      rename_i v iov₂ skb₂ hcopy'
      obtain ⟨hsecond, -⟩ := skbCopyDatagramIovec_dataOff hcopy' skb.headerMbuf
      have hlater := takes_dataOff_le htakes skb.headerMbuf
      dsimp only [Paged.linear] at hpos hfits hkept
      rw [if_pos rfl] at hfirst hsecond
      have hge := hwf.data_ge
      have hsmall := hwf.small skb.headerMbuf mem_cons_self
      -- The second take moves the header's data past what the first one handed over.
      dsimp only [toUInt16] at hfirst hsecond
      omega

/-- The takes of a split deliver the payload exactly where they are whole and the data of every mbuf
ends with its part of the payload. -/
theorem takes_delivered_iff (s : State) (skb : Paged) (ts : List (Bool × Nat))
    (hwf : skb.WellFormed s) (hsplit : skb.Split (ts.map Prod.snd)) :
    Delivered s skb ts ↔ skb.Whole (ts.map Prod.snd) ∧
      ∀ f ∈ skb.pieces s.heap, f.pageOffset + f.size = (s.heap f.mbuf).dataLen := by
  constructor
  · intro h
    have hwhole := h.whole hwf hsplit
    exact ⟨hwhole, (hwhole.delivered_iff hwf).mp h⟩
  · rintro ⟨hwhole, hends⟩
    exact (hwhole.delivered_iff hwf).mpr hends

def twoBytes : State := ⟨fun _ => ⟨[1, 2], 0, 2, 2⟩, fun _ => 1⟩

theorem takes_delivered_two :
    Delivered twoBytes ⟨2, 0, 0, [⟨0, 0, 2⟩, ⟨1, 1, 1⟩]⟩ [(false, 2), (true, 1)] :=
  (takes_delivered_iff twoBytes ⟨2, 0, 0, [⟨0, 0, 2⟩, ⟨1, 1, 1⟩]⟩ [(false, 2), (true, 1)]
    ⟨by decide, by decide, by decide, by decide, by decide, by decide⟩
    ⟨by decide, by decide⟩).mpr ⟨by
      rw [Paged.Whole, if_pos rfl]
      exact ⟨[[⟨0, 0, 2⟩], [⟨1, 1, 1⟩]], rfl, by decide, rfl⟩, by decide⟩

theorem split_take_lost :
    (takes twoBytes ⟨0, 0, 2, []⟩ [] ⟨[], 0⟩ 0 [(false, 1), (false, 1)]).map
        (fun r => (r.2.map Iovec.segs, (r.1.heap 0).dataLen, r.1.refcnt 0)) =
      some ([[0]], 0, 3) ∧
      ¬ Delivered twoBytes ⟨0, 0, 2, []⟩ [(false, 1), (false, 1)] := by
  have hrun : (takes twoBytes ⟨0, 0, 2, []⟩ [] ⟨[], 0⟩ 0 [(false, 1), (false, 1)]).map
      (fun r => (r.2.map Iovec.segs, (r.1.heap 0).dataLen, r.1.refcnt 0)) =
    some ([[0]], 0, 3) := by decide
  refine ⟨hrun, ?_⟩
  rintro ⟨t, chains, htakes, -, hrefs⟩
  rw [htakes] at hrun
  simp only [Option.map_some, Option.some.injEq, Prod.mk.injEq] at hrun
  have h := hrefs 0 (by decide)
  rw [flatMap_def, hrun.1, hrun.2.2] at h
  exact absurd h (by decide)

end LightStack.Rx.Handover.Partial
