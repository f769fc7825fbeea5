import LightStack.Rx.Release.Model

/-!
# Every received buffer is released once

`Holds s left chains` says that the ring leads to `chains` and the shadow to `left`.
-/

namespace LightStack.Rx.Release

open Lib Chain Function List

/-! ## Releasing along a path -/

variable {fuel mbuf : Nat} {ring : List Nat} {totalLen currLen : Int}

namespace Heap

variable {h : Heap} {m : Nat} {l : List Nat}

def freeAll (h : Heap) (l : List Nat) : Heap := l.foldl freeSeg h

theorem released_freeAll : (h.freeAll l).released m = h.released m + l.count m := by
  induction l generalizing h with
  | nil => rfl
  | cons m' l ih =>
    rw [freeAll, foldl_cons, ← freeAll, ih, count_cons]
    by_cases hm : m' = m
    · subst hm
      simp [freeSeg]
      omega
    · simp [freeSeg, hm, Ne.symm hm]

theorem next_freeAll (hm : m ∉ l) : (h.freeAll l).next m = h.next m := by
  induction l generalizing h with
  | nil => rfl
  | cons m' l ih =>
    rw [freeAll, foldl_cons, ← freeAll, ih (not_mem_of_not_mem_cons hm)]
    exact update_of_ne (ne_of_not_mem_cons hm) ..

theorem freeAll_append (l l' : List Nat) : h.freeAll (l ++ l') = (h.freeAll l).freeAll l' :=
  foldl_append ..

theorem freeUntil_eq {stop p q : Option Nat} (hpath : Path h.next p l q)
    (hnodup : l.Nodup) (hend : q = none ∨ q = stop) (hstop : ∀ m ∈ l, stop ≠ some m)
    (hfuel : l.length ≤ fuel) : freeUntil stop fuel h p = h.freeAll l := by
  induction l generalizing h p fuel with
  | nil =>
    obtain rfl := path_nil.mp hpath
    cases fuel with
    | zero => rfl
    | succ fuel =>
      cases p with
      | none => rfl
      | some m =>
        rcases hend with hend | rfl
        · cases hend
        · exact if_pos rfl
  | cons m l ih =>
    obtain ⟨rfl, hrest⟩ := hpath
    obtain ⟨hm, hnodup⟩ := nodup_cons.mp hnodup
    cases fuel with
    | zero => simp at hfuel
    | succ fuel =>
      rw [freeUntil, if_neg (hstop m (mem_cons_self ..))]
      refine (ih (h := h.freeSeg m) (hrest.update hm) hnodup ?_ (by simpa using hfuel)).trans rfl
      exact fun m' hm' => hstop m' (mem_cons_of_mem _ hm')

theorem pktmbufFree_eq {p : Option Nat} (hpath : Path h.next p l none)
    (hnodup : l.Nodup) (hfuel : l.length ≤ fuel) : pktmbufFree fuel h p = h.freeAll l :=
  freeUntil_eq hpath hnodup (.inl rfl) (by simp) hfuel

theorem path_link (chain : List (Nat × Nat)) (hnodup : (chain.map Prod.fst).Nodup) :
    Path (h.link chain).next (chain.head?.map Prod.fst) (chain.map Prod.fst) none := by
  induction chain with
  | nil => rfl
  | cons x rest ih =>
    obtain ⟨hx, hnodup⟩ := nodup_cons.mp hnodup
    refine ⟨rfl, ?_⟩
    simp only [link, setDataLen, setNext, update_self]
    exact (ih hnodup).update hx

theorem next_link {chain : List (Nat × Nat)} (hm : m ∉ chain.map Prod.fst) :
    (h.link chain).next m = h.next m := by
  induction chain with
  | nil => rfl
  | cons x rest ih =>
    have hne : m ≠ x.1 := ne_of_not_mem_cons hm
    simp only [link, setDataLen, setNext, update_of_ne hne]
    exact ih (not_mem_of_not_mem_cons hm)

theorem released_link (chain : List (Nat × Nat)) : (h.link chain).released = h.released := by
  induction chain with
  | nil => rfl
  | cons x rest ih => exact ih

theorem path_setNext_last {p q : Option Nat} {l' : List Nat}
    (hpath : Path h.next (some m) (m :: l) none) (hpath' : Path h.next p l' q)
    (hnodup : (m :: l ++ l').Nodup) (hfuel : (m :: l).length ≤ fuel) :
    Path (h.setNext (last h.next fuel m) p).next (some m) (m :: l ++ l') q ∧
      last h.next fuel m ∈ m :: l := by
  obtain ⟨front, z, hz⟩ : ∃ front z, m :: l = front ++ [z] :=
    ⟨_, _, (dropLast_append_getLast (cons_ne_nil m l)).symm⟩
  rw [hz] at hpath hnodup hfuel ⊢
  have hlast : last h.next fuel m = z := last_eq hpath (by simp at hfuel; omega)
  obtain ⟨hleft, hright, hdisjoint⟩ := nodup_append.mp hnodup
  have hfront : z ∉ front := fun hmem => (nodup_append.mp hleft).2.2 z hmem z (by simp) rfl
  have hbehind : z ∉ l' := fun hmem => hdisjoint z (by simp) z hmem rfl
  rw [hlast]
  exact ⟨(hpath.update_last hfront).append (hpath'.update hbehind), by simp⟩

end Heap

inductive Leftover (h : Heap) : Option Nat → Option Nat → List Nat → Prop where
  | nothing : Leftover h none none []
  | cut {m : Nat} {p : Option Nat} {l : List Nat} (hcut : h.next m = none)
      (hpath : Path h.next p l none) : Leftover h (some m) p (m :: l)
  | whole {m : Nat} {p : Option Nat} {l l' : List Nat}
      (hpath : Path h.next (h.next m) (l ++ l') none) (hbehind : Path h.next p l' none) :
      Leftover h (some m) p (m :: (l ++ l'))

namespace Leftover

variable {h h' : Heap} {p q : Option Nat} {left : List Nat}

theorem congr (hleft : Leftover h p q left) (hsame : ∀ m ∈ left, h'.next m = h.next m) :
    Leftover h' p q left := by
  cases hleft with
  | nothing => exact .nothing
  | @cut m p l hcut hpath =>
    refine .cut ?_ (hpath.congr fun m' hm' => hsame m' (mem_cons_of_mem _ hm'))
    rw [hsame m (mem_cons_self ..), hcut]
  | @whole m p l l' hpath hbehind =>
    refine .whole ?_ (hbehind.congr fun m' hm' => hsame m' ?_)
    · rw [hsame m (mem_cons_self ..)]
      exact hpath.congr fun m' hm' => hsame m' (mem_cons_of_mem _ hm')
    · exact mem_cons_of_mem _ (mem_append_right _ hm')

theorem eq_nil (hleft : Leftover h none q left) : q = none ∧ left = [] := by
  cases hleft
  exact ⟨rfl, rfl⟩

theorem mem (hleft : Leftover h p q left) {m : Nat} (hp : p = some m) : m ∈ left := by
  subst hp
  cases hleft <;> exact mem_cons_self ..

theorem path (hleft : Leftover h p q left) {m : Nat} (hp : p = some m)
    (hnext : h.next m = none ∨ h.next m = q) : ∃ l, left = m :: l ∧ Path h.next q l none := by
  subst hp
  cases hleft with
  | cut _ hpath => exact ⟨_, rfl, hpath⟩
  | @whole _ _ l l' hpath hbehind =>
    refine ⟨_, rfl, ?_⟩
    rcases hnext with hnext | hnext
    · rw [hnext] at hpath
      obtain ⟨rfl, rfl⟩ := append_eq_nil_iff.mp hpath.eq_nil
      exact hbehind
    · rwa [hnext] at hpath

end Leftover

structure Hand (s : State) (hand left : List Nat) (chains : List (List Nat)) : Prop where
  fault : s.fault = false
  closed : s.closed = false
  ring : List.Forall₂ (fun m l => Path s.heap.next (some m) l none) s.rxRing chains
  leftover : Leftover s.heap s.shadow s.shadowNext left
  count : ∀ m, s.heap.released m + (hand ++ left ++ chains.flatten).count m = s.given.count m
  nodup : s.given.Nodup

abbrev Holds (s : State) (left : List Nat) (chains : List (List Nat)) : Prop :=
  Hand s [] left chains

theorem ring_congr {h h' : Heap} {chains : List (List Nat)}
    (hring : List.Forall₂ (fun m l => Path h.next (some m) l none) ring chains)
    (hsame : ∀ m ∈ chains.flatten, h'.next m = h.next m) :
    List.Forall₂ (fun m l => Path h'.next (some m) l none) ring chains := by
  induction hring with
  | nil => exact .nil
  | cons hpath _ ih =>
    refine .cons (hpath.congr fun m hm => hsame m ?_) (ih fun m hm => hsame m ?_)
    · exact mem_append_left _ hm
    · exact mem_append_right _ hm

namespace Hand

variable {s : State} {hand left : List Nat} {chains : List (List Nat)}

section

variable (h : Hand s hand left chains)

include h

theorem all_nodup : (hand ++ left ++ chains.flatten).Nodup := by
  refine nodup_iff_count_le_one.mpr fun m => ?_
  have hcount := h.count m
  have hone := nodup_iff_count_le_one.mp h.nodup m
  omega

theorem length_le : (hand ++ left ++ chains.flatten).length ≤ s.fuel := by
  refine (subperm_ext_iff.mpr fun m _ => ?_).length_le
  have hcount := h.count m
  omega

theorem hand_length_le : hand.length ≤ s.fuel := by
  have hle := h.length_le
  simp only [length_append] at hle
  omega

theorem hand_nodup : hand.Nodup :=
  (nodup_append.mp (nodup_append.mp h.all_nodup).1).1

theorem not_mem_left {m : Nat} (hm : m ∈ hand) : m ∉ left :=
  fun hmem => (nodup_append.mp (nodup_append.mp h.all_nodup).1).2.2 m hm m hmem rfl

theorem not_mem_chains {m : Nat} (hm : m ∈ hand) : m ∉ chains.flatten :=
  fun hmem => (nodup_append.mp h.all_nodup).2.2 m (mem_append_left _ hm) m hmem rfl

theorem release {p q : Option Nat} (hpath : Path s.heap.next p hand q)
    (hend : q = none ∨ q = s.shadow) : Holds (releaseRxBuffer s p) left chains := by
  have hstop : ∀ m ∈ hand, s.shadow ≠ some m :=
    fun m hm hshadow => h.not_mem_left hm (h.leftover.mem hshadow)
  have hfree : s.heap.freeUntil s.shadow s.fuel p = s.heap.freeAll hand :=
    Heap.freeUntil_eq hpath h.hand_nodup hend hstop h.hand_length_le
  refine ⟨h.fault, h.closed, ?_, ?_, fun m => ?_, h.nodup⟩
  · refine ring_congr h.ring fun m hm => ?_
    rw [releaseRxBuffer, hfree]
    exact Heap.next_freeAll fun hmem => h.not_mem_chains hmem hm
  · refine h.leftover.congr fun m hm => ?_
    rw [releaseRxBuffer, hfree]
    exact Heap.next_freeAll fun hmem => h.not_mem_left hmem hm
  · have hcount := h.count m
    simp only [releaseRxBuffer, hfree, Heap.released_freeAll, count_append, count_nil] at hcount ⊢
    omega

end

end Hand

variable {s : State}

theorem passSegments_spec {h : Heap} {l : List Nat} (prev : Option Nat) {p : Option Nat}
    (hpath : Path h.next p l none) (hfuel : l.length ≤ fuel) (hlt : currLen < totalLen) :
    ∃ currLen' prev' passed rest,
      passSegments h totalLen fuel currLen prev p = (currLen', prev', rest.head?) ∧
        l = passed ++ rest ∧ Path h.next p passed rest.head? ∧ currLen' < totalLen := by
  induction l generalizing currLen prev p fuel with
  | nil =>
    obtain rfl := path_nil.mp hpath
    cases fuel <;> exact ⟨currLen, prev, [], [], rfl, rfl, rfl, hlt⟩
  | cons m l ih =>
    obtain ⟨rfl, hrest⟩ := hpath
    cases fuel with
    | zero => simp at hfuel
    | succ fuel =>
      by_cases hmore : toInt32 (h.dataLen m + currLen) < totalLen
      · have hlt' : toInt32 (currLen + h.dataLen m) < totalLen := by rwa [Int.add_comm]
        obtain ⟨currLen', prev', passed, rest, heq, rfl, hpassed, hless⟩ :=
          ih (some m) hrest (by simpa using hfuel) hlt'
        refine ⟨currLen', prev', m :: passed, rest, ?_, rfl, ⟨rfl, hpassed⟩, hless⟩
        rw [passSegments, if_pos hmore, heq]
      · refine ⟨currLen, prev, [], m :: l, ?_, rfl, rfl, hlt⟩
        rw [passSegments, if_neg hmore]
        rfl

structure Reads (s t : State) (mbuf : Nat) (l out rest : List Nat) : Prop where
  split : l = out ++ rest
  path : ∃ q, Path t.heap.next (some mbuf) out q ∧ (q = none ∨ q = t.shadow)
  leftover : Leftover t.heap t.shadow t.shadowNext rest
  frame : ∀ m, m ∉ l → t.heap.next m = s.heap.next m
  same : t.heap.released = s.heap.released ∧ t.rxRing = s.rxRing ∧ t.given = s.given ∧
    t.fault = s.fault ∧ t.closed = s.closed

theorem cutAtPrev_of_lt {h : Heap} (hlt : currLen < totalLen)
    (prev : Option Nat) : cutAtPrev h currLen totalLen prev = h :=
  if_neg (Int.ne_of_lt hlt)

theorem reads_keepPart {tmp : Nat} {passed behind : List Nat}
    (hpassed : Path s.heap.next (some mbuf) passed (some tmp))
    (hbehind : Path s.heap.next (s.heap.next tmp) behind none)
    (hnodup : (passed ++ tmp :: behind).Nodup) :
    Reads s { keepPart s tmp currLen totalLen with
      heap := (keepPart s tmp currLen totalLen).heap.setNext tmp none } mbuf
      (passed ++ tmp :: behind) passed (tmp :: behind) := by
  obtain ⟨-, hright, hdisjoint⟩ := nodup_append.mp hnodup
  have htmp : tmp ∉ passed := fun hmem => hdisjoint tmp hmem tmp (mem_cons_self ..) rfl
  refine ⟨rfl, ⟨some tmp, hpassed.update htmp, .inr rfl⟩, ?_, fun m hm => ?_,
    rfl, rfl, rfl, rfl, rfl⟩
  · exact .cut (by simp [Heap.setNext]) (hbehind.update (nodup_cons.mp hright).1)
  · refine update_of_ne ?_ ..
    rintro rfl
    exact hm (by simp)

theorem reads_keepBehind {tmp : Nat} {passed behind : List Nat} (hshadow : s.shadow = none)
    (hshadowNext : s.shadowNext = none) (hpassed : Path s.heap.next (some mbuf) passed (some tmp))
    (hbehind : Path s.heap.next (s.heap.next tmp) behind none)
    (hnodup : (passed ++ tmp :: behind).Nodup) :
    Reads s { keepBehind s tmp with heap := (keepBehind s tmp).heap.setNext tmp none } mbuf
      (passed ++ tmp :: behind) (passed ++ [tmp]) behind := by
  obtain ⟨-, hright, hdisjoint⟩ := nodup_append.mp hnodup
  have htmp : tmp ∉ passed := fun hmem => hdisjoint tmp hmem tmp (mem_cons_self ..) rfl
  have htmp' : tmp ∉ behind := (nodup_cons.mp hright).1
  have hheap : (keepBehind s tmp).heap = s.heap := by
    unfold keepBehind
    split <;> rfl
  have hwhole : Path s.heap.next (some mbuf) (passed ++ [tmp]) (s.heap.next tmp) :=
    hpassed.append ⟨rfl, rfl⟩
  refine ⟨by simp, ⟨none, ?_, .inl rfl⟩, ?_, fun m hm => ?_, ?_⟩
  · rw [hheap]
    exact hwhole.update_last htmp
  · cases behind with
    | nil =>
      rw [path_nil] at hbehind
      simp only [keepBehind, hbehind, hshadow, hshadowNext]
      exact .nothing
    | cons m behind =>
      obtain ⟨hm, hrest⟩ := hbehind
      simp only [keepBehind, hm]
      refine .whole (l := []) ?_ ((hrest.congr fun _ _ => rfl).update ?_)
      · have hne : m ≠ tmp := fun heq => htmp' (heq ▸ mem_cons_self ..)
        simp only [Heap.setNext, update_of_ne hne]
        exact hrest.update fun hmem => htmp' (mem_cons_of_mem _ hmem)
      · exact fun hmem => htmp' (mem_cons_of_mem _ hmem)
  · rw [hheap]
    refine update_of_ne ?_ ..
    rintro rfl
    exact hm (by simp)
  · unfold keepBehind
    split <;> exact ⟨rfl, rfl, rfl, rfl, rfl⟩

theorem tryReadExactAmount_spec {l : List Nat} (hshadow : s.shadow = none)
    (hshadowNext : s.shadowNext = none) (hpath : Path s.heap.next (some mbuf) l none)
    (hnodup : l.Nodup) (hfuel : l.length ≤ s.fuel) (hpos : 0 < totalLen) :
    ((tryReadExactAmount s mbuf totalLen).2 < totalLen →
      (tryReadExactAmount s mbuf totalLen).1 = s) ∧
    ∃ out rest, Reads s (tryReadExactAmount s mbuf totalLen).1 mbuf l out rest := by
  obtain ⟨currLen, prev, passed, rest, heq, rfl, hpassed, hless⟩ :=
    passSegments_spec none hpath hfuel hpos
  unfold tryReadExactAmount
  cases rest with
  | nil =>
    simp only [heq, List.head?_nil]
    refine ⟨fun _ => trivial, passed, [], rfl, ⟨none, hpassed, .inl rfl⟩, ?_, fun _ _ => rfl,
      rfl, rfl, rfl, rfl, rfl⟩
    rw [hshadow, hshadowNext]
    exact .nothing
  | cons tmp behind =>
    simp only [List.head?_cons] at heq hpassed
    have hbehind : Path s.heap.next (s.heap.next tmp) behind none := by
      obtain ⟨r, hpassed', hr, hrest⟩ := path_append.mp hpath
      exact hrest
    simp only [heq, cutAtPrev_of_lt hless]
    refine ⟨fun hlt => absurd hlt (Int.lt_irrefl _), ?_⟩
    split
    · exact ⟨passed, tmp :: behind, reads_keepPart hpassed hbehind hnodup⟩
    · exact ⟨passed ++ [tmp], behind, reads_keepBehind hshadow hshadowNext hpassed hbehind hnodup⟩

/-! ## The calls -/

namespace Hand

variable {s t : State} {hand left : List Nat} {chains : List (List Nat)}

theorem reads {front l out rest : List Nat} (h : Hand s (front ++ l) [] chains)
    (hreads : Reads s t mbuf l out rest) : Hand t (front ++ out) rest chains := by
  obtain ⟨hreleased, hring, hgiven, hfault, hclosed⟩ := hreads.same
  refine ⟨hfault ▸ h.fault, hclosed ▸ h.closed, ?_, hreads.leftover, fun m => ?_, hgiven ▸ h.nodup⟩
  · rw [hring]
    refine ring_congr h.ring fun m hm => hreads.frame m fun hmem => ?_
    exact h.not_mem_chains (mem_append_right _ hmem) hm
  · have hcount := h.count m
    rw [hreads.split] at hcount
    rw [hreleased, hgiven]
    simpa [append_assoc] using hcount

theorem dequeue (h : Hand s hand [] chains) (hring : s.rxRing = mbuf :: ring) :
    ∃ l chains', chains = l :: chains' ∧ Path s.heap.next (some mbuf) l none ∧
      Hand { s with rxRing := ring } (hand ++ l) [] chains' := by
  have hall := h.ring
  rw [hring] at hall
  cases hall with
  | @cons _ l _ chains' hpath hrest =>
    refine ⟨l, chains', rfl, hpath, { h with ring := hrest, count := fun m => ?_ }⟩
    have hcount := h.count m
    simpa [append_assoc] using hcount

theorem linkBehind {m : Nat} {l l' : List Nat} {p q : Option Nat}
    (h : Hand s (m :: l ++ l') left chains) (hpath : Path s.heap.next (some m) (m :: l) none)
    (hpath' : Path s.heap.next p l' q) :
    Hand (linkBehind s m p) (m :: l ++ l') left chains ∧
      Path (Release.linkBehind s m p).heap.next (some m) (m :: l ++ l') q := by
  have hfuel : (m :: l).length ≤ s.fuel := by
    have hle := h.hand_length_le
    simp only [length_append] at hle
    omega
  obtain ⟨hlinked, hlast⟩ := Heap.path_setNext_last hpath hpath' h.hand_nodup hfuel
  have hmem : last s.heap.next s.fuel m ∈ m :: l ++ l' := mem_append_left _ hlast
  refine ⟨⟨h.fault, h.closed, ?_, ?_, h.count, h.nodup⟩, hlinked⟩
  · refine ring_congr h.ring fun m' hm' => update_of_ne ?_ ..
    rintro rfl
    exact h.not_mem_chains hmem hm'
  · refine h.leftover.congr fun m' hm' => update_of_ne ?_ ..
    rintro rfl
    exact h.not_mem_left hmem hm'

theorem recvShadow {m : Nat} {l : List Nat} (h : Hand s (m :: l) [] chains)
    (hpath : Path s.heap.next (some m) (m :: l) none) (hshadow : s.shadow = none)
    (hshadowNext : s.shadowNext = none) {tempBytes : Int} (hsmall : tempBytes < 2 ^ 31) :
    ∃ left chains', Holds (releaseRxBuffer (recvShadow s m tempBytes) (some m)) left chains' := by
  unfold Release.recvShadow
  split
  · rename_i hpos
    obtain ⟨hwhole, out, rest, hreads⟩ :=
      tryReadExactAmount_spec hshadow hshadowNext hpath h.hand_nodup h.hand_length_le hpos
    dsimp only
    split
    · rename_i hshort
      rw [hwhole hshort.2]
      unfold readMore
      split
      · exact ⟨[], chains, h.release hpath (.inl rfl)⟩
      · rename_i mbuf2 ring hring
        obtain ⟨l2, chains', rfl, hpath2, hhand⟩ := h.dequeue hring
        have hnodup2 : l2.Nodup := (nodup_append.mp hhand.hand_nodup).2.1
        have hfuel2 : l2.length ≤ s.fuel := by
          have hle := hhand.hand_length_le
          simp only [length_append] at hle
          exact Nat.le_trans (by omega) hle
        have hpos2 : 0 < toInt32 (tempBytes - (tryReadExactAmount s m tempBytes).2) := by
          rw [toInt32_of_lt] <;> omega
        obtain ⟨-, out2, rest2, hreads2⟩ :=
          tryReadExactAmount_spec (s := { s with rxRing := ring }) hshadow hshadowNext hpath2
            hnodup2 hfuel2 hpos2
        have hread := hhand.reads hreads2
        obtain ⟨q, hpathq, hend⟩ := hreads2.path
        have hframe : Path (tryReadExactAmount { s with rxRing := ring } mbuf2
            (toInt32 (tempBytes - (tryReadExactAmount s m tempBytes).2))).1.heap.next
            (some m) (m :: l) none := by
          refine hpath.congr fun m' hm' => hreads2.frame m' fun hmem => ?_
          exact (nodup_append.mp hhand.hand_nodup).2.2 m' hm' m' hmem rfl
        obtain ⟨hlinked, hpathl⟩ := hread.linkBehind hframe hpathq
        exact ⟨rest2, chains', hlinked.release hpathl hend⟩
    · obtain ⟨q, hpathq, hend⟩ := hreads.path
      have hread : Hand _ ([] ++ out) rest chains := h.reads hreads
      exact ⟨rest, chains, hread.release hpathq hend⟩
  · cases hring : s.rxRing with
    | nil =>
      have hsame : Hand { s with rxRing := [] } (m :: l ++ []) [] chains := by
        rw [append_nil]
        exact { h with ring := hring ▸ h.ring }
      obtain ⟨hlinked, hpathl⟩ := hsame.linkBehind (p := none) hpath rfl
      exact ⟨[], chains, hlinked.release hpathl (.inl rfl)⟩
    | cons mbuf2 ring =>
      obtain ⟨l2, chains', rfl, hpath2, hhand⟩ := h.dequeue hring
      obtain ⟨hlinked, hpathl⟩ := hhand.linkBehind hpath hpath2
      exact ⟨[], chains', hlinked.release hpathl (.inl rfl)⟩

end Hand

namespace Holds

variable {s t : State} {left : List Nat} {chains : List (List Nat)}

section

variable (h : Holds s left chains)

include h

theorem left_nodup : left.Nodup :=
  (nodup_append.mp h.all_nodup).1

theorem left_not_mem_chains {m : Nat} (hm : m ∈ left) : m ∉ chains.flatten :=
  fun hmem => (nodup_append.mp h.all_nodup).2.2 m hm m hmem rfl

theorem length_add_le : left.length + chains.flatten.length ≤ s.fuel := by
  simpa using h.length_le

theorem getFromShadow {m : Nat} (hshadow : s.shadow = some m)
    (hnext : s.heap.next m = none ∨ s.heap.next m = s.shadowNext) :
    ∃ l, Hand (getFromShadow s m) (m :: l) [] chains ∧
      Path (Release.getFromShadow s m).heap.next (some m) (m :: l) none := by
  obtain ⟨l, rfl, hpath⟩ := h.leftover.path hshadow hnext
  refine ⟨l, ⟨h.fault, h.closed, ?_, .nothing, ?_, h.nodup⟩, rfl, ?_⟩
  · refine ring_congr h.ring fun m' hm' => update_of_ne ?_ ..
    rintro rfl
    exact h.left_not_mem_chains (mem_cons_self ..) hm'
  · simpa [Release.getFromShadow, Heap.setNext, Heap.setDataLen] using h.count
  · simp only [Release.getFromShadow, Heap.setNext, Heap.setDataLen, update_self]
    exact hpath.update (nodup_cons.mp h.left_nodup).1

theorem recv {nbytes : Nat} (hmanageable : Manageable s (.recv nbytes)) :
    ∃ left' chains', Holds (lightRecv s nbytes) left' chains' := by
  unfold lightRecv
  split
  · rename_i m hshadow
    obtain ⟨l, hhand, hpath⟩ := h.getFromShadow hshadow (hmanageable m hshadow)
    exact hhand.recvShadow hpath rfl rfl (toInt32_lt _)
  · rename_i hshadow
    obtain ⟨hnext, rfl⟩ := (hshadow ▸ h.leftover).eq_nil
    split
    · exact ⟨[], chains, h⟩
    · rename_i mbuf ring hring
      obtain ⟨l, chains', rfl, hpath, hhand⟩ := h.dequeue hring
      dsimp only
      split
      · rename_i hpos
        obtain ⟨-, out, rest, hreads⟩ :=
          tryReadExactAmount_spec (s := { s with rxRing := ring }) hshadow hnext hpath
            hhand.hand_nodup hhand.hand_length_le hpos
        obtain ⟨q, hpathq, hend⟩ := hreads.path
        have hread : Hand _ ([] ++ out) rest chains' := hhand.reads hreads
        exact ⟨rest, chains', hread.release hpathq hend⟩
      · exact ⟨[], chains', hhand.release hpath (.inl rfl)⟩

theorem recvfrom {signalled : Bool} (hmanageable : Manageable s (.recvfrom signalled)) :
    ∃ left' chains', Holds (lightRecvfrom s signalled) left' chains' := by
  unfold lightRecvfrom
  unfold Manageable at hmanageable
  split
  · rename_i hshadow
    rw [hshadow] at hmanageable
    rw [if_pos hmanageable]
    exact ⟨left, chains, h⟩
  · rename_i m hshadow hnext
    rw [hshadow] at hmanageable
    exact absurd hnext hmanageable.2
  · rename_i m y hshadow hnext
    rw [hshadow] at hmanageable
    have hleft := h.leftover
    rw [hshadow, hnext] at hleft
    generalize hleft' : left = left' at hleft
    cases hleft with
    | cut hcut _ => exact absurd hcut hmanageable.1
    | @whole _ _ l l' hpath hbehind =>
      subst hleft'
      split
      · -- the segment is the last one, and the whole leftover is released
        have hhand : Hand { s with shadow := none, shadowNext := none, lenDelivered := 0 }
            (m :: (l ++ l')) [] chains :=
          { h with leftover := .nothing, count := by simpa using h.count }
        exact ⟨[], chains, hhand.release ⟨rfl, hpath⟩ (.inl rfl)⟩
      · rename_i z hz
        obtain ⟨l'', rfl, hrest⟩ : ∃ l'', l' = y :: l'' ∧ Path s.heap.next (some z) l'' none := by
          cases l' with
          | nil => cases hbehind
          | cons y' l'' =>
            obtain ⟨hy, hrest⟩ := hbehind
            cases hy
            exact ⟨l'', rfl, hz ▸ hrest⟩
        refine ⟨_, chains, { h with leftover := ?_ }⟩
        have hsplit : m :: (l ++ y :: l'') = m :: ((l ++ [y]) ++ l'') := by simp
        rw [hsplit, hshadow]
        refine .whole ?_ hrest
        simpa using hpath

end

theorem free_ring {h : Heap} {chains : List (List Nat)}
    (hring : List.Forall₂ (fun m l => Path h.next (some m) l none) ring chains)
    (hnodup : chains.flatten.Nodup) (hfuel : chains.flatten.length ≤ fuel) :
    ring.foldl (fun h m => h.pktmbufFree fuel (some m)) h = h.freeAll chains.flatten := by
  induction chains generalizing h ring with
  | nil =>
    cases hring
    rfl
  | cons l chains ih =>
    cases hring with
    | @cons m _ ring _ hpath hrest =>
      obtain ⟨hl, hchains, hdisjoint⟩ := nodup_append.mp hnodup
      rw [flatten_cons, length_append] at hfuel
      rw [foldl_cons, Heap.pktmbufFree_eq hpath hl (by omega), flatten_cons,
        Heap.freeAll_append]
      refine ih (ring_congr hrest fun m' hm' => Heap.next_freeAll fun hmem => ?_) hchains (by omega)
      exact hdisjoint m' hmem m' hm' rfl

theorem free_leftover {h : Heap} {p q : Option Nat} (hleft : Leftover h p q left)
    (hapart : ∀ m ∈ p, h.next m = none ∨ q = none) (hnodup : left.Nodup)
    (hfuel : left.length ≤ fuel) : (h.pktmbufFree fuel p).pktmbufFree fuel q = h.freeAll left := by
  cases hleft with
  | nothing => cases fuel <;> rfl
  | @cut m _ l hcut hpath =>
    obtain ⟨hm, hl⟩ := nodup_cons.mp hnodup
    rw [length_cons] at hfuel
    have hfirst : h.pktmbufFree fuel (some m) = h.freeAll [m] :=
      Heap.pktmbufFree_eq ⟨rfl, hcut⟩ (by simp) (by simp; omega)
    rw [hfirst, Heap.pktmbufFree_eq (l := l) ?_ hl (by omega), ← Heap.freeAll_append,
      singleton_append]
    refine hpath.congr fun m' hm' => Heap.next_freeAll ?_
    rintro hmem
    obtain rfl := mem_singleton.mp hmem
    exact hm hm'
  | @whole m _ l l' hpath hbehind =>
    have hall : Path h.next (some m) (m :: (l ++ l')) none := ⟨rfl, hpath⟩
    rw [Heap.pktmbufFree_eq hall hnodup hfuel]
    have hnone : q = none := by
      rcases hapart m rfl with hnext | hq
      · rw [hnext] at hpath
        obtain ⟨rfl, rfl⟩ := append_eq_nil_iff.mp hpath.eq_nil
        exact hbehind
      · exact hq
    subst hnone
    cases fuel <;> rfl

theorem close (h : Holds s left chains) (hmanageable : Manageable s (.close true)) (m : Nat) :
    (lightFlushRx s).heap.released m = s.given.count m := by
  have hlength := h.length_add_le
  have hnodup := (nodup_append.mp h.all_nodup).2.1
  have hheap : (lightFlushRx s).heap = s.heap.freeAll (chains.flatten ++ left) := by
    have hsame : ∀ m ∈ left, (s.heap.freeAll chains.flatten).next m = s.heap.next m :=
      fun m hm => Heap.next_freeAll (h.left_not_mem_chains hm)
    simp only [lightFlushRx]
    rw [free_ring h.ring hnodup (by omega), Heap.freeAll_append]
    refine free_leftover (h.leftover.congr hsame) (fun m hm => ?_) h.left_nodup (by omega)
    rw [hsame m (h.leftover.mem hm)]
    exact hmanageable rfl m hm
  have hcount := h.count m
  simp only [hheap, Heap.released_freeAll, count_append, count_nil] at hcount ⊢
  omega

theorem queue (h : Holds s left chains) {chain : List (Nat × Nat)}
    (hstep : queue s chain = some t) : ∃ chains', Holds t left chains' := by
  unfold Release.queue at hstep
  split at hstep
  · cases hstep
  · rename_i m len rest
    obtain ⟨⟨hnodup, hfresh⟩, rfl⟩ := of_guard hstep
    have hnew : ∀ m' ∈ left ++ chains.flatten, m' ∉ ((m, len) :: rest).map Prod.fst := by
      intro m' hm' hmem
      obtain ⟨x, hx, rfl⟩ := mem_map.mp hmem
      have hcount := h.count x.1
      have hpos := count_pos_iff.mpr hm'
      rw [nil_append] at hcount
      exact hfresh x hx (count_pos_iff.mp (by omega))
    refine ⟨chains ++ [((m, len) :: rest).map Prod.fst], h.fault, h.closed, ?_, ?_,
      fun m' => ?_, ?_⟩
    · refine rel_append (ring_congr h.ring fun m' hm' => Heap.next_link ?_)
        (.cons (Heap.path_link _ hnodup) .nil)
      exact hnew m' (mem_append_right _ hm')
    · exact h.leftover.congr fun m' hm' => Heap.next_link (hnew m' (mem_append_left _ hm'))
    · have hcount := h.count m'
      simp only [Heap.released_link, flatten_append, flatten_singleton,
        count_append, count_nil] at hcount ⊢
      omega
    · refine nodup_append.mpr ⟨h.nodup, hnodup, ?_⟩
      rintro m' hm' _ hmem rfl
      obtain ⟨x, hx, rfl⟩ := mem_map.mp hmem
      exact hfresh x hx hm'

end Holds

/-- The socket was closed, and every buffer is released. -/
structure Flushed (s : State) : Prop where
  fault : s.fault = false
  closed : s.closed = true
  rxRing : s.rxRing = []
  shadow : s.shadow = none
  released : ∀ m, s.heap.released m = s.given.count m
  nodup : s.given.Nodup

def Kept (s : State) : Prop := (∃ left chains, Holds s left chains) ∨ Flushed s

theorem Kept.step {t : State} (h : Kept s) {a : Action} (hmanageable : Manageable s a)
    (hstep : system.step s a = some t) : Kept t := by
  obtain ⟨hopen, hstep⟩ := Option.ite_none_left_eq_some.mp hstep
  rcases h with ⟨left, chains, hholds⟩ | hflushed
  · cases a with
    | queue chain => exact .inl ⟨left, hholds.queue hstep⟩
    | recv nbytes =>
      cases hstep
      exact .inl (hholds.recv hmanageable)
    | recvfrom signalled =>
      cases hstep
      exact .inl (hholds.recvfrom hmanageable)
    | close posted =>
      cases hstep
      cases posted with
      | false => exact .inl ⟨left, chains, hholds⟩
      | true =>
        exact .inr ⟨hholds.fault, rfl, rfl, rfl, hholds.close hmanageable, hholds.nodup⟩
  · exact absurd (by simp [hflushed.closed]) hopen

theorem Start.kept (h : Start s) : Kept s := by
  refine .inl ⟨[], [], h.fault_eq, h.closed_eq, ?_, ?_, ?_, ?_⟩
  · rw [h.rxRing_eq]
    exact .nil
  · rw [h.shadow_eq, h.shadowNext_eq]
    exact .nothing
  · simp [h.released_eq, h.given_eq]
  · simp [h.given_eq]

section

variable {s : State} {left : List Nat} {chains : List (List Nat)}

theorem Holds.queued_eq (h : Holds s left chains) : queued s = chains.flatten := by
  have hlength := h.length_add_le
  have hcells : ∀ {ring : List Nat} {chains : List (List Nat)},
      List.Forall₂ (fun m l => Path s.heap.next (some m) l none) ring chains →
        chains.flatten.length ≤ s.fuel →
          ring.flatMap (fun m => cells s.heap.next s.fuel (some m)) = chains.flatten := by
    intro ring chains hring hfuel
    induction hring with
    | nil => rfl
    | cons hpath _ ih =>
      rw [flatten_cons, length_append] at hfuel
      rw [flatMap_cons, flatten_cons, cells_eq hpath (by omega), ih (by omega)]
  exact hcells h.ring (by omega)

theorem Holds.unread_eq (h : Holds s left chains) : unread s = left := by
  have hlength := h.length_add_le
  have hleft := h.leftover
  unfold unread
  generalize s.shadow = p, s.shadowNext = q at hleft
  cases hleft with
  | nothing => rfl
  | @cut m _ l hcut hpath =>
    rw [length_cons] at hlength
    simp only [hcut]
    rw [cells_eq hpath (by omega)]
  | @whole m _ l l' hpath hbehind =>
    rw [length_cons] at hlength
    dsimp only
    split
    · rename_i hnext
      rw [hnext] at hpath
      obtain ⟨rfl, rfl⟩ := append_eq_nil_iff.mp hpath.eq_nil
      rw [cells_eq hbehind (by simp)]
      rfl
    · rename_i z hz
      rw [hz] at hpath
      rw [cells_eq hpath (by omega)]

end

/-- In every run of `Manageable` calls, no call follows `NULL`, and every mbuf ever queued is in the
ring, in the leftover, or released, once. A close that cannot be posted releases nothing. -/
theorem rx_mbufs_released_once {s : State} (hreach : system.ReachableUnder Manageable s) :
    s.fault = false ∧
      (∀ m ∈ s.given, s.heap.released m + (queued s ++ unread s).count m = 1) ∧
      (s.closed = true → ∀ m ∈ s.given, s.heap.released m = 1) ∧
      ∀ t, step s (.close false) = some t → t.closed = false ∧
        t.heap.released = s.heap.released ∧ queued t ++ unread t = queued s ++ unread s := by
  have hkept : Kept s := by
    refine TransitionSystem.ReachableUnder.invariant ?_ ?_ hreach
    · intro u hstart
      exact hstart.kept
    · intro u a v h hmanageable hstep
      exact h.step hmanageable hstep
  have hclose : ∀ t, step s (.close false) = some t → t.closed = false ∧
      t.heap.released = s.heap.released ∧ queued t ++ unread t = queued s ++ unread s := by
    intro t hstep
    obtain ⟨hopen, ⟨⟩⟩ := Option.ite_none_left_eq_some.mp hstep
    exact ⟨(Bool.or_eq_false_iff.mp (Bool.eq_false_iff.mpr hopen)).1, rfl, rfl⟩
  rcases hkept with ⟨left, chains, hholds⟩ | hflushed
  · refine ⟨hholds.fault, fun m hm => ?_, by simp [hholds.closed], hclose⟩
    rw [hholds.queued_eq, hholds.unread_eq, perm_append_comm.count_eq]
    exact (hholds.count m).trans (count_eq_one_of_mem hholds.nodup hm)
  · have hone : ∀ m ∈ s.given, s.heap.released m = 1 := fun m hm =>
      (hflushed.released m).trans (count_eq_one_of_mem hflushed.nodup hm)
    refine ⟨hflushed.fault, fun m hm => ?_, fun _ => hone, hclose⟩
    simp [queued, hflushed.rxRing, unread, hflushed.shadow, hone m hm]

def fresh : State where
  heap := ⟨fun _ => none, fun _ => 0, fun _ => 0⟩
  rxRing := []
  shadow := none
  shadowNext := none
  lenRemainder := 0
  lenDelivered := 0
  given := []
  closed := false
  fault := false

theorem start_fresh : Start fresh := ⟨rfl, rfl, rfl, rfl, fun _ => rfl, rfl, rfl⟩

theorem rx_mbufs_released_once_partial :
    ∃ s, system.ReachableUnder Manageable s ∧ s.closed = true ∧ s.given.length = 6 ∧
      ∀ m ∈ s.given, s.heap.released m = 1 := by
  obtain ⟨s, hreach, hclosed, hlength⟩ :=
    system.exists_reachableUnder Manageable fresh
      [.queue [(0, 10), (1, 10), (2, 10)], .recv 15, .queue [(3, 10), (4, 10)], .recv 18,
        .queue [(5, 10)], .close true]
      (P := fun s => s.closed = true ∧ s.given.length = 6)
      start_fresh (by decide +kernel)
  exact ⟨s, hreach, hclosed, hlength, (rx_mbufs_released_once hreach).2.2.1 hclosed⟩

theorem close_releases_twice :
    ∃ s, system.Reachable s ∧ s.closed = true ∧ 2 ∈ s.given ∧ s.heap.released 2 = 2 :=
  system.exists_reachable fresh
    [.queue [(0, 10), (1, 10), (2, 10)], .recv 10, .close true] start_fresh (by decide +kernel)

end LightStack.Rx.Release
