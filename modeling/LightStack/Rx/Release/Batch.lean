import LightStack.Lib.Chain

/-!
# Release in batches

Segments without a reference left are collected in an array of `MAX_PKT_BURST` entries.
-/

namespace LightStack.Rx.Release.Batch

open Lib Chain Function List

def maxPktBurst : Nat := 32

structure Heap where
  next : Nat → Option Nat
  refcnt : Nat → UInt16
  puts : List (List Nat)

namespace Heap

/-- `__rte_pktmbuf_prefree_seg` returns the mbuf. -/
def lastRef (h : Heap) (m : Nat) : Bool := h.refcnt m - 1 = 0

/-- `__rte_pktmbuf_prefree_seg`, and `next = NULL` if it returns the mbuf. -/
def prefree (h : Heap) (m : Nat) : Heap :=
  { h with
    refcnt := update h.refcnt m (h.refcnt m - 1)
    next := if h.lastRef m then update h.next m none else h.next }

def putBulk (h : Heap) (mbufs : List Nat) : Heap :=
  if mbufs = [] then h else { h with puts := h.puts ++ [mbufs] }

variable {h : Heap} {m x : Nat} {mbufs : List Nat}

@[simp]
theorem next_putBulk : (h.putBulk mbufs).next = h.next := by
  unfold putBulk
  split <;> rfl

@[simp]
theorem refcnt_putBulk : (h.putBulk mbufs).refcnt = h.refcnt := by
  unfold putBulk
  split <;> rfl

theorem flatten_puts_putBulk : (h.putBulk mbufs).puts.flatten = h.puts.flatten ++ mbufs := by
  unfold putBulk
  split <;> simp [*]

theorem mem_puts_putBulk {b : List Nat} (hb : b ∈ (h.putBulk mbufs).puts) :
    b ∈ h.puts ∨ b = mbufs := by
  unfold putBulk at hb
  split at hb
  · exact .inl hb
  · simpa using hb

theorem lastRef_prefree (hx : x ≠ m) : (h.prefree m).lastRef x = h.lastRef x := by
  simp only [lastRef, prefree, update_of_ne hx]

theorem next_prefree (hx : x ≠ m) : (h.prefree m).next x = h.next x := by
  simp only [prefree]
  split <;> simp [hx]

end Heap

variable (shadow : Option Nat)

/-- The inner loop; `none` if it is not done after `fuel` rounds. -/
def fillBatch : Nat → Heap → List Nat → Option Nat → Option (Heap × List Nat × Option Nat)
  | _, h, mbufs, none => some (h, mbufs, none)
  | 0, _, _, some _ => none
  | fuel + 1, h, mbufs, some m =>
    if maxPktBurst ≤ mbufs.length then some (h, mbufs, some m)
    else if shadow = some m then some (h, mbufs, none)
    else fillBatch fuel (h.prefree m) (if h.lastRef m then mbufs ++ [m] else mbufs) (h.next m)

def lightReleaseRxBuffer : Nat → Heap → Option Nat → Option Heap
  | _, h, none => some h
  | 0, _, some _ => none
  | fuel + 1, h, some m =>
    match fillBatch shadow (fuel + 1) h [] (some m) with
    | none => none
    | some (h, mbufs, mbuf) => lightReleaseRxBuffer fuel (h.putBulk mbufs) mbuf

def before (l : List Nat) : List Nat := l.takeWhile (shadow ≠ some ·)

structure Released (l : List Nat) (h t : Heap) : Prop where
  nodup : l.Nodup
  puts : t.puts.flatten = h.puts.flatten ++ (before shadow l).filter h.lastRef
  refcnt : ∀ m, t.refcnt m = if m ∈ before shadow l then h.refcnt m - 1 else h.refcnt m
  next : ∀ m, t.next m = if m ∈ before shadow l ∧ h.lastRef m then none else h.next m
  batches : ∀ b ∈ t.puts, b ∈ h.puts ∨ b.length ≤ maxPktBurst

variable {shadow} {fuel : Nat} {h t : Heap} {p : Option Nat} {l rest mbufs : List Nat}

theorem before_append (hpassed : ∀ m ∈ l, shadow ≠ some m) :
    before shadow (l ++ rest) = l ++ before shadow rest :=
  takeWhile_append_of_pos (by simpa using hpassed)

structure Passed (l : List Nat) (h t : Heap) : Prop where
  refcnt : ∀ m, t.refcnt m = if m ∈ l then h.refcnt m - 1 else h.refcnt m
  next : ∀ m, t.next m = if m ∈ l ∧ h.lastRef m then none else h.next m
  puts : t.puts = h.puts

theorem Passed.prefree {m : Nat} (hm : m ∉ l) (hpassed : Passed l (h.prefree m) t) :
    Passed (m :: l) h t := by
  refine ⟨fun x => ?_, fun x => ?_, hpassed.puts⟩
  · rw [hpassed.refcnt x]
    by_cases hx : x = m
    · subst hx
      simp [hm, Heap.prefree]
    · simp [hx, Heap.prefree]
  · rw [hpassed.next x]
    by_cases hx : x = m
    · subst hx
      cases hlast : h.lastRef x <;> simp [hm, Heap.prefree, hlast]
    · simp [hx, Heap.lastRef_prefree hx, Heap.next_prefree hx]

theorem fillBatch_eq (shadow : Option Nat) (mbufs : List Nat) (hpath : Path h.next p l none)
    (hnodup : l.Nodup) (hfuel : l.length ≤ fuel) (hroom : mbufs.length ≤ maxPktBurst) :
    ∃ done rest t q, fillBatch shadow fuel h mbufs p = some (t, mbufs ++ done.filter h.lastRef, q) ∧
      l = done ++ rest ∧ (∀ m ∈ done, shadow ≠ some m) ∧ Passed done h t ∧
      (mbufs ++ done.filter h.lastRef).length ≤ maxPktBurst ∧
      (q = none ∧ before shadow rest = [] ∨ Path t.next q rest none ∧
        (mbufs ++ done.filter h.lastRef).length = maxPktBurst) := by
  have hstay : Passed [] h h := ⟨by simp, by simp, rfl⟩
  induction l generalizing fuel h mbufs p with
  | nil =>
    obtain rfl := path_nil.mp hpath
    refine ⟨[], [], h, none, ?_, rfl, by simp, hstay, by simpa, .inl ⟨rfl, rfl⟩⟩
    simp [fillBatch]
  | cons m l ih =>
    obtain ⟨rfl, hrest⟩ := hpath
    obtain ⟨hm, hnodup'⟩ := nodup_cons.mp hnodup
    obtain _ | fuel := fuel
    · simp at hfuel
    rw [fillBatch]
    by_cases hfull : maxPktBurst ≤ mbufs.length
    · rw [if_pos hfull]
      exact ⟨[], m :: l, h, some m, by simp, rfl, by simp, hstay, by simpa,
        .inr ⟨⟨rfl, hrest⟩, by simp; omega⟩⟩
    rw [if_neg hfull]
    by_cases hshadow : shadow = some m
    · rw [if_pos hshadow]
      exact ⟨[], m :: l, h, none, by simp, rfl, by simp, hstay, by simpa,
        .inl ⟨rfl, by simp [before, hshadow]⟩⟩
    rw [if_neg hshadow]
    have hne : ∀ x ∈ l, x ≠ m := fun x hx heq => hm (heq ▸ hx)
    have hnext : Path (h.prefree m).next (h.next m) l none :=
      hrest.congr fun x hx => Heap.next_prefree (hne x hx)
    have hroom' : (if h.lastRef m then mbufs ++ [m] else mbufs).length ≤ maxPktBurst := by
      split
      · rw [length_append, length_singleton]
        omega
      · exact hroom
    obtain ⟨done, rest, t, q, hfill, rfl, hpassed, hdone, hsmall, hend⟩ :=
      ih _ hnext hnodup' (by simpa using hfuel) hroom' ⟨by simp, by simp, rfl⟩
    have hcollected : (if h.lastRef m then mbufs ++ [m] else mbufs) ++
        done.filter (h.prefree m).lastRef = mbufs ++ (m :: done).filter h.lastRef := by
      rw [filter_cons, filter_congr fun x hx =>
        Heap.lastRef_prefree (hne x (mem_append_left rest hx))]
      split <;> simp
    rw [hcollected] at hfill hsmall hend
    refine ⟨m :: done, rest, t, q, hfill, rfl, ?_, ?_, hsmall, hend⟩
    · exact forall_mem_cons.mpr ⟨hshadow, hpassed⟩
    · exact hdone.prefree fun hmem => hm (mem_append_left rest hmem)

theorem Passed.released {done : List Nat} (hdone : Passed done h t)
    (hbefore : ∀ m ∈ done, shadow ≠ some m) (hnodup : (done ++ rest).Nodup)
    (hsmall : (done.filter h.lastRef).length ≤ maxPktBurst) {u : Heap}
    (hrest : Released shadow rest (t.putBulk (done.filter h.lastRef)) u) :
    Released shadow (done ++ rest) h u := by
  have hdisjoint : ∀ m ∈ before shadow rest, m ∉ done := fun m hm hmem =>
    disjoint_of_nodup_append hnodup hmem (takeWhile_subset _ hm)
  have hlast : ∀ m ∈ before shadow rest,
      (t.putBulk (done.filter h.lastRef)).lastRef m = h.lastRef m := by
    intro m hm
    simp only [Heap.lastRef, Heap.refcnt_putBulk, hdone.refcnt m, if_neg (hdisjoint m hm)]
  have happend : before shadow (done ++ rest) = _ := before_append hbefore
  refine ⟨hnodup, ?_, fun m => ?_, fun m => ?_, fun b hb => ?_⟩
  · rw [hrest.puts, Heap.flatten_puts_putBulk, hdone.puts, filter_congr hlast, happend,
      filter_append, append_assoc]
  · rw [hrest.refcnt m, Heap.refcnt_putBulk, hdone.refcnt m, happend]
    by_cases hm : m ∈ before shadow rest
    · simp [hm, hdisjoint m hm]
    · simp [hm]
  · rw [hrest.next m, Heap.next_putBulk, hdone.next m, happend]
    by_cases hm : m ∈ before shadow rest
    · simp [hm, hdisjoint m hm, hlast m hm]
    · simp [hm]
  · rcases hrest.batches b hb with hb | hb
    · rcases Heap.mem_puts_putBulk hb with hb | rfl
      · exact .inl (hdone.puts ▸ hb)
      · exact .inr hsmall
    · exact .inr hb

/-- Every chain is released as it should be, whatever its length and the counts. -/
theorem batched_release (shadow : Option Nat) (h : Heap) (p : Option Nat) (l : List Nat)
    (fuel : Nat) (hchain : Path h.next p l none) (hfuel : l.length ≤ fuel) :
    ∃ t, lightReleaseRxBuffer shadow fuel h p = some t ∧ Released shadow l h t := by
  have hnone : ∀ {h : Heap} {l : List Nat}, l.Nodup → before shadow l = [] →
      Released shadow l h h := by
    intro h l hnodup hbefore
    exact ⟨hnodup, by simp [hbefore], by simp [hbefore], by simp [hbefore], fun b hb => .inl hb⟩
  induction fuel generalizing h p l with
  | zero =>
    obtain rfl := eq_nil_of_length_eq_zero (Nat.le_zero.mp hfuel)
    obtain rfl := path_nil.mp hchain
    exact ⟨h, rfl, hnone nodup_nil rfl⟩
  | succ fuel ih =>
    cases p with
    | none =>
      obtain rfl := hchain.eq_nil
      exact ⟨h, rfl, hnone nodup_nil rfl⟩
    | some m =>
      have hnodup := hchain.nodup
      obtain ⟨done, rest, t, q, hfill, rfl, hbefore, hdone, hsmall, hend⟩ :=
        fillBatch_eq shadow [] hchain hnodup hfuel (Nat.zero_le _)
      rw [nil_append] at hfill hsmall hend
      have hrest : ∃ u, lightReleaseRxBuffer shadow fuel (t.putBulk (done.filter h.lastRef)) q =
          some u ∧ Released shadow rest (t.putBulk (done.filter h.lastRef)) u := by
        rcases hend with ⟨rfl, hend⟩ | ⟨hpath, hfull⟩
        · exact ⟨_, by cases fuel <;> rfl, hnone hnodup.of_append_right hend⟩
        · -- a full batch has passed a segment
          have hpos : 0 < done.length :=
            Nat.lt_of_lt_of_le (by rw [hfull]; decide) (length_filter_le h.lastRef done)
          rw [length_append] at hfuel
          exact ih _ q rest (by rwa [Heap.next_putBulk]) (by omega)
      obtain ⟨u, hu, hreleased⟩ := hrest
      refine ⟨u, ?_, hdone.released hbefore hnodup hsmall hreleased⟩
      rw [lightReleaseRxBuffer, hfill]
      exact hu

def threeSegments : Heap where
  next m := if m < 2 then some (m + 1) else none
  refcnt m := if m = 1 then 2 else 1
  puts := []

theorem batched_release_three :
    ∃ t, lightReleaseRxBuffer (some 2) 3 threeSegments (some 0) = some t ∧
      Released (some 2) [0, 1, 2] threeSegments t :=
  batched_release (some 2) threeSegments (some 0) [0, 1, 2] 3 ⟨rfl, rfl, rfl, rfl⟩ (by decide)

end LightStack.Rx.Release.Batch
