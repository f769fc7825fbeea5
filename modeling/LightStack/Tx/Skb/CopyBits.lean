import LightStack.Tx.Frame.Model

/-!
# Slices of paged data

`skb_copy_bits` gives the destination fragments in the mbufs of the source. There are no frag lists.
-/

namespace LightStack.Tx.Skb.CopyBits

open Lib LightStack.Tx.Frame Function List

structure State where
  skbs : Nat → SkBuff
  refcnt : Nat → UInt16

/-- The loop over the fragments of the source, with those of the destination. -/
def copyFrags (frags : List Frag) (refcnt : Nat → UInt16) :
    List Frag → Nat → Nat → Int × List Frag × (Nat → UInt16)
  | [], _, len => (if len = 0 then 0 else -14, frags, refcnt)
  | f :: rest, offset, len =>
    if offset < f.size then
      let copy := if len < f.size - offset then len else f.size - offset
      let frags := frags ++ [⟨f.mbuf, f.pageOffset + offset, copy⟩]
      let refcnt := update refcnt f.mbuf (refcnt f.mbuf + 1)
      if len - copy = 0 then (0, frags, refcnt) else copyFrags frags refcnt rest 0 (len - copy)
    else copyFrags frags refcnt rest (offset - f.size) len

/-- `skb_copy_bits` from the sk_buff at `i` to the one at `j`; `-14` is `-EFAULT`. -/
def skbCopyBits (s : State) (i j offset len : Nat) : Int × State :=
  if (s.skbs i).frags = [] then (0, s)
  else if (s.skbs i).dataLen < offset + len then (-14, s)
  else if i = j then (if len = 0 then 0 else -14, s)
  else
    let r := copyFrags (s.skbs j).frags s.refcnt (s.skbs i).frags offset len
    (r.1, ⟨update s.skbs j { s.skbs j with frags := r.2.1 }, r.2.2⟩)

structure Sliced (h : Heap) (s t : State) (i j offset len : Nat) : Prop where
  bytes : (t.skbs j).frags.flatMap (Frag.bytes h) =
    window ((s.skbs i).frags.flatMap (Frag.bytes h)) offset len
  sizes : ((t.skbs j).frags.map Frag.size).sum = len
  refcnt : ∀ m, t.refcnt m = s.refcnt m + UInt16.ofNat ((t.skbs j).pages.count m)
  room : (t.skbs j).frags.length ≤ (s.skbs i).frags.length
  others : ∀ k, k ≠ j → t.skbs k = s.skbs k

theorem bytes_slice {h : Heap} {f : Frag} {offset copy : Nat} (hcopy : offset + copy ≤ f.size) :
    Frag.bytes h ⟨f.mbuf, f.pageOffset + offset, copy⟩ = window (f.bytes h) offset copy := by
  rw [Frag.bytes, Frag.bytes, window_window hcopy, Nat.add_assoc]

theorem copyFrags_eq (h : Heap) {source : List Frag}
    (hsource : ∀ f ∈ source, (f.bytes h).length = f.size) (frags : List Frag)
    (refcnt : Nat → UInt16) (offset len : Nat) (hlen : 0 < len)
    (hrange : offset + len ≤ (source.map Frag.size).sum) :
    ∃ new refcnt', copyFrags frags refcnt source offset len = (0, frags ++ new, refcnt') ∧
      new.flatMap (Frag.bytes h) = window (source.flatMap (Frag.bytes h)) offset len ∧
      (new.map Frag.size).sum = len ∧ new.length ≤ source.length ∧
      ∀ m, refcnt' m = refcnt m + UInt16.ofNat ((new.map Frag.mbuf).count m) := by
  induction source generalizing frags refcnt offset len with
  | nil =>
    rw [map_nil, sum_nil] at hrange
    omega
  | cons f rest ih =>
    obtain ⟨hf, hrest⟩ := forall_mem_cons.mp hsource
    rw [map_cons, sum_cons] at hrange
    rw [copyFrags, flatMap_cons, window_append, hf]
    have hcount : ∀ m (l : List Nat), update refcnt f.mbuf (refcnt f.mbuf + 1) m +
        UInt16.ofNat (l.count m) = refcnt m + UInt16.ofNat ((f.mbuf :: l).count m) := by
      intro m l
      by_cases hm : m = f.mbuf
      · subst hm
        simp [UInt16.ofNat_add, UInt16.add_assoc, UInt16.add_comm]
      · simp [hm, Ne.symm hm]
    split
    · rename_i hinside
      dsimp only
      by_cases hlast : len ≤ f.size - offset
      · have hcopy : (if len < f.size - offset then len else f.size - offset) = len := by
          split <;> omega
        rw [hcopy, if_pos (Nat.sub_self len)]
        refine ⟨_, _, rfl, ?_, by simp, by simp, fun m => ?_⟩
        · rw [flatMap_singleton, bytes_slice (by omega), Nat.sub_eq_zero_of_le hlast]
          simp [window]
        · simpa using hcount m []
      · have hcopy : (if len < f.size - offset then len else f.size - offset) = f.size - offset :=
          if_neg (by omega)
        rw [hcopy, if_neg (by omega)]
        obtain ⟨new, refcnt', hloop, hbytes, hsizes, hroom, hrefs⟩ :=
          ih hrest (frags ++ [⟨f.mbuf, f.pageOffset + offset, f.size - offset⟩])
            (update refcnt f.mbuf (refcnt f.mbuf + 1)) 0 (len - (f.size - offset))
            (by omega) (by omega)
        refine ⟨⟨f.mbuf, f.pageOffset + offset, f.size - offset⟩ :: new, refcnt', ?_, ?_, ?_, ?_,
          fun m => ?_⟩
        · rw [hloop, append_assoc, singleton_append]
        · rw [flatMap_cons, hbytes, bytes_slice (by omega), Nat.sub_eq_zero_of_le hinside.le]
          congr 1
          simp only [window]
          rw [take_of_length_le (by simp [hf]), take_of_length_le (by simp [hf]; omega)]
        · rw [map_cons, sum_cons, hsizes]
          dsimp only
          omega
        · simpa using hroom
        · rw [hrefs m, hcount]
          rfl
    · rename_i hoffset
      obtain ⟨new, refcnt', hloop, hbytes, hsizes, hroom, hrefs⟩ :=
        ih hrest frags refcnt (offset - f.size) len hlen (by omega)
      refine ⟨new, refcnt', hloop, ?_, hsizes, Nat.le_succ_of_le hroom, hrefs⟩
      rw [hbytes, Nat.sub_eq_zero_of_le (Nat.le_of_not_lt hoffset), Nat.sub_zero]
      have hskip : window (f.bytes h) offset len = [] := by
        rw [window, drop_eq_nil_of_le (by omega), take_nil]
      rw [hskip, nil_append]

/-- Slices are right, and a range that is not in the source changes nothing. -/
theorem copy_bits_slice (h : Heap) (s : State) (i j offset len : Nat) (hij : i ≠ j)
    (hsource : (s.skbs i).frags ≠ []) (hbytes : ∀ f ∈ (s.skbs i).frags, (f.bytes h).length = f.size)
    (hdataLen : (s.skbs i).dataLen = ((s.skbs i).frags.map Frag.size).sum)
    (hdest : (s.skbs j).frags = []) (hlen : 0 < len) :
    (offset + len ≤ (s.skbs i).dataLen →
      ∃ t, skbCopyBits s i j offset len = (0, t) ∧ Sliced h s t i j offset len) ∧
      ((s.skbs i).dataLen < offset + len → skbCopyBits s i j offset len = (-14, s)) := by
  rw [skbCopyBits, if_neg hsource]
  refine ⟨fun hrange => ?_, fun hbeyond => if_pos hbeyond⟩
  obtain ⟨new, refcnt', hloop, hnew, hsizes, hroom, hrefs⟩ :=
    copyFrags_eq h hbytes [] s.refcnt offset len hlen (hdataLen ▸ hrange)
  rw [if_neg (by omega), if_neg hij, hdest, hloop]
  refine ⟨_, rfl, ⟨?_, ?_, fun m => ?_, ?_, fun k hk => update_of_ne hk ..⟩⟩
  · simpa using hnew
  · simpa using hsizes
  · simpa [SkBuff.pages] using hrefs m
  · simpa using hroom

def twoBytes : Heap := ⟨fun _ => ⟨[1, 2], 0, 2, 2⟩, fun _ => none, fun _ => 1⟩

def twoFrags : State :=
  ⟨fun k => ⟨k, 0, 4, 4, if k = 0 then [⟨7, 0, 2⟩, ⟨8, 0, 2⟩] else [], 0, 0, false, 0⟩, fun _ => 1⟩

theorem copy_bits_slice_inner :
    ∃ t, skbCopyBits twoFrags 0 1 1 2 = (0, t) ∧ Sliced twoBytes twoFrags t 0 1 1 2 :=
  (copy_bits_slice twoBytes twoFrags 0 1 1 2 (by decide) (by decide) (by decide) (by decide)
    (by decide) (by decide)).1 (by decide)

end LightStack.Tx.Skb.CopyBits
