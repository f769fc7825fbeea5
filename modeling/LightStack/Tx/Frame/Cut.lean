import LightStack.Tx.Frame.Exact

/-!
# Cutting socket buffers

Fragments are kept whole by cuts in the linear part or between two fragments.
-/

namespace LightStack.Tx.Frame

open Lib

def boundary : List Frag → Nat → Bool
  | _, 0 => true
  | [], _ + 1 => false
  | f :: rest, n + 1 => decide (f.size ≤ n + 1) && boundary rest (n + 1 - f.size)

theorem boundary_zero (frags : List Frag) : boundary frags 0 = true := by cases frags <;> rfl

variable {f : Frag} {rest frags : List Frag} {len pos : Nat}

theorem boundary_cons {n : Nat} (hn : n ≠ 0)
    (hb : boundary (f :: rest) n = true) : f.size ≤ n ∧ boundary rest (n - f.size) = true := by
  obtain ⟨n, rfl⟩ := Nat.exists_eq_succ_of_ne_zero hn
  simpa [boundary] using hb

def sizes (frags : List Frag) : Nat := (frags.map Frag.size).sum

@[simp]
theorem sizes_nil : sizes [] = 0 := rfl

@[simp]
theorem sizes_cons (f : Frag) (rest : List Frag) : sizes (f :: rest) = f.size + sizes rest := by
  simp [sizes]

theorem splitFrags_of_lt (hpos : len < pos) : splitFrags len pos frags = ([], frags) := by
  induction frags generalizing pos with
  | nil => rfl
  | cons f rest ih => rw [splitFrags, ih (by omega), if_pos (by omega), if_neg (by omega)]

theorem splitFrags_cons_cut (hcut : len < pos + f.size) : splitFrags len pos (f :: rest) =
      if pos < len then
        ([{ f with size := len - pos }],
          { f with pageOffset := f.pageOffset + (len - pos), size := f.size - (len - pos) } :: rest)
      else ([], f :: rest) := by
  rw [splitFrags, splitFrags_of_lt hcut, if_pos hcut]

theorem splitFrags_cons_before (hbefore : pos + f.size ≤ len) : splitFrags len pos (f :: rest) =
      (f :: (splitFrags len (pos + f.size) rest).1, (splitFrags len (pos + f.size) rest).2) := by
  rw [splitFrags, if_neg (by omega)]

theorem sizes_splitFrags (hpos : pos ≤ len) (hlen : len ≤ pos + sizes frags) :
    sizes (splitFrags len pos frags).1 = len - pos ∧
      sizes (splitFrags len pos frags).2 = pos + sizes frags - len := by
  induction frags generalizing pos with
  | nil =>
    rw [sizes_nil] at hlen
    simp only [splitFrags, sizes_nil]
    omega
  | cons f rest ih =>
    rw [sizes_cons] at hlen ⊢
    by_cases hcut : len < pos + f.size
    · rw [splitFrags_cons_cut hcut]
      split
      · simp only [sizes_cons, sizes_nil]
        omega
      · simp only [sizes_cons, sizes_nil]
        omega
    · obtain ⟨hfirst, hsecond⟩ := ih (show pos + f.size ≤ len by omega) (by omega)
      rw [splitFrags_cons_before (by omega)]
      simp only [sizes_cons]
      omega

theorem splitFrags_append (hpos : pos ≤ len) (hb : boundary frags (len - pos) = true) :
    (splitFrags len pos frags).1 ++ (splitFrags len pos frags).2 = frags := by
  induction frags generalizing pos with
  | nil => rfl
  | cons f rest ih =>
    by_cases hcut : len < pos + f.size
    · have hend : ¬pos < len := by
        intro hlt
        have := (boundary_cons (by omega) hb).1
        omega
      rw [splitFrags_cons_cut hcut, if_neg hend]
      rfl
    · have hrest : boundary rest (len - (pos + f.size)) = true := by
        by_cases hzero : len - pos = 0
        · rw [show len - (pos + f.size) = 0 by omega]
          exact boundary_zero rest
        · rw [← Nat.sub_sub]
          exact (boundary_cons hzero hb).2
      rw [splitFrags_cons_before (by omega), List.cons_append, ih (by omega) hrest]

theorem sizes_trimFrags (eat : Nat) (frags : List Frag) :
    sizes (trimFrags eat frags) = sizes frags - eat := by
  induction frags generalizing eat with
  | nil => simp [trimFrags]
  | cons f rest ih =>
    rw [trimFrags]
    split
    · rw [ih, sizes_cons]
      omega
    · simp only [sizes_cons, ih]
      omega

theorem trimFrags_sublist {eat : Nat} (hb : boundary frags eat = true) :
    (trimFrags eat frags).Sublist frags := by
  induction frags generalizing eat with
  | nil => exact List.Sublist.refl _
  | cons f rest ih =>
    rw [trimFrags]
    by_cases hzero : eat = 0
    · subst hzero
      split
      · exact (ih (by simpa using boundary_zero rest)).cons f
      · exact (ih (boundary_zero rest)).cons_cons f
    · obtain ⟨hsize, hrest⟩ := boundary_cons hzero hb
      rw [if_pos hsize]
      exact (ih hrest).cons f

theorem sizes_frags {h : Heap} {skb : SkBuff} (hvalid : skb.Valid h) :
    skb.headlen + sizes skb.frags = skb.len := by
  rw [← headlen_add hvalid, hvalid.dataLen_eq]
  rfl

theorem mbuf_write_of_ne {h : Heap} {m m' off : Nat} {xs : List UInt8} (hne : m' ≠ m) :
    (h.write m off xs).mbuf m' = h.mbuf m' :=
  Function.update_of_ne hne _ _

end LightStack.Tx.Frame
