import LightStack.Mbuf

/-!
# Removing the VLAN tag of received frames

The two addresses are moved over the tag, whatever the length of the frame.
-/

namespace LightStack.Rx.Vlan

open Function List

/-- `eth->h_proto == htons(ETH_P_8021Q)` -/
def tagged (m : Mbuf) : Bool :=
  m.buf[m.dataOff + 12]? = some 0x81 ∧ m.buf[m.dataOff + 13]? = some 0x00

def moveAddresses (off : Nat) : Nat → List UInt8 → List UInt8
  | 0, buf => buf
  | k + 1, buf => moveAddresses off k (buf.set (off + k + 4) (buf.getD (off + k) 0))

/-- A submitted `sk_buff`: its mbuf, where `data` points to, `len`, and the bytes there. -/
structure Submitted where
  mbuf : Nat
  data : Nat
  len : Nat
  frame : List UInt8
  deriving DecidableEq

/-- The body of the loop for a frame with an `sk_buff`: the buffer and what is submitted.
`skb->len` has 32 bits. -/
def removeTag (id : Nat) (m : Mbuf) : List UInt8 × Submitted :=
  if tagged m then
    let buf := moveAddresses m.dataOff 12 m.buf
    let len := (m.dataLen + 2 ^ 32 - 4) % 2 ^ 32
    (buf, ⟨id, m.dataOff + 4, len, (buf.drop (m.dataOff + 4)).take len⟩)
  else (m.buf, ⟨id, m.dataOff, m.dataLen, m.data⟩)

/-- What a burst submits and what it frees; `built` tells for which mbufs `build_skb` has
succeeded. -/
def rxConstructSkbAndSubmit (built : Nat → Bool) :
    (Nat → Mbuf) → List Nat → List Submitted × List Nat
  | _, [] => ([], [])
  | heap, id :: ids =>
    if built id then
      let r := removeTag id (heap id)
      let rest := rxConstructSkbAndSubmit built (update heap id { heap id with buf := r.1 }) ids
      (r.2 :: rest.1, rest.2)
    else
      let rest := rxConstructSkbAndSubmit built heap ids
      (rest.1, id :: rest.2)

/-- A tagged frame of at least 18 bytes. -/
def HasTag (m : Mbuf) : Prop := tagged m = true ∧ 18 ≤ m.dataLen

instance (m : Mbuf) : Decidable (HasTag m) := inferInstanceAs (Decidable (_ ∧ _))

/-- The frame as it should be submitted. -/
def untagged (m : Mbuf) : List UInt8 :=
  if HasTag m then m.data.take 12 ++ m.data.drop 16 else m.data

theorem getElem?_moveAddresses {off k : Nat} {buf : List UInt8} (hlen : off + k + 4 ≤ buf.length)
    (j : Nat) : (moveAddresses off k buf)[j]? =
      if off + 4 ≤ j ∧ j < off + k + 4 then buf[j - 4]? else buf[j]? := by
  induction k generalizing buf with
  | zero => rw [moveAddresses, if_neg (by omega)]
  | succ k ih =>
    rw [moveAddresses, ih (by rw [length_set]; omega)]
    by_cases hmoved : off + 4 ≤ j ∧ j < off + k + 4
    · -- the byte read lies in front of the one that was written
      rw [if_pos hmoved, if_pos (by omega), List.getElem?_set_ne (by omega)]
    · rw [if_neg hmoved]
      by_cases hj : j = off + k + 4
      · have hbyte : off + k < buf.length := by omega
        subst hj
        rw [if_pos (by omega), List.getElem?_set_self (by omega), Nat.add_sub_cancel,
          List.getD_eq_getElem?_getD, List.getElem?_eq_getElem hbyte]
        rfl
      · rw [List.getElem?_set_ne (Ne.symm hj), if_neg (by omega)]

theorem frame_moveAddresses {m : Mbuf} (hwithin : m.dataOff + m.dataLen ≤ m.buf.length)
    (hlong : 16 ≤ m.dataLen) :
    ((moveAddresses m.dataOff 12 m.buf).drop (m.dataOff + 4)).take (m.dataLen - 4) =
      m.data.take 12 ++ m.data.drop 16 := by
  have htake : (m.data.take 12).length = 12 := by
    simp only [Mbuf.data, Mbuf.read, length_take, length_drop]
    omega
  refine List.ext_getElem? fun j => ?_
  rw [List.getElem?_take, List.getElem?_drop, getElem?_moveAddresses (by omega),
    List.getElem?_append, htake, List.getElem?_take, List.getElem?_drop]
  simp only [Mbuf.data, Mbuf.read, List.getElem?_take, List.getElem?_drop]
  by_cases hj : j < 12
  · rw [if_pos (by omega), if_pos (by omega), if_pos hj, if_pos hj, if_pos (by omega)]
    congr 1
    omega
  · rw [if_neg hj, if_neg (show ¬(_ ∧ _) by omega)]
    by_cases hend : j < m.dataLen - 4
    · rw [if_pos hend, if_pos (by omega)]
      congr 1
      omega
    · rw [if_neg hend, if_neg (by omega)]

structure Right (m : Mbuf) (sub : Submitted) : Prop where
  frame : sub.frame = untagged m
  len : sub.len = if HasTag m then m.dataLen - 4 else m.dataLen
  first : m.dataOff ≤ sub.data
  last : sub.data + sub.len ≤ m.dataOff + m.dataLen

theorem removeTag_right_iff {m : Mbuf} (id : Nat)
    (hwithin : m.dataOff + m.dataLen ≤ m.buf.length) (hsmall : m.dataLen < 2 ^ 16) :
    Right m (removeTag id m).2 ↔ (tagged m = true → 18 ≤ m.dataLen) := by
  unfold removeTag
  by_cases htag : tagged m = true
  · simp only [htag, if_true, forall_true_left]
    constructor
    · intro h
      by_contra hshort
      -- the length is reduced all the same
      have hlen := h.len
      rw [if_neg fun h => hshort h.2] at hlen
      dsimp only at hlen
      omega
    · intro hlong
      have hlen : (m.dataLen + 2 ^ 32 - 4) % 2 ^ 32 = m.dataLen - 4 := by omega
      simp only [hlen]
      exact ⟨by rw [frame_moveAddresses hwithin (by omega), untagged, if_pos ⟨htag, hlong⟩],
        by rw [if_pos ⟨htag, hlong⟩], Nat.le_add_right .., by simp only; omega⟩
  · have hnone : ¬HasTag m := fun h => htag h.1
    rw [if_neg htag]
    exact ⟨fun _ h => absurd h htag, fun _ => ⟨by rw [untagged, if_neg hnone],
      by rw [if_neg hnone], Nat.le_refl _, Nat.le_refl _⟩⟩

theorem mbuf_removeTag (id : Nat) (m : Mbuf) : (removeTag id m).2.mbuf = id := by
  unfold removeTag
  split <;> rfl

/-- The frames of a burst do not depend on each other. -/
theorem rxConstructSkbAndSubmit_eq (built : Nat → Bool) {heap : Nat → Mbuf} {ids : List Nat}
    (hnodup : ids.Nodup) : rxConstructSkbAndSubmit built heap ids =
      ((ids.filter built).map fun id => (removeTag id (heap id)).2,
        ids.filter fun id => !built id) := by
  induction ids generalizing heap with
  | nil => rfl
  | cons id ids ih =>
    obtain ⟨hnew, hnodup⟩ := nodup_cons.mp hnodup
    rw [rxConstructSkbAndSubmit]
    cases hbuilt : built id with
    | false => simp [ih hnodup, hbuilt]
    | true =>
      have hsame : ∀ x ∈ ids.filter built, (removeTag x (update heap id
          { heap id with buf := (removeTag id (heap id)).1 } x)).2 = (removeTag x (heap x)).2 :=
        fun x hx => by rw [update_of_ne (ne_of_mem_of_not_mem (mem_of_mem_filter hx) hnew)]
      simp [ih hnodup, hbuilt, map_congr_left hsame]

/-- Of every burst each frame is submitted, in order, or freed. All that is submitted is right
exactly if every tagged frame for which an `sk_buff` was built has at least 18 bytes. -/
theorem vlan_tags_removed_iff (built : Nat → Bool) (heap : Nat → Mbuf) (ids : List Nat)
    (hnodup : ids.Nodup)
    (hwithin : ∀ id ∈ ids, (heap id).dataOff + (heap id).dataLen ≤ (heap id).buf.length)
    (hsmall : ∀ id ∈ ids, (heap id).dataLen < 2 ^ 16) :
    let r := rxConstructSkbAndSubmit built heap ids
    r.1.map Submitted.mbuf = ids.filter built ∧ r.2 = ids.filter (fun id => !built id) ∧
      ((∀ sub ∈ r.1, Right (heap sub.mbuf) sub) ↔
        ∀ id ∈ ids, built id = true → tagged (heap id) = true → 18 ≤ (heap id).dataLen) := by
  simp only [rxConstructSkbAndSubmit_eq built hnodup, map_map]
  refine ⟨?_, trivial, ?_⟩
  · exact (map_congr_left fun id _ => mbuf_removeTag id _).trans (map_id _)
  · rw [forall_mem_map]
    simp only [mem_filter, and_imp, mbuf_removeTag]
    refine forall₂_congr fun id hid => forall_congr' fun _ => ?_
    exact removeTag_right_iff id (hwithin id hid) (hsmall id hid)

def tag : List UInt8 := [0x81, 0x00, 0, 5]

def taggedFrame : Mbuf := ⟨List.replicate 12 1 ++ tag ++ [8, 0], 0, 18, 18⟩

def shortFrame : Mbuf := ⟨List.replicate 12 1 ++ tag, 0, 16, 16⟩

/-- The `sk_buff` of the short frame could not be built. -/
theorem vlan_tags_removed_two :
    let r := rxConstructSkbAndSubmit (· = 1) (fun id => if id = 1 then taggedFrame else shortFrame)
      [0, 1]
    r.2 = [0] ∧ ∀ sub ∈ r.1, Right taggedFrame sub := by
  obtain ⟨hids, hfreed, hright⟩ := vlan_tags_removed_iff (· = 1)
    (fun id => if id = 1 then taggedFrame else shortFrame) [0, 1] (by decide) (by decide)
    (by decide)
  refine ⟨hfreed, fun sub hsub => ?_⟩
  have hone : sub.mbuf ∈ [0, 1].filter (· = 1) := hids ▸ mem_map_of_mem hsub
  have hsub := hright.mpr (by decide) sub hsub
  rwa [of_decide_eq_true (mem_filter.mp hone).2] at hsub

theorem short_frame_changed :
    let stale : Mbuf := ⟨List.replicate 12 1 ++ tag, 0, 12, 12⟩
    (removeTag 0 shortFrame).2.frame = List.replicate 12 1 ∧ shortFrame.data.length = 16 ∧
      (removeTag 0 stale).2.frame = List.replicate 8 1 ∧ stale.data.length = 12 := by
  decide

end LightStack.Rx.Vlan
