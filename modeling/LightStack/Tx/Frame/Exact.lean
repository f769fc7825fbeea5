import LightStack.Tx.Frame.Model

/-!
# Exactness of one frame

The chain carries whole mbufs, and only checksum fields and the descriptor are written.
-/

namespace LightStack.Tx.Frame

open Lib Function List

/-! ## Linking -/

variable {frags : List Frag} {f : Frag}

theorem linkFrags_of_notMem {next : Nat → Option Nat} {prev m : Nat}
    (h : m ∉ prev :: frags.map Frag.mbuf) : linkFrags next prev frags m = next m := by
  induction frags generalizing next prev with
  | nil => exact update_of_ne (by simpa using h) _ _
  | cons f rest ih =>
    have hprev : m ≠ prev := ne_of_not_mem_cons h
    have hrest : m ∉ f.mbuf :: rest.map Frag.mbuf := not_mem_of_not_mem_cons h
    rw [linkFrags, ih hrest]
    exact update_of_ne hprev _ _

theorem linkFrags_path {next : Nat → Option Nat} {prev : Nat}
    (hnodup : (prev :: frags.map Frag.mbuf).Nodup) :
    Chain.Path (linkFrags next prev frags) (some prev) (prev :: frags.map Frag.mbuf) none := by
  induction frags generalizing next prev with
  | nil => simp [linkFrags]
  | cons f rest ih =>
    obtain ⟨hprev, hrest⟩ := nodup_cons.mp hnodup
    refine ⟨rfl, ?_⟩
    rw [linkFrags, linkFrags_of_notMem hprev, update_self]
    exact ih hrest

theorem sumLens_eq {h : Heap} {n : Nat} (hsmall : ∀ f ∈ frags, (h.mbuf f.mbuf).dataLen < 2 ^ 16)
    (hn : n + frags.length * 2 ^ 16 < 2 ^ 31) :
    sumLens h n frags = ((n + (frags.map fun f => (h.mbuf f.mbuf).dataLen).sum : Nat) : Int) := by
  induction frags generalizing n with
  | nil => simp [sumLens]
  | cons f rest ih =>
    have hf := hsmall f mem_cons_self
    rw [length_cons] at hn
    have hstep : toInt32 (n + (h.mbuf f.mbuf).dataLen) =
        ((n + (h.mbuf f.mbuf).dataLen : Nat) : Int) := by
      rw [toInt32_of_lt (by omega) (by omega)]
      omega
    rw [sumLens, hstep, ih (fun g hg => hsmall g (mem_cons_of_mem f hg)) (by omega)]
    simp only [map_cons, sum_cons]
    omega

/-! ## One frame -/

@[mk_iff]
structure SkBuff.Whole (h : Heap) (skb : SkBuff) : Prop where
  frag : ∀ f ∈ skb.frags, f.pageOffset = 0 ∧ f.size = (h.mbuf f.mbuf).dataLen
  nodup : skb.pages.Nodup

instance decidableWhole (h : Heap) (skb : SkBuff) : Decidable (skb.Whole h) :=
  decidable_of_iff' _ (SkBuff.whole_iff h skb)

structure Sent.Exact (x : Sent) : Prop where
  carried_eq : x.carried = x.bytes
  nbSegs_eq : x.nbSegs = x.segs
  pktLen_eq : x.pktLen = x.len

section Xmit

variable (rawCksum : List UInt8 → UInt8 × UInt8) {h : Heap} {skb : SkBuff}

theorem length_foldl_overwrite (buf : List UInt8) (ws : List (Nat × List UInt8)) :
    (ws.foldl (fun buf w => overwrite buf w.1 w.2) buf).length = buf.length := by
  induction ws generalizing buf with
  | nil => rfl
  | cons w ws ih => rw [foldl_cons, ih, length_overwrite]

theorem mbuf_dpdkXmitFrame_of_ne {m : Nat} (hm : m ≠ skb.headerMbuf) :
    (dpdkXmitFrame rawCksum h skb).mbuf m = h.mbuf m := by
  simp [dpdkXmitFrame, setHead, Heap.setMbuf, hm]

theorem mbuf_dpdkXmitFrame_header : (dpdkXmitFrame rawCksum h skb).mbuf skb.headerMbuf =
      { buf := (checks rawCksum h skb).foldl (fun buf w => overwrite buf w.1 w.2)
          (h.mbuf skb.headerMbuf).buf
        dataOff := skb.start h
        dataLen := toUInt16 skb.headlen
        pktLen := toUInt32 (sumLens (setHead h skb) (toUInt16 skb.headlen) skb.frags) } := by
  simp [dpdkXmitFrame, setHead, Heap.setMbuf]

theorem length_buf_dpdkXmitFrame (m : Nat) :
    ((dpdkXmitFrame rawCksum h skb).mbuf m).buf.length = (h.mbuf m).buf.length := by
  by_cases hm : m = skb.headerMbuf
  · subst hm
    rw [mbuf_dpdkXmitFrame_header]
    exact length_foldl_overwrite _ _
  · rw [mbuf_dpdkXmitFrame_of_ne rawCksum hm]

theorem headOff_congr {m m' : Mbuf} (hlen : m'.buf.length = m.buf.length) :
    headOff m' = headOff m := by
  unfold headOff
  rw [hlen]

theorem start_dpdkXmitFrame (o : SkBuff) : o.start (dpdkXmitFrame rawCksum h skb) = o.start h := by
  unfold SkBuff.start
  rw [headOff_congr (length_buf_dpdkXmitFrame rawCksum o.headerMbuf)]

section

variable (hvalid : skb.Valid h)

include hvalid

theorem headlen_lt : skb.headlen < 2 ^ 16 := by
  have hfits := hvalid.linear_fits
  have hsmall := hvalid.header_small
  omega

theorem headlen_add : skb.headlen + skb.dataLen = skb.len := by
  have := hvalid.dataLen_le
  unfold SkBuff.headlen
  omega

theorem toUInt16_headlen : toUInt16 skb.headlen = skb.headlen := by
  have := headlen_lt hvalid
  have := toUInt16_of_lt (x := skb.headlen) (by omega) (by omega)
  omega

theorem page_ne_header (hf : f ∈ skb.frags) : f.mbuf ≠ skb.headerMbuf := by
  intro heq
  exact hvalid.header_notMem (heq ▸ mem_map_of_mem hf)

theorem chain_dpdkXmitFrame (hwhole : skb.Whole h) :
    Chain.cells (dpdkXmitFrame rawCksum h skb).next (maxSkbFrags + 1) (some skb.headerMbuf) =
      skb.headerMbuf :: skb.pages := by
  have hlen := hvalid.frags_le
  apply Chain.cells_eq (linkFrags_path (nodup_cons.mpr ⟨hvalid.header_notMem, hwhole.nodup⟩))
  simp only [length_cons, length_map]
  omega

theorem data_header_dpdkXmitFrame :
    ((dpdkXmitFrame rawCksum h skb).mbuf skb.headerMbuf).data =
      skb.linear (dpdkXmitFrame rawCksum h skb) := by
  unfold SkBuff.linear
  rw [start_dpdkXmitFrame, mbuf_dpdkXmitFrame_header, toUInt16_headlen hvalid]
  rfl

theorem data_page_dpdkXmitFrame (hwhole : skb.Whole h) (hf : f ∈ skb.frags) :
    ((dpdkXmitFrame rawCksum h skb).mbuf f.mbuf).data = f.bytes (dpdkXmitFrame rawCksum h skb) := by
  obtain ⟨hoff, hsize⟩ := hwhole.frag f hf
  unfold Frag.bytes
  rw [mbuf_dpdkXmitFrame_of_ne rawCksum (page_ne_header hvalid hf), hoff, hsize]
  rfl

theorem size_lt (hf : f ∈ skb.frags) : f.size < 2 ^ 16 := by
  have hfrag := hvalid.frag_fits f hf
  have hpage := hvalid.page_fits f hf
  have hsmall := hvalid.page_small f hf
  omega

theorem dataLen_lt : skb.dataLen < 2 ^ 30 := by
  have hfrags := hvalid.frags_le
  have hsum : (skb.frags.map Frag.size).sum ≤ (skb.frags.map Frag.size).length • 2 ^ 16 := by
    apply sum_le_card_nsmul
    intro n hn
    obtain ⟨f, hf, rfl⟩ := mem_map.mp hn
    exact Nat.le_of_lt (size_lt hvalid hf)
  rw [← hvalid.dataLen_eq, length_map, smul_eq_mul] at hsum
  simp only [maxSkbFrags] at hfrags
  omega

theorem pktLen_dpdkXmitFrame (hwhole : skb.Whole h) :
    ((dpdkXmitFrame rawCksum h skb).mbuf skb.headerMbuf).pktLen = skb.len := by
  have hpage : ∀ f ∈ skb.frags, (setHead h skb).mbuf f.mbuf = h.mbuf f.mbuf := by
    intro f hf
    exact update_of_ne (page_ne_header hvalid hf) _ _
  have hlens : (skb.frags.map fun f => ((setHead h skb).mbuf f.mbuf).dataLen) =
      skb.frags.map Frag.size := by
    apply map_congr_left
    intro f hf
    rw [hpage f hf, (hwhole.frag f hf).2]
  have hsmall : ∀ f ∈ skb.frags, ((setHead h skb).mbuf f.mbuf).dataLen < 2 ^ 16 := by
    intro f hf
    rw [hpage f hf, ← (hwhole.frag f hf).2]
    exact size_lt hvalid hf
  have hheadlen := headlen_lt hvalid
  have hdataLen := dataLen_lt hvalid
  have hlen := headlen_add hvalid
  have hfew : skb.headlen + skb.frags.length * 2 ^ 16 < 2 ^ 31 := by
    have hfrags := hvalid.frags_le
    simp only [maxSkbFrags] at hfrags
    omega
  rw [mbuf_dpdkXmitFrame_header]
  dsimp only
  rw [toUInt16_headlen hvalid, sumLens_eq hsmall hfew, hlens, ← hvalid.dataLen_eq, hlen]
  have hfits := toUInt32_of_lt (x := skb.len) (by omega) (by omega)
  omega

theorem sent_exact (hwhole : skb.Whole h) : (sent (dpdkXmitFrame rawCksum h skb) skb).Exact := by
  constructor
  · simp only [sent, chain_dpdkXmitFrame rawCksum hvalid hwhole, map_cons, payload_cons,
      data_header_dpdkXmitFrame rawCksum hvalid, SkBuff.bytes]
    congr 1
    simp only [payload, SkBuff.pages, map_map, flatMap_map]
    exact flatMap_congr fun f hf => data_page_dpdkXmitFrame rawCksum hvalid hwhole hf
  · have hfrags := hvalid.frags_le
    have hnbSegs : (dpdkXmitFrame rawCksum h skb).nbSegs skb.headerMbuf =
        (1 + skb.frags.length) % 256 := update_self ..
    simp only [maxSkbFrags] at hfrags
    simp only [sent, chain_dpdkXmitFrame rawCksum hvalid hwhole, hnbSegs, SkBuff.pages,
      length_cons, length_map]
    omega
  · exact pktLen_dpdkXmitFrame rawCksum hvalid hwhole

end

def ChecksOutside (h : Heap) (skb o : SkBuff) : Prop :=
  ∀ w ∈ checks rawCksum h skb, w.1 + w.2.length ≤ o.start h ∨ o.start h + o.headlen ≤ w.1

instance decidableChecksOutside (h : Heap) (skb o : SkBuff) :
    Decidable (ChecksOutside rawCksum h skb o) :=
  inferInstanceAs (Decidable (∀ w ∈ checks rawCksum h skb, _))

theorem window_foldl_overwrite {buf : List UInt8} {ws : List (Nat × List UInt8)} {off len : Nat}
    (hws : ∀ w ∈ ws, w.1 + w.2.length ≤ off ∨ off + len ≤ w.1) :
    window (ws.foldl (fun buf w => overwrite buf w.1 w.2) buf) off len = window buf off len := by
  induction ws generalizing buf with
  | nil => rfl
  | cons w ws ih =>
    rw [foldl_cons, ih fun v hv => hws v (mem_cons_of_mem w hv)]
    exact window_overwrite_of_disjoint (hws w mem_cons_self)

theorem bytes_dpdkXmitFrame {o : SkBuff} (hpages : skb.headerMbuf ∉ o.pages)
    (hheader : o.headerMbuf = skb.headerMbuf → ChecksOutside rawCksum h skb o) :
    o.bytes (dpdkXmitFrame rawCksum h skb) = o.bytes h := by
  have hlinear : o.linear (dpdkXmitFrame rawCksum h skb) = o.linear h := by
    unfold SkBuff.linear
    rw [start_dpdkXmitFrame]
    by_cases hsame : o.headerMbuf = skb.headerMbuf
    · have houtside := hheader hsame
      rw [hsame, mbuf_dpdkXmitFrame_header]
      exact window_foldl_overwrite houtside
    · rw [mbuf_dpdkXmitFrame_of_ne rawCksum hsame]
  have hfrags : o.frags.flatMap (Frag.bytes (dpdkXmitFrame rawCksum h skb)) =
      o.frags.flatMap (Frag.bytes h) := by
    apply flatMap_congr
    intro f hf
    have hne : f.mbuf ≠ skb.headerMbuf := fun heq => hpages (heq ▸ mem_map_of_mem hf)
    unfold Frag.bytes
    rw [mbuf_dpdkXmitFrame_of_ne rawCksum hne]
  unfold SkBuff.bytes
  rw [hlinear, hfrags]

end Xmit

end LightStack.Tx.Frame
