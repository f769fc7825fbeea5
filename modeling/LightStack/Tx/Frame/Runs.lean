import LightStack.Tx.Frame.Cut

/-!
# Frames over whole runs
-/

namespace LightStack.Tx.Frame

open Lib List

def Uncut (rawCksum : List UInt8 → UInt8 × UInt8) (s : State) : Action → Prop
  | .put skb => skb.Whole s.heap
  | .split k _ _ len | .trim k len =>
    (s.skbs[k]?).all (fun skb => boundary skb.frags (len - skb.headlen)) = true
  | .xmit k =>
    (s.skbs[k]?).all (fun skb => (s.skbs.eraseIdx k).all fun o =>
      decide (o.headerMbuf = skb.headerMbuf → ChecksOutside rawCksum s.heap skb o)) = true
  | .fill _ _ | .clone _ | .copy _ _ _ | .push _ _ _ _ _ _ => True

instance decidableUncut (rawCksum : List UInt8 → UInt8 × UInt8) (s : State) :
    ∀ a, Decidable (Uncut rawCksum s a)
  | .put skb => decidableWhole s.heap skb
  | .split _ _ _ _ | .trim _ _ | .xmit _ => inferInstanceAs (Decidable (_ = true))
  | .fill _ _ | .clone _ | .copy _ _ _ | .push _ _ _ _ _ _ => .isTrue trivial

/-! ## Changes of the memory -/

structure Keeps (h h' : Heap) (o : SkBuff) : Prop where
  header : (h'.mbuf o.headerMbuf).buf.length = (h.mbuf o.headerMbuf).buf.length
  page : ∀ f ∈ o.frags, h'.mbuf f.mbuf = h.mbuf f.mbuf

variable {m k : Nat}

namespace Keeps

variable {h h' : Heap} {o : SkBuff}

theorem refl (h : Heap) (o : SkBuff) : Keeps h h o := ⟨rfl, fun _ _ => rfl⟩

theorem start_eq (hk : Keeps h h' o) : o.start h' = o.start h := by
  unfold SkBuff.start
  rw [headOff_congr hk.header]

theorem valid (hk : Keeps h h' o) (hvalid : o.Valid h) : o.Valid h' := by
  constructor
  · rw [hk.start_eq, hk.header]
    exact hvalid.linear_fits
  · rw [hk.header]
    exact hvalid.header_small
  · intro f hf
    rw [hk.page f hf]
    exact hvalid.frag_fits f hf
  · intro f hf
    rw [hk.page f hf]
    exact hvalid.page_fits f hf
  · intro f hf
    rw [hk.page f hf]
    exact hvalid.page_small f hf
  · exact hvalid.dataLen_eq
  · exact hvalid.dataLen_le
  · exact hvalid.frags_le
  · exact hvalid.header_notMem

theorem whole (hk : Keeps h h' o) (hwhole : o.Whole h) : o.Whole h' := by
  constructor
  · intro f hf
    rw [hk.page f hf]
    exact hwhole.frag f hf
  · exact hwhole.nodup

theorem write {off : Nat} {xs : List UInt8} (hm : m ∉ o.pages) : Keeps h (h.write m off xs) o := by
  constructor
  · by_cases heq : o.headerMbuf = m
    · simp [Heap.write, Heap.setMbuf, heq]
    · rw [mbuf_write_of_ne heq]
  · intro f hf
    exact mbuf_write_of_ne fun heq => hm (heq ▸ mem_map_of_mem hf)

theorem setMbuf {x : Mbuf} (hm : m ∉ o.headerMbuf :: o.pages) : Keeps h (h.setMbuf m x) o := by
  have hother : ∀ m', m' ≠ m → (h.setMbuf m x).mbuf m' = h.mbuf m' :=
    fun m' hne => Function.update_of_ne hne _ _
  constructor
  · rw [hother o.headerMbuf (ne_of_not_mem_cons hm).symm]
  · intro f hf
    apply hother
    intro heq
    exact not_mem_of_not_mem_cons hm (heq ▸ mem_map_of_mem hf)

theorem xmit (rawCksum : List UInt8 → UInt8 × UInt8) {skb : SkBuff}
    (hm : skb.headerMbuf ∉ o.pages) : Keeps h (dpdkXmitFrame rawCksum h skb) o := by
  constructor
  · exact length_buf_dpdkXmitFrame rawCksum o.headerMbuf
  · intro f hf
    apply mbuf_dpdkXmitFrame_of_ne
    intro heq
    exact hm (heq ▸ mem_map_of_mem hf)

end Keeps

/-! ## Sk_buffs made of others -/

theorem SkBuff.Valid.of_sublist {h : Heap} {skb o : SkBuff} (hvalid : skb.Valid h)
    (hsub : o.frags.Sublist skb.frags)
    (hlinear : o.start h + o.headlen ≤ (h.mbuf o.headerMbuf).buf.length)
    (hsmall : (h.mbuf o.headerMbuf).buf.length < 2 ^ 16) (hdataLen : o.dataLen = sizes o.frags)
    (hle : o.dataLen ≤ o.len) (hheader : o.headerMbuf ∉ skb.pages) : o.Valid h := by
  constructor
  · exact hlinear
  · exact hsmall
  · intro f hf
    exact hvalid.frag_fits f (hsub.subset hf)
  · intro f hf
    exact hvalid.page_fits f (hsub.subset hf)
  · intro f hf
    exact hvalid.page_small f (hsub.subset hf)
  · exact hdataLen
  · exact hle
  · exact Nat.le_trans hsub.length_le hvalid.frags_le
  · intro hmem
    exact hheader ((hsub.map Frag.mbuf).subset hmem)

theorem SkBuff.Valid.linear_fits_of_le {h : Heap} {skb o : SkBuff} (hvalid : skb.Valid h)
    (hheader : o.headerMbuf = skb.headerMbuf) (hle : o.data + o.headlen ≤ skb.data + skb.headlen) :
    o.start h + o.headlen ≤ (h.mbuf o.headerMbuf).buf.length := by
  have hfits := hvalid.linear_fits
  unfold SkBuff.start at hfits ⊢
  rw [hheader]
  omega

theorem SkBuff.Whole.of_sublist {h : Heap} {skb o : SkBuff} (hwhole : skb.Whole h)
    (hsub : o.frags.Sublist skb.frags) : o.Whole h := by
  constructor
  · intro f hf
    exact hwhole.frag f (hsub.subset hf)
  · exact hwhole.nodup.sublist (hsub.map Frag.mbuf)

structure Derived (s : State) (h : Heap) (o : SkBuff) : Prop where
  valid : o.Valid h
  whole : o.Whole h
  pages : ∃ skb ∈ s.skbs, o.pages ⊆ skb.pages
  header : (∃ skb ∈ s.skbs, o.headerMbuf = skb.headerMbuf) ∨ Unused s o.headerMbuf

structure Sound (s : State) : Prop where
  valid : ∀ o ∈ s.skbs, o.Valid s.heap
  whole : ∀ o ∈ s.skbs, o.Whole s.heap
  apart : ∀ o ∈ s.skbs, ∀ o' ∈ s.skbs, o.headerMbuf ∉ o'.pages
  exact : ∀ x ∈ s.nic, x.Exact

namespace Sound

variable {s t : State} {skb o : SkBuff}

theorem derived (hs : Sound s) {h : Heap} (ho : o ∈ s.skbs) (hk : Keeps s.heap h o) :
    Derived s h o := by
  constructor
  · exact hk.valid (hs.valid o ho)
  · exact hk.whole (hs.whole o ho)
  · exact ⟨o, ho, List.Subset.refl _⟩
  · exact .inl ⟨o, ho, rfl⟩

theorem of_derived (hs : Sound s) (hnew : ∀ o ∈ t.skbs, Derived s t.heap o)
    (hexact : ∀ x ∈ t.nic, x.Exact) : Sound t := by
  constructor
  · intro o ho
    exact (hnew o ho).valid
  · intro o ho
    exact (hnew o ho).whole
  · intro o ho o' ho' hmem
    obtain ⟨skb', hskb', hpages⟩ := (hnew o' ho').pages
    rcases (hnew o ho).header with ⟨skb, hskb, hheader⟩ | hunused
    · rw [hheader] at hmem
      exact hs.apart skb hskb skb' hskb' (hpages hmem)
    · exact hunused skb' hskb' (mem_cons_of_mem _ (hpages hmem))
  · exact hexact

theorem fill (hs : Sound s) {x : Mbuf} (hm : Unused s m) :
    Sound { s with heap := s.heap.setMbuf m x } :=
  hs.of_derived (fun o ho => hs.derived ho (.setMbuf (hm o ho))) hs.exact

theorem put (hs : Sound s) (hvalid : skb.Valid s.heap) (hapart : ∀ o ∈ s.skbs, Apart o skb)
    (hwhole : skb.Whole s.heap) : Sound { s with skbs := s.skbs ++ [skb] } := by
  constructor
  · intro o ho
    rcases mem_append.mp ho with ho | ho
    · exact hs.valid o ho
    · rwa [mem_singleton.mp ho]
  · intro o ho
    rcases mem_append.mp ho with ho | ho
    · exact hs.whole o ho
    · rwa [mem_singleton.mp ho]
  · intro o ho o' ho'
    rcases mem_append.mp ho with ho | ho
    · rcases mem_append.mp ho' with ho' | ho'
      · exact hs.apart o ho o' ho'
      · rw [mem_singleton.mp ho']
        exact (hapart o ho).1
    · rw [mem_singleton.mp ho]
      rcases mem_append.mp ho' with ho' | ho'
      · exact (hapart o' ho').2
      · rw [mem_singleton.mp ho']
        exact hvalid.header_notMem
  · exact hs.exact

theorem derived_of_sublist (hs : Sound s) {h : Heap} (hskb : skb ∈ s.skbs)
    (hk : Keeps s.heap h skb) (hsub : o.frags.Sublist skb.frags)
    (hlinear : o.start h + o.headlen ≤ (h.mbuf o.headerMbuf).buf.length)
    (hsmall : (h.mbuf o.headerMbuf).buf.length < 2 ^ 16)
    (hdataLen : o.dataLen = sizes o.frags) (hle : o.dataLen ≤ o.len)
    (hheader : o.headerMbuf = skb.headerMbuf ∨ Unused s o.headerMbuf) : Derived s h o := by
  have hnotMem : o.headerMbuf ∉ skb.pages := by
    rcases hheader with hsame | hunused
    · rw [hsame]
      exact (hs.valid skb hskb).header_notMem
    · exact not_mem_of_not_mem_cons (hunused skb hskb)
  constructor
  · exact (hk.valid (hs.valid skb hskb)).of_sublist hsub hlinear hsmall hdataLen hle hnotMem
  · exact (hk.whole (hs.whole skb hskb)).of_sublist hsub
  · exact ⟨skb, hskb, (hsub.map Frag.mbuf).subset⟩
  · rcases hheader with hsame | hunused
    · exact .inl ⟨skb, hskb, hsame⟩
    · exact .inr hunused

section Split

variable {header data len : Nat}

section

variable (hs : Sound s) (hskb : skb ∈ s.skbs)

include hs hskb

theorem derived_insideHeader (hinside : len < skb.headlen)
    (hroom : Room s header data (skb.headlen - len)) :
    let r := skbSplitInsideHeader s.heap skb (blank header data) len skb.headlen
    Derived s r.1 r.2.1 ∧ Derived s r.1 r.2.2 := by
  obtain ⟨hunused, hfits, hsmall⟩ := hroom
  have hvalid := hs.valid skb hskb
  intro r
  have hk : Keeps s.heap r.1 skb := .write (not_mem_of_not_mem_cons (hunused skb hskb))
  have hlength : (r.1.mbuf header).buf.length = (s.heap.mbuf header).buf.length := by
    simp [r, skbSplitInsideHeader, Heap.write, Heap.setMbuf, blank]
  constructor
  · refine hs.derived_of_sublist hskb hk (nil_sublist _) ?_ (hk.valid hvalid).header_small
      rfl (Nat.zero_le _) (.inl rfl)
    refine (hk.valid hvalid).linear_fits_of_le rfl ?_
    exact Nat.add_le_add_left (Nat.le_of_lt hinside) skb.data
  · have hheadlen : r.2.2.headlen = skb.headlen - len := by
      simp [r, skbSplitInsideHeader, SkBuff.headlen, blank]
    refine hs.derived_of_sublist hskb hk (List.Sublist.refl _) ?_ ?_ hvalid.dataLen_eq
      (Nat.le_add_left _ _) (.inr hunused)
    · rw [hheadlen]
      change headOff (r.1.mbuf header) + data + (skb.headlen - len) ≤ (r.1.mbuf header).buf.length
      rwa [headOff_congr hlength, hlength]
    · change (r.1.mbuf header).buf.length < 2 ^ 16
      rwa [hlength]

theorem derived_noHeader (hbehind : skb.headlen ≤ len) (hlen : len ≤ skb.len)
    (hroom : Room s header data 0) (hb : boundary skb.frags (len - skb.headlen) = true) :
    let r := skbSplitNoHeader s.heap skb (blank header data) len skb.headlen
    Derived s r.1 r.2.1 ∧ Derived s r.1 r.2.2 := by
  obtain ⟨hunused, hfits, hsmall⟩ := hroom
  have hvalid := hs.valid skb hskb
  have hsizes := sizes_frags hvalid
  have happend := splitFrags_append hbehind hb
  obtain ⟨hfirst, hsecond⟩ := sizes_splitFrags hbehind (hsizes.symm ▸ hlen)
  intro r
  constructor
  · refine hs.derived_of_sublist hskb (.refl _ _) ?_ ?_ hvalid.header_small hfirst.symm
      (Nat.sub_le _ _) (.inl rfl)
    · exact happend ▸ sublist_append_left _ _
    · refine hvalid.linear_fits_of_le rfl ?_
      change skb.data + (len - (len - skb.headlen)) ≤ skb.data + skb.headlen
      omega
  · refine hs.derived_of_sublist hskb (.refl _ _) ?_ ?_ hsmall ?_ (Nat.le_refl _) (.inr hunused)
    · exact happend ▸ sublist_append_right _ _
    · have hheadlen : r.2.2.headlen = 0 := Nat.sub_self _
      rw [hheadlen]
      exact hfits
    · change skb.len - len = sizes (splitFrags len skb.headlen skb.frags).2
      omega

theorem split (hlen : len ≤ skb.len) (hroom : Room s header data (skb.headlen - len))
    (hb : boundary skb.frags (len - skb.headlen) = true) :
    Sound (split s skb k header data len) := by
  have hparts : Derived s (skbSplit s.heap skb (blank header data) len).1
        (skbSplit s.heap skb (blank header data) len).2.1 ∧
      Derived s (skbSplit s.heap skb (blank header data) len).1
        (skbSplit s.heap skb (blank header data) len).2.2 := by
    unfold skbSplit
    by_cases hinside : len < skb.headlen
    · rw [if_pos hinside]
      exact hs.derived_insideHeader hskb hinside hroom
    · rw [if_neg hinside]
      have hzero : skb.headlen - len = 0 := by omega
      exact hs.derived_noHeader hskb (Nat.le_of_not_lt hinside) hlen (hzero ▸ hroom) hb
  have hkeeps : ∀ o ∈ s.skbs, Keeps s.heap (skbSplit s.heap skb (blank header data) len).1 o := by
    intro o ho
    unfold skbSplit
    split
    · exact .write (not_mem_of_not_mem_cons (hroom.1 o ho))
    · exact .refl _ _
  refine hs.of_derived ?_ hs.exact
  intro o ho
  rcases mem_append.mp ho with ho | ho
  · rcases mem_or_eq_of_mem_set ho with ho | rfl
    · exact hs.derived ho (hkeeps o ho)
    · exact hparts.1
  · rw [mem_singleton.mp ho]
    exact hparts.2

end

end Split

theorem derived_trim (hs : Sound s) {len : Nat} (hskb : skb ∈ s.skbs) (hlen : len ≤ skb.len)
    (hb : boundary skb.frags (len - skb.headlen) = true) :
    Derived s s.heap (pskbTrimHead skb len) := by
  have hvalid := hs.valid skb hskb
  have hadd := headlen_add hvalid
  have hsizes := sizes_frags hvalid
  unfold pskbTrimHead
  dsimp only
  split
  · refine hs.derived_of_sublist hskb (.refl _ _) (List.Sublist.refl _) ?_ hvalid.header_small
      hvalid.dataLen_eq ?_ (.inl rfl)
    · refine hvalid.linear_fits_of_le rfl ?_
      change skb.data + min len skb.headlen + (skb.len - min len skb.headlen - skb.dataLen) ≤ _
      omega
    · change skb.dataLen ≤ skb.len - min len skb.headlen
      omega
  · rw [show len - min len skb.headlen = len - skb.headlen by omega]
    refine hs.derived_of_sublist hskb (.refl _ _) (trimFrags_sublist hb) ?_ hvalid.header_small ?_
      (Nat.le_refl _) (.inl rfl)
    · refine hvalid.linear_fits_of_le rfl ?_
      change skb.data + min len skb.headlen +
        (skb.dataLen - (len - skb.headlen) - (skb.dataLen - (len - skb.headlen))) ≤ _
      omega
    · change skb.dataLen - (len - skb.headlen) = sizes (trimFrags (len - skb.headlen) skb.frags)
      rw [sizes_trimFrags]
      omega

theorem of_set (hs : Sound s) (hkeeps : ∀ o ∈ s.skbs, Keeps s.heap t.heap o)
    (ho : Derived s t.heap o) (hskbs : t.skbs = s.skbs.set k o ∨ t.skbs = s.skbs ++ [o])
    (hnic : t.nic = s.nic) : Sound t := by
  refine hs.of_derived ?_ (hnic ▸ hs.exact)
  intro o' ho'
  rcases hskbs with hset | happend
  · rw [hset] at ho'
    rcases mem_or_eq_of_mem_set ho' with ho' | rfl
    · exact hs.derived ho' (hkeeps o' ho')
    · exact ho
  · rw [happend] at ho'
    rcases mem_append.mp ho' with ho' | ho'
    · exact hs.derived ho' (hkeeps o' ho')
    · rwa [mem_singleton.mp ho']

section

variable (hs : Sound s) (hskb : skb ∈ s.skbs)

include hs hskb

theorem trim {len : Nat} (hlen : len ≤ skb.len)
    (hb : boundary skb.frags (len - skb.headlen) = true) :
    Sound { s with skbs := s.skbs.set k (pskbTrimHead skb len) } :=
  hs.of_set (fun o _ => .refl _ o) (hs.derived_trim hskb hlen hb) (.inl rfl) rfl

theorem clone : Sound { s with skbs := s.skbs ++ [skb] } :=
  hs.of_set (k := 0) (fun o _ => .refl _ o) (hs.derived hskb (.refl _ _)) (.inr rfl) rfl

theorem copy {header data : Nat} (hroom : Room s header data skb.headlen) :
    Sound (pskbCopy s skb header data) := by
  obtain ⟨hunused, hfits, hsmall⟩ := hroom
  have hvalid := hs.valid skb hskb
  have hkeeps : ∀ o ∈ s.skbs, Keeps s.heap (pskbCopy s skb header data).heap o :=
    fun o ho => .write (not_mem_of_not_mem_cons (hunused o ho))
  have hlength : ((pskbCopy s skb header data).heap.mbuf header).buf.length =
      (s.heap.mbuf header).buf.length := by
    simp [pskbCopy, Heap.write, Heap.setMbuf]
  refine hs.of_set (k := 0) hkeeps ?_ (.inr rfl) rfl
  refine hs.derived_of_sublist hskb (hkeeps skb hskb) (List.Sublist.refl _) ?_ ?_
    hvalid.dataLen_eq hvalid.dataLen_le (.inr hunused)
  · change headOff ((pskbCopy s skb header data).heap.mbuf header) + data + skb.headlen ≤
      ((pskbCopy s skb header data).heap.mbuf header).buf.length
    rwa [headOff_congr hlength, hlength]
  · change ((pskbCopy s skb header data).heap.mbuf header).buf.length < 2 ^ 16
    rwa [hlength]

theorem push {network transport gsoSize : Nat} {hdr : List UInt8} {partialChecksum : Bool}
    (hdata : hdr.length ≤ skb.data) :
    Sound (skbPush s skb k hdr network transport partialChecksum gsoSize) := by
  have hvalid := hs.valid skb hskb
  have hkeeps : ∀ o ∈ s.skbs,
      Keeps s.heap (skbPush s skb k hdr network transport partialChecksum gsoSize).heap o :=
    fun o ho => .write (hs.apart skb hskb o ho)
  have hvalid' := (hkeeps skb hskb).valid hvalid
  refine hs.of_set (k := k) hkeeps ?_ (.inl rfl) rfl
  refine hs.derived_of_sublist hskb (hkeeps skb hskb) (List.Sublist.refl _) ?_
    hvalid'.header_small hvalid.dataLen_eq ?_ (.inl rfl)
  · have hadd := headlen_add hvalid
    refine hvalid'.linear_fits_of_le rfl ?_
    change skb.data - hdr.length + (skb.len + hdr.length - skb.dataLen) ≤ _
    omega
  · exact Nat.le_trans hvalid.dataLen_le (Nat.le_add_right _ _)

end

theorem xmit (rawCksum : List UInt8 → UInt8 × UInt8) (hs : Sound s) (hskb : skb ∈ s.skbs) :
    Sound (xmit rawCksum s skb k) := by
  apply hs.of_derived
  · intro o ho
    have hold : o ∈ s.skbs := mem_of_mem_eraseIdx ho
    exact hs.derived hold (.xmit rawCksum (hs.apart skb hskb o hold))
  · intro x hx
    rcases mem_append.mp hx with hx | hx
    · exact hs.exact x hx
    · rw [mem_singleton.mp hx]
      exact sent_exact rawCksum (hs.valid skb hskb) (hs.whole skb hskb)

theorem step (rawCksum : List UInt8 → UInt8 × UInt8) {a : Action} (hs : Sound s)
    (hguard : Uncut rawCksum s a) (hstep : step rawCksum s a = some t) : Sound t := by
  cases a with
  | fill m x =>
    obtain ⟨hm, rfl⟩ := of_guard hstep
    exact hs.fill hm
  | put skb =>
    obtain ⟨⟨hvalid, hapart⟩, rfl⟩ := of_guard hstep
    exact hs.put hvalid hapart hguard
  | split k header data len =>
    obtain ⟨skb, hk, hrest⟩ := Option.bind_eq_some_iff.mp hstep
    obtain ⟨⟨hlen, hroom⟩, rfl⟩ := of_guard hrest
    simp only [Uncut, hk, Option.all_some] at hguard
    exact hs.split (List.mem_of_getElem? hk) hlen hroom hguard
  | trim k len =>
    obtain ⟨skb, hk, hrest⟩ := Option.bind_eq_some_iff.mp hstep
    obtain ⟨hlen, rfl⟩ := of_guard hrest
    simp only [Uncut, hk, Option.all_some] at hguard
    exact hs.trim (List.mem_of_getElem? hk) hlen hguard
  | clone k =>
    obtain ⟨skb, hk, rfl⟩ := Option.map_eq_some_iff.mp hstep
    exact hs.clone (List.mem_of_getElem? hk)
  | copy k header data =>
    obtain ⟨skb, hk, hrest⟩ := Option.bind_eq_some_iff.mp hstep
    obtain ⟨hroom, rfl⟩ := of_guard hrest
    exact hs.copy (List.mem_of_getElem? hk) hroom
  | push k hdr network transport partialChecksum gsoSize =>
    obtain ⟨skb, hk, hrest⟩ := Option.bind_eq_some_iff.mp hstep
    obtain ⟨hdata, rfl⟩ := of_guard hrest
    exact hs.push (List.mem_of_getElem? hk) hdata
  | xmit k =>
    obtain ⟨skb, hk, rfl⟩ := Option.map_eq_some_iff.mp hstep
    exact hs.xmit rawCksum (List.mem_of_getElem? hk)

end Sound

def zeroed : State where
  heap := ⟨fun _ => ⟨[], 0, 0, 0⟩, fun _ => none, fun _ => 0⟩
  skbs := []
  nic := []

/-- An sk_buff of two linear bytes and a fragment of three is split at `len`, and both parts are
sent behind a header. -/
def cutAt (len : Nat) : List Action :=
  [.fill 0 ⟨List.replicate 148 0 ++ [6, 7] ++ List.replicate 10 0, 128, 0, 0⟩,
    .fill 1 ⟨List.replicate 160 0, 128, 0, 0⟩, .fill 10 ⟨[1, 2, 3], 0, 3, 3⟩,
    .put { blank 0 20 with len := 5, dataLen := 3, frags := [⟨10, 0, 3⟩] },
    .split 0 1 20 len, .push 0 [8] 0 0 false 0, .push 1 [9] 0 0 false 0, .xmit 0, .xmit 0]

end LightStack.Tx.Frame
