import LightStack.Reply.Model

/-!
# Where the return value buffers are

A buffer is in the pool it was created for or in the hands of one call.
-/

namespace LightStack.Reply

open Function

variable {s t : State} {p q k : Nat} {c : Call}

structure Pooled (s : State) : Prop where
  disjoint : ∀ k j b, b ∈ s.bufs k → b ∈ s.bufs j → k = j
  nodup : ∀ k, (s.pools k).Nodup
  home : ∀ k b, b ∈ s.pools k → b ∈ s.bufs k
  held : ∀ p c, (s.pc p).held = some c → c.buf ∈ s.bufs c.proc ∧ c.buf ∉ s.pools c.proc
  sole : ∀ p q b, s.Holds p b → s.Holds q b → p = q
  kept : ∀ k b, b ∈ s.bufs k → b ∈ s.pools k ∨ ∃ p, s.Holds p b

def withdrawn (s : State) (p : Nat) (c : Call) : State :=
  { s.setPc p (.taken c) with
    pools := update s.pools c.proc ((s.pools c.proc).erase c.buf) }

theorem of_take (h : take s p c = some t) :
    s.pc p = .idle ∧ (t = s ∨ c.buf ∈ s.pools c.proc ∧ t = withdrawn s p c) := by
  unfold take at h
  split at h
  · cases h
  · next hbusy =>
    refine ⟨not_not.mp hbusy, ?_⟩
    split at h
    · exact .inl (Option.some.inj h).symm
    · obtain ⟨hmem, h⟩ := Option.ite_none_right_eq_some.mp h
      exact .inr ⟨hmem, (Option.some.inj h).symm⟩

theorem held_withdrawn (hidle : s.pc p = .idle) {d : Call} :
    ((withdrawn s p c).pc q).held = some d ↔ q = p ∧ d = c ∨ (s.pc q).held = some d := by
  by_cases hq : q = p
  · subst hq
    have hpc : (withdrawn s q c).pc q = .taken c := setPc_pc_self _
    simp [hpc, hidle, Pc.held, eq_comm]
  · have hpc : (withdrawn s p c).pc q = s.pc q := setPc_pc_of_ne _ hq
    simp [hpc, hq]

theorem holds_withdrawn (hidle : s.pc p = .idle) {b : Nat} :
    (withdrawn s p c).Holds q b ↔ q = p ∧ b = c.buf ∨ s.Holds q b := by
  constructor
  · rintro ⟨d, hd, rfl⟩
    rcases (held_withdrawn hidle).mp hd with ⟨hq, rfl⟩ | hd
    · exact .inl ⟨hq, rfl⟩
    · exact .inr ⟨d, hd, rfl⟩
  · rintro (⟨hq, rfl⟩ | ⟨d, hd, rfl⟩)
    · exact ⟨c, (held_withdrawn hidle).mpr (.inl ⟨hq, rfl⟩), rfl⟩
    · exact ⟨d, (held_withdrawn hidle).mpr (.inr hd), rfl⟩

theorem mem_putBack {j b : Nat} :
    b ∈ (putBack s p c).pools j ↔ b ∈ s.pools j ∨ (j = c.proc ∧ b = c.buf) := by
  show b ∈ update s.pools c.proc _ j ↔ _
  by_cases hj : j = c.proc
  · subst hj
    rw [update_self, List.mem_cons]
    tauto
  · rw [update_of_ne hj]
    tauto

theorem held_putBack {d : Call} :
    ((putBack s p c).pc q).held = some d ↔ q ≠ p ∧ (s.pc q).held = some d := by
  by_cases hq : q = p
  · subst hq
    have hpc : (putBack s q c).pc q = .idle := setPc_pc_self _
    simp [hpc, Pc.held]
  · have hpc : (putBack s p c).pc q = s.pc q := setPc_pc_of_ne _ hq
    simp [hpc, hq]

namespace Pooled

section

variable (h : Pooled s)

include h

theorem congr (hbufs : t.bufs = s.bufs) (hpools : t.pools = s.pools)
    (hheld : ∀ q, (t.pc q).held = (s.pc q).held) : Pooled t := by
  have hholds : ∀ q b, t.Holds q b ↔ s.Holds q b := by
    intro q b
    simp only [State.Holds, hheld]
  refine ⟨?_, ?_, ?_, ?_, ?_, ?_⟩
  · rw [hbufs]
    exact h.disjoint
  · rw [hpools]
    exact h.nodup
  · rw [hbufs, hpools]
    exact h.home
  · intro q c hc
    rw [hheld] at hc
    rw [hbufs, hpools]
    exact h.held q c hc
  · intro p q b hp hq
    exact h.sole p q b ((hholds p b).mp hp) ((hholds q b).mp hq)
  · intro k b hb
    rw [hbufs] at hb
    rw [hpools]
    exact (h.kept k b hb).imp_right fun ⟨p, hp⟩ => ⟨p, (hholds p b).mpr hp⟩

theorem setPc {pc : Pc} (hpc : pc.held = (s.pc p).held) : Pooled (s.setPc p pc) := by
  refine h.congr rfl rfl fun q => ?_
  by_cases hq : q = p
  · rw [hq, setPc_pc_self, hpc]
  · rw [setPc_pc_of_ne pc hq]

theorem notMem_of_held (hc : (s.pc p).held = some c) (j : Nat) : c.buf ∉ s.pools j := by
  intro hmem
  obtain ⟨hhome, hout⟩ := h.held p c hc
  have hj := h.disjoint j c.proc c.buf (h.home j c.buf hmem) hhome
  exact hout (hj ▸ hmem)

theorem mem_withdrawn (hmem : c.buf ∈ s.pools c.proc) {j b : Nat} :
    b ∈ (withdrawn s p c).pools j ↔ b ∈ s.pools j ∧ b ≠ c.buf := by
  show b ∈ update s.pools c.proc _ j ↔ _
  by_cases hj : j = c.proc
  · subst hj
    rw [update_self, (h.nodup c.proc).mem_erase_iff, and_comm]
  · rw [update_of_ne hj]
    refine ⟨fun hb => ⟨hb, ?_⟩, And.left⟩
    rintro rfl
    exact hj (h.disjoint _ _ _ (h.home _ _ hb) (h.home _ _ hmem))

theorem nodup_withdrawn (j : Nat) : ((withdrawn s p c).pools j).Nodup := by
  show (update s.pools c.proc _ j).Nodup
  by_cases hj : j = c.proc
  · subst hj
    rw [update_self]
    exact (h.nodup c.proc).erase c.buf
  · rw [update_of_ne hj]
    exact h.nodup j

theorem withdraw (hidle : s.pc p = .idle) (hmem : c.buf ∈ s.pools c.proc) :
    Pooled (withdrawn s p c) where
  disjoint := h.disjoint
  nodup := h.nodup_withdrawn
  home := fun j b hb => h.home j b ((h.mem_withdrawn hmem).mp hb).1
  held := by
    intro q d hd
    rw [h.mem_withdrawn hmem]
    rcases (held_withdrawn hidle).mp hd with ⟨-, rfl⟩ | hd
    · exact ⟨h.home _ _ hmem, fun hb => hb.2 rfl⟩
    · obtain ⟨hhome, hout⟩ := h.held q d hd
      exact ⟨hhome, fun hb => hout hb.1⟩
  sole := by
    -- a buffer in the pool is in nobody's hands
    have hfree : ∀ q, ¬ s.Holds q c.buf := by
      rintro q ⟨d, hd, hbuf⟩
      exact h.notMem_of_held hd c.proc (hbuf ▸ hmem)
    intro q r b hqb hrb
    rcases (holds_withdrawn hidle).mp hqb with ⟨hq, hb⟩ | hq
    · rcases (holds_withdrawn hidle).mp hrb with ⟨hr, -⟩ | hr
      · exact hq.trans hr.symm
      · exact (hfree r (hb ▸ hr)).elim
    · rcases (holds_withdrawn hidle).mp hrb with ⟨-, hb⟩ | hr
      · exact (hfree q (hb ▸ hq)).elim
      · exact h.sole q r b hq hr
  kept := by
    intro j b hb
    rw [h.mem_withdrawn hmem]
    by_cases hbc : b = c.buf
    · exact .inr ⟨p, (holds_withdrawn hidle).mpr (.inl ⟨rfl, hbc⟩)⟩
    · rcases h.kept j b hb with hin | ⟨q, hq⟩
      · exact .inl ⟨hin, hbc⟩
      · exact .inr ⟨q, (holds_withdrawn hidle).mpr (.inr hq)⟩

theorem nodup_putBack (hout : c.buf ∉ s.pools c.proc) (j : Nat) :
    ((putBack s p c).pools j).Nodup := by
  show (update s.pools c.proc _ j).Nodup
  by_cases hj : j = c.proc
  · subst hj
    rw [update_self]
    exact List.nodup_cons.mpr ⟨hout, h.nodup c.proc⟩
  · rw [update_of_ne hj]
    exact h.nodup j

theorem putBack (hc : (s.pc p).held = some c) : Pooled (putBack s p c) where
  disjoint := h.disjoint
  nodup := h.nodup_putBack (h.held p c hc).2
  home := by
    intro j b hb
    rcases mem_putBack.mp hb with hb | ⟨rfl, rfl⟩
    · exact h.home j b hb
    · exact (h.held p c hc).1
  held := by
    intro q d hd
    obtain ⟨hq, hd⟩ := held_putBack.mp hd
    obtain ⟨hhome, hout⟩ := h.held q d hd
    refine ⟨hhome, fun hb => ?_⟩
    rcases mem_putBack.mp hb with hb | ⟨-, hbuf⟩
    · exact hout hb
    · exact hq (h.sole q p d.buf ⟨d, hd, rfl⟩ ⟨c, hc, hbuf.symm⟩)
  sole := by
    rintro q r b ⟨d, hd, hb⟩ ⟨d', hd', hb'⟩
    exact h.sole q r b ⟨d, (held_putBack.mp hd).2, hb⟩ ⟨d', (held_putBack.mp hd').2, hb'⟩
  kept := by
    intro j b hb
    rw [mem_putBack]
    rcases h.kept j b hb with hin | ⟨q, d, hd, rfl⟩
    · exact .inl (.inl hin)
    · by_cases hq : q = p
      · subst hq
        obtain rfl := Option.some.inj (hd.symm.trans hc)
        exact .inl (.inr ⟨h.disjoint _ _ _ hb (h.held q d hc).1, rfl⟩)
      · exact .inr ⟨q, d, held_putBack.mpr ⟨hq, hd⟩, rfl⟩

end

end Pooled

end LightStack.Reply
