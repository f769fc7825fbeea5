import Mathlib

/-!
# Tail queues

A doubly linked list, whose backward links are addresses of forward links.
-/

namespace LightStack.Lib

open Function List

inductive Slot (ι α : Type*) where
  | head (r : ι)
  | next (a : α)
  deriving DecidableEq

structure Tailq (ι α : Type*) where
  ptr : Slot ι α → Option α
  last : ι → Option (Slot ι α)
  prev : α → Option (Slot ι α)

namespace Tailq

variable {ι α : Type*} [DecidableEq ι] [DecidableEq α]

def insertTail (q : Tailq ι α) (r : ι) (a : α) : Option (Tailq ι α) :=
  (q.last r).map fun slot =>
    { ptr := update (update q.ptr (.next a) none) slot (some a)
      prev := update q.prev a (some slot)
      last := update q.last r (some (.next a)) }

def remove (q : Tailq ι α) (r : ι) (a : α) : Option (Tailq ι α) :=
  (q.prev a).map fun slot =>
    match q.ptr (.next a) with
    | some b =>
      { q with
        ptr := update q.ptr slot (some b)
        prev := update q.prev b (some slot) }
    | none =>
      { q with
        ptr := update q.ptr slot none
        last := update q.last r (some slot) }

def init (q : Tailq ι α) (r : ι) : Tailq ι α :=
  { q with
    ptr := update q.ptr (.head r) none
    last := update q.last r (some (.head r)) }

def clear (q : Tailq ι α) (a : α) : Tailq ι α :=
  { q with
    ptr := update q.ptr (.next a) none
    prev := update q.prev a none }

/-! ## Well-formed lists -/

omit [DecidableEq ι] [DecidableEq α]

def slots : Slot ι α → List α → List (Slot ι α)
  | _, [] => []
  | slot, a :: l => slot :: slots (.next a) l

def endSlot : Slot ι α → List α → Slot ι α
  | slot, [] => slot
  | _, a :: l => endSlot (.next a) l

def Path (q : Tailq ι α) : Slot ι α → List α → Prop
  | _, [] => True
  | slot, a :: l => q.ptr slot = some a ∧ q.prev a = some slot ∧ Path q (.next a) l

structure IsList (q : Tailq ι α) (r : ι) (l : List α) : Prop where
  path : Path q (.head r) l
  stop : q.ptr (endSlot (.head r) l) = none
  last : q.last r = some (endSlot (.head r) l)

theorem endSlot_append (slot : Slot ι α) (l m : List α) :
    endSlot slot (l ++ m) = endSlot (endSlot slot l) m := by
  induction l generalizing slot with
  | nil => rfl
  | cons a l ih => exact ih (.next a)

theorem path_append {q : Tailq ι α} {slot : Slot ι α} {l m : List α} :
    Path q slot (l ++ m) ↔ Path q slot l ∧ Path q (endSlot slot l) m := by
  induction l generalizing slot with
  | nil => exact (and_iff_right trivial).symm
  | cons a l ih =>
    simp only [cons_append, Path, endSlot, ih]
    tauto

theorem of_mem_slots {s slot : Slot ι α} {l : List α} (h : s ∈ slots slot l) :
    s = slot ∨ ∃ b ∈ l, s = .next b := by
  induction l generalizing slot with
  | nil => cases h
  | cons a l ih =>
    obtain rfl | h := mem_cons.mp h
    · exact .inl rfl
    · obtain rfl | ⟨b, hb, rfl⟩ := ih h
      · exact .inr ⟨a, mem_cons_self, rfl⟩
      · exact .inr ⟨b, mem_cons_of_mem a hb, rfl⟩

theorem endSlot_eq (slot : Slot ι α) (l : List α) :
    endSlot slot l = slot ∨ ∃ b ∈ l, endSlot slot l = .next b := by
  induction l generalizing slot with
  | nil => exact .inl rfl
  | cons a l ih =>
    obtain h | ⟨b, hb, h⟩ := ih (.next a)
    · exact .inr ⟨a, mem_cons_self, h⟩
    · exact .inr ⟨b, mem_cons_of_mem a hb, h⟩

theorem endSlot_notMem_slots {slot : Slot ι α} {l : List α} (hnodup : l.Nodup)
    (hslot : ∀ b ∈ l, slot ≠ .next b) : endSlot slot l ∉ slots slot l := by
  induction l generalizing slot with
  | nil => exact not_mem_nil
  | cons a l ih =>
    obtain ⟨ha, hnodup⟩ := nodup_cons.mp hnodup
    have hrest : endSlot (.next a) l ∉ slots (.next a) l :=
      ih hnodup fun b hb heq => ha (Slot.next.inj heq ▸ hb)
    intro h
    obtain hself | h := mem_cons.mp h
    · have hself : endSlot (.next a) l = slot := hself
      obtain heq | ⟨b, hb, heq⟩ := endSlot_eq (ι := ι) (.next a) l
      · exact hslot a mem_cons_self (hself.symm.trans heq)
      · exact hslot b (mem_cons_of_mem a hb) (hself.symm.trans heq)
    · exact hrest h

theorem Path.congr {q q' : Tailq ι α} {slot : Slot ι α} {l : List α} (h : Path q slot l)
    (hptr : ∀ s ∈ slots slot l, q'.ptr s = q.ptr s) (hprev : ∀ b ∈ l, q'.prev b = q.prev b) :
    Path q' slot l := by
  induction l generalizing slot with
  | nil => trivial
  | cons a l ih =>
    obtain ⟨hfirst, hback, hrest⟩ := h
    refine ⟨?_, ?_, ih hrest (fun s hs => hptr s (mem_cons_of_mem _ hs))
      fun b hb => hprev b (mem_cons_of_mem a hb)⟩
    · rw [hptr slot mem_cons_self]
      exact hfirst
    · rw [hprev a mem_cons_self]
      exact hback

structure Represents (q : Tailq ι α) (lists : ι → List α) : Prop where
  isList : ∀ r, IsList q r (lists r)
  nodup : ∀ r, (lists r).Nodup
  disjoint : ∀ r r' a, a ∈ lists r → a ∈ lists r' → r = r'

namespace Represents

variable {q q' : Tailq ι α} {lists : ι → List α} {r : ι} {a : α}

def Owns (lists : ι → List α) (r : ι) (s : Slot ι α) : Prop :=
  s = .head r ∨ ∃ b ∈ lists r, s = .next b

theorem owner_unique (h : Represents q lists) {r r' : ι} {s : Slot ι α} (hs : Owns lists r s)
    (hs' : Owns lists r' s) : r = r' := by
  obtain rfl | ⟨b, hb, rfl⟩ := hs
  · obtain heq | ⟨c, -, heq⟩ := hs'
    · exact Slot.head.inj heq
    · cases heq
  · obtain heq | ⟨c, hc, heq⟩ := hs'
    · cases heq
    · obtain rfl := Slot.next.inj heq
      exact h.disjoint r r' b hb hc

theorem owns_endSlot (lists : ι → List α) (r : ι) : Owns lists r (endSlot (.head r) (lists r)) :=
  endSlot_eq (.head r) (lists r)

section

variable (h : Represents q lists)

include h

theorem endSlot_notMem (r : ι) : endSlot (.head r) (lists r) ∉ slots (.head r) (lists r) :=
  endSlot_notMem_slots (h.nodup r) fun _ _ heq => nomatch heq

theorem isList_congr (r : ι) (hptr : ∀ s, Owns lists r s → q'.ptr s = q.ptr s)
    (hprev : ∀ b ∈ lists r, q'.prev b = q.prev b) (hlast : q'.last r = q.last r) :
    IsList q' r (lists r) where
  path := (h.isList r).path.congr (fun s hs => hptr s (of_mem_slots hs)) hprev
  stop := by
    rw [hptr _ (owns_endSlot lists r)]
    exact (h.isList r).stop
  last := by
    rw [hlast]
    exact (h.isList r).last

theorem first (r : ι) : q.ptr (.head r) = (lists r).head? := by
  have hlist := h.isList r
  cases hl : lists r with
  | nil =>
    have hstop := hlist.stop
    rw [hl] at hstop
    exact hstop
  | cons a l =>
    have hpath := hlist.path
    rw [hl] at hpath
    exact hpath.1

theorem next_first {l : List α} (hl : lists r = a :: l) : q.ptr (.next a) = l.head? := by
  obtain ⟨hpath, hstop, -⟩ := h.isList r
  rw [hl] at hpath hstop
  cases l with
  | nil => exact hstop
  | cons b l => exact hpath.2.2.1

end

variable [DecidableEq ι] [DecidableEq α]

section

variable (h : Represents q lists)

include h

theorem insertTail (hnew : ∀ r, a ∉ lists r) :
    ∃ q', q.insertTail r a = some q' ∧
      Represents q' (update lists r (lists r ++ [a])) := by
  have hlist := h.isList r
  have hnotOwned : ∀ r', ¬ Owns lists r' (.next a) := by
    rintro r' (heq | ⟨b, hb, heq⟩)
    · cases heq
    · exact hnew r' (Slot.next.inj heq ▸ hb)
  have hend : endSlot (.head r) (lists r) ≠ .next a :=
    fun heq => hnotOwned r (heq ▸ owns_endSlot lists r)
  refine ⟨_, by rw [Tailq.insertTail, hlist.last, Option.map_some], ?_, ?_, ?_⟩
  · intro r'
    by_cases hr : r' = r
    · subst hr
      rw [update_self]
      refine ⟨path_append.mpr ⟨?_, ?_, ?_, trivial⟩, ?_, ?_⟩
      · refine hlist.path.congr (fun s hs => ?_) fun b hb => ?_
        · have hne : s ≠ endSlot (.head r') (lists r') :=
            fun heq => h.endSlot_notMem r' (heq ▸ hs)
          have hne' : s ≠ .next a := fun heq => hnotOwned r' (heq ▸ of_mem_slots hs)
          simp [hne, hne']
        · have hne : b ≠ a := fun heq => hnew r' (heq ▸ hb)
          simp [hne]
      · simp
      · simp
      · rw [endSlot_append]
        simp [endSlot, hend.symm]
      · rw [endSlot_append]
        simp [endSlot]
    · rw [update_of_ne hr]
      refine h.isList_congr r' (fun s hs => ?_) (fun b hb => ?_) (by simp [hr])
      · have hne : s ≠ endSlot (.head r) (lists r) :=
          fun heq => hr (h.owner_unique hs (heq ▸ owns_endSlot lists r))
        have hne' : s ≠ .next a := fun heq => hnotOwned r' (heq ▸ hs)
        simp [hne, hne']
      · have hne : b ≠ a := fun heq => hnew r' (heq ▸ hb)
        simp [hne]
  · intro r'
    by_cases hr : r' = r
    · subst hr
      rw [update_self]
      exact (h.nodup r').append (nodup_singleton a) (disjoint_singleton.mpr (hnew r'))
    · rw [update_of_ne hr]
      exact h.nodup r'
  · have hmem : ∀ r' b, b ∈ update lists r (lists r ++ [a]) r' →
        b ∈ lists r' ∨ (b = a ∧ r' = r) := by
      intro r' b hb
      by_cases hr : r' = r
      · subst hr
        rw [update_self, mem_append, mem_singleton] at hb
        exact hb.imp id fun heq => ⟨heq, rfl⟩
      · rw [update_of_ne hr] at hb
        exact .inl hb
    intro r₁ r₂ b hb₁ hb₂
    obtain hold₁ | ⟨heq₁, hr₁⟩ := hmem r₁ b hb₁
    · obtain hold₂ | ⟨heq₂, -⟩ := hmem r₂ b hb₂
      · exact h.disjoint r₁ r₂ b hold₁ hold₂
      · exact absurd (heq₂ ▸ hold₁) (hnew r₁)
    · obtain hold₂ | ⟨-, hr₂⟩ := hmem r₂ b hb₂
      · exact absurd (heq₁ ▸ hold₂) (hnew r₂)
      · rw [hr₁, hr₂]

theorem isList_remove {l m : List α} (hsplit : lists r = l ++ a :: m) :
    ∃ q', q.remove r a = some q' ∧ IsList q' r (l ++ m) ∧
      (∀ s, q'.ptr s ≠ q.ptr s → Owns lists r s) ∧
      (∀ b, q'.prev b ≠ q.prev b → b ∈ lists r) ∧ ∀ r' ≠ r, q'.last r' = q.last r' := by
  obtain ⟨hpath, hstop, hlast⟩ := h.isList r
  have hnodup := h.nodup r
  rw [hsplit] at hpath hstop hlast hnodup
  obtain ⟨hbefore, -, hprev, hbehind⟩ := path_append.mp hpath
  rw [endSlot_append] at hstop hlast
  obtain ⟨hnodupL, hnodupM, hapart⟩ := nodup_append.mp hnodup
  have hslotL : endSlot (.head r) l ∉ slots (.head r) l :=
    endSlot_notMem_slots hnodupL fun _ _ heq => nomatch heq
  have howns : Owns lists r (endSlot (.head r) l) :=
    (endSlot_eq (.head r) l).imp id fun ⟨b, hb, heq⟩ => ⟨b, hsplit ▸ mem_append_left _ hb, heq⟩
  -- the link before the element is not one of those behind it
  have hslotM : ∀ b ∈ m, endSlot (.head r) l ≠ .next b := by
    intro b hb heq
    obtain hhead | ⟨c, hc, hnext⟩ := endSlot_eq (.head r) l
    · exact nomatch hhead.symm.trans heq
    · obtain rfl := Slot.next.inj (hnext.symm.trans heq)
      exact hapart c hc c (mem_cons_of_mem a hb) rfl
  cases m with
  | nil =>
    have hnext : q.ptr (.next a) = none := hstop
    refine ⟨_, by rw [Tailq.remove, hprev, Option.map_some], ?_⟩
    simp only [hnext, append_nil]
    refine ⟨⟨?_, by simp, by simp⟩, ?_, by simp, ?_⟩
    · refine hbefore.congr (fun s hs => ?_) fun _ _ => rfl
      have hne : s ≠ endSlot (.head r) l := fun heq => hslotL (heq ▸ hs)
      simp [hne]
    · intro s hs
      by_cases heq : s = endSlot (.head r) l
      · exact heq ▸ howns
      · simp [heq] at hs
    · intro r' hr
      simp [hr]
  | cons b m =>
    obtain ⟨hnext, -, hrest⟩ := hbehind
    have hb : b ∈ lists r := by simp [hsplit]
    have hbM : b ∉ m := (nodup_cons.mp (nodup_cons.mp hnodupM).2).1
    refine ⟨_, by rw [Tailq.remove, hprev, Option.map_some], ?_⟩
    simp only [hnext]
    refine ⟨⟨path_append.mpr ⟨?_, ?_, ?_, ?_⟩, ?_, ?_⟩, ?_, ?_, by simp⟩
    · refine hbefore.congr (fun s hs => ?_) fun c hc => ?_
      · have hne : s ≠ endSlot (.head r) l := fun heq => hslotL (heq ▸ hs)
        simp [hne]
      · have hne : c ≠ b := fun heq => hapart c hc b (by simp) heq
        simp [hne]
    · simp
    · simp
    · refine hrest.congr (fun s hs => ?_) fun c hc => ?_
      · have hne : s ≠ endSlot (.head r) l := by
          obtain rfl | ⟨c, hc, rfl⟩ := of_mem_slots hs
          · exact (hslotM b mem_cons_self).symm
          · exact (hslotM c (mem_cons_of_mem b hc)).symm
        simp [hne]
      · have hne : c ≠ b := fun heq => hbM (heq ▸ hc)
        simp [hne]
    · have hne : endSlot (.next b) m ≠ endSlot (.head r) l := by
        obtain heq | ⟨c, hc, heq⟩ := endSlot_eq (ι := ι) (.next b) m
        · rw [heq]
          exact (hslotM b mem_cons_self).symm
        · rw [heq]
          exact (hslotM c (mem_cons_of_mem b hc)).symm
      rw [endSlot_append]
      simpa [endSlot, hne] using hstop
    · rw [endSlot_append]
      exact hlast
    · intro s hs
      by_cases heq : s = endSlot (.head r) l
      · exact heq ▸ howns
      · simp [heq] at hs
    · intro c hc
      by_cases heq : c = b
      · exact heq ▸ hb
      · simp [heq] at hc

theorem remove (hin : a ∈ lists r) : ∃ q', q.remove r a = some q' ∧
      Represents q' (update lists r ((lists r).erase a)) := by
  obtain ⟨l, m, hsplit⟩ := append_of_mem hin
  have hnodup := h.nodup r
  rw [hsplit] at hnodup
  have hnot : a ∉ l := fun hal => (nodup_append.mp hnodup).2.2 a hal a mem_cons_self rfl
  have herase : (lists r).erase a = l ++ m := by
    rw [hsplit, erase_append_right _ hnot, erase_cons_head]
  obtain ⟨q', hq', hlist, hptr, hprev, hlast⟩ := h.isList_remove hsplit
  refine ⟨q', hq', ?_, ?_, ?_⟩
  · intro r'
    by_cases hr : r' = r
    · subst hr
      rw [update_self, herase]
      exact hlist
    · rw [update_of_ne hr]
      refine h.isList_congr r' (fun s hs => ?_) (fun b hb => ?_) (hlast r' hr)
      · by_contra hne
        exact hr (h.owner_unique hs (hptr s hne))
      · by_contra hne
        exact hr (h.disjoint r' r b hb (hprev b hne))
  · intro r'
    by_cases hr : r' = r
    · subst hr
      rw [update_self]
      exact (h.nodup r').erase a
    · rw [update_of_ne hr]
      exact h.nodup r'
  · have hmem : ∀ r' b, b ∈ update lists r ((lists r).erase a) r' → b ∈ lists r' := by
      intro r' b hb
      by_cases hr : r' = r
      · subst hr
        rw [update_self] at hb
        exact mem_of_mem_erase hb
      · rwa [update_of_ne hr] at hb
    exact fun r₁ r₂ b hb₁ hb₂ => h.disjoint r₁ r₂ b (hmem r₁ b hb₁) (hmem r₂ b hb₂)

theorem clear (hnew : ∀ r, a ∉ lists r) :
    Represents (q.clear a) lists where
  isList := by
    intro r
    refine h.isList_congr r (fun s hs => ?_) (fun b hb => ?_) rfl
    · have hne : s ≠ .next a := by
        rintro rfl
        obtain heq | ⟨b, hb, heq⟩ := hs
        · cases heq
        · exact hnew r (Slot.next.inj heq ▸ hb)
      simp [Tailq.clear, hne]
    · have hne : b ≠ a := fun heq => hnew r (heq ▸ hb)
      simp [Tailq.clear, hne]
  nodup := h.nodup
  disjoint := h.disjoint

theorem init (hempty : lists r = []) : Represents (q.init r) lists where
  isList := by
    intro r'
    by_cases hr : r' = r
    · subst hr
      rw [hempty]
      exact ⟨trivial, by simp [Tailq.init, endSlot], by simp [Tailq.init, endSlot]⟩
    · refine h.isList_congr r' (fun s hs => ?_) (fun b hb => rfl) (by simp [Tailq.init, hr])
      have hne : s ≠ .head r := by
        rintro rfl
        exact hr (h.owner_unique hs (.inl rfl))
      simp [Tailq.init, hne]
  nodup := h.nodup
  disjoint := h.disjoint

end

end Represents

end Tailq

end LightStack.Lib
