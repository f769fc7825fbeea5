import LightStack.Glue.Model

/-!
# What the ready lists account for

While sockets are closed once, `leak` accounts for the references that are never given back.
-/

namespace LightStack.Glue

open Lib Function List

def Pc.hand : Pc → Option Nat
  | .rxReading a _ _ => some a
  | .txWriting a _ _ => some a
  | _ => none

def Pc.reading : Pc → Nat
  | .rxReading _ _ _ => 1
  | _ => 0

def Pc.writing : Pc → Nat
  | .txWriting _ _ _ => 1
  | _ => 0

/-- The loops are between two sockets. -/
def Pc.Free (pc : Pc) : Prop := pc.reading = 0 ∧ pc.writing = 0 ∧ pc.hand = none

def inHand (pc : Pc) (a : Nat) : Nat := if pc.hand = some a then 1 else 0

/-- What the counters of a socket say that is on lists or in a loop's hands `count` times. -/
structure Counted (attached released : Bool) (closes own refs count leaked : Nat) : Prop where
  held : 0 < count → attached = true
  alive : attached = true → 0 < own ∧ released = false ∧ closes = 0
  balance : refs = own + count + leaked
  once : closes ≤ 1

def holds (list : Ready → List Nat) (pc : Pc) (a : Nat) : Nat :=
  memberships list a + inHand pc a

structure Kept (s : State) (leaked : Nat → Nat) : Prop where
  flagged : Flagged s.list s.present
  readLen : s.readLen = (s.list .read).length + s.pc.reading
  writeLen : s.writeLen = (s.list .write).length + s.pc.writing
  next : ∀ a, s.pc = .rxAccept (some a) → a ∈ s.list .accept
  counted : ∀ a, Counted (s.attached a) (s.released a) (s.closes a) (s.own a) (s.refs a)
    (holds s.list s.pc a) (leaked a)
  clean : s.staleSk = false ∧ s.staleSocket = false

variable {pc : Pc} {after : State → State} {l : List Nat} {list : Ready → List Nat}

theorem length_insert {r q : Ready} {a len k : Nat} (h : len = (list q).length + k) :
    (if r = q then len + 1 else len) = (update list r (list r ++ [a]) q).length + k := by
  split
  · next hr =>
    subst hr
    rw [update_self, length_append, length_singleton]
    omega
  · next hr => rw [update_of_ne (Ne.symm hr), h]

theorem length_remove {r q : Ready} {a len k : Nat} (hmem : a ∈ list r)
    (h : len = (list q).length + k) :
    (if r = q then len - 1 else len) = (update list r ((list r).erase a) q).length + k := by
  split
  · next hr =>
    subst hr
    have hpos := length_pos_of_mem hmem
    rw [update_self, length_erase_of_mem hmem]
    omega
  · next hr => rw [update_of_ne (Ne.symm hr), h]

namespace Kept

variable {s t : State} {n : Nat → Nat} {a : Nat} {r : Ready}

theorem start (h : Start s) : Kept s fun _ => 0 where
  flagged := ⟨fun r => by simp [h.list_eq], fun r a => by simp [h.list_eq, h.present_eq]⟩
  readLen := by simp [h.readLen_eq, h.list_eq, h.pc_eq, Pc.reading]
  writeLen := by simp [h.writeLen_eq, h.list_eq, h.pc_eq, Pc.writing]
  next := fun a ha => by simp [h.pc_eq] at ha
  counted := fun a => by
    rw [h.attached_eq, h.released_eq, h.closes_eq, h.own_eq, h.refs_eq, holds,
      memberships_eq_zero fun r => by simp [h.list_eq]]
    constructor <;> simp [h.pc_eq, inHand, Pc.hand]
  clean := ⟨h.staleSk_eq, h.staleSocket_eq⟩

theorem listed (h : Kept s n) (r : Ready) (a : Nat) (ha : a ∈ s.list r) : s.attached a = true :=
  (h.counted a).held (Nat.add_pos_left (memberships_pos ha) _)

theorem hand (h : Kept s n) (ha : s.pc.hand = some a) : s.attached a = true := by
  refine (h.counted a).held (Nat.add_pos_right _ ?_)
  simp [inHand, ha]

section

variable (h : Kept s n) (ha : s.attached a = true)

include h ha

theorem touch_eq : touch s a = s := by
  obtain ⟨hown, hreleased, -⟩ := (h.counted a).alive ha
  have hrefs : s.refs a ≠ 0 := by
    have hrefs := (h.counted a).balance
    omega
  simp [touch, hrefs, hreleased]

theorem put_eq : put s a = { s with refs := update s.refs a (s.refs a - 1) } := by
  rw [put, h.touch_eq ha]

end

theorem attached_of_present (h : Kept s n) (hpresent : s.present r a = true) :
    s.attached a = true :=
  h.listed r a ((h.flagged.present_iff r a).mp hpresent)

theorem move (h : Kept s n) (hfree : pc.Free) (hfree' : s.pc.Free)
    (hnext : ∀ a, pc = .rxAccept (some a) → a ∈ s.list .accept) : Kept { s with pc := pc } n :=
  { h with
    readLen := by rw [hfree.1, h.readLen, hfree'.1]
    writeLen := by rw [hfree.2.1, h.writeLen, hfree'.2.1]
    next := hnext
    counted := fun a => by simpa [holds, inHand, hfree.2.2, hfree'.2.2] using h.counted a }

/-! ## References -/

theorem hold (h : Kept s n) : Kept (hold s a) (update n a (n a + 1)) := by
  refine { h with counted := fun b => ?_ }
  have hb := h.counted b
  rcases eq_or_ne b a with rfl | hba
  · simp only [Glue.hold, update_self]
    exact { hb with balance := by rw [hb.balance]; rfl }
  · simpa [Glue.hold, hba] using hb

theorem put (h : Kept s n) (ha : s.attached a = true) {k : Nat} (hk : n a = k + 1) :
    Kept (put s a) (update n a k) := by
  rw [h.put_eq ha]
  refine { h with counted := fun b => ?_ }
  have hb := h.counted b
  rcases eq_or_ne b a with rfl | hba
  · simp only [update_self]
    exact { hb with balance := by rw [hb.balance, hk]; rfl }
  · simpa [hba] using hb

theorem insert (h : Kept s n) (ha : s.attached a = true) (habsent : s.present r a = false) :
    Kept (insert s r a) n where
  flagged := h.flagged.insert habsent
  readLen := length_insert h.readLen
  writeLen := length_insert h.writeLen
  next := fun b hb => forall_update (P := fun r' l => b ∈ s.list r' → b ∈ l)
    (fun hmem => mem_append_left _ hmem) (fun _ _ => id) .accept (h.next b hb)
  counted := fun b => by
    have hb := h.counted b
    simp only [Glue.insert, setReady, Glue.hold, holds, memberships_insert] at hb ⊢
    rcases eq_or_ne b a with rfl | hba
    · have hrefs := hb.balance
      simp only [update_self, if_true]
      exact { hb with held := fun _ => ha, balance := by omega }
    · simpa [hba] using hb
  clean := h.clean

theorem holds_erase (ha : a ∈ list r) (b : Nat) :
    holds list pc b = holds (update list r ((list r).erase a)) pc b + if b = a then 1 else 0 := by
  have herase := memberships_erase ha b
  simp only [holds]
  omega

theorem remove (h : Kept s n) (hpresent : s.present r a = true)
    (hnext : s.pc ≠ .rxAccept (some a)) :
    Kept { remove s r a with
      readLen := if r = .read then s.readLen - 1 else s.readLen
      writeLen := if r = .write then s.writeLen - 1 else s.writeLen }
      (update n a (n a + 1)) where
  flagged := h.flagged.erase
  readLen := length_remove ((h.flagged.present_iff r a).mp hpresent) h.readLen
  writeLen := length_remove ((h.flagged.present_iff r a).mp hpresent) h.writeLen
  next := fun b hb => forall_update (P := fun r' l => b ∈ s.list r' → b ∈ l)
    (mem_erase_of_ne (by rintro rfl; exact hnext hb)).mpr (fun _ _ => id) .accept (h.next b hb)
  counted := fun b => by
    have hb := h.counted b
    rw [holds_erase ((h.flagged.present_iff r a).mp hpresent)] at hb
    simp only [Glue.remove, setReady]
    rcases eq_or_ne b a with rfl | hba
    · have hrefs := hb.balance
      rw [if_pos rfl] at hb hrefs
      rw [update_self]
      exact { hb with held := fun _ => hb.held (Nat.succ_pos _), balance := by omega }
    · simpa [hba] using hb
  clean := h.clean

theorem congr (h : Kept s n) {m : Nat → Nat} (hm : ∀ b, m b = n b) : Kept s m :=
  funext hm ▸ h

theorem remove_put (h : Kept s n) (hpresent : s.present r a = true)
    (hnext : s.pc ≠ .rxAccept (some a)) :
    Kept { Glue.put (Glue.remove s r a) a with
      readLen := if r = .read then s.readLen - 1 else s.readLen
      writeLen := if r = .write then s.writeLen - 1 else s.writeLen } n := by
  have hput := (h.remove hpresent hnext).put (a := a) (h.attached_of_present hpresent)
    (update_self ..)
  rwa [update_idem, update_eq_self_iff.mpr rfl] at hput

theorem kernelClose (h : Kept s n) (ha : s.attached a = true) (hlists : ∀ r, a ∉ s.list r)
    (hhand : s.pc.hand ≠ some a) (dies : Bool) : Kept (kernelClose s a dies) n := by
  rw [Glue.kernelClose, h.touch_eq ha]
  refine { h with counted := fun b => ?_ }
  have hb := h.counted b
  rcases eq_or_ne b a with rfl | hba
  · obtain ⟨hown, -, hcloses⟩ := hb.alive ha
    have hrefs := hb.balance
    have hholds : holds s.list s.pc b = 0 := by
      simp [holds, memberships_eq_zero hlists, inHand, hhand]
    simp only [update_self]
    exact ⟨fun hheld => absurd hholds hheld.ne', by simp, by split <;> omega, by omega⟩
  · simpa [hba] using hb

end Kept

/-! ## What a step does not give back -/

def leak (s : State) (action : Action) (b : Nat) : Nat :=
  match action with
  | .wakeup _ (some l) _ => if b = l then 1 else 0
  | .close a _ =>
    if b = a then (s.present .read a).toNat + (s.present .closed a).toNat else 0
  | _ => 0

def Intact (s : State) : Action → Prop
  | .close a _ => s.attached a = true
  | .rx _ _ => s.pc = .rxClosed →
      ∀ a ∈ (s.list .closed).head?, ∀ r, r ≠ .closed → s.present r a = false
  | _ => True

structure Left (s t : State) (r : Ready) (a : Nat) : Prop where
  pc : t.pc = s.pc
  attached : t.attached = s.attached
  present : ∀ r' b, t.present r' b = (s.present r' b && !decide (r' = r ∧ b = a))

theorem leave_left {s : State} {r : Ready} {a : Nat}
    (hafter : ∀ u, (after u).pc = u.pc ∧ (after u).attached = u.attached ∧
      (after u).present = u.present) : Left s (leave s r a after) r a := by
  unfold leave
  split
  · obtain ⟨hpc, hattached, hpresent⟩ := hafter (remove s r a)
    refine ⟨hpc, hattached, fun r' b => ?_⟩
    rw [hpresent]
    by_cases hr : r' = r
    · subst hr
      by_cases hb : b = a
      · simp [remove, setReady, hb]
      · simp [remove, setReady, hb]
    · simp [remove, setReady, hr]
  · rename_i habsent
    refine ⟨rfl, rfl, fun r' b => ?_⟩
    by_cases hr : r' = r ∧ b = a
    · obtain ⟨rfl, rfl⟩ := hr
      simpa using habsent
    · simp [hr]

namespace Kept

variable {s t : State} {n : Nat → Nat} {a : Nat} {r : Ready}

theorem leave_forgetting (h : Kept s n)
    (hafter : after (Glue.remove s r a) = { Glue.remove s r a with
      readLen := if r = .read then s.readLen - 1 else s.readLen
      writeLen := if r = .write then s.writeLen - 1 else s.writeLen })
    (hpc : s.pc = .idle) :
    Kept (leave s r a after) fun b => n b + if b = a then (s.present r a).toNat else 0 := by
  unfold leave
  split
  · rename_i hpresent
    rw [hafter]
    refine (h.remove hpresent (by simp [hpc])).congr fun b => ?_
    by_cases hb : b = a
    · subst hb
      simp [hpresent]
    · simp [hb]
  · rename_i habsent
    refine h.congr fun b => ?_
    simp [Bool.eq_false_iff.mpr habsent]

theorem leave_putting (h : Kept s n)
    (hafter : after (Glue.remove s r a) = { Glue.put (Glue.remove s r a) a with
      readLen := if r = .read then s.readLen - 1 else s.readLen
      writeLen := if r = .write then s.writeLen - 1 else s.writeLen })
    (hpc : s.pc = .idle) : Kept (leave s r a after) n := by
  unfold leave
  split
  · rename_i hpresent
    rw [hafter]
    exact h.remove_put hpresent (by simp [hpc])
  · exact h

section

variable (h : Kept s n) (hpc : s.pc = .idle)

include h hpc

theorem leaveRead :
    Kept (leaveRead s a) fun b => n b + if b = a then (s.present .read a).toNat else 0 :=
  h.leave_forgetting rfl hpc

theorem leaveWrite : Kept (leaveWrite s a) n :=
  h.leave_putting rfl hpc

theorem leaveAccept : Kept (leaveAccept s a) n :=
  h.leave_putting rfl hpc

theorem leaveClosed :
    Kept (leaveClosed s a) fun b => n b + if b = a then (s.present .closed a).toNat else 0 :=
  h.leave_forgetting rfl hpc

end

theorem close (h : Kept s n) (ha : s.attached a = true) (hpc : s.pc = .idle) (dies : Bool) :
    Kept (appGlueCloseSocket s a dies) fun b => n b + leak s (.close a dies) b := by
  rw [appGlueCloseSocket, h.touch_eq ha]
  set s₁ := Glue.leaveRead s a
  set s₂ := Glue.leaveWrite s₁ a
  set s₃ := Glue.leaveAccept s₂ a
  set s₄ := Glue.leaveClosed s₃ a
  have hleft₁ : Left s s₁ .read a := leave_left fun _ => ⟨rfl, rfl, rfl⟩
  have hleft₂ : Left s₁ s₂ .write a := leave_left fun _ => ⟨rfl, rfl, rfl⟩
  have hleft₃ : Left s₂ s₃ .accept a := leave_left fun _ => ⟨rfl, rfl, rfl⟩
  have hleft₄ : Left s₃ s₄ .closed a := leave_left fun _ => ⟨rfl, rfl, rfl⟩
  have hpc₁ : s₁.pc = .idle := hleft₁.pc.trans hpc
  have hpc₂ : s₂.pc = .idle := hleft₂.pc.trans hpc₁
  have hpc₃ : s₃.pc = .idle := hleft₃.pc.trans hpc₂
  have hpc₄ : s₄.pc = .idle := hleft₄.pc.trans hpc₃
  have hclosed : s₃.present .closed a = s.present .closed a := by
    rw [hleft₃.present, hleft₂.present, hleft₁.present]
    simp
  have hkept₄ : Kept s₄ fun b => n b + (if b = a then (s.present .read a).toNat else 0) +
      if b = a then (s₃.present .closed a).toNat else 0 :=
    (((h.leaveRead hpc).leaveWrite hpc₁).leaveAccept hpc₂).leaveClosed hpc₃
  rw [hclosed] at hkept₄
  have hattached : s₄.attached a = true := by
    rw [hleft₄.attached, hleft₃.attached, hleft₂.attached, hleft₁.attached]
    exact ha
  have hlists : ∀ r, a ∉ s₄.list r := by
    intro r
    refine hkept₄.flagged.not_mem ?_
    rw [hleft₄.present, hleft₃.present, hleft₂.present, hleft₁.present]
    cases r <;> simp
  have hdata : Kept { s₄ with userData := update s₄.userData a none } _ := { hkept₄ with }
  refine (hdata.kernelClose hattached hlists (by simp [hpc₄, Pc.hand]) dies).congr fun b => ?_
  by_cases hb : b = a
  · subst hb
    simp only [leak, if_true]
    omega
  · simp [leak, hb]

end Kept

namespace Kept

variable {s t : State} {n : Nat → Nat} {a : Nat}

theorem readable (h : Kept s n) : Kept (appGlueSockReadable s a) n := by
  unfold appGlueSockReadable
  split
  · exact h
  rename_i hattached
  split
  · exact h
  split
  · split
    · exact { h with }
    · exact h
  · rename_i habsent
    exact h.insert (by simpa using hattached) (Bool.eq_false_iff.mpr habsent)

theorem writeSpace (h : Kept s n) (writeable : Bool) :
    Kept (appGlueSockWriteSpace s a writeable) n := by
  unfold appGlueSockWriteSpace
  split
  · exact h
  rename_i hattached
  split
  · exact h
  split
  · exact h
  · rename_i habsent
    simp only [Bool.or_eq_true, not_or, Bool.not_eq_true] at habsent
    exact h.insert (by simpa using hattached) habsent.2

theorem errorReport (h : Kept s n) : Kept (appGlueSockErrorReport s a) n := by
  unfold appGlueSockErrorReport
  split
  · exact h
  · rename_i hcond
    simp only [Bool.or_eq_true, Bool.not_eq_true', not_or, Bool.not_eq_false,
      Bool.not_eq_true] at hcond
    exact h.insert hcond.1 hcond.2

theorem lookup (h : Kept s n) (listener : Option Nat) (a : Nat) (writeable : Bool) :
    Kept (lookupListener s listener) fun b => n b + leak s (.wakeup a listener writeable) b := by
  cases listener with
  | none => exact h.congr fun b => by simp [leak]
  | some l =>
    refine h.hold.congr fun b => ?_
    by_cases hb : b = l
    · subst hb
      simp [leak]
    · simp [leak, hb]

theorem wakeup (h : Kept s n) {listener : Option Nat} (hlistening : listening s listener = true)
    (writeable : Bool) : Kept (appGlueSockWakeup s a listener writeable)
      fun b => n b + leak s (.wakeup a listener writeable) b := by
  have hlookup := h.lookup listener a writeable
  have hattached : ∀ l, listener = some l → (lookupListener s listener).attached l = true := by
    rintro l rfl
    simp only [listening, Bool.and_eq_true] at hlistening
    exact hlistening.2
  unfold appGlueSockWakeup
  dsimp only
  split
  · rename_i l _
    split
    · exact hlookup
    · rename_i habsent
      exact hlookup.insert (hattached l rfl) (Bool.eq_false_iff.mpr habsent)
  · split
    · exact { hlookup with }
    · split
      · exact hlookup
      · exact hlookup.writeSpace writeable
  case _ | _ =>
    split
    · exact hlookup
    · rename_i hsocket
      split
      · exact hlookup
      · rename_i habsent
        exact hlookup.insert (by simpa using hsocket) (Bool.eq_false_iff.mpr habsent)
  · exact hlookup.writeSpace writeable

end Kept

/-! ## The loops -/

theorem mem_erase_of_next {a b : Nat} (hnodup : l.Nodup)
    (h : next l a = some b) : b ∈ l.erase a := by
  induction l with
  | nil => cases h
  | cons c rest ih =>
    obtain ⟨hc, hrest⟩ := nodup_cons.mp hnodup
    by_cases hca : c = a
    · subst hca
      rw [next, if_pos rfl] at h
      rw [erase_cons_head]
      exact List.mem_of_mem_head? h
    · rw [next, if_neg hca] at h
      rw [erase_cons_tail (by simpa using hca)]
      exact mem_cons_of_mem c (ih hrest h)

namespace Kept

variable {s t : State} {n : Nat → Nat} {a : Nat}

section

variable (h : Kept s n)

include h

theorem startTurn {r : Ready} (hlist : s.list r = a :: l)
    (hreading : pc.reading = if r = .read then 1 else 0)
    (hwriting : pc.writing = if r = .write then 1 else 0) (hhand : pc.hand = some a)
    (hfree : s.pc.Free) (hnext' : ∀ b, s.pc ≠ .rxAccept (some b)) :
    Kept { Glue.remove (touch s a) r a with pc := pc } n := by
  have hmem : a ∈ s.list r := by simp [hlist]
  have hpresent : s.present r a = true := (h.flagged.present_iff _ _).mpr hmem
  have ha := h.listed _ _ hmem
  have hremove := h.remove hpresent (hnext' a)
  rw [h.touch_eq ha]
  refine ⟨hremove.flagged, ?_, ?_, ?_, fun b => ?_, h.clean⟩
  · have hread := hremove.readLen
    have hlen := h.readLen
    simp only [Glue.remove, setReady, hfree.1, hreading] at hread ⊢
    split at hread <;> simp_all
  · have hwrite := hremove.writeLen
    have hlen := h.writeLen
    simp only [Glue.remove, setReady, hfree.2.1, hwriting] at hwrite ⊢
    split at hwrite <;> simp_all
  · rintro b rfl
    simp [Pc.hand] at hhand
  · -- the reference of the list becomes that of the loop
    have hb := h.counted b
    rw [holds_erase hmem] at hb
    simpa [holds, inHand, Glue.remove, setReady, hfree.2.2, hhand, eq_comm] using hb

theorem endTurn {readLen writeLen : Nat} (hhand : s.pc.hand = some a)
    (hreadLen : s.readLen = readLen + s.pc.reading)
    (hwriteLen : s.writeLen = writeLen + s.pc.writing) (hfree : pc.Free)
    (hnext : ∀ b, pc ≠ .rxAccept (some b)) :
    Kept { Glue.put s a with readLen := readLen, writeLen := writeLen, pc := pc } n := by
  rw [h.put_eq (h.hand hhand)]
  refine ⟨h.flagged, ?_, ?_, fun b hb => absurd hb (hnext b), fun b => ?_, h.clean⟩
  · rw [h.readLen] at hreadLen
    rw [hfree.1]
    exact (Nat.add_right_cancel hreadLen).symm
  · rw [h.writeLen] at hwriteLen
    rw [hfree.2.1]
    exact (Nat.add_right_cancel hwriteLen).symm
  · have hb := h.counted b
    simp only [holds, inHand, hhand, hfree.2.2, reduceCtorEq, if_false] at hb ⊢
    rcases eq_or_ne b a with rfl | hba
    · have hrefs := hb.balance
      rw [if_pos rfl] at hrefs
      rw [update_self]
      exact { hb with held := fun hheld => hb.held (Nat.add_pos_left hheld _), balance := by omega }
    · simpa [hba, Ne.symm hba] using hb

theorem closeFirst (hpc : s.pc = .rxClosed) (hlist : s.list .closed = a :: l)
    (hothers : ∀ r, r ≠ .closed → s.present r a = false) (dies : Bool) :
    Kept (Glue.kernelClose (Glue.put (Glue.remove (touch s a) .closed a) a) a dies) n := by
  have hmem : a ∈ s.list .closed := by simp [hlist]
  have ha := h.listed _ _ hmem
  have hput : Kept (Glue.put (Glue.remove s .closed a) a) n :=
    h.remove_put ((h.flagged.present_iff _ _).mpr hmem) (by simp [hpc])
  rw [h.touch_eq ha]
  have hhand : s.pc.hand ≠ some a := by simp [hpc, Pc.hand]
  refine hput.kernelClose ha (fun r => ?_) hhand dies
  by_cases hr : r = .closed
  · subst hr
    simp [Glue.put, touch, Glue.remove, setReady, (h.flagged.nodup _).not_mem_erase]
  · simpa [Glue.put, touch, Glue.remove, setReady, hr] using h.flagged.not_mem (hothers r hr)

theorem acceptTurn (hpc : s.pc = .rxAccept (some a)) (kept : Bool) :
    Kept { (if kept then touch s a else Glue.put (Glue.remove (touch s a) .accept a) a) with
      pc := .rxAccept (Glue.next (s.list .accept) a) } n := by
  have hmem : a ∈ s.list .accept := h.next a hpc
  have ha := h.listed _ _ hmem
  have hlater : ∀ b, Glue.next (s.list .accept) a = some b → b ∈ (s.list .accept).erase a :=
    fun b hb => mem_erase_of_next (h.flagged.nodup _) hb
  rw [h.touch_eq ha]
  split
  · refine h.move ⟨rfl, rfl, rfl⟩ (hpc ▸ ⟨rfl, rfl, rfl⟩) ?_
    intro b hb
    injection hb with hb
    exact mem_of_mem_erase (hlater b hb)
  · -- the pointer to the socket is given up before the socket leaves the list
    have hfree : Kept { s with pc := .rxAccept none } n := by
      refine h.move ⟨rfl, rfl, rfl⟩ (hpc ▸ ⟨rfl, rfl, rfl⟩) ?_
      intro b hb
      cases hb
    have hput : Kept (Glue.put (Glue.remove { s with pc := .rxAccept none } .accept a) a) n :=
      hfree.remove_put ((h.flagged.present_iff _ _).mpr hmem) (by simp)
    refine hput.move ⟨rfl, rfl, rfl⟩ ⟨rfl, rfl, rfl⟩ ?_
    intro b hb
    injection hb with hb
    simpa [Glue.put, touch, Glue.remove, setReady] using hlater b hb

theorem rx {kept dies : Bool} (hintact : Intact s (.rx kept dies))
    (hstep : processRxReadySockets s kept dies = some t) : Kept t n := by
  unfold processRxReadySockets at hstep
  split at hstep
  case _ hpc =>
    cases hstep
    exact h.move ⟨rfl, rfl, rfl⟩ (hpc ▸ ⟨rfl, rfl, rfl⟩) (by simp)
  case _ hpc =>
    split at hstep
    · cases hstep
      refine h.move ⟨rfl, rfl, rfl⟩ (hpc ▸ ⟨rfl, rfl, rfl⟩) ?_
      intro b hb
      injection hb with hb
      exact List.mem_of_mem_head? hb
    · rename_i a l hlist
      cases hstep
      exact h.closeFirst hpc hlist (hintact hpc a (by simp [hlist])) dies
  case _ hpc =>
    cases hstep
    exact h.move ⟨rfl, rfl, rfl⟩ (hpc ▸ ⟨rfl, rfl, rfl⟩) (by simp)
  case _ a hpc =>
    cases hstep
    exact h.acceptTurn hpc kept
  case _ idx limit hpc =>
    have hidle : Kept { s with pc := .idle } n :=
      h.move ⟨rfl, rfl, rfl⟩ (hpc ▸ ⟨rfl, rfl, rfl⟩) (by simp)
    split at hstep
    · cases hstep
      exact hidle
    · rename_i a l hlist
      split at hstep
      · cases hstep
        exact h.startTurn hlist rfl rfl rfl (hpc ▸ ⟨rfl, rfl, rfl⟩) (by simp [hpc])
      · cases hstep
        exact hidle
  case _ a idx limit hpc =>
    cases hstep
    have hlen := h.readLen
    refine h.endTurn (by rw [hpc]; rfl) ?_ (by rw [hpc]; rfl) ⟨rfl, rfl, rfl⟩ (by simp)
    simp only [hpc, Pc.reading] at hlen ⊢
    omega
  case _ => cases hstep

theorem tx (hstep : processTxReadySockets s = some t) : Kept t n := by
  unfold processTxReadySockets at hstep
  split at hstep
  case _ hpc =>
    cases hstep
    exact h.move ⟨rfl, rfl, rfl⟩ (hpc ▸ ⟨rfl, rfl, rfl⟩) (by simp)
  case _ idx limit hpc =>
    have hidle : Kept { s with pc := .idle } n :=
      h.move ⟨rfl, rfl, rfl⟩ (hpc ▸ ⟨rfl, rfl, rfl⟩) (by simp)
    split at hstep
    · cases hstep
      exact hidle
    · rename_i a l hlist
      split at hstep
      · cases hstep
        exact h.startTurn hlist rfl rfl rfl (hpc ▸ ⟨rfl, rfl, rfl⟩) (by simp [hpc])
      · cases hstep
        exact hidle
  case _ a idx limit hpc =>
    cases hstep
    have hlen := h.writeLen
    refine h.endTurn (by rw [hpc]; rfl) (by rw [hpc]; rfl) ?_ ⟨rfl, rfl, rfl⟩ (by simp)
    simp only [hpc, Pc.writing] at hlen ⊢
    omega
  case _ => cases hstep

end

/-! ## Sockets come and go -/

section

variable (h : Kept s n)

include h

theorem holds_eq_zero (ha : s.attached a = false) : holds s.list s.pc a = 0 := by
  by_contra hne
  rw [(h.counted a).held (Nat.pos_of_ne_zero hne)] at ha
  cases ha

theorem make (hunused : unused s a = true) (stream attached : Bool) (state : TcpState) :
    Kept (make s a stream attached state) n := by
  simp only [unused, Bool.and_eq_true, decide_eq_true_eq, Bool.not_eq_true'] at hunused
  obtain ⟨⟨⟨hrefs, hown, hcloses⟩, hreleased⟩, hattached⟩ := hunused
  refine { h with counted := fun b => ?_ }
  have hb := h.counted b
  rcases eq_or_ne b a with rfl | hba
  · have hheld := h.holds_eq_zero hattached
    have hcount := hb.balance
    simp only [Glue.make, update_self]
    exact { hb with
      held := fun hpos => absurd hheld hpos.ne'
      alive := fun _ => ⟨Nat.one_pos, hreleased, hcloses⟩
      balance := by omega }
  · simpa [Glue.make, hba] using hb

theorem graft (hwaiting : waiting s a = true) : Kept (graft s a) n := by
  simp only [waiting, Bool.and_eq_true, decide_eq_true_eq, Bool.not_eq_true'] at hwaiting
  obtain ⟨⟨⟨hown, hcloses⟩, hreleased⟩, hattached⟩ := hwaiting
  refine { h with counted := fun b => ?_ }
  have hb := h.counted b
  rcases eq_or_ne b a with rfl | hba
  · simp only [Glue.graft, update_self]
    exact { hb with held := fun _ => rfl, alive := fun _ => ⟨hown, hreleased, hcloses⟩ }
  · simpa [Glue.graft, hba] using hb

theorem discard (hwaiting : waiting s a = true) (dies : Bool) :
    Kept (Glue.kernelClose (Glue.graft s a) a dies) n := by
  have hattached : s.attached a = false := by
    simp only [waiting, Bool.and_eq_true, Bool.not_eq_true'] at hwaiting
    exact hwaiting.2
  have hholds := h.holds_eq_zero hattached
  refine (h.graft hwaiting).kernelClose (by simp [Glue.graft]) (fun r hmem => ?_) ?_ dies
  · exact (Nat.add_pos_left (memberships_pos hmem) _).ne' hholds
  · intro hhand
    rw [h.hand hhand] at hattached
    cases hattached

theorem ownRefs {refs own : Nat} (hown : refs + s.own a = s.refs a + own)
    (hpos : s.attached a = true → 0 < own) :
    Kept { s with
      refs := update s.refs a refs, own := update s.own a own } n := by
  refine { h with counted := fun b => ?_ }
  have hb := h.counted b
  rcases eq_or_ne b a with rfl | hba
  · have hrefs := hb.balance
    simp only [update_self]
    exact { hb with alive := fun ha => ⟨hpos ha, (hb.alive ha).2⟩, balance := by omega }
  · simpa [hba] using hb

theorem step {action : Action} (hintact : Intact s action) (hstep : step s action = some t) :
    Kept t fun b => n b + leak s action b := by
  obtain ⟨-, hstep⟩ := Option.ite_none_left_eq_some.mp hstep
  cases action with
  | create a stream =>
    obtain ⟨hunused, rfl⟩ := of_guard hstep
    exact h.make hunused stream true .close
  | child a =>
    obtain ⟨hunused, rfl⟩ := of_guard hstep
    exact h.make hunused true false .established
  | tcp | setUserData =>
    obtain ⟨-, rfl⟩ := of_guard hstep
    exact { h with }
  | tcpHold a =>
    obtain ⟨-, rfl⟩ := of_guard hstep
    exact h.ownRefs (by omega) fun _ => Nat.succ_pos _
  | tcpPut a =>
    obtain ⟨hown, rfl⟩ := of_guard hstep
    have hrefs := (h.counted a).balance
    refine h.ownRefs (by omega) fun ha => ?_
    rcases hown with hown | ⟨-, hattached⟩
    · omega
    · simp [ha] at hattached
  | graft a =>
    obtain ⟨hwaiting, rfl⟩ := of_guard hstep
    exact h.graft hwaiting
  | readable a =>
    obtain ⟨-, rfl⟩ := of_guard hstep
    exact h.readable
  | writeSpace a writeable =>
    obtain ⟨-, rfl⟩ := of_guard hstep
    exact h.writeSpace writeable
  | errorReport a =>
    obtain ⟨-, rfl⟩ := of_guard hstep
    exact h.errorReport
  | wakeup a listener writeable =>
    obtain ⟨hcond, rfl⟩ := of_guard hstep
    simp only [Bool.and_eq_true] at hcond
    exact h.wakeup hcond.2 writeable
  | rx kept dies => exact h.rx hintact hstep
  | tx => exact h.tx hstep
  | discard a dies =>
    obtain ⟨hwaiting, rfl⟩ := of_guard hstep
    exact h.discard hwaiting dies
  | close a dies =>
    obtain ⟨hpc, rfl⟩ := of_guard hstep
    exact h.close hintact hpc dies

end

end Kept

/-- No callback finds a listener, `app_glue_close_socket` meets no socket on the list of readable or
closed ones, and a socket is closed once, not while it is on another list. -/
def Balanced (s : State) (action : Action) : Prop :=
  Intact s action ∧
    match action with
    | .wakeup _ listener _ => listener = none
    | .close a _ => s.present .read a = false ∧ s.present .closed a = false
    | _ => True

theorem leak_eq_zero {s : State} {action : Action} (h : Balanced s action) (b : Nat) :
    leak s action b = 0 := by
  unfold leak
  split
  · cases h.2
  · obtain ⟨hread, hclosed⟩ := h.2
    simp [hread, hclosed]
  · rfl

theorem kept_of_reachable {s : State} (hreach : system.ReachableUnder Balanced s) :
    Kept s fun _ => 0 := by
  refine @TransitionSystem.ReachableUnder.invariant _ _ system Balanced
    (fun s => Kept s fun _ => 0) ?_ ?_ s hreach
  · intro s hs
    exact Kept.start hs
  · intro s action t h hguard hstep
    refine (h.step hguard.1 hstep).congr fun b => ?_
    rw [leak_eq_zero hguard b]

/-- Between two calls, flags, lists and lengths agree, no socket on a list is closed, and every list
that a socket is on accounts for one of its references. -/
theorem ready_lists_accounted {s : State} (hreach : system.ReachableUnder Balanced s)
    (hidle : s.pc = .idle) :
    (∀ r a, s.present r a = true ↔ a ∈ s.list r) ∧ (∀ r, (s.list r).Nodup) ∧
      (∀ r a, a ∈ s.list r → s.released a = false) ∧
      s.readLen = (s.list .read).length ∧ s.writeLen = (s.list .write).length ∧
      ∀ a, s.refs a = s.own a + memberships s.list a := by
  have h := kept_of_reachable hreach
  refine ⟨h.flagged.present_iff, h.flagged.nodup, ?_, ?_, ?_, ?_⟩
  · intro r a ha
    exact ((h.counted a).alive (h.listed r a ha)).2.1
  · rw [h.readLen, hidle]
    rfl
  · rw [h.writeLen, hidle]
    rfl
  · intro a
    have hrefs := (h.counted a).balance
    simpa [holds, inHand, hidle, Pc.hand] using hrefs

def initial : State where
  state := fun _ => .close
  refs := fun _ => 0
  own := fun _ => 0
  attached := fun _ => false
  userData := fun _ => none
  stream := fun _ => true
  present := fun _ _ => false
  released := fun _ => false
  closes := fun _ => 0
  list := fun _ => []
  readLen := 0
  writeLen := 0
  pc := .idle
  staleSk := false
  staleSocket := false
  crashed := false

theorem start_initial : Start initial :=
  ⟨fun _ => rfl, fun _ => rfl, fun _ => rfl, fun _ _ => rfl, fun _ => rfl, fun _ => rfl,
    fun _ => rfl, rfl, rfl, rfl, rfl, rfl⟩

instance (s : State) (action : Action) : Decidable (Intact s action) := by
  unfold Intact
  split <;> infer_instance

instance (s : State) (action : Action) : Decidable (Balanced s action) := by
  unfold Balanced
  refine @instDecidableAnd _ _ _ ?_
  split <;> infer_instance

theorem ready_lists_accounted_readable :
    ∃ s, system.ReachableUnder Balanced s ∧ s.pc = .idle ∧ s.present .read 0 = true ∧
      s.refs 0 = s.own 0 + memberships s.list 0 := by
  obtain ⟨s, hreach, hidle, hpresent⟩ :=
    system.exists_reachableUnder Balanced initial
      [.create 0 true, .tcp 0 .established, .readable 0, .writeSpace 0 true]
      (P := fun s => s.pc = .idle ∧ s.present .read 0 = true) start_initial (by decide +kernel)
  obtain ⟨-, -, -, -, -, hrefs⟩ := ready_lists_accounted hreach hidle
  exact ⟨s, hreach, hidle, hpresent, hrefs 0⟩

def oneConnection : List Action :=
  [.create 0 true, .tcp 0 .listen, .child 1, .wakeup 1 (some 0) false, .rx false false,
    .rx false false, .graft 1, .rx false false, .rx false false, .rx false false]

theorem lookup_reference_leaked :
    ∃ s, system.Reachable s ∧ s.pc = .idle ∧ s.present .accept 0 = false ∧
      s.refs 0 = s.own 0 + memberships s.list 0 + 1 :=
  system.exists_reachable initial oneConnection start_initial (by decide +kernel)

end LightStack.Glue
