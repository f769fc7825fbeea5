import LightStack.Tx.Skb.Model

/-!
# The fragment tables of sk_buffs

`__skb_clone` copies `shinfo` of the original over the pointer of the clone.
-/

namespace LightStack.Shinfo

open Lib Function
open Tx.Skb (Fclone)

inductive Skb where
  | head (n : Nat)
  | orig (p : Nat)
  | child (p : Nat)
  deriving DecidableEq

abbrev Block := Skb

structure State where
  pooled : Skb → Bool
  packet : Skb → Option Nat
  fclone : Skb → Fclone
  fcloneRef : Nat → Int
  shinfo : Skb → Block
  frags : Block → List Nat
  packets : Nat

def State.table (s : State) (i : Skb) : List Nat := s.frags (s.shinfo i)

/-! ## Allocation -/

def initialise (s : State) (i : Skb) : State :=
  { s with
    pooled := update s.pooled i false
    packet := update s.packet i (some s.packets)
    fclone := update s.fclone i .unavailable
    frags := update s.frags (s.shinfo i) []
    packets := s.packets + 1 }

def allocPair (s : State) (p : Nat) : State :=
  let s := initialise s (.orig p)
  { s with
    fclone := update (update s.fclone (.orig p) .orig) (.child p) .unavailable
    fcloneRef := update s.fcloneRef p 1 }

def cloneTo (s : State) (i n : Skb) : State :=
  { s with
    packet := update s.packet n (s.packet i)
    shinfo := update s.shinfo n (s.shinfo i) }

def companion (s : State) : Skb → Option Nat
  | .orig p =>
    if s.fclone (.orig p) = .orig ∧ s.fclone (.child p) = .unavailable then some p else none
  | _ => none

def skbClone (s : State) (i : Skb) (n : Nat) : Option State :=
  match companion s i with
  | some p =>
    some (cloneTo { s with
      fclone := update s.fclone (.child p) .clone
      fcloneRef := update s.fcloneRef p (s.fcloneRef p + 1) } i (.child p))
  | none =>
    if s.pooled (.head n) then
      some (cloneTo { s with
        pooled := update s.pooled (.head n) false
        fclone := update s.fclone (.head n) .unavailable } i (.head n))
    else none

def putPair (s : State) (p : Nat) : State :=
  let s := { s with fcloneRef := update s.fcloneRef p (s.fcloneRef p - 1) }
  if s.fcloneRef p = 0 then { s with pooled := update s.pooled (.orig p) true } else s

def kfreeSkbmem (s : State) (i : Skb) : State :=
  match i, s.fclone i with
  | .orig p, .orig => putPair s p
  | .child p, .clone => putPair { s with fclone := update s.fclone (.child p) .unavailable } p
  | _, _ => { s with pooled := update s.pooled i true }

def kfreeSkb (s : State) (i : Skb) : State :=
  kfreeSkbmem { s with packet := update s.packet i none } i

inductive Action where
  | allocHead (n : Nat)
  | allocPair (p : Nat)
  | skbClone (i : Skb) (n : Nat)
  | fill (i : Skb) (frags : List Nat)
  | kfreeSkb (i : Skb)

def step (s : State) : Action → Option State
  | .allocHead n => if s.pooled (.head n) then some (initialise s (.head n)) else none
  | .allocPair p => if s.pooled (.orig p) then some (allocPair s p) else none
  | .skbClone i n => if (s.packet i).isSome then skbClone s i n else none
  | .fill i frags =>
    if (s.packet i).isSome then
      some { s with frags := update s.frags (s.shinfo i) frags }
    else none
  | .kfreeSkb i => if (s.packet i).isSome then some (kfreeSkb s i) else none

structure Start (s : State) : Prop where
  head : ∀ n, s.pooled (.head n) = true ∧ s.shinfo (.head n) = .head n
  orig : ∀ p, s.pooled (.orig p) = true ∧ s.shinfo (.orig p) = .orig p
  packet : ∀ i, s.packet i = none
  packets : s.packets = 0

def system : TransitionSystem State Action where
  init := Start
  step := step

def Exclusive (s : State) : Prop :=
  ∀ i j f g, s.packet i = some f → s.packet j = some g → f ≠ g → s.shinfo i ≠ s.shinfo j

def filled (s : State) : Action → Option Nat
  | .fill i _ => s.packet i
  | _ => none

def Undisturbed (s : State) (a : Action) (t : State) : Prop :=
  ∀ j g, s.packet j = some g → t.packet j = some g → filled s a ≠ some g → t.table j = s.table j

def FastClone (s : State) : Action → Prop
  | .skbClone i _ => (companion s i).isSome = true
  | _ => True

def liveOfPair (s : State) (p : Nat) : Int :=
  (if (s.packet (.orig p)).isSome then 1 else 0) + if (s.packet (.child p)).isSome then 1 else 0

structure Pair (s : State) (p : Nat) : Prop where
  block : s.shinfo (.orig p) = .orig p
  childBlock : (s.packet (.child p)).isSome = true → s.shinfo (.child p) = .orig p
  resting : s.pooled (.orig p) = true → s.packet (.orig p) = none ∧ s.packet (.child p) = none
  counted : s.pooled (.orig p) = false → s.fcloneRef p = liveOfPair s p
  orig : s.pooled (.orig p) = false → s.fclone (.orig p) = .orig
  child : s.pooled (.orig p) = false →
    (s.fclone (.child p) = .clone ↔ (s.packet (.child p)).isSome = true)
  samePacket : ∀ f g, s.packet (.orig p) = some f → s.packet (.child p) = some g → f = g

structure Head (s : State) (n : Nat) : Prop where
  block : s.shinfo (.head n) = .head n
  resting : s.pooled (.head n) = true → s.packet (.head n) = none
  single : s.fclone (.head n) = .unavailable ∨ s.packet (.head n) = none

structure Good (s : State) : Prop where
  head : ∀ n, Head s n
  pair : ∀ p, Pair s p
  packets : ∀ i f, s.packet i = some f → f < s.packets

variable {n p : Nat} {i j : Skb}

namespace Good

variable {s t : State}

theorem start (h : Start s) : Good s where
  head := fun n => ⟨(h.head n).2, fun _ => h.packet _, .inr (h.packet _)⟩
  pair := by
    intro p
    have hpooled := (h.orig p).1
    refine ⟨(h.orig p).2, by simp [h.packet], fun _ => ⟨h.packet _, h.packet _⟩, ?_, ?_, ?_, ?_⟩
    all_goals simp [hpooled, h.packet]
  packets := by simp [h.packet]

def about (s : State) (i : Skb) : Bool × Option Nat × Fclone × Block :=
  (s.pooled i, s.packet i, s.fclone i, s.shinfo i)

theorem head_congr (h : Head s n) (hn : about t (.head n) = about s (.head n)) : Head t n := by
  simp only [about, Prod.mk.injEq] at hn
  obtain ⟨hpooled, hpacket, hfclone, hshinfo⟩ := hn
  refine ⟨?_, ?_, ?_⟩
  · rw [hshinfo]
    exact h.block
  · rw [hpooled, hpacket]
    exact h.resting
  · rw [hfclone, hpacket]
    exact h.single

theorem pair_congr (h : Pair s p) (horig : about t (.orig p) = about s (.orig p))
    (hchild : about t (.child p) = about s (.child p)) (href : t.fcloneRef p = s.fcloneRef p) :
    Pair t p := by
  simp only [about, Prod.mk.injEq] at horig hchild
  obtain ⟨hpooled, hpacket, hfclone, hshinfo⟩ := horig
  obtain ⟨-, hpacket', hfclone', hshinfo'⟩ := hchild
  refine ⟨?_, ?_, ?_, ?_, ?_, ?_, ?_⟩
  · rw [hshinfo]
    exact h.block
  · rw [hpacket', hshinfo']
    exact h.childBlock
  · rw [hpooled, hpacket, hpacket']
    exact h.resting
  · rw [hpooled, href, liveOfPair, hpacket, hpacket']
    exact h.counted
  · rw [hpooled, hfclone]
    exact h.orig
  · rw [hpooled, hfclone', hpacket']
    exact h.child
  · rw [hpacket, hpacket']
    exact h.samePacket

/-! ## The steps -/

section

variable (h : Good s)

include h

theorem initialise_head : Good (initialise s (.head n)) where
  head := by
    intro m
    by_cases hm : m = n
    · subst hm
      exact ⟨(h.head m).block, by simp [initialise], .inl (by simp [initialise])⟩
    · exact head_congr (h.head m) (by simp [about, initialise, hm])
  pair := fun p => pair_congr (h.pair p) (by simp [about, initialise])
    (by simp [about, initialise]) rfl
  packets := by
    intro i f hf
    by_cases hi : i = .head n
    · simp [initialise, hi] at hf ⊢
      omega
    · have hold := h.packets i f (by simpa [initialise, hi] using hf)
      exact Nat.lt_succ_of_lt hold

theorem allocPair (hpooled : s.pooled (.orig p) = true) : Good (allocPair s p) where
  head := fun n => head_congr (h.head n) (by simp [about, Shinfo.allocPair, initialise])
  pair := by
    intro q
    by_cases hq : q = p
    · subst hq
      have hrest := (h.pair q).resting hpooled
      constructor
      · exact (h.pair q).block
      · simp [Shinfo.allocPair, initialise, hrest.2]
      · simp [Shinfo.allocPair, initialise]
      · simp [Shinfo.allocPair, initialise, liveOfPair, hrest.2]
      · simp [Shinfo.allocPair, initialise]
      · simp [Shinfo.allocPair, initialise, hrest.2]
      · simp [Shinfo.allocPair, initialise, hrest.2]
    · exact pair_congr (h.pair q) (by simp [about, Shinfo.allocPair, initialise, hq])
        (by simp [about, Shinfo.allocPair, initialise, hq])
        (by simp [Shinfo.allocPair, initialise, hq])
  packets := by
    intro i f hf
    by_cases hi : i = .orig p
    · simp [Shinfo.allocPair, initialise, hi] at hf ⊢
      omega
    · have hold := h.packets i f (by simpa [Shinfo.allocPair, initialise, hi] using hf)
      exact Nat.lt_succ_of_lt hold

theorem used_of_orig (hlive : (s.packet (.orig p)).isSome = true) : s.pooled (.orig p) = false := by
  by_contra hpooled
  have hrest := ((h.pair p).resting (by simpa using hpooled)).1
  simp [hrest] at hlive

theorem used_of_child (hlive : (s.packet (.child p)).isSome = true) :
    s.pooled (.orig p) = false := by
  by_contra hpooled
  have hrest := ((h.pair p).resting (by simpa using hpooled)).2
  simp [hrest] at hlive

theorem of_companion (hcompanion : companion s i = some p) (hlive : (s.packet i).isSome = true) :
    i = .orig p ∧ s.pooled (.orig p) = false ∧ s.packet (.child p) = none := by
  unfold companion at hcompanion
  split at hcompanion
  · obtain ⟨⟨-, hfree⟩, ⟨⟩⟩ := Option.ite_none_right_eq_some.mp hcompanion
    have hused := h.used_of_orig hlive
    have hchild := ((h.pair p).child hused).not.mp (by simp [hfree])
    exact ⟨rfl, hused, by simpa using hchild⟩
  · cases hcompanion

theorem skbClone (hlive : (s.packet i).isSome = true) (hguard : (companion s i).isSome = true)
    (hstep : skbClone s i n = some t) : Good t := by
  obtain ⟨p, hcompanion⟩ := Option.isSome_iff_exists.mp hguard
  obtain ⟨rfl, hused, hchild⟩ := h.of_companion hcompanion hlive
  obtain ⟨f, hf⟩ := Option.isSome_iff_exists.mp hlive
  have hpair := h.pair p
  simp only [Shinfo.skbClone, hcompanion, Option.some.injEq] at hstep
  subst hstep
  refine ⟨fun m => ?_, fun q => ?_, fun j g hg => ?_⟩
  · exact head_congr (h.head m) (by simp [about, cloneTo])
  · by_cases hq : q = p
    · subst hq
      constructor
      · simp [cloneTo, hpair.block]
      · simp [cloneTo, hpair.block]
      · simp [cloneTo, hused]
      · simp [cloneTo, liveOfPair, hf, hpair.counted hused, hchild]
      · simp [cloneTo, hpair.orig hused]
      · simp [cloneTo, hf]
      · simp [cloneTo, hf]
    · exact pair_congr (h.pair q) (by simp [about, cloneTo]) (by simp [about, cloneTo, hq])
        (by simp [cloneTo, hq])
  · by_cases hj : j = .child p
    · exact h.packets (.orig p) g (by simpa [cloneTo, hj] using hg)
    · exact h.packets j g (by simpa [cloneTo, hj] using hg)

theorem fill {b : Block} {l : List Nat} : Good { s with frags := update s.frags b l } :=
  ⟨fun n => head_congr (h.head n) rfl, fun p => pair_congr (h.pair p) rfl rfl rfl, h.packets⟩

theorem kfree_head (hlive : (s.packet (.head n)).isSome = true) : Good (kfreeSkb s (.head n)) := by
  have hsingle : s.fclone (.head n) = .unavailable :=
    (h.head n).single.resolve_right fun hnone => by simp [hnone] at hlive
  have hfree : kfreeSkb s (.head n) = { s with
      packet := update s.packet (.head n) none
      pooled := update s.pooled (.head n) true } := by
    simp [kfreeSkb, kfreeSkbmem]
  rw [hfree]
  refine ⟨fun m => ?_, fun q => ?_, fun j g hg => ?_⟩
  · by_cases hm : m = n
    · subst hm
      exact ⟨(h.head m).block, by simp, .inl hsingle⟩
    · exact head_congr (h.head m) (by simp [about, hm])
  · exact pair_congr (h.pair q) (by simp [about]) (by simp [about]) rfl
  · by_cases hj : j = .head n
    · simp [hj] at hg
    · exact h.packets j g (by simpa [hj] using hg)

end

theorem liveOfPair_eq_zero (h : liveOfPair s p = 0) :
    s.packet (.orig p) = none ∧ s.packet (.child p) = none := by
  unfold liveOfPair at h
  cases horig : s.packet (.orig p) <;> cases hchild : s.packet (.child p) <;> simp_all

theorem pair_putPair (hblock : s.shinfo (.orig p) = .orig p)
    (hchildBlock : (s.packet (.child p)).isSome = true → s.shinfo (.child p) = .orig p)
    (hused : s.pooled (.orig p) = false) (hcount : s.fcloneRef p - 1 = liveOfPair s p)
    (horig : s.fclone (.orig p) = .orig)
    (hchild : s.fclone (.child p) = .clone ↔ (s.packet (.child p)).isSome = true)
    (hsame : ∀ f g, s.packet (.orig p) = some f → s.packet (.child p) = some g → f = g) :
    Pair (putPair s p) p := by
  unfold putPair
  simp only [update_self]
  split
  · next hzero =>
    have hnone := liveOfPair_eq_zero (hcount.symm.trans hzero)
    exact ⟨hblock, hchildBlock, fun _ => hnone, by simp, by simp, by simp, hsame⟩
  · exact ⟨hblock, hchildBlock, by simp [hused], fun _ => by simpa [liveOfPair] using hcount,
      fun _ => horig, fun _ => hchild, hsame⟩

theorem about_putPair (hi : i ≠ .orig p) : about (putPair s p) i = about s i := by
  unfold putPair
  simp only [update_self]
  split
  · simp [about, hi]
  · rfl

theorem fcloneRef_putPair {q : Nat} (hq : q ≠ p) : (putPair s p).fcloneRef q = s.fcloneRef q := by
  unfold putPair
  simp only [update_self]
  split <;> simp [hq]

theorem packets_putPair : (putPair s p).packet = s.packet ∧ (putPair s p).packets = s.packets := by
  unfold putPair
  simp only [update_self]
  split <;> exact ⟨rfl, rfl⟩

theorem of_putPair (h : Good s) {u : State} (hpair : Pair (putPair u p) p)
    (hothers : ∀ i, i ≠ .orig p → i ≠ .child p → about u i = about s i)
    (hpackets : ∀ i f, u.packet i = some f → s.packet i = some f)
    (hnext : u.packets = s.packets) (href : u.fcloneRef = s.fcloneRef) :
    Good (putPair u p) where
  head := fun n => head_congr (h.head n)
    ((about_putPair (by simp)).trans (hothers _ (by simp) (by simp)))
  pair := by
    intro q
    by_cases hq : q = p
    · exact hq ▸ hpair
    · refine pair_congr (h.pair q) ?_ ?_ ?_
      · exact (about_putPair (by simp [hq])).trans (hothers _ (by simp [hq]) (by simp))
      · exact (about_putPair (by simp)).trans (hothers _ (by simp) (by simp [hq]))
      · exact (fcloneRef_putPair hq).trans (congrFun href q)
  packets := by
    intro i f hf
    rw [packets_putPair.1] at hf
    rw [packets_putPair.2, hnext]
    exact h.packets i f (hpackets i f hf)

theorem packet_of_update {f : Nat}
    (hf : update s.packet i none j = some f) : s.packet j = some f := by
  by_cases hj : j = i
  · simp [hj] at hf
  · simpa [hj] using hf

theorem kfree_orig (h : Good s) (hlive : (s.packet (.orig p)).isSome = true) :
    Good (kfreeSkb s (.orig p)) := by
  have hused := h.used_of_orig hlive
  have hpair := h.pair p
  have hcounted := hpair.counted hused
  simp only [liveOfPair, hlive, if_true] at hcounted
  have hfree : kfreeSkb s (.orig p) =
      Shinfo.putPair { s with packet := update s.packet (.orig p) none } p := by
    simp [kfreeSkb, kfreeSkbmem, hpair.orig hused]
  rw [hfree]
  refine h.of_putPair ?_ (fun i hi _ => by simp [about, hi]) (fun i f => packet_of_update) rfl rfl
  refine pair_putPair hpair.block ?_ hused ?_ (hpair.orig hused) ?_ (by simp)
  · simpa using hpair.childBlock
  · simp only [liveOfPair, update_self]
    simp only [ne_eq, reduceCtorEq, not_false_eq_true, update_of_ne]
    simp
    omega
  · simpa using hpair.child hused

theorem kfree_child (h : Good s) (hlive : (s.packet (.child p)).isSome = true) :
    Good (kfreeSkb s (.child p)) := by
  have hused := h.used_of_child hlive
  have hpair := h.pair p
  have hclone : s.fclone (.child p) = .clone := (hpair.child hused).mpr hlive
  have hcounted := hpair.counted hused
  simp only [liveOfPair, hlive, if_true] at hcounted
  have hfree : kfreeSkb s (.child p) = Shinfo.putPair { s with
        packet := update s.packet (.child p) none
        fclone := update s.fclone (.child p) .unavailable } p := by
    simp [kfreeSkb, kfreeSkbmem, hclone]
  rw [hfree]
  refine h.of_putPair ?_ (fun i _ hi => by simp [about, hi]) (fun i f => packet_of_update) rfl rfl
  refine pair_putPair hpair.block (by simp) hused ?_ ?_ (by simp) (by simp)
  · simp only [liveOfPair, update_self]
    simp only [ne_eq, reduceCtorEq, not_false_eq_true, update_of_ne]
    simp
    omega
  · simpa using hpair.orig hused

theorem step (h : Good s) {a : Action} (hguard : FastClone s a)
    (hstep : Shinfo.step s a = some t) : Good t := by
  cases a with
  | allocHead n =>
    obtain ⟨hpooled, rfl⟩ := of_guard hstep
    exact h.initialise_head
  | allocPair p =>
    obtain ⟨hpooled, rfl⟩ := of_guard hstep
    exact h.allocPair hpooled
  | skbClone i n =>
    obtain ⟨hlive, hstep⟩ := Option.ite_none_right_eq_some.mp hstep
    exact h.skbClone hlive hguard hstep
  | fill i frags =>
    obtain ⟨hlive, rfl⟩ := of_guard hstep
    exact h.fill
  | kfreeSkb i =>
    obtain ⟨hlive, rfl⟩ := of_guard hstep
    cases i with
    | head n => exact h.kfree_head hlive
    | orig p => exact h.kfree_orig hlive
    | child p => exact h.kfree_child hlive

theorem putPair_blocks (s : State) (p : Nat) :
    (putPair s p).shinfo = s.shinfo ∧ (putPair s p).frags = s.frags := by
  unfold putPair
  dsimp only
  split <;> exact ⟨rfl, rfl⟩

theorem kfree_blocks (s : State) (i : Skb) :
    (kfreeSkb s i).shinfo = s.shinfo ∧ (kfreeSkb s i).frags = s.frags := by
  unfold kfreeSkb kfreeSkbmem
  split
  · exact putPair_blocks _ _
  · exact putPair_blocks _ _
  · exact ⟨rfl, rfl⟩

theorem shinfo_of_live (h : Good s) {f : Nat} (hi : s.packet i = some f) : s.shinfo i = match i with
      | .head n => .head n
      | .orig p => .orig p
      | .child p => .orig p := by
  cases i with
  | head n => exact (h.head n).block
  | orig p => exact (h.pair p).block
  | child p => exact (h.pair p).childBlock (by simp [hi])

theorem exclusive (h : Good s) : Exclusive s := by
  intro i j f g hi hj hne heq
  rw [h.shinfo_of_live hi, h.shinfo_of_live hj] at heq
  -- two sk_buffs with one block are the two of a pair
  cases i <;> cases j <;> simp only [Skb.head.injEq, Skb.orig.injEq, reduceCtorEq] at heq
  all_goals subst heq
  · exact hne (Option.some.inj (hi.symm.trans hj))
  · exact hne (Option.some.inj (hi.symm.trans hj))
  · exact hne ((h.pair _).samePacket f g hi hj)
  · exact hne ((h.pair _).samePacket g f hj hi).symm
  · exact hne (Option.some.inj (hi.symm.trans hj))

theorem block_of_head (h : Good s) (hpooled : s.pooled (.head n) = true) {g : Nat}
    (hj : s.packet j = some g) : s.shinfo j ≠ .head n := by
  rw [h.shinfo_of_live hj]
  cases j with
  | head m =>
    intro heq
    obtain rfl : m = n := by simpa using heq
    have hrest := (h.head m).resting hpooled
    simp [hrest] at hj
  | orig | child => simp

theorem block_of_orig (h : Good s) (hpooled : s.pooled (.orig p) = true) {g : Nat}
    (hj : s.packet j = some g) : s.shinfo j ≠ .orig p := by
  have hrest := (h.pair p).resting hpooled
  rw [h.shinfo_of_live hj]
  cases j with
  | head m => simp
  | orig q =>
    intro heq
    obtain rfl : q = p := by simpa using heq
    simp [hrest.1] at hj
  | child q =>
    intro heq
    obtain rfl : q = p := by simpa using heq
    simp [hrest.2] at hj

theorem table_congr {b : Block} {l : List Nat} (hne : s.shinfo j ≠ b)
    (hshinfo : t.shinfo j = s.shinfo j) (hfrags : t.frags = update s.frags b l) :
    t.table j = s.table j := by
  unfold State.table
  rw [hshinfo, hfrags, update_of_ne hne]

theorem undisturbed (h : Good s) {a : Action} (hguard : FastClone s a)
    (hstep : Shinfo.step s a = some t) : Undisturbed s a t := by
  intro j g hj hj' hother
  cases a with
  | allocHead n =>
    obtain ⟨hpooled, rfl⟩ := of_guard hstep
    have hne : s.shinfo j ≠ s.shinfo (.head n) := by
      rw [(h.head n).block]
      exact h.block_of_head hpooled hj
    exact table_congr hne rfl rfl
  | allocPair p =>
    obtain ⟨hpooled, rfl⟩ := of_guard hstep
    have hne : s.shinfo j ≠ s.shinfo (.orig p) := by
      rw [(h.pair p).block]
      exact h.block_of_orig hpooled hj
    exact table_congr hne rfl rfl
  | skbClone i n =>
    obtain ⟨hlive, hstep⟩ := Option.ite_none_right_eq_some.mp hstep
    obtain ⟨p, hcompanion⟩ := Option.isSome_iff_exists.mp hguard
    obtain ⟨-, -, hchild⟩ := h.of_companion hcompanion hlive
    simp only [Shinfo.skbClone, hcompanion, Option.some.injEq] at hstep
    subst hstep
    have hne : j ≠ .child p := by
      rintro rfl
      simp [hchild] at hj
    simp [State.table, cloneTo, hne]
  | fill i frags =>
    obtain ⟨hlive, rfl⟩ := of_guard hstep
    obtain ⟨f, hf⟩ := Option.isSome_iff_exists.mp hlive
    have hfg : g ≠ f := by
      rintro rfl
      exact hother hf
    exact table_congr (h.exclusive j i g f hj hf hfg) rfl rfl
  | kfreeSkb i =>
    obtain ⟨hlive, rfl⟩ := of_guard hstep
    obtain ⟨hshinfo, hfrags⟩ := kfree_blocks s i
    simp [State.table, hshinfo, hfrags]

end Good

/-- If all clones are companions of fclone originals, live sk_buffs of different packets have
different blocks. -/
theorem shinfo_exclusive (s : State) (hreach : system.ReachableUnder FastClone s) :
    Exclusive s ∧ ∀ a t, FastClone s a → system.step s a = some t → Undisturbed s a t := by
  have hgood : Good s :=
    TransitionSystem.ReachableUnder.invariant (fun _ => Good.start)
      (fun _ _ _ h hguard hstep => h.step hguard hstep) hreach
  exact ⟨hgood.exclusive, fun a t hguard hstep => hgood.undisturbed hguard hstep⟩

instance (s : State) (a : Action) : Decidable (FastClone s a) := by
  cases a <;> dsimp only [FastClone] <;> infer_instance

def fresh : State where
  pooled := fun _ => true
  packet := fun _ => none
  fclone := fun _ => .unavailable
  fcloneRef := fun _ => 0
  shinfo := id
  frags := fun _ => []
  packets := 0

theorem start_fresh : Start fresh := ⟨fun _ => ⟨rfl, rfl⟩, fun _ => ⟨rfl, rfl⟩, fun _ => rfl, rfl⟩

theorem shinfo_exclusive_resent :
    ∃ s, system.ReachableUnder FastClone s ∧ s.packet (.orig 0) = some 0 ∧
      s.packet (.child 0) = some 0 ∧ s.packet (.head 0) = some 1 ∧ Exclusive s := by
  obtain ⟨s, hreach, horig, hchild, hhead⟩ :=
    system.exists_reachableUnder FastClone fresh
      [.allocPair 0, .fill (.orig 0) [5], .skbClone (.orig 0) 0, .kfreeSkb (.child 0),
        .allocHead 0, .skbClone (.orig 0) 0]
      (P := fun s => s.packet (.orig 0) = some 0 ∧ s.packet (.child 0) = some 0 ∧
        s.packet (.head 0) = some 1)
      start_fresh (by decide +kernel)
  exact ⟨s, hreach, horig, hchild, hhead, (shinfo_exclusive s hreach).1⟩

theorem shinfo_shared_after_clone :
    ∃ s t, system.Reachable s ∧ s.packet (.head 0) = some 0 ∧ s.packet (.head 1) = some 1 ∧
      s.shinfo (.head 0) = s.shinfo (.head 1) ∧ ¬ Exclusive s ∧
      system.step s (.fill (.head 1) [7]) = some t ∧ s.table (.head 0) = [] ∧
      t.table (.head 0) = [7] := by
  obtain ⟨s, hreach, hfirst, hsecond, hsame, hempty⟩ :=
    system.exists_reachable fresh
      [.allocHead 0, .skbClone (.head 0) 1, .kfreeSkb (.head 1), .allocHead 1]
      (P := fun s => s.packet (.head 0) = some 0 ∧ s.packet (.head 1) = some 1 ∧
        s.shinfo (.head 0) = s.shinfo (.head 1) ∧ s.table (.head 0) = [])
      start_fresh (by decide +kernel)
  refine ⟨s, { s with frags := update s.frags (s.shinfo (.head 1)) [7] }, hreach, hfirst,
    hsecond, hsame, ?_, ?_, hempty, ?_⟩
  · intro hexclusive
    exact hexclusive _ _ 0 1 hfirst hsecond (by decide) hsame
  · simp [system, step, hsecond]
  · simp [State.table, hsame]

end LightStack.Shinfo
