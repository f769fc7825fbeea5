import LightStack.Tx.Skb.Model

/-!
# Reference balance of transmitted mbufs

A fast clone takes one reference on every mbuf and passes it to the NIC queue.
-/

namespace LightStack.Tx.Skb

open Lib List

def RefsKept (s : State) : Action → Prop
  | .clone k =>
    match s.families[k]? with
    | some f =>
      f.original.any (fun skb => skb.fclone = .orig) = true ∧
        f.childFclone = .unavailable ∧
        ∀ m ∈ f.header :: f.frags, s.mem.count m + (f.header :: f.frags).count m < 65536
    | none => True
  | .pskbCopy k _ =>
    match s.families[k]? with
    | some f => ∀ m ∈ f.frags, s.mem.count m + f.frags.count m < 65536
    | none => True
  | .xmitOriginal _ => False
  | .kfreeClone _ _ => False
  | .wmemFree k =>
    match s.families[k]? with
    | some f => f.frags = []
    | none => True
  | _ => True

instance (s : State) (a : Action) : Decidable (RefsKept s a) := by
  unfold RefsKept
  split
  · split <;> infer_instance
  · split <;> infer_instance
  · infer_instance
  · infer_instance
  · split <;> infer_instance
  · infer_instance

def fastClone (f : Family) : SkBuff where
  fclone := .clone
  cloned := true
  nohdr := false
  headerMbuf := some f.header

structure FamilyOk (f : Family) : Prop where
  header : ∀ skb, f.original = some skb → skb.headerMbuf = some f.header
  notClone : ∀ skb, f.original = some skb → skb.fclone ≠ .clone
  fresh : ∀ skb, f.original = some skb →
    skb.cloned = false ∨ skb.fclone = .unavailable → f.clones = []
  clones : f.clones = [] ∨
    f.clones = [fastClone f] ∧ f.childFclone = .clone
  dataref : f.original ≠ none ∨ f.clones ≠ [] →
    f.dataref = (f.original.map datarefShare).getD 0 + f.clones.length
  fcloneRef : f.original ≠ none ∨ f.clones ≠ [] →
    f.fcloneRef = (if f.original = none then 0 else 1) + f.clones.length

structure Balanced (s : State) : Prop where
  sound : s.mem.Sound
  families : ∀ f ∈ s.families, FamilyOk f
  count : ∀ m, s.mem.count m = holders s m

theorem newFamily_ok (fclone entail : Bool) (header : Mbuf)
    (frags : List Mbuf) : FamilyOk (newFamily fclone entail header frags) where
  header := by
    intro skb h
    cases h
    rfl
  notClone := by
    intro skb h
    cases h
    cases fclone <;> simp
  fresh := fun _ _ _ => rfl
  clones := .inl rfl
  dataref := by simp [newFamily]
  fcloneRef := by simp [newFamily]

theorem newFamily_holds (fclone entail : Bool) (header : Mbuf) (frags : List Mbuf) (m : Mbuf) :
    (newFamily fclone entail header frags).holds m = (header :: frags).count m := by
  simp [Family.holds, Family.shares, newFamily]

/-! ## Operations on one family -/

section Family

variable {mem : MbufCounts} {f : Family} {skb : SkBuff}

theorem kfreeSkb_members (mem : MbufCounts) (f : Family) (skb : SkBuff) :
    (kfreeSkb mem f skb).2.frags = f.frags ∧
      (kfreeSkb mem f skb).2.header = f.header ∧
      (kfreeSkb mem f skb).2.original = f.original ∧
      (kfreeSkb mem f skb).2.clones = f.clones := by
  have hdata : ∀ g : Family, ∀ mem' skb', (kfreeSkbmem mem' g skb').2.frags = g.frags ∧
        (kfreeSkbmem mem' g skb').2.header = g.header ∧
        (kfreeSkbmem mem' g skb').2.original = g.original ∧
        (kfreeSkbmem mem' g skb').2.clones = g.clones := by
    intro g mem' skb'
    unfold kfreeSkbmem
    cases skb'.fclone <;> exact ⟨rfl, rfl, rfl, rfl⟩
  unfold kfreeSkb skbReleaseData
  split
  rename_i h
  split at h
  · cases h
    exact hdata _ _ _
  · dsimp only at h
    split at h
    · cases h
      exact hdata _ _ _
    · cases h
      exact hdata _ _ _

theorem kfreeSkb_last {h : Mbuf} (hheader : skb.headerMbuf = some h)
    (hlast : skb.cloned = false ∨ f.dataref = datarefShare skb) :
    (kfreeSkb mem f skb).1 = mem.dropAll (f.frags ++ [h]) := by
  have hfree : ∀ g : Family, ∀ mem' : MbufCounts,
      (kfreeSkbmem mem' g { skb with headerMbuf := none }).1 = mem' := by
    intro g mem'
    unfold kfreeSkbmem
    cases skb.fclone <;> simp [RefCounts.dropAll]
  unfold kfreeSkb skbReleaseData
  rw [hheader]
  by_cases hcloned : skb.cloned = false
  · simp only [hcloned, if_true]
    exact hfree _ _
  · have hzero : f.dataref - datarefShare skb = 0 := by
      rw [hlast.resolve_left hcloned, Int.sub_self]
    simp only [hcloned, hzero, if_true]
    exact hfree _ _

theorem kfreeSkb_shared (hcloned : skb.cloned = true) (hdataref : f.dataref ≠ datarefShare skb)
    (hfclone : skb.fclone ≠ .unavailable) (href : f.fcloneRef ≠ 1) :
    kfreeSkb mem f skb = (mem, { f with
        dataref := f.dataref - datarefShare skb
        fcloneRef := f.fcloneRef - 1
        childFclone := if skb.fclone = .clone then .unavailable
          else f.childFclone }) := by
  have hnonzero : f.dataref - datarefShare skb ≠ 0 := by
    intro h
    exact hdataref (Int.sub_eq_zero.mp h)
  have href' : f.fcloneRef - 1 ≠ 0 := by
    intro h
    exact href (Int.sub_eq_zero.mp h)
  unfold kfreeSkb skbReleaseData kfreeSkbmem
  cases hkind : skb.fclone with
  | unavailable => exact absurd hkind hfclone
  | orig | clone => simp [hcloned, hnonzero, href', hkind]

theorem Family.holds_of_shares {n : Nat} (h : f.shares = n) (m : Mbuf) :
    f.holds m = n * (f.header :: f.frags).count m := by
  unfold Family.holds
  rw [h]

theorem count_chain (h m : Mbuf) (frags : List Mbuf) :
    (frags ++ [h]).count m = (h :: frags).count m := by
  rw [count_append, RefCounts.count_cons_eq h frags, Nat.add_comm]

theorem dropAll_chain (hmem : mem.Sound)
    (hheld : ∀ m, (f.header :: f.frags).count m ≤ mem.count m) :
    (mem.dropAll (f.frags ++ [f.header])).Sound ∧
      ∀ m, (mem.dropAll (f.frags ++ [f.header])).count m +
        (f.header :: f.frags).count m = mem.count m := by
  have hle : ∀ m, (f.frags ++ [f.header]).count m ≤ mem.count m := by
    intro m
    rw [count_chain]
    exact hheld m
  obtain ⟨hsound, hcount⟩ := hmem.dropAll hle
  refine ⟨hsound, ?_⟩
  intro m
  have h := hheld m
  rw [hcount m, count_chain]
  omega

theorem datarefShare_ne_zero (skb : SkBuff) : datarefShare skb ≠ 0 := by
  unfold datarefShare
  split <;> decide

theorem familyOk_dead (horiginal : f.original = none) (hclones : f.clones = []) : FamilyOk f where
  header := by simp [horiginal]
  notClone := by simp [horiginal]
  fresh := by simp [horiginal]
  clones := .inl hclones
  dataref := by simp [horiginal, hclones]
  fcloneRef := by simp [horiginal, hclones]

theorem shares_of_original (hskb : f.original = some skb) : f.shares = 1 + f.clones.length := by
  simp [Family.shares, hskb]

theorem shares_dead (horiginal : f.original = none) (hclones : f.clones = []) : f.shares = 0 := by
  simp [Family.shares, horiginal, hclones]

theorem kfreeSkb_dead (f : Family) (skb : SkBuff) (hmem : mem.Sound)
    (hheader : skb.headerMbuf = some f.header)
    (hlast : skb.cloned = false ∨ f.dataref = datarefShare skb) (horiginal : f.original = none)
    (hclones : f.clones = []) (hheld : ∀ m, (f.header :: f.frags).count m ≤ mem.count m) :
    (kfreeSkb mem f skb).1.Sound ∧ FamilyOk (kfreeSkb mem f skb).2 ∧
      ∀ m, (kfreeSkb mem f skb).1.count m + (f.header :: f.frags).count m =
        mem.count m + (kfreeSkb mem f skb).2.holds m := by
  obtain ⟨_, _, horiginal', hclones'⟩ := kfreeSkb_members mem f skb
  rw [horiginal] at horiginal'
  rw [hclones] at hclones'
  rw [kfreeSkb_last hheader hlast]
  obtain ⟨hsound, hcount⟩ := dropAll_chain hmem hheld
  refine ⟨hsound, familyOk_dead horiginal' hclones', ?_⟩
  intro m
  rw [Family.holds_of_shares (shares_dead horiginal' hclones'), hcount m]
  simp

theorem kfreeSkb_original (hmem : mem.Sound) (hf : FamilyOk f)
    (hskb : f.original = some skb) (hheld : ∀ m, f.holds m ≤ mem.count m) :
    (kfreeSkb mem { f with original := none } skb).1.Sound ∧
      FamilyOk (kfreeSkb mem { f with original := none } skb).2 ∧
      ∀ m, (kfreeSkb mem { f with original := none } skb).1.count m + f.holds m = mem.count m +
          (kfreeSkb mem { f with original := none } skb).2.holds m := by
  have hheader := hf.header skb hskb
  have hshares := shares_of_original hskb
  have hdataref := hf.dataref (.inl (by simp [hskb]))
  rcases hf.clones with hnone | ⟨hone, hchild⟩
  · have hholds : ∀ m, f.holds m = (f.header :: f.frags).count m := by
      intro m
      rw [Family.holds_of_shares hshares, hnone]
      simp
    simp only [hholds] at hheld ⊢
    exact kfreeSkb_dead { f with original := none } skb hmem hheader
      (.inr (by simpa [hskb, hnone] using hdataref)) rfl hnone hheld
  · have hcloned : skb.cloned = true := by
      rcases Bool.eq_false_or_eq_true skb.cloned with h | h
      · exact h
      · have hempty := hf.fresh skb hskb (.inl h)
        simp [hone] at hempty
    have hfclone : skb.fclone ≠ .unavailable := by
      intro h
      have hempty := hf.fresh skb hskb (.inr h)
      simp [hone] at hempty
    have href : f.fcloneRef = 2 := by simpa [hskb, hone] using hf.fcloneRef (.inl (by simp [hskb]))
    simp only [hskb, hone, Option.map_some, Option.getD_some, length_singleton] at hdataref
    rw [kfreeSkb_shared hcloned (by simp only; omega) hfclone (by simp [href])]
    refine ⟨hmem, ⟨by simp, by simp, by simp, .inr ⟨hone, ?_⟩, ?_, ?_⟩, ?_⟩
    · simp [hf.notClone skb hskb, hchild]
    · intro _
      simp only [hone, Option.map_none, Option.getD_none, length_singleton]
      omega
    · intro _
      simp [hone, href]
    · intro m
      simp [Family.holds, Family.shares, hskb, hone]

theorem kfreeSkb_clone {j : Nat} (hmem : mem.Sound) (hf : FamilyOk f)
    (hskb : f.clones[j]? = some skb) (hheld : ∀ m, f.holds m ≤ mem.count m) :
    (kfreeSkb mem { f with clones := f.clones.eraseIdx j } skb).1.Sound ∧
      FamilyOk (kfreeSkb mem { f with clones := f.clones.eraseIdx j } skb).2 ∧
      ∀ m, (kfreeSkb mem { f with clones := f.clones.eraseIdx j } skb).1.count m + f.holds m =
        mem.count m + (xmitChain f skb).count m + (kfreeSkb mem
            { f with clones := f.clones.eraseIdx j } skb).2.holds m := by
  rcases hf.clones with hnone | ⟨hone, hchild⟩
  · simp [hnone] at hskb
  obtain ⟨rfl, rfl⟩ : j = 0 ∧ skb = fastClone f := by
    rw [hone] at hskb
    cases j with
    | zero => simpa using hskb.symm
    | succ j => simp at hskb
  have herase : f.clones.eraseIdx 0 = [] := by simp [hone]
  have hchain : ∀ m, (xmitChain f (fastClone f)).count m = (f.header :: f.frags).count m := by
    intro m
    rfl
  have hdataref := hf.dataref (.inr (by simp [hone]))
  have href := hf.fcloneRef (.inr (by simp [hone]))
  simp only [hone, length_singleton] at hdataref href
  rw [herase]
  rcases Option.eq_none_or_eq_some f.original with horig | ⟨orig, horig⟩
  · have hholds : ∀ m, f.holds m = 2 * (f.header :: f.frags).count m := by
      intro m
      exact Family.holds_of_shares (by simp [Family.shares, horig, hone]) m
    have hlast : f.dataref = datarefShare (fastClone f) := by
      simpa [horig, datarefShare, fastClone] using hdataref
    obtain ⟨hsound, hok, hcount⟩ := kfreeSkb_dead
      { f with clones := [] } (fastClone f) hmem rfl (.inr hlast) horig rfl
      (fun m => by
        have h := hheld m
        rw [hholds m] at h
        simp only
        omega)
    refine ⟨hsound, hok, ?_⟩
    intro m
    have h := hcount m
    rw [hholds m, hchain m]
    simp only at h
    omega
  · have hnz := datarefShare_ne_zero orig
    have hcloneShare : datarefShare (fastClone f) = 1 := rfl
    simp only [horig, Option.map_some, Option.getD_some] at hdataref
    have href' : f.fcloneRef = 2 := by simpa [horig] using href
    rw [kfreeSkb_shared rfl (by simp only [hcloneShare]; omega)
      (by simp [fastClone]) (by simp [href'])]
    refine ⟨hmem, ⟨hf.header, hf.notClone, by simp, .inl rfl, ?_, ?_⟩, ?_⟩
    · intro _
      simp only [horig, Option.map_some, Option.getD_some, hcloneShare, length_nil]
      omega
    · intro _
      simp [horig, href']
    · intro m
      rw [hchain m]
      simp only [Family.holds, Family.shares, horig, hone, length_singleton, length_nil]
      simp
      omega

theorem FamilyOk.count_le_holds (hskb : f.original = some skb) (m : Mbuf) :
    (f.header :: f.frags).count m ≤ f.holds m := by
  rw [Family.holds_of_shares (shares_of_original hskb), Nat.add_mul]
  omega

theorem skbClone_fast (hmem : mem.Sound) (hf : FamilyOk f) (hskb : f.original = some skb)
    (hheld : ∀ m, f.holds m ≤ mem.count m) (hfclone : skb.fclone = .orig)
    (hchild : f.childFclone = .unavailable)
    (hroom : ∀ m ∈ f.header :: f.frags, mem.count m + (f.header :: f.frags).count m < 65536) :
    (skbClone mem f skb).1.Sound ∧ FamilyOk (skbClone mem f skb).2 ∧
      ∀ m, (skbClone mem f skb).1.count m + f.holds m =
        mem.count m + (skbClone mem f skb).2.holds m := by
  have hheader := hf.header skb hskb
  have hnone : f.clones = [] := by
    rcases hf.clones with hnone | ⟨_, hclone⟩
    · exact hnone
    · rw [hchild] at hclone
      cases hclone
  have hpos : ∀ m ∈ f.header :: f.frags, 0 < mem.count m := by
    intro m hm
    have hcount := count_pos_iff.mpr hm
    have hle := FamilyOk.count_le_holds hskb m
    have hheld := hheld m
    omega
  have hroom' : ∀ m, mem.count m + (f.header :: f.frags).count m < 65536 := by
    intro m
    by_cases hm : m ∈ f.header :: f.frags
    · exact hroom m hm
    · rw [count_eq_zero.mpr hm]
      exact hmem.bounded m
  obtain ⟨hsound, hcount⟩ := hmem.retainAll hpos hroom'
  have heq : skbClone mem f skb = (mem.retainAll (f.header :: f.frags),
        { f with
          dataref := f.dataref + 1
          fcloneRef := f.fcloneRef + 1
          childFclone := .clone
          original := some { skb with cloned := true }
          clones := [fastClone f] }) := by
    simp [skbClone, hfclone, hchild, hnone, fastClone, hheader]
  have hdataref : f.dataref = datarefShare skb := by
    simpa [hskb, hnone] using hf.dataref (.inl (by simp [hskb]))
  have href : f.fcloneRef = 1 := by simpa [hskb, hnone] using hf.fcloneRef (.inl (by simp [hskb]))
  rw [heq]
  refine ⟨hsound, ⟨?_, ?_, ?_, .inr ⟨rfl, rfl⟩, ?_, ?_⟩, ?_⟩
  · intro skb' h
    cases h
    exact hheader
  · intro skb' h
    cases h
    simp [hfclone]
  · intro skb' h hcases
    cases h
    simp [hfclone] at hcases
  · intro _
    simp [hdataref, datarefShare]
  · intro _
    simp [href]
  · intro m
    rw [hcount m]
    simp only [Family.holds, Family.shares, hskb, hnone, length_singleton, length_nil]
    simp
    omega

end Family

/-! ## One step -/

section Step

variable {s : State} {k : Nat} {f : Family} {skb : SkBuff}

theorem Balanced.holds_le_count (hs : Balanced s) (hk : s.families[k]? = some f) (m : Mbuf) :
    f.holds m ≤ s.mem.count m := by
  have hsum := sum_map_eraseIdx_add (fun g : Family => g.holds m) hk
  rw [hs.count m]
  unfold holders
  omega

theorem Balanced.replace {mem : MbufCounts} {f' : Family} {nic : List (List Mbuf)}
    (hs : Balanced s) (hk : s.families[k]? = some f)
    (hsound : mem.Sound) (hok : FamilyOk f')
    (hcount : ∀ m, mem.count m + f.holds m + (s.nic.map fun chain => chain.count m).sum =
      s.mem.count m + f'.holds m + (nic.map fun chain => chain.count m).sum) :
    Balanced { mem := mem, families := s.families.set k f', nic := nic } := by
  refine ⟨hsound, ?_, ?_⟩
  · intro g hg
    rcases mem_or_eq_of_mem_set hg with hg | rfl
    · exact hs.families g hg
    · exact hok
  · intro m
    have hset := sum_map_set_add (fun g : Family => g.holds m) f' hk
    have hold := hs.count m
    have hnew := hcount m
    unfold holders at hold ⊢
    simp only
    omega

theorem Balanced.append {mem : MbufCounts} {f' : Family} (hs : Balanced s) (hsound : mem.Sound)
    (hok : FamilyOk f') (hcount : ∀ m, mem.count m = s.mem.count m + f'.holds m) :
    Balanced { s with mem := mem, families := s.families ++ [f'] } := by
  refine ⟨hsound, ?_, ?_⟩
  · intro g hg
    rcases mem_append.mp hg with hg | hg
    · exact hs.families g hg
    · rw [mem_singleton.mp hg]
      exact hok
  · intro m
    have hold := hs.count m
    have hnew := hcount m
    unfold holders at hold ⊢
    simp only [map_append, sum_append, map_cons, map_nil,
      sum_cons, sum_nil]
    omega

theorem onOriginal_eq_some {op : Family → SkBuff → State} {s' : State}
    (h : onOriginal s k op = some s') :
    ∃ f skb, s.families[k]? = some f ∧ f.original = some skb ∧
      s' = op f skb := by
  unfold onOriginal at h
  obtain ⟨f, hk, hop⟩ := Option.bind_eq_some_iff.mp h
  obtain ⟨skb, hskb, rfl⟩ := Option.map_eq_some_iff.mp hop
  exact ⟨f, skb, hk, hskb, rfl⟩

theorem onClone_eq_some {j : Nat} {op : Family → SkBuff → State} {s' : State}
    (h : onClone s k j op = some s') :
    ∃ f skb, s.families[k]? = some f ∧ f.clones[j]? = some skb ∧
      s' = op f skb := by
  unfold onClone at h
  obtain ⟨f, hk, hop⟩ := Option.bind_eq_some_iff.mp h
  obtain ⟨skb, hskb, rfl⟩ := Option.map_eq_some_iff.mp hop
  exact ⟨f, skb, hk, hskb, rfl⟩

theorem Balanced.familyOk (hs : Balanced s) (hk : s.families[k]? = some f) : FamilyOk f :=
  hs.families f (List.mem_of_getElem? hk)

theorem Balanced.alloc {fclone entail : Bool} {header : Mbuf} {frags : List Mbuf} (hs : Balanced s)
    (hnodup : (header :: frags).Nodup) (hfree : ∀ m ∈ header :: frags, s.mem.inPool m = true) :
    Balanced { s with
      mem := s.mem.allocAll (header :: frags)
      families := s.families ++ [newFamily fclone entail header frags] } := by
  obtain ⟨hsound, hcount⟩ := hs.sound.allocAll (by decide) hfree hnodup
  refine hs.append hsound (newFamily_ok fclone entail header frags) ?_
  intro m
  rw [hcount m, newFamily_holds]

theorem Balanced.pskbCopy {header : Mbuf} (hs : Balanced s) (hk : s.families[k]? = some f)
    (hskb : f.original = some skb) (hfree : s.mem.inPool header = true)
    (hroom : ∀ m ∈ f.frags, s.mem.count m + f.frags.count m < 65536) :
    Balanced { s with
      mem := (s.mem.allocAll [header]).retainAll f.frags
      families := s.families ++ [newFamily false false header f.frags] } := by
  have hfree' : ∀ m ∈ [header], s.mem.inPool m = true := by simpa using hfree
  obtain ⟨hsound, hcount⟩ := hs.sound.allocAll (by decide) hfree' (by simp)
  have hzero : s.mem.count header = 0 := (hs.sound.pool header).mp hfree
  have hlive : ∀ m ∈ f.frags, 0 < s.mem.count m := by
    intro m hm
    have hle := FamilyOk.count_le_holds hskb m
    have hheld := hs.holds_le_count hk m
    have hpos : 0 < (f.header :: f.frags).count m :=
      count_pos_iff.mpr (mem_cons_of_mem _ hm)
    omega
  have hpos : ∀ m ∈ f.frags, 0 < (s.mem.allocAll [header]).count m := by
    intro m hm
    rw [hcount m]
    have h := hlive m hm
    omega
  have hroom' : ∀ m, (s.mem.allocAll [header]).count m + f.frags.count m < 65536 := by
    intro m
    by_cases hm : m ∈ f.frags
    · have hne : m ≠ header := by
        rintro rfl
        have h := hlive m hm
        omega
      have hnone : [header].count m = 0 := by
        rw [count_eq_zero]
        simpa using hne
      rw [hcount m, hnone]
      exact hroom m hm
    · rw [count_eq_zero.mpr hm]
      exact hsound.bounded m
  obtain ⟨hsound', hcount'⟩ := hsound.retainAll hpos hroom'
  refine hs.append hsound' (newFamily_ok false false header f.frags) ?_
  intro m
  rw [hcount' m, hcount m, newFamily_holds, RefCounts.count_cons_eq header f.frags]
  omega

theorem step_balanced {s' : State} {a : Action} (hs : Balanced s) (hkept : RefsKept s a)
    (hstep : step s a = some s') : Balanced s' := by
  cases a with
  | alloc fclone entail header frags =>
    simp only [step] at hstep
    split at hstep
    · rename_i hfree
      cases hstep
      exact hs.alloc hfree.1 hfree.2
    · cases hstep
  | clone k =>
    obtain ⟨f, skb, hk, hskb, rfl⟩ := onOriginal_eq_some hstep
    simp only [RefsKept, hk, hskb, Option.any_some, decide_eq_true_eq] at hkept
    obtain ⟨hfclone, hchild, hroom⟩ := hkept
    obtain ⟨hsound, hok, hcount⟩ := skbClone_fast hs.sound (hs.familyOk hk)
      hskb (hs.holds_le_count hk) hfclone hchild hroom
    refine hs.replace hk hsound hok ?_
    intro m
    rw [hcount m]
  | pskbCopy k header =>
    simp only [step] at hstep
    obtain ⟨f, hk, hstep⟩ := Option.bind_eq_some_iff.mp hstep
    simp only [RefsKept, hk] at hkept
    split at hstep
    · rename_i hcond
      obtain ⟨skb, hskb⟩ := Option.isSome_iff_exists.mp hcond.1
      cases hstep
      exact hs.pskbCopy hk hskb hcond.2 hkept
    · cases hstep
  | xmitOriginal | kfreeClone => exact hkept.elim
  | xmitClone k j =>
    obtain ⟨f, skb, hk, hskb, rfl⟩ := onClone_eq_some hstep
    obtain ⟨hsound, hok, hcount⟩ := kfreeSkb_clone hs.sound (hs.familyOk hk)
      hskb (hs.holds_le_count hk)
    refine hs.replace hk hsound hok ?_
    intro m
    have h := hcount m
    simp only [map_append, sum_append, map_cons, map_nil,
      sum_cons, sum_nil]
    omega
  | nicDone e =>
    simp only [step] at hstep
    obtain ⟨chain, he, rfl⟩ := Option.map_eq_some_iff.mp hstep
    have hsum := fun m => sum_map_eraseIdx_add (fun c : List Mbuf => c.count m) he
    have hle : ∀ m, chain.count m ≤ s.mem.count m := by
      intro m
      have h := hsum m
      rw [hs.count m]
      unfold holders
      omega
    obtain ⟨hsound, hcount⟩ := hs.sound.dropAll hle
    refine ⟨hsound, hs.families, ?_⟩
    intro m
    have h := hsum m
    have hold := hs.count m
    rw [hcount m]
    unfold holders at hold ⊢
    simp only
    omega
  | kfreeOriginal k =>
    obtain ⟨f, skb, hk, hskb, rfl⟩ := onOriginal_eq_some hstep
    obtain ⟨hsound, hok, hcount⟩ := kfreeSkb_original hs.sound
      (hs.familyOk hk) hskb (hs.holds_le_count hk)
    refine hs.replace hk hsound hok ?_
    intro m
    rw [hcount m]
  | wmemFree k =>
    obtain ⟨f, skb, hk, hskb, rfl⟩ := onOriginal_eq_some hstep
    simp only [RefsKept, hk] at hkept
    have hplain : skWmemFreeSkb s.mem { f with original := none } skb =
        kfreeSkb s.mem { f with original := none } skb := by
      simp [skWmemFreeSkb, hkept, RefCounts.dropAll]
    obtain ⟨hsound, hok, hcount⟩ := kfreeSkb_original hs.sound
      (hs.familyOk hk) hskb (hs.holds_le_count hk)
    rw [hplain]
    refine hs.replace hk hsound hok ?_
    intro m
    rw [hcount m]

end Step

theorem balanced_start : Balanced start where
  sound := ⟨fun _ => Nat.succ_pos _, fun _ => by simp [start], rfl⟩
  families := by simp [start]
  count := by simp [start, holders]

/-- In every run that meets `RefsKept` the counter of every mbuf is the number of its holders, and
none was returned to its pool twice. -/
theorem refcnt_balanced {s : State} (hreach : skbSystem.ReachableUnder RefsKept s) :
    (∀ m, s.mem.count m = holders s m) ∧
      (∀ m, s.mem.inPool m = true → holders s m = 0) ∧
      s.mem.doubleFree = false := by
  have hbalanced : Balanced s := by
    refine hreach.invariant ?_ ?_
    · rintro _ rfl
      exact balanced_start
    · intro s a t hs hkept hstep
      exact step_balanced hs hkept hstep
  refine ⟨hbalanced.count, ?_, hbalanced.sound.once⟩
  intro m hm
  rw [← hbalanced.count m]
  exact (hbalanced.sound.pool m).mp hm

def sendAndRetransmit : List Action :=
  [.alloc true true 0 [1], .clone 0, .xmitClone 0 0, .clone 0, .xmitClone 0 0, .nicDone 0]

theorem refcnt_balanced_sendAndRetransmit : ∃ s, skbSystem.ReachableUnder RefsKept s ∧
      (s.mem.count 1 = 2 ∧ s.mem.inPool 2 = true) ∧
        (∀ m, s.mem.count m = holders s m) ∧
        (∀ m, s.mem.inPool m = true → holders s m = 0) ∧
        s.mem.doubleFree = false := by
  obtain ⟨s, hreach, htest⟩ :=
    skbSystem.exists_reachableUnder RefsKept start sendAndRetransmit
      (P := fun s => s.mem.count 1 = 2 ∧ s.mem.inPool 2 = true) rfl (by decide)
  exact ⟨s, hreach, htest, refcnt_balanced hreach⟩

def sendAndAcknowledge : List Action :=
  [.alloc true true 0 [1], .clone 0, .xmitClone 0 0, .nicDone 0, .wmemFree 0]

theorem refcnt_unbalanced_sendAndAcknowledge : ∃ s, skbSystem.Reachable s ∧
      s.mem.inPool 1 = true ∧ holders s 1 = 0 ∧ s.mem.count 1 = 65535 :=
  skbSystem.exists_reachable start sendAndAcknowledge rfl (by decide)

end LightStack.Tx.Skb
