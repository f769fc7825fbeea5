import LightStack.Lib.RefCount
import LightStack.Lib.Transition

/-!
# Socket buffers and the mbufs they hold

Clones share mbufs and one `skb_shared_info`; such a *family* is counted in `dataref` and
`fclone_ref`.
-/

namespace LightStack.Tx.Skb

open Lib

abbrev Mbuf := Nat

/-- Reference counts of mbufs, which are 16 bits wide. -/
abbrev MbufCounts := RefCounts Mbuf 65536

/-- Whether an sk_buff was allocated together with room for one clone. -/
inductive Fclone where
  | unavailable
  | orig
  | clone
  deriving DecidableEq

/-- An sk_buff of a family. -/
structure SkBuff where
  fclone : Fclone
  cloned : Bool
  nohdr : Bool
  headerMbuf : Option Mbuf
  deriving DecidableEq

/-- The sk_buffs that share one `skb_shared_info`, and its counts. -/
structure Family where
  dataref : Int
  frags : List Mbuf
  header : Mbuf
  fcloneRef : Int
  childFclone : Fclone
  original : Option SkBuff
  clones : List SkBuff

/-- The mbufs, the families, and the chains given to the network card. -/
structure State where
  mem : MbufCounts
  families : List Family
  nic : List (List Mbuf)

def start : State where
  mem := ⟨fun _ => 0, fun _ => true, false⟩
  families := []
  nic := []

/-- An sk_buff whose header is not referenced counts in both halves of `dataref`. -/
def datarefShare (skb : SkBuff) : Int :=
  if skb.nohdr then 65536 + 1 else 1

/-- `alloc_skb`; `entail` is the `skb_header_release` of `skb_entail`. -/
def newFamily (fclone entail : Bool) (header : Mbuf) (frags : List Mbuf) : Family :=
  let skb : SkBuff :=
    { fclone := if fclone then .orig else .unavailable
      cloned := false
      nohdr := entail
      headerMbuf := some header }
  { dataref := datarefShare skb
    frags := frags
    header := header
    fcloneRef := 1
    childFclone := .unavailable
    original := some skb
    clones := [] }

/-- `skb_clone` takes a reference to every mbuf. -/
def skbClone (mem : MbufCounts) (f : Family) (skb : SkBuff) : MbufCounts × Family :=
  let fast := decide (skb.fclone = .orig ∧ f.childFclone = .unavailable)
  let n : SkBuff :=
    { fclone := if fast then .clone else .unavailable
      cloned := true
      nohdr := false
      headerMbuf := skb.headerMbuf }
  (mem.retainAll (skb.headerMbuf.toList ++ f.frags),
    { f with
      dataref := f.dataref + 1
      fcloneRef := if fast then f.fcloneRef + 1 else f.fcloneRef
      childFclone := if fast then .clone else f.childFclone
      original := some { skb with cloned := true }
      clones := f.clones ++ [n] })

/-- `skb_release_data`: the mbufs go with the last of the family. -/
def skbReleaseData (mem : MbufCounts) (f : Family) (skb : SkBuff) : MbufCounts × Family × SkBuff :=
  let released := (mem.dropAll (f.frags ++ skb.headerMbuf.toList))
  if skb.cloned = false then
    (released, f, { skb with headerMbuf := none })
  else
    let f := { f with dataref := f.dataref - datarefShare skb }
    if f.dataref = 0 then (released, f, { skb with headerMbuf := none })
    else (mem, f, skb)

/-- `kfree_skbmem` drops the header's mbuf if the sk_buff still has it. -/
def kfreeSkbmem (mem : MbufCounts) (f : Family) (skb : SkBuff) : MbufCounts × Family :=
  let headerFreed := mem.dropAll skb.headerMbuf.toList
  match skb.fclone with
  | .unavailable => (headerFreed, f)
  | .orig =>
    let f := { f with fcloneRef := f.fcloneRef - 1 }
    (if f.fcloneRef = 0 then headerFreed else mem, f)
  | .clone =>
    let f := { f with
      fcloneRef := f.fcloneRef - 1
      childFclone := .unavailable }
    (if f.fcloneRef = 0 then headerFreed else mem, f)

/-- `__kfree_skb`. -/
def kfreeSkb (mem : MbufCounts) (f : Family) (skb : SkBuff) : MbufCounts × Family :=
  let (mem, f, skb) := skbReleaseData mem f skb
  kfreeSkbmem mem f skb

/-- `sk_wmem_free_skb` drops the fragments before it frees the sk_buff. -/
def skWmemFreeSkb (mem : MbufCounts) (f : Family) (skb : SkBuff) : MbufCounts × Family :=
  kfreeSkb (mem.dropAll f.frags) f skb

/-- The chain that is given to the network card. -/
def xmitChain (f : Family) (skb : SkBuff) : List Mbuf := skb.headerMbuf.toList ++ f.frags

/-- What TCP, the driver and the network card do with an sk_buff. -/
inductive Action where
  | alloc (fclone entail : Bool) (header : Mbuf) (frags : List Mbuf)
  | clone (k : Nat)
  | pskbCopy (k : Nat) (header : Mbuf)
  | xmitOriginal (k : Nat)
  | xmitClone (k j : Nat)
  | nicDone (e : Nat)
  | kfreeOriginal (k : Nat)
  | kfreeClone (k j : Nat)
  | wmemFree (k : Nat)

def onOriginal (s : State) (k : Nat) (op : Family → SkBuff → State) : Option State :=
  (s.families[k]?).bind fun f => f.original.map (op f)

def onClone (s : State) (k j : Nat) (op : Family → SkBuff → State) : Option State :=
  (s.families[k]?).bind fun f => (f.clones[j]?).map (op f)

/-- One operation on the family `k`, on its original or on one of its clones. -/
def step (s : State) : Action → Option State
  | .alloc fclone entail header frags =>
    if (header :: frags).Nodup ∧
        ∀ m ∈ header :: frags, s.mem.inPool m = true then
      some { s with
        mem := s.mem.allocAll (header :: frags)
        families := s.families ++ [newFamily fclone entail header frags] }
    else none
  | .clone k =>
    onOriginal s k fun f skb =>
      let r := skbClone s.mem f skb
      { s with mem := r.1, families := s.families.set k r.2 }
  | .pskbCopy k header =>
    (s.families[k]?).bind fun f =>
      if f.original.isSome ∧ s.mem.inPool header = true then
        some { s with
          mem := (s.mem.allocAll [header]).retainAll f.frags
          families := s.families ++ [newFamily false false header f.frags] }
      else none
  | .xmitOriginal k =>
    onOriginal s k fun f skb =>
      let r := kfreeSkb s.mem { f with original := none } skb
      { mem := r.1
        families := s.families.set k r.2
        nic := s.nic ++ [xmitChain f skb] }
  | .xmitClone k j =>
    onClone s k j fun f skb =>
      let r := kfreeSkb s.mem { f with clones := f.clones.eraseIdx j } skb
      { mem := r.1
        families := s.families.set k r.2
        nic := s.nic ++ [xmitChain f skb] }
  | .nicDone e =>
    (s.nic[e]?).map fun chain =>
      { s with mem := s.mem.dropAll chain, nic := s.nic.eraseIdx e }
  | .kfreeOriginal k =>
    onOriginal s k fun f skb =>
      let r := kfreeSkb s.mem { f with original := none } skb
      { s with mem := r.1, families := s.families.set k r.2 }
  | .kfreeClone k j =>
    onClone s k j fun f skb =>
      let r := kfreeSkb s.mem { f with clones := f.clones.eraseIdx j } skb
      { s with mem := r.1, families := s.families.set k r.2 }
  | .wmemFree k =>
    onOriginal s k fun f skb =>
      let r := skWmemFreeSkb s.mem { f with original := none } skb
      { s with mem := r.1, families := s.families.set k r.2 }

def skbSystem : TransitionSystem State Action where
  init := fun s => s = start
  step := step

/-- How often the family refers to each of its mbufs. -/
def Family.shares (f : Family) : Nat :=
  (if f.original = none ∧ f.clones = [] then 0 else 1) + f.clones.length

def Family.holds (f : Family) (m : Mbuf) : Nat := f.shares * (f.header :: f.frags).count m

/-- All references to an mbuf. -/
def holders (s : State) (m : Mbuf) : Nat :=
  (s.families.map fun f => f.holds m).sum + (s.nic.map fun chain => chain.count m).sum

end LightStack.Tx.Skb
