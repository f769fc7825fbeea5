import LightStack.Lib.Tiling
import LightStack.Mbuf

/-!
# Fragmentation and reassembly of IP datagrams

`ip_frag_queue` keeps the fragments of a datagram in order: what a new one has in common with its
predecessor is cut off, and what it has in common with its successors is taken from them.  The
datagram is complete when it has its first and last byte and `meat` is `len`.  Any number of
datagrams is under way; buffers are linear and memory never runs out.
-/

namespace LightStack.Ip

open Lib List Function

structure Queue where
  firstIn : Bool
  lastIn : Bool
  len : Nat
  meat : Int
  fragments : List (Piece UInt8)

def Queue.empty : Queue := ⟨false, false, 0, 0, []⟩

abbrev Queue.Complete (q : Queue) : Prop :=
  q.firstIn = true ∧ q.lastIn = true ∧ q.meat = q.len

structure Packet where
  fragOff : Nat
  more : Bool
  payload : List UInt8

inductive Verdict where
  | refused
  | waits
  | whole (datagram : List UInt8)

def Verdict.out : Verdict → List (List UInt8)
  | whole d => [d]
  | _ => []

namespace Packet

def offset (p : Packet) : Nat := 8 * p.fragOff

def stop (p : Packet) : Nat :=
  if p.more then (p.offset + p.payload.length) / 8 * 8 else p.offset + p.payload.length

end Packet

/-- The tests against `len` and `INET_FRAG_LAST_IN`, and what they leave in the queue. -/
def fit (q : Queue) (p : Packet) : Option Queue :=
  if p.more then
    if q.len < p.stop then
      if q.lastIn then none else some { q with len := p.stop }
    else some q
  else if p.stop < q.len ∨ q.lastIn = true ∧ p.stop ≠ q.len then none
  else some { q with lastIn := true, len := p.stop }

def findPlace (fragments : List (Piece UInt8)) (offset : Nat) :
    List (Piece UInt8) × List (Piece UInt8) :=
  match fragments.getLast? with
  | none => ([], [])
  | some tail =>
    if tail.offset < offset then (fragments, [])
    else (fragments.takeWhile (·.offset < offset), fragments.dropWhile (·.offset < offset))

def eatNext (stop : Nat) (meat : Int) : List (Piece UInt8) → Int × List (Piece UInt8)
  | [] => (meat, [])
  | next :: rest =>
    if next.offset < stop then
      if stop - next.offset < next.items.length then
        (meat - (stop - next.offset : Nat), ⟨stop, next.items.drop (stop - next.offset)⟩ :: rest)
      else eatNext stop (meat - next.items.length) rest
    else (meat, next :: rest)

variable (ihlen : Nat)

def ipFragReasm (q : Queue) : Verdict :=
  if 65535 < ihlen + q.len then .refused else .whole (q.fragments.flatMap Piece.items)

def finish (q : Queue) : Queue × Verdict :=
  if q.Complete then (.empty, ipFragReasm ihlen q)
  else (q, .waits)

def place (q : Queue) (offset stop : Nat) (payload : List UInt8) : Queue × Verdict :=
  let (before, after) := findPlace q.fragments offset
  let start := max offset ((before.getLast?.map Piece.stop).getD 0)
  if stop = offset ∨ stop ≤ start then (q, .refused)
  else
    let (meat, after) := eatNext stop q.meat after
    let bytes := (payload.take (stop - offset)).drop (start - offset)
    finish ihlen { q with
      firstIn := q.firstIn || start = 0
      meat := meat + bytes.length
      fragments := before ++ ⟨start, bytes⟩ :: after }

def ipFragQueue (q : Queue) (p : Packet) : Queue × Verdict :=
  match fit q p with
  | none => (q, .refused)
  | some q => place ihlen q p.offset p.stop p.payload

/-- A fragment arrives, or the queue is lost in `ip_expire`, `ip_evictor` or `ip_frag_reinit`. -/
def next (q : Queue) : Option Packet → Queue × Verdict
  | some p => ipFragQueue ihlen q p
  | none => (.empty, .refused)

variable {Key : Type*} [DecidableEq Key]

/-- The datagrams that come out, with their keys. -/
def ipDefrag (s : Key → Queue) : List (Key × Option Packet) → List (Key × List UInt8)
  | [] => []
  | (k, e) :: run =>
    let (q, v) := next ihlen (s k) e
    v.out.map (k, ·) ++ ipDefrag (update s k q) run

/-! ## One queue -/

theorem findPlace_spec {hi lo : Nat} {fragments : List (Piece UInt8)} (h : Laid hi lo fragments)
    (offset : Nat) :
    (findPlace fragments offset).1 ++ (findPlace fragments offset).2 = fragments ∧
      (∀ p ∈ (findPlace fragments offset).1.getLast?, p.offset < offset) ∧
      ∀ p ∈ (findPlace fragments offset).2, offset ≤ p.offset := by
  unfold findPlace
  cases hlast : fragments.getLast? with
  | none => simp [getLast?_eq_none_iff.mp hlast]
  | some tail =>
    by_cases htail : tail.offset < offset
    · simp [htail, hlast]
    · simp only [htail, if_false]
      refine ⟨takeWhile_append_dropWhile, fun p hp => ?_, ?_⟩
      · simpa using mem_takeWhile_imp (mem_of_getLast? hp)
      · clear hlast
        induction fragments generalizing lo with
        | nil => simp
        | cons q rest ih =>
          rw [dropWhile_cons]
          split
          · exact ih h.2.2
          · rename_i hq
            simp only [decide_eq_true_eq, Nat.not_lt] at hq
            exact (show Laid hi offset (q :: rest) from ⟨hq, h.2⟩).le_offset

theorem eatNext_spec {hi lo stop : Nat} {ps : List (Piece UInt8)} (meat : Int)
    (h : Laid hi lo ps) (hstop : stop ≤ hi) :
    Laid hi stop (eatNext stop meat ps).2 ∧
      (∀ i, Covers (eatNext stop meat ps).2 i ↔ Covers ps i ∧ stop ≤ i) ∧
      (eatNext stop meat ps).1 + size ps = meat + size (eatNext stop meat ps).2 ∧
      ∀ allowed, (∀ p ∈ ps, p.Holds allowed) →
        ∀ p ∈ (eatNext stop meat ps).2, p.Holds allowed := by
  induction ps generalizing lo meat with
  | nil => exact ⟨hstop, by simp [eatNext], rfl, fun _ h => h⟩
  | cons next rest ih =>
    obtain ⟨-, hne, hrest⟩ := h
    have hend : next.stop = next.offset + next.items.length := rfl
    have hrest' := hrest.bounds.2
    unfold eatNext
    split
    · split
      · rename_i hlt hpart
        have hsame : (⟨stop, next.items.drop (stop - next.offset)⟩ : Piece UInt8).stop =
            next.stop := by
          simp only [Piece.stop, length_drop]
          omega
        refine ⟨⟨Nat.le_refl stop, by simpa using hpart, hsame ▸ hrest⟩, fun i => ?_, ?_, ?_⟩
        · simp only [covers_cons, hsame]
          constructor
          · rintro (hi | hi)
            · exact ⟨.inl (by omega), by omega⟩
            · have := hrest' i hi
              exact ⟨.inr hi, by omega⟩
          · rintro ⟨hi | hi, hle⟩
            · exact .inl (by omega)
            · exact .inr hi
        · simp only [size_cons, length_drop]
          omega
        · intro allowed hholds
          obtain ⟨hnext, hothers⟩ := forall_mem_cons.mp hholds
          refine forall_mem_cons.mpr ⟨fun k x hx => ?_, hothers⟩
          rw [getElem?_drop] at hx
          have := hnext _ x hx
          rwa [show next.offset + (stop - next.offset + k) = stop + k by omega] at this
      · rename_i hlt hpart
        obtain ⟨hlaid, hcovers, hsize, hholds⟩ := ih (meat - next.items.length) hrest
        refine ⟨hlaid, fun i => ?_, ?_, fun allowed h => hholds allowed (forall_mem_cons.mp h).2⟩
        · rw [hcovers, covers_cons]
          refine ⟨fun hi => ⟨.inr hi.1, hi.2⟩, fun ⟨hi, hle⟩ => ⟨hi.resolve_left ?_, hle⟩⟩
          omega
        · rw [size_cons]
          omega
    · rename_i hge
      refine ⟨⟨by omega, hne, hrest⟩, fun i => ?_, rfl, fun _ h => h⟩
      refine ⟨fun hi => ⟨hi, ?_⟩, And.left⟩
      rcases covers_cons.mp hi with hi | hi
      · omega
      · have := hrest' i hi
        omega

structure Sound (q : Queue) : Prop where
  laid : Laid q.len 0 q.fragments
  meat : q.meat = size q.fragments
  first : Covers q.fragments 0 → q.firstIn = true

theorem sound_empty : Sound .empty := ⟨Nat.le_refl 0, rfl, fun h => absurd h covers_nil⟩

/-- The fragment is put into the queue, up to what was there before. -/
structure Placed (q q' : Queue) (offset stop : Nat) (payload : List UInt8) : Prop where
  sound : Sound q'
  len : q'.len = q.len
  lastIn : q'.lastIn = q.lastIn
  covers : ∀ i, Covers q'.fragments i ↔ Covers q.fragments i ∨ offset ≤ i ∧ i < stop
  holds : ∀ allowed, (∀ f ∈ q.fragments, f.Holds allowed) → Piece.Holds allowed ⟨offset, payload⟩ →
    ∀ f ∈ q'.fragments, f.Holds allowed

theorem place_spec {q : Queue} {offset stop : Nat} {payload : List UInt8} (h : Sound q)
    (hstop : stop ≤ q.len) (hle : offset ≤ stop) (hlen : stop ≤ offset + payload.length) :
    place ihlen q offset stop payload = (q, .refused) ∧
        (∀ i, offset ≤ i → i < stop → Covers q.fragments i) ∨
      ∃ q', place ihlen q offset stop payload = finish ihlen q' ∧
        Placed q q' offset stop payload := by
  obtain ⟨hsplit, hprev, hafter⟩ := findPlace_spec h.laid offset
  unfold place
  generalize findPlace q.fragments offset = parts at *
  obtain ⟨before, after⟩ := parts
  dsimp only at *
  have hlaid := h.laid
  rw [← hsplit, laid_append] at hlaid
  obtain ⟨mid, hbefore, hlater⟩ := hlaid
  -- `start` is behind the predecessor, which begins before `offset`
  obtain ⟨start, hstart, hbefore', hcovered, hzero⟩ : ∃ start,
      max offset ((before.getLast?.map Piece.stop).getD 0) = start ∧ Laid start 0 before ∧
      (∀ i, offset ≤ i → i < start → Covers before i) ∧ (offset = 0 → start = 0) := by
    rcases eq_nil_or_concat' before with rfl | ⟨others, prev, rfl⟩
    · exact ⟨offset, by simp, Nat.zero_le _, fun i hi hlt => by omega, id⟩
    · rw [getLast?_concat] at hprev ⊢
      have hprev' := hprev prev rfl
      obtain ⟨m, hothers, hm, hne, -⟩ := laid_append.mp hbefore
      refine ⟨_, rfl, laid_append.mpr ⟨m, hothers, hm, hne, Nat.le_max_right _ _⟩, ?_, by omega⟩
      intro i hi hlt
      rw [covers_append, covers_cons]
      simp only [Option.map_some, Option.getD_some] at hlt
      exact .inr (.inl (by omega))
  rw [hstart]
  have hge : offset ≤ start := hstart ▸ Nat.le_max_left _ _
  split
  · rename_i hcut
    refine .inl ⟨rfl, fun i hi hlt => ?_⟩
    rw [← hsplit, covers_append]
    exact .inl (hcovered i hi (by omega))
  · rename_i hroom
    obtain ⟨heaten, hcovers, hsize, hholds⟩ := eatNext_spec q.meat hlater hstop
    have hbytes : ((payload.take (stop - offset)).drop (start - offset)).length = stop - start := by
      simp only [length_drop, length_take]
      omega
    have hcover : ∀ i, Covers (before ++ ⟨start, (payload.take (stop - offset)).drop
        (start - offset)⟩ :: (eatNext stop q.meat after).2) i ↔
        Covers q.fragments i ∨ offset ≤ i ∧ i < stop := by
      intro i
      have hin : Covers after i → offset ≤ i := fun ⟨f, hf, hi, _⟩ => (hafter f hf).trans hi
      have hgap := hcovered i
      rw [← hsplit, covers_append, covers_append, covers_cons, hcovers, Piece.stop, hbytes]
      by_cases hi : Covers before i
      · simp [hi]
      · simp only [hi, false_or]
        have hlate : offset ≤ i → start ≤ i := fun h => by_contra fun hlt => hi (hgap h (by omega))
        by_cases hi' : Covers after i
        · simp only [hi', true_and, true_or, iff_true]
          have := hlate (hin hi')
          omega
        · simp only [hi', false_and, or_false, false_or]
          constructor
          · omega
          · intro h
            have := hlate h.1
            omega
    refine .inr ⟨_, rfl, ⟨?_, ?_, fun hin => ?_⟩, rfl, rfl, hcover, fun allowed hq hp => ?_⟩
    · refine laid_append.mpr ⟨start, hbefore', Nat.le_refl start, ?_, ?_⟩
      · rw [← length_pos_iff, hbytes]
        omega
      · rw [Piece.stop, hbytes]
        convert heaten using 1
        simp only
        omega
    · have hmeat := h.meat
      rw [← hsplit] at hmeat
      simp only [size_append, size_cons, hbytes] at hmeat ⊢
      omega
    · simp only [Bool.or_eq_true, decide_eq_true_eq]
      rcases (hcover 0).mp hin with hin | hin
      · exact .inl (h.first hin)
      · exact .inr (hzero (by omega))
    · rw [← hsplit] at hq
      obtain ⟨hqb, hqa⟩ := forall_mem_append.mp hq
      refine forall_mem_append.mpr ⟨hqb, forall_mem_cons.mpr ⟨fun k x hx => ?_, hholds _ hqa⟩⟩
      rw [getElem?_drop, getElem?_take] at hx
      split at hx
      · have := hp _ x hx
        rwa [show offset + (start - offset + k) = start + k by omega] at this
      · cases hx

/-! ## Whatever arrives -/

section Received

variable {ok : Packet → Prop} {q q' : Queue} {p : Packet}

/-- Some fragment has this byte at this position. -/
def Carried (ok : Packet → Prop) (i : Nat) (x : UInt8) : Prop :=
  ∃ p, ok p ∧ p.offset ≤ i ∧ p.payload[i - p.offset]? = some x

/-- The datagram ends where a last fragment does, and has no byte that no fragment has. -/
structure Assembled (ok : Packet → Prop) (d : List UInt8) : Prop where
  length : ∃ p, ok p ∧ p.more = false ∧ p.stop = d.length
  bytes : ∀ i x, d[i]? = some x → Carried ok i x

structure Held (ok : Packet → Prop) (q : Queue) : Prop extends Sound q where
  holds : ∀ f ∈ q.fragments, f.Holds (Carried ok)
  last : q.lastIn = true → ∃ p, ok p ∧ p.more = false ∧ p.stop = q.len

theorem held_empty : Held ok .empty :=
  ⟨sound_empty, forall_mem_nil _, fun h => absurd h Bool.false_ne_true⟩

theorem Sound.lengthen (h : Sound q) {len : Nat} (hlen : q.len ≤ len) (lastIn : Bool) :
    Sound { q with lastIn := lastIn, len := len } :=
  ⟨h.laid.mono hlen, h.meat, h.first⟩

theorem Held.fit (h : Held ok q) (hp : ok p) (hfit : fit q p = some q') :
    Held ok q' ∧ p.stop ≤ q'.len := by
  unfold Ip.fit at hfit
  split at hfit
  · split at hfit
    · rename_i hlong
      split at hfit
      · cases hfit
      · rename_i hlast
        cases hfit
        exact ⟨⟨h.toSound.lengthen hlong.le q.lastIn, h.holds, fun h => absurd h hlast⟩,
          Nat.le_refl _⟩
    · rename_i hshort
      cases hfit
      exact ⟨h, Nat.not_lt.mp hshort⟩
  · rename_i hmore
    split at hfit
    · cases hfit
    · rename_i hends
      cases hfit
      exact ⟨⟨h.toSound.lengthen (by omega) true, h.holds,
        fun _ => ⟨p, hp, by simpa using hmore, rfl⟩⟩, Nat.le_refl _⟩

theorem offset_le_stop (p : Packet) : p.offset ≤ p.stop ∧ p.stop ≤ p.offset + p.payload.length := by
  unfold Packet.stop Packet.offset
  split <;> omega

theorem Held.finish (h : Held ok q) : Held ok (finish ihlen q).1 ∧
    ∀ d ∈ (finish ihlen q).2.out, Assembled ok d := by
  unfold Ip.finish
  split
  · rename_i hfull
    refine ⟨held_empty, fun d hd => ?_⟩
    simp only [ipFragReasm] at hd
    split at hd
    · cases hd
    · obtain rfl := mem_singleton.mp hd
      have hsize : 0 + size q.fragments = q.len := by
        have := h.meat
        omega
      refine ⟨?_, fun i x hx => ?_⟩
      · rw [← size, ← Nat.zero_add (size _), hsize]
        exact h.last hfull.2.1
      · simpa using h.laid.holds_flatMap h.holds hsize hx
  · exact ⟨h, forall_mem_nil _⟩

theorem Held.step (h : Held ok q) (hp : ok p) : Held ok (ipFragQueue ihlen q p).1 ∧
    ∀ d ∈ (ipFragQueue ihlen q p).2.out, Assembled ok d := by
  unfold ipFragQueue
  split
  · exact ⟨h, forall_mem_nil _⟩
  · rename_i q' hfit
    obtain ⟨hq', hstop⟩ := h.fit hp hfit
    obtain ⟨hle, hlen⟩ := offset_le_stop p
    rcases place_spec ihlen hq'.toSound hstop hle hlen with ⟨hplace, -⟩ | ⟨u, hplace, hu⟩
    · rw [hplace]
      exact ⟨hq', forall_mem_nil _⟩
    · rw [hplace]
      have hcarried : Piece.Holds (Carried ok) ⟨p.offset, p.payload⟩ :=
        fun k x hx => ⟨p, hp, Nat.le_add_right _ _, by simpa using hx⟩
      refine Held.finish ihlen ⟨hu.sound, hu.holds _ hq'.holds hcarried, fun hlast => ?_⟩
      rw [hu.len]
      exact hq'.last (hu.lastIn ▸ hlast)

end Received

/-- The datagrams of one key. -/
def receive (q : Queue) : List (Option Packet) → List (List UInt8)
  | [] => []
  | e :: run => (next ihlen q e).2.out ++ receive (next ihlen q e).1 run

def eventsOf (k : Key) (run : List (Key × Option Packet)) : List (Option Packet) :=
  (run.filter (·.1 = k)).map Prod.snd

theorem mem_eventsOf {k : Key} {e : Option Packet} {run : List (Key × Option Packet)} :
    e ∈ eventsOf k run ↔ (k, e) ∈ run := by
  simp [eventsOf]

/-- The fragments of other datagrams do not matter. -/
theorem mem_ipDefrag {k : Key} {d : List UInt8} (run : List (Key × Option Packet))
    (s : Key → Queue) :
    (k, d) ∈ ipDefrag ihlen s run ↔ d ∈ receive ihlen (s k) (eventsOf k run) := by
  induction run generalizing s with
  | nil => simp [ipDefrag, eventsOf, receive]
  | cons e run ih =>
    obtain ⟨c, e⟩ := e
    by_cases hc : c = k
    · subst hc
      simp [ipDefrag, ih, eventsOf, receive]
    · simp [ipDefrag, ih, eventsOf, hc, Ne.symm hc]

theorem receive_assembled {ok : Packet → Prop} (run : List (Option Packet)) {q : Queue}
    (hq : Held ok q) (hok : ∀ p, some p ∈ run → ok p) :
    ∀ d ∈ receive ihlen q run, Assembled ok d := by
  induction run generalizing q with
  | nil => exact forall_mem_nil _
  | cons e run ih =>
    have hrest : ∀ p, some p ∈ run → ok p := fun p hp => hok p (mem_cons_of_mem e hp)
    cases e with
    | none => exact ih held_empty hrest
    | some p =>
      obtain ⟨hheld, hwhole⟩ := hq.step ihlen (hok p mem_cons_self)
      exact forall_mem_append.mpr ⟨hwhole, ih hheld hrest⟩

/-- Whatever fragments of whatever datagrams arrive, overlapping and contradicting each other. -/
theorem datagrams_from_fragments (run : List (Key × Option Packet)) (k : Key) (d : List UInt8)
    (hd : (k, d) ∈ ipDefrag ihlen (fun _ => .empty) run) :
    Assembled (fun p => (k, some p) ∈ run) d :=
  receive_assembled ihlen _ held_empty (fun _ => mem_eventsOf.mp) d
    ((mem_ipDefrag ihlen run _).mp hd)

theorem datagram_from_two_fragments :
    Assembled (fun p => ((), some p) ∈ [((), some ⟨1, false, [9, 9]⟩),
      ((), some ⟨0, true, [1, 2, 3, 4, 5, 6, 7, 8]⟩)]) [1, 2, 3, 4, 5, 6, 7, 8, 9, 9] :=
  datagrams_from_fragments 20 _ () _ (by decide)

/-! ## The fragments of one datagram -/

/-- A fragment of `d` that is not empty, and is marked as the last one if it is. -/
structure Fragment (d : List UInt8) (p : Packet) : Prop where
  slice : p.payload = (d.drop p.offset).take p.payload.length
  nonempty : p.payload ≠ []
  last : p.more = false ↔ p.offset + p.payload.length = d.length

section Filling

variable {d : List UInt8} {p : Packet} {q : Queue} {got : List Packet}

theorem Fragment.stop_le (h : Fragment d p) : p.offset + p.payload.length ≤ d.length := by
  have hpos := length_pos_iff.mpr h.nonempty
  have hlength := congrArg length h.slice
  rw [length_take, length_drop] at hlength
  omega

theorem Assembled.eq (h : Assembled (Fragment d) x) : x = d := by
  obtain ⟨⟨p, hp, hmore, hstop⟩, hbytes⟩ := h
  rw [Packet.stop, hmore, if_neg Bool.false_ne_true, hp.last.mp hmore] at hstop
  refine ext_getElem? fun i => ?_
  cases hi : x[i]? with
  | none => rw [getElem?_eq_none (hstop ▸ getElem?_eq_none_iff.mp hi)]
  | some b =>
    obtain ⟨p, hp, hle, hb⟩ := hbytes i b hi
    rw [hp.slice, getElem?_take, getElem?_drop] at hb
    split at hb
    · rw [← hb, Nat.add_sub_cancel' hle]
    · cases hb

/-- The queue has all that arrived, and not yet everything. -/
structure Filling (d : List UInt8) (got : List Packet) (q : Queue) : Prop extends Sound q where
  len_le : q.len ≤ d.length
  last : q.lastIn = true ↔ q.len = d.length
  missing : ¬q.Complete
  covered : ∀ p ∈ got, ∀ i, p.offset ≤ i → i < p.stop → Covers q.fragments i

theorem Filling.not_covered (h : Filling d got q) (hd : d ≠ []) :
    ¬∀ i < d.length, ∃ p ∈ got, p.offset ≤ i ∧ i < p.stop := by
  intro hall
  have hcovers : ∀ i < d.length, Covers q.fragments i := by
    intro i hi
    obtain ⟨p, hp, hle, hlt⟩ := hall i hi
    exact h.covered p hp i hle hlt
  have hpos := length_pos_iff.mpr hd
  have hend := (h.laid.bounds.2 _ (hcovers (d.length - 1) (by omega))).2
  have hlen : q.len = d.length := Nat.le_antisymm h.len_le (by omega)
  have hfull := h.laid.full_iff.mpr fun i _ hi => hcovers i (hlen ▸ hi)
  have hmeat := h.meat
  exact h.missing ⟨h.first (hcovers 0 hpos), h.last.mpr hlen, by omega⟩

theorem Filling.fit (h : Filling d got q) (hp : Fragment d p) :
    ∃ q', fit q p = some q' ∧ Sound q' ∧ q'.fragments = q.fragments ∧ p.stop ≤ q'.len ∧
      q'.len ≤ d.length ∧ (q'.lastIn = true ↔ q'.len = d.length) ∧
      ((∀ i, p.offset ≤ i → i < p.stop → Covers q.fragments i) → ¬q'.Complete) := by
  have hle := hp.stop_le
  have hstop := (offset_le_stop p).2
  have hlen := h.len_le
  unfold Ip.fit
  cases hmore : p.more with
  | true =>
    have hne : p.offset + p.payload.length ≠ d.length := fun he => by
      simpa [hmore] using hp.last.mpr he
    by_cases hlong : q.len < p.stop
    · have hnot : ¬q.lastIn = true := fun hl => by
        have := h.last.mp hl
        omega
      exact ⟨{ q with len := p.stop }, by simp [hlong, hnot], h.toSound.lengthen hlong.le q.lastIn,
        rfl, Nat.le_refl _, hstop.trans hle, iff_of_false hnot (by show ¬p.stop = _; omega),
        fun _ hfull => hnot hfull.2.1⟩
    · exact ⟨q, by simp [hlong], h.toSound, rfl, Nat.not_lt.mp hlong, hlen, h.last,
        fun _ => h.missing⟩
  | false =>
    have hend : p.stop = d.length := by
      rw [Packet.stop, hmore, if_neg Bool.false_ne_true, hp.last.mp hmore]
    have hpos := length_pos_iff.mpr hp.nonempty
    refine ⟨{ q with lastIn := true, len := p.stop }, ?_, h.toSound.lengthen (by omega) true, rfl,
      Nat.le_refl _, hend.le, iff_of_true rfl hend, fun hcovered hfull => ?_⟩
    · simp only [Bool.false_eq_true, if_false]
      refine if_neg ?_
      rintro (hlt | ⟨hl, hne⟩)
      · omega
      · exact hne (hend.trans (h.last.mp hl).symm)
    · -- its last byte is there already, so it was known to be the last one
      have hin := (h.laid.bounds.2 _ (hcovered (d.length - 1) (by omega) (by omega))).2
      have hsame : q.len = p.stop := by omega
      exact h.missing ⟨hfull.1, h.last.mpr (hsame.trans hend), hsame ▸ hfull.2.2⟩

theorem Filling.step (h : Filling d got q) (hp : Fragment d p) (hsize : ihlen + d.length ≤ 65535) :
    (ipFragQueue ihlen q p).2.out ≠ [] ∨ Filling d (p :: got) (ipFragQueue ihlen q p).1 := by
  obtain ⟨q', hfit, hsound, hsame, hstop, hle, hlast, hmissing⟩ := h.fit hp
  obtain ⟨hoff, hlen⟩ := offset_le_stop p
  rw [ipFragQueue, hfit]
  dsimp only
  have hold : ∀ r ∈ got, ∀ i, r.offset ≤ i → i < r.stop → Covers q'.fragments i := hsame ▸ h.covered
  rcases place_spec ihlen hsound hstop hoff hlen with ⟨hplace, hin⟩ | ⟨u, hplace, hu⟩
  · rw [hplace]
    exact .inr ⟨hsound, hle, hlast, hmissing (hsame ▸ hin), forall_mem_cons.mpr ⟨hin, hold⟩⟩
  · rw [hplace, finish]
    rw [← hu.len] at hle
    split
    · rw [ipFragReasm, if_neg (by omega)]
      exact .inl (cons_ne_nil _ _)
    · rename_i hopen
      refine .inr ⟨hu.sound, hle, hu.len ▸ hu.lastIn ▸ hlast, hopen, ?_⟩
      refine forall_mem_cons.mpr ⟨fun i hi hlt => (hu.covers i).mpr (.inr ⟨hi, hlt⟩), ?_⟩
      exact fun r hr i hi hlt => (hu.covers i).mpr (.inl (hold r hr i hi hlt))

end Filling

theorem receive_ne_nil {d : List UInt8} (hd : d ≠ []) (hsize : ihlen + d.length ≤ 65535)
    (run : List (Option Packet)) {q : Queue} {got : List Packet} (h : Filling d got q)
    (hdrop : none ∉ run) (hfrag : ∀ p, some p ∈ run → Fragment d p)
    (hcover : ∀ i < d.length, ∃ p, (p ∈ got ∨ some p ∈ run) ∧ p.offset ≤ i ∧ i < p.stop) :
    receive ihlen q run ≠ [] := by
  induction run generalizing q got with
  | nil => exact absurd (by simpa using hcover) (h.not_covered hd)
  | cons e run ih =>
    obtain ⟨hne, hdrop'⟩ := not_or.mp (mt mem_cons.mpr hdrop)
    obtain ⟨p, rfl⟩ := Option.ne_none_iff_exists'.mp (Ne.symm hne)
    rcases h.step ihlen (hfrag p mem_cons_self) hsize with hout | hq'
    · exact append_ne_nil_of_left_ne_nil hout _
    · refine append_ne_nil_of_right_ne_nil _ ?_
      refine ih hq' hdrop' (fun r hr => hfrag r (mem_cons_of_mem _ hr)) fun i hi => ?_
      obtain ⟨r, hr, hin⟩ := hcover i hi
      exact ⟨r, by simpa [or_assoc, or_left_comm] using hr, hin⟩

theorem filling_empty {d : List UInt8} (hd : d ≠ []) : Filling d [] .empty :=
  ⟨sound_empty, Nat.zero_le _, iff_of_false Bool.false_ne_true (length_pos_iff.mpr hd).ne,
    fun h => Bool.false_ne_true h.1, forall_mem_nil _⟩

/-- If only fragments of one datagram have a key and they leave no gap, this datagram comes out,
and nothing else does. -/
theorem ipDefrag_of_fragments {d : List UInt8} {k : Key} {run : List (Key × Option Packet)}
    (hd : d ≠ []) (hsize : ihlen + d.length ≤ 65535) (hdrop : (k, none) ∉ run)
    (hfrag : ∀ p, (k, some p) ∈ run → Fragment d p)
    (hcover : ∀ i < d.length, ∃ p, (k, some p) ∈ run ∧ p.offset ≤ i ∧ i < p.stop) :
    (k, d) ∈ ipDefrag ihlen (fun _ => .empty) run ∧
      ∀ x, (k, x) ∈ ipDefrag ihlen (fun _ => .empty) run → x = d := by
  simp only [mem_ipDefrag, ← mem_eventsOf] at *
  have hall : ∀ x ∈ receive ihlen .empty (eventsOf k run), x = d := fun x hx =>
    (receive_assembled ihlen _ held_empty hfrag x hx).eq
  have hsome := receive_ne_nil ihlen hd hsize _ (filling_empty hd) hdrop hfrag
    fun i hi => (hcover i hi).imp fun p hp => ⟨.inr hp.1, hp.2⟩
  obtain ⟨x, hx⟩ := exists_mem_of_ne_nil _ hsome
  exact ⟨hall x hx ▸ hx, hall⟩

/-! ## Fragmentation -/

theorem le_allocSkb_iff (size : Nat) : size ≤ allocSkb size ↔ size ≤ 192 := by
  unfold allocSkb skbDataAlign maxTcpHeader
  omega

inductive Halt where
  | outOfFuel
  | skbOverPanic

def fragmentLen (mtu left : Nat) : Nat :=
  let len := min left mtu
  if len < left then len / 8 * 8 else len

/-- The loop of `ip_fragment`, with `mtu` the room for data.  `skb_put` finds no fragment in the new
`skb2` that could take what does not fit. -/
def fragmentLoop (hlen llRs mtu : Nat) : Nat → Nat → List UInt8 → Except Halt (List Packet)
  | 0, _, left => if left = [] then .ok [] else .error .outOfFuel
  | fuel + 1, offset, left =>
    if left = [] then .ok []
    else
      let len := fragmentLen mtu left.length
      if allocSkb (len + hlen + llRs) < llRs + (len + hlen) then .error .skbOverPanic
      else
        (fragmentLoop hlen llRs mtu fuel (offset + len) (left.drop len)).map
          (⟨offset / 8, 0 < left.length - len, left.take len⟩ :: ·)

def ipFragment (hlen llRs mtu : Nat) (d : List UInt8) : Except Halt (List Packet) :=
  fragmentLoop hlen llRs mtu d.length 0 d

section

variable {hlen llRs mtu : Nat}

theorem fragmentLoop_nil (fuel offset : Nat) :
    fragmentLoop hlen llRs mtu fuel offset [] = .ok [] := by
  cases fuel <;> rfl

theorem fragmentLoop_cons {fuel offset : Nat} {left : List UInt8} (hleft : left ≠ [])
    (hroom : fragmentLen mtu left.length + hlen + llRs ≤ 192) :
    fragmentLoop hlen llRs mtu (fuel + 1) offset left =
      (fragmentLoop hlen llRs mtu fuel (offset + fragmentLen mtu left.length)
        (left.drop (fragmentLen mtu left.length))).map
        (⟨offset / 8, 0 < left.length - fragmentLen mtu left.length,
          left.take (fragmentLen mtu left.length)⟩ :: ·) := by
  have hfits := (le_allocSkb_iff _).mpr hroom
  rw [fragmentLoop, if_neg hleft]
  dsimp only
  rw [if_neg (by omega)]

theorem ipFragment_over {d : List UInt8} (hd : d ≠ [])
    (hover : 192 < fragmentLen mtu d.length + hlen + llRs) :
    ipFragment hlen llRs mtu d = .error .skbOverPanic := by
  obtain ⟨fuel, hfuel⟩ := Nat.exists_eq_succ_of_ne_zero (length_pos_iff.mpr hd).ne'
  have hroom := le_allocSkb_iff (fragmentLen mtu d.length + hlen + llRs)
  unfold ipFragment
  nth_rewrite 1 [hfuel]
  rw [Nat.succ_eq_add_one, fragmentLoop, if_neg hd]
  dsimp only
  rw [if_pos (by omega)]

theorem fragmentLoop_spec (hmtu : 8 ≤ mtu) {d : List UInt8}
    (hroom : min d.length mtu + hlen + llRs ≤ 192) (fuel n : Nat)
    (hle : 8 * n ≤ d.length) (hfuel : d.length - 8 * n ≤ fuel) :
    ∃ ps, fragmentLoop hlen llRs mtu fuel (8 * n) (d.drop (8 * n)) = .ok ps ∧
      (∀ p ∈ ps, Fragment d p ∧ p.payload.length ≤ mtu) ∧
      ∀ i, 8 * n ≤ i → i < d.length → ∃ p ∈ ps, p.offset ≤ i ∧ i < p.stop := by
  by_cases hnil : d.drop (8 * n) = []
  · have := drop_eq_nil_iff.mp hnil
    exact ⟨[], hnil ▸ fragmentLoop_nil fuel _, forall_mem_nil _, by omega⟩
  induction fuel generalizing n with
  | zero => exact absurd (drop_eq_nil_iff.mpr (by omega)) hnil
  | succ fuel ih =>
    have hlength : (d.drop (8 * n)).length = d.length - 8 * n := length_drop
    have hpos := length_pos_iff.mpr hnil
    by_cases hfits : (d.drop (8 * n)).length ≤ mtu
    · -- the rest is the last fragment
      have hrest : fragmentLen mtu (d.drop (8 * n)).length = (d.drop (8 * n)).length := by
        rw [fragmentLen, Nat.min_eq_left hfits, if_neg (Nat.lt_irrefl _)]
      rw [fragmentLoop_cons hnil (by omega), hrest, drop_length, take_length, Nat.sub_self,
        fragmentLoop_nil]
      have hend : 8 * n + (d.drop (8 * n)).length = d.length := by omega
      refine ⟨_, rfl, ?_, fun i hi hlt => ⟨_, mem_singleton_self _, ?_⟩⟩
      · rw [Nat.mul_div_cancel_left n (by decide)]
        simp only [mem_singleton, forall_eq]
        refine ⟨⟨take_length.symm, hnil, ?_⟩, hfits⟩
        simpa [Packet.offset] using hend
      · simp only [Packet.stop, Packet.offset, Nat.mul_div_cancel_left n (by decide : 0 < 8)]
        simp only [Nat.lt_irrefl, decide_false, Bool.false_eq_true, if_false, hend]
        omega
    · -- a multiple of 8 bytes, and there are more
      obtain ⟨m, hm⟩ : ∃ m, mtu / 8 = m := ⟨_, rfl⟩
      have hchunk : fragmentLen mtu (d.drop (8 * n)).length = m * 8 := by
        rw [fragmentLen, Nat.min_eq_right (by omega), if_pos (by omega), hm]
      rw [fragmentLoop_cons hnil (by omega), hchunk, drop_drop,
        show 8 * n + m * 8 = 8 * (n + m) by omega]
      obtain ⟨ps, hps, hfrag, hcover⟩ :=
        ih (n + m) (by omega) (by omega) (by rw [drop_eq_nil_iff]; omega)
      rw [hps, Except.map, Nat.mul_div_cancel_left n (by decide)]
      have hlen : ((d.drop (8 * n)).take (m * 8)).length = m * 8 := by
        rw [length_take]
        omega
      have hmore : decide (0 < (d.drop (8 * n)).length - m * 8) = true := by
        rw [decide_eq_true_eq]
        omega
      refine ⟨_, rfl, forall_mem_cons.mpr ⟨⟨⟨?_, ?_, ?_⟩, ?_⟩, hfrag⟩, fun i hi hlt => ?_⟩
      · simp only [hlen, Packet.offset]
      · rw [← length_pos_iff, hlen]
        omega
      · simp only [hmore, hlen, Packet.offset, Bool.true_eq_false, false_iff]
        omega
      · rw [hlen]
        omega
      · by_cases hin : i < 8 * (n + m)
        · refine ⟨_, mem_cons_self, hi, ?_⟩
          simp only [Packet.stop, hmore, if_true, Packet.offset, hlen]
          omega
        · obtain ⟨p, hp, hin⟩ := hcover i (by omega) hlt
          exact ⟨p, mem_cons_of_mem _ hp, hin⟩

end

/-- The stack stops in `skb_over_panic` if the first fragment takes more than 192 bytes together
with its header and the space for the link layer.  If no fragment can, a datagram that was
fragmented comes out again, in whatever order its fragments arrive, however often each of them does
and whatever else arrives. -/
theorem fragments_reassembled (llRs mtu : Nat) (d : List UInt8) (hmtu : 8 ≤ mtu) (hd : d ≠ [])
    (hsize : ihlen + d.length ≤ 65535) :
    (192 < fragmentLen mtu d.length + ihlen + llRs →
      ipFragment ihlen llRs mtu d = .error .skbOverPanic) ∧
    (min d.length mtu + ihlen + llRs ≤ 192 →
      ∃ ps, ipFragment ihlen llRs mtu d = .ok ps ∧ (∀ p ∈ ps, p.payload.length ≤ mtu) ∧
        ∀ (k : Key) (run : List (Key × Option Packet)), (k, none) ∉ run →
          (∀ p, (k, some p) ∈ run ↔ p ∈ ps) →
          (k, d) ∈ ipDefrag ihlen (fun _ => .empty) run ∧
            ∀ x, (k, x) ∈ ipDefrag ihlen (fun _ => .empty) run → x = d) := by
  refine ⟨ipFragment_over hd, fun hroom => ?_⟩
  obtain ⟨ps, hps, hfrag, hcover⟩ :=
    fragmentLoop_spec hmtu hroom d.length 0 (Nat.zero_le _) (Nat.sub_le _ _)
  refine ⟨ps, hps, fun p hp => (hfrag p hp).2, fun k run hdrop harrives => ?_⟩
  refine ipDefrag_of_fragments ihlen hd hsize hdrop
    (fun p hp => (hfrag p ((harrives p).mp hp)).1) fun i hi => ?_
  obtain ⟨p, hp, hin⟩ := hcover i (Nat.zero_le _) hi
  exact ⟨p, (harrives p).mpr hp, hin⟩

theorem two_fragments_reassembled :
    (((), [1, 2, 3, 4, 5, 6, 7, 8, 9]) ∈ ipDefrag 20 (fun _ => .empty)
      [((), some ⟨1, false, [9]⟩), ((), some ⟨0, true, [1, 2, 3, 4, 5, 6, 7, 8]⟩)]) ∧
    ipFragment 20 16 1480 (replicate 3000 0) = .error .skbOverPanic := by
  refine ⟨?_, (@fragments_reassembled 20 Unit _ 16 1480 (replicate 3000 0) (by decide) ?_ ?_).1 ?_⟩
  · obtain ⟨ps, hps, -, h⟩ := (@fragments_reassembled 20 Unit _ 16 8 [1, 2, 3, 4, 5, 6, 7, 8, 9]
      (by decide) (by decide) (by decide)).2 (by decide)
    have hfragments : ipFragment 20 16 8 [1, 2, 3, 4, 5, 6, 7, 8, 9] =
        .ok [⟨0, true, [1, 2, 3, 4, 5, 6, 7, 8]⟩, ⟨1, false, [9]⟩] := rfl
    obtain rfl := Except.ok.inj (hfragments.symm.trans hps)
    exact (h () _ (by simp) (by simp [or_comm])).1
  · rw [replicate_succ]
    exact cons_ne_nil _ _
  · rw [length_replicate]
    decide
  · rw [length_replicate]
    decide

end LightStack.Ip
