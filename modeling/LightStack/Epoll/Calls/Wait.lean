import LightStack.Epoll.Calls.Frame

/-!
# What `light_epoll_wait` returns

The loop that re-arms events moves the pointer behind which the events of the kernel are copied.
-/

namespace LightStack.Epoll.Calls.Wait

open Function List

/-! ## The model -/

structure KernelEvent where
  events : BitVec 32
  data : BitVec 64
  fifo : Bool
  deriving DecidableEq

def KernelEvent.fd (ev : KernelEvent) : Int := (ev.data.setWidth 32).toInt

inductive Entry where
  | network (info : EventInfo)
  | kernel (ev : KernelEvent)
  deriving DecidableEq

abbrev Output := Nat → Option Entry

def store : List Entry → Nat → Output → Output
  | [], _, out => out
  | entry :: entries, st, out => store entries (st + 1) (update out st (some entry))

def rearmEnd (e : Nat) : Nat → List EventInfo → State → Nat
  | _, [], _ => 0
  | rearms, info :: rest, s =>
    if e ∉ s.nodes info.sockfd ∨ notRearmed s e info = true then rearmEnd e rearms rest s + 1
    else
      match rearms with
      -- `break` comes before `++ st`.
      | 0 => 0
      | rearms + 1 => rearmEnd e rearms rest (rearm e 1 [info] s) + 1

def addKernelEvents (fifos : List Int) (maxevents : Nat) :
    List KernelEvent → Nat → Nat → Output → Nat × Output
  | [], _, counter, out => (counter, out)
  | ev :: rest, st, counter, out =>
    if counter < maxevents then
      if ev.fd ∈ fifos then addKernelEvents fifos maxevents rest st counter out
      else addKernelEvents fifos maxevents rest (st + 1) (counter + 1)
        (update out st (some (.kernel ev)))
    else (counter, out)

structure Round where
  found : State
  rearms : Nat
  fetched : List KernelEvent

def pass (e : Nat) (maxevents : Int) (fifos : List Int) (r : Round) : Nat × Output :=
  let collected := collect r.found e maxevents.toNat
  addKernelEvents fifos maxevents.toNat r.fetched (rearmEnd e r.rearms collected.2 collected.1)
    collected.2.length (store (collected.2.map .network) 0 fun _ => none)

def returns (flag : Bool) (counter : Nat) : Option Int :=
  if (flag ∨ counter ≠ 0) ∧ 1 ≤ counter then some counter else none

def Round.Sleeps (r : Round) (e : Nat) (timeout : Int) : Prop := r.found.queued e = [] ∧ timeout ≠ 0

instance decidableSleeps (r : Round) (e : Nat) (timeout : Int) : Decidable (r.Sleeps e timeout) :=
  inferInstanceAs (Decidable (_ ∧ _))

def passes (e : Nat) (maxevents timeout : Int) (fifos : List Int) : Bool → List Round → Option Int
  | _, [] => none
  | flag, r :: rest =>
    let flag := flag || decide (r.Sleeps e timeout ∧ r.fetched = [])
    (returns flag (pass e maxevents fifos r).1).or (passes e maxevents timeout fifos flag rest)

def lightEpollWait (active : Bool) (e : Nat) (maxevents timeout : Int) (fifos : List Int)
    (rounds : List Round) : Option Int :=
  if active then passes e maxevents timeout fifos false rounds else some (-1)

/-! ## The network events -/

variable {s : State} {e maxevents : Nat}

def live (s : State) (e : Nat) (bit : EventInfo → Bool) (info : EventInfo) : Bool :=
  decide (e ∈ s.nodes info.sockfd) && s.interest e info && bit info && s.eventAvailable info

def arrivals (s : State) (e : Nat) : List EventInfo :=
  ((s.queued e).filter (live s e (s.bit e))).eraseDups

theorem live_update (bit : EventInfo → Bool) (info info' : EventInfo) :
    live s e (update bit info false) info' = (live s e bit info' && !info' == info) := by
  unfold live
  by_cases hinfo : info' = info
  · simp [hinfo]
  · simp [hinfo]

theorem nodup_eraseDups {α : Type*} [DecidableEq α] : ∀ l : List α, l.eraseDups.Nodup
  | [] => by simp
  | a :: l => by
    have hshorter := length_filter_le (fun b => !b == a) l
    rw [eraseDups_cons, nodup_cons]
    exact ⟨by simp [mem_eraseDups], nodup_eraseDups _⟩
termination_by l => l.length
decreasing_by exact Nat.lt_succ_of_le hshorter

theorem drain_stored (ring : List EventInfo) (acc : (EventInfo → Bool) × List EventInfo) :
    (drain s e maxevents ring acc).1.2 =
      acc.2 ++ ((ring.filter (live s e acc.1)).eraseDups).take (maxevents - acc.2.length) := by
  induction ring generalizing acc with
  | nil => simp [drain]
  | cons info rest ih =>
    unfold drain
    split
    · next hroom =>
      rw [ih, takeEvent]
      split
      · next hnode =>
        dsimp only
        by_cases hlive : live s e acc.1 info = true
        · rw [if_pos (by simpa [live, hnode, and_assoc] using hlive), filter_cons_of_pos hlive,
            eraseDups_cons, show maxevents - acc.2.length =
              (maxevents - (acc.2 ++ [info]).length) + 1 by simp; omega, take_succ_cons,
            filter_filter, funext (live_update acc.1 info)]
          simp [Bool.and_comm]
        · have hsame : live s e (update acc.1 info false) = live s e acc.1 := by
            funext info'
            by_cases hinfo : info' = info
            · rw [live_update, hinfo, Bool.eq_false_of_not_eq_true hlive, Bool.false_and]
            · simp [live, hinfo]
          rw [if_neg (by simpa [live, hnode, and_assoc] using hlive),
            filter_cons_of_neg hlive, hsame]
      · next hnode =>
        rw [filter_cons_of_neg (by simp [live, hnode])]
    · next hfull =>
      rw [Nat.sub_eq_zero_of_le (Nat.le_of_not_lt hfull)]
      simp

theorem drain_append (ring more : List EventInfo) (acc : (EventInfo → Bool) × List EventInfo) :
    (drain s e maxevents more (drain s e maxevents ring acc).1).1 =
      (drain s e maxevents (ring ++ more) acc).1 := by
  induction ring generalizing acc with
  | nil => rfl
  | cons info rest ih =>
    rw [cons_append, drain, drain]
    split
    · exact ih _
    · next hfull => cases more with
      | nil => rfl
      | cons info' more => rw [drain, if_neg hfull]

theorem collect_stored (s : State) (e maxevents : Nat) :
    (collect s e maxevents).2 = (arrivals s e).take maxevents := by
  have happend := @drain_append s e maxevents (s.shadowConnections e) (s.readyConnections e)
    (s.bit e, [])
  have hstored := @drain_stored s e maxevents (s.queued e) (s.bit e, [])
  rwa [State.queued, ← happend] at hstored

theorem drain_bit {ring : List EventInfo} {acc : (EventInfo → Bool) × List EventInfo}
    (h : ∀ info ∈ acc.2, acc.1 info = false) :
    ∀ info ∈ (drain s e maxevents ring acc).1.2,
      (drain s e maxevents ring acc).1.1 info = false := by
  induction ring generalizing acc with
  | nil => exact h
  | cons info rest ih =>
    unfold drain
    split
    · refine ih ?_
      unfold takeEvent
      split
      · intro other hother
        by_cases hinfo : other = info
        · simp [hinfo]
        · dsimp only at hother ⊢
          rw [update_of_ne hinfo]
          refine h other ?_
          split at hother
          · exact (mem_append.mp hother).resolve_right (by simpa using hinfo)
          · exact hother
      · exact h
    · exact h

theorem collect_bit {info : EventInfo} (h : info ∈ (collect s e maxevents).2) :
    (collect s e maxevents).1.bit e info = false := by
  rw [bit_collect]
  exact drain_bit (drain_bit (by simp)) info h

def level (s : State) (e : Nat) (info : EventInfo) : Bool :=
  !(s.edgeTriggered e info.sockfd || decide (info.event = .epollhup) ||
    decide (info.event = .epollerr))

theorem rearmEnd_le (e rearms : Nat) (infos : List EventInfo) (s : State) :
    rearmEnd e rearms infos s ≤ infos.length := by
  induction infos generalizing rearms s with
  | nil => exact le_rfl
  | cons info rest ih =>
    unfold rearmEnd
    split
    · exact Nat.succ_le_succ (ih rearms s)
    · cases rearms with
      | zero => exact Nat.zero_le _
      | succ rearms => exact Nat.succ_le_succ (ih rearms _)

theorem rearmEnd_eq_length_iff {infos : List EventInfo} (hnodup : infos.Nodup)
    (hfresh : ∀ info ∈ infos, e ∈ s.nodes info.sockfd ∧ s.bit e info = false) (rearms : Nat) :
    rearmEnd e rearms infos s = infos.length ↔ (infos.filter (level s e)).length ≤ rearms := by
  induction infos generalizing rearms s with
  | nil => simp [rearmEnd]
  | cons info rest ih =>
    obtain ⟨hnot, hrest⟩ := nodup_cons.mp hnodup
    obtain ⟨⟨hnode, hbit⟩, htail⟩ := forall_mem_cons.mp hfresh
    unfold rearmEnd
    by_cases hlevel : level s e info = true
    · have hrearmed : notRearmed s e info = false := by
        simpa [level, notRearmed, hbit, and_assoc] using hlevel
      rw [if_neg (by simp [hnode, hrearmed]), filter_cons_of_pos hlevel]
      cases rearms with
      | zero => simp
      | succ rearms =>
        have hnext : rearm e 1 [info] s = State.setBit { s with
            shadowConnections := update s.shadowConnections e (s.shadowConnections e ++ [info]) }
            e info true := by
          simp [rearm, hnode, hrearmed]
        dsimp only
        rw [hnext, length_cons, length_cons, Nat.succ_le_succ_iff,
          Nat.add_right_cancel_iff]
        refine ih hrest (fun other hother => ?_) rearms
        have hne : other ≠ info := fun heq => hnot (heq ▸ hother)
        simpa [State.setBit, hne] using htail other hother
    · have hskipped : notRearmed s e info = true := by
        simpa [level, notRearmed, hbit, or_iff_not_imp_left] using hlevel
      rw [if_pos (.inr hskipped),
        filter_cons_of_neg hlevel, length_cons, Nat.add_right_cancel_iff]
      exact ih hrest htail rearms

theorem rearms_all_iff (rearms : Nat) :
    rearmEnd e rearms (collect s e maxevents).2 (collect s e maxevents).1 =
        (collect s e maxevents).2.length ↔
      (((arrivals s e).take maxevents).filter (level s e)).length ≤ rearms := by
  rw [← collect_stored]
  refine rearmEnd_eq_length_iff (s := (collect s e maxevents).1) ?_ (fun info hinfo => ?_) rearms
  · rw [collect_stored]
    exact (nodup_eraseDups _).sublist (take_sublist _ _)
  · exact ⟨(bit_of_stored hinfo).1, collect_bit hinfo⟩

theorem store_apply (entries : List Entry) (st : Nat) (out : Output) (i : Nat) :
    store entries st out i =
      if st ≤ i ∧ i < st + entries.length then entries[i - st]? else out i := by
  induction entries generalizing st out with
  | nil => rw [if_neg (by simp)]; rfl
  | cons entry entries ih =>
    rw [store, ih, length_cons]
    by_cases hi : i = st
    · subst hi
      rw [if_neg (by omega), if_pos (by omega), update_self, Nat.sub_self, List.getElem?_cons_zero]
    · rw [update_of_ne hi]
      by_cases hin : st + 1 ≤ i ∧ i < st + 1 + entries.length
      · rw [if_pos hin, if_pos (by omega), show i - st = (i - (st + 1)) + 1 by omega,
          List.getElem?_cons_succ]
      · rw [if_neg hin, if_neg (by omega)]

theorem addKernelEvents_eq (fifos : List Int) (maxevents : Nat) (events : List KernelEvent)
    (st counter : Nat) (out : Output) :
    addKernelEvents fifos maxevents events st counter out =
      let copied := (events.filter (·.fd ∉ fifos)).take (maxevents - counter)
      (counter + copied.length, store (copied.map .kernel) st out) := by
  induction events generalizing st counter out with
  | nil => simp [addKernelEvents, store]
  | cons ev rest ih =>
    unfold addKernelEvents
    split
    · next hroom =>
      split
      · next hfifo => rw [ih, filter_cons_of_neg (by simpa using hfifo)]
      · next hown =>
        rw [ih, filter_cons_of_pos (by simpa using hown), show maxevents - counter =
          (maxevents - (counter + 1)) + 1 by omega, take_succ_cons]
        simp [store, Nat.add_assoc, Nat.add_comm]
    · next hfull => simp [Nat.sub_eq_zero_of_le (Nat.le_of_not_lt hfull), store]

/-! ## A pass -/

def stored (e : Nat) (maxevents : Int) (r : Round) : List EventInfo :=
  (arrivals r.found e).take maxevents.toNat

def foreign (fifos : List Int) (fetched : List KernelEvent) : List KernelEvent :=
  fetched.filter (·.fd ∉ fifos)

def copied (e : Nat) (maxevents : Int) (fifos : List Int) (r : Round) : List KernelEvent :=
  (foreign fifos r.fetched).take (maxevents.toNat - (stored e maxevents r).length)

def start (e : Nat) (maxevents : Int) (r : Round) : Nat :=
  rearmEnd e r.rearms (stored e maxevents r) (collect r.found e maxevents.toNat).1

section Pass

variable {maxevents : Int} {fifos : List Int} {r : Round}

theorem pass_counter : (pass e maxevents fifos r).1 =
    (stored e maxevents r).length + (copied e maxevents fifos r).length := by
  simp only [pass, addKernelEvents_eq, collect_stored]
  rfl

theorem pass_output (i : Nat) : (pass e maxevents fifos r).2 i =
    if start e maxevents r ≤ i ∧ i < start e maxevents r + (copied e maxevents fifos r).length then
      ((copied e maxevents fifos r)[i - start e maxevents r]?).map .kernel
    else (stored e maxevents r)[i]?.map .network := by
  simp only [pass, addKernelEvents_eq, collect_stored, store_apply, length_map,
    List.getElem?_map, Nat.zero_le, true_and, Nat.zero_add, Nat.sub_zero]
  refine if_congr Iff.rfl rfl ?_
  split
  · rfl
  · next hout => rw [stored, List.getElem?_eq_none (Nat.le_of_not_lt hout)]; rfl

theorem start_le : start e maxevents r ≤ (stored e maxevents r).length := rearmEnd_le _ _ _ _

theorem start_eq_iff : start e maxevents r = (stored e maxevents r).length ↔
    ((stored e maxevents r).filter (level r.found e)).length ≤ r.rearms := by
  have h := @rearms_all_iff r.found e maxevents.toNat r.rearms
  rwa [collect_stored] at h

theorem length_stored :
    (stored e maxevents r).length = min maxevents.toNat (arrivals r.found e).length :=
  length_take

theorem length_copied : (copied e maxevents fifos r).length =
    min (maxevents.toNat - (stored e maxevents r).length) (foreign fifos r.fetched).length :=
  length_take

def Delivers (e : Nat) (maxevents : Int) (fifos : List Int) (flag : Bool) (r : Round) : Prop :=
  ∃ k : Nat, returns flag (pass e maxevents fifos r).1 = some (k : Int) ∧ (k : Int) ≤ maxevents ∧
    (∃ kernel : List KernelEvent, kernel.Sublist r.fetched ∧
      (collect r.found e maxevents.toNat).2.length + kernel.length = k ∧
      ∀ i < k, (pass e maxevents fifos r).2 i =
        ((collect r.found e maxevents.toNat).2.map .network ++ kernel.map .kernel)[i]?) ∧
    ∀ i : Nat, maxevents ≤ i → (pass e maxevents fifos r).2 i = none

theorem returns_eq_some_iff {flag : Bool} {counter : Nat} {k : Int} :
    returns flag counter = some k ↔ 1 ≤ counter ∧ k = counter := by
  unfold returns
  split
  · next h => simp [h.2, eq_comm]
  · next h =>
    refine iff_of_false (by simp) fun hk => h ⟨.inr (by omega), hk.1⟩

/-- The array is right exactly when there is something to return and the kernel's events begin
behind the network events. -/
theorem wait_output_ordered (e : Nat) (maxevents : Int) (fifos : List Int) (flag : Bool)
    (r : Round) :
    Delivers e maxevents fifos flag r ↔
      0 < maxevents ∧ (arrivals r.found e ≠ [] ∨ foreign fifos r.fetched ≠ []) ∧
        ((((arrivals r.found e).take maxevents.toNat).filter (level r.found e)).length ≤ r.rearms ∨
          foreign fifos r.fetched = [] ∨ maxevents ≤ (arrivals r.found e).length) := by
  have hstart := @start_le e maxevents r
  have hstored := @length_stored e maxevents r
  have hcopied := @length_copied e maxevents fifos r
  rw [← length_pos_iff, ← length_pos_iff, ← length_eq_zero_iff,
    show (arrivals r.found e).take maxevents.toNat = stored e maxevents r from rfl, ← start_eq_iff]
  unfold Delivers
  simp only [returns_eq_some_iff, pass_counter, collect_stored]
  change (∃ k : Nat, _ ∧ _ ∧ (∃ kernel : List KernelEvent, _ ∧
    (stored e maxevents r).length + kernel.length = k ∧ ∀ i < k, _ =
      ((stored e maxevents r).map Entry.network ++ kernel.map Entry.kernel)[i]?) ∧ _) ↔ _
  constructor
  · rintro ⟨k, ⟨hsome, hk⟩, hmax, ⟨kernel, -, hlen, hentries⟩, -⟩
    refine ⟨by omega, by omega, ?_⟩
    by_contra hearly
    -- The first event of the kernel stands where a network event should be.
    have hentry := hentries (start e maxevents r) (by omega)
    rw [pass_output, if_pos (by omega), Nat.sub_self,
      List.getElem?_append_left (by rw [length_map]; omega)] at hentry
    rw [List.getElem?_eq_getElem (by omega),
      List.getElem?_eq_getElem (by rw [length_map]; omega)] at hentry
    simp at hentry
  · rintro ⟨hpos, hsome, hroom⟩
    refine ⟨_, ⟨by omega, rfl⟩, by omega, ⟨copied e maxevents fifos r, ?_, rfl, fun i hi => ?_⟩,
      fun i hi => ?_⟩
    · exact (take_sublist _ _).trans filter_sublist
    · have hbehind : start e maxevents r = (stored e maxevents r).length ∨
          (copied e maxevents fifos r).length = 0 := by omega
      rw [pass_output]
      by_cases hfront : i < (stored e maxevents r).length
      · rw [if_neg (by omega), List.getElem?_append_left (by rwa [length_map]),
          List.getElem?_map]
      · rw [if_pos (by omega), List.getElem?_append_right (by rw [length_map]; omega),
          List.getElem?_map, length_map,
          show start e maxevents r = (stored e maxevents r).length by omega]
    · rw [pass_output, if_neg (by omega), List.getElem?_eq_none (by omega)]
      rfl

def oneReady : State where
  numProcs := 1
  nodes := fun i => if i = 1 then [0] else []
  multicore := fun _ => false
  copies := fun i _ => i
  rx := fun i => if i = 1 then 1 else 0
  leftover := fun _ => false
  buffer := fun _ => false
  interest := fun _ info => decide (info.event = .epollin)
  edgeTriggered := fun _ _ => false
  bit := fun _ _ => true
  active := fun _ => true
  readyConnections := fun _ => [⟨1, .epollin⟩]
  shadowConnections := fun _ => []
  roundRobin := fun _ => 0

theorem file_event_overwrites_network_event :
    let ev : KernelEvent := ⟨1, 7, false⟩
    let result := pass 0 2 [] ⟨oneReady, 0, [ev]⟩
    (result.1 = 2 ∧ result.2 0 = some (.kernel ev) ∧ result.2 1 = none) ∧
      ¬ Delivers 0 2 [] false ⟨oneReady, 0, [ev]⟩ := by
  refine ⟨by decide, ?_⟩
  rintro ⟨k, hk, -, ⟨kernel, -, -, hentries⟩, -⟩
  obtain ⟨hsome, hcounter⟩ := returns_eq_some_iff.mp hk
  have hentry := hentries 0 (by omega)
  rw [List.getElem?_append_left (by decide)] at hentry
  revert hentry
  decide

def Round.users (r : Round) : List KernelEvent := r.fetched.filter fun ev => !ev.fifo

theorem foreign_fetched (hfifo : ∀ ev ∈ r.fetched, ev.fifo = true → ev.fd ∈ fifos) :
    foreign fifos r.fetched = foreign fifos r.users := by
  rw [foreign, foreign, Round.users, filter_filter]
  refine filter_congr fun ev hev => ?_
  cases hmark : ev.fifo with
  | true => simp [hfifo ev hev hmark]
  | false => simp

def Transparent (e : Nat) (maxevents : Int) (fifos : List Int) (r : Round) : Prop :=
  ∃ place : Fin r.users.length → Nat, Injective place ∧
    ∀ j, place j < (pass e maxevents fifos r).1 ∧
      (pass e maxevents fifos r).2 (place j) = some (.kernel (r.users.get j))

theorem kernel_entry_between {i : Nat} {ev : KernelEvent}
    (h : (pass e maxevents fifos r).2 i = some (.kernel ev)) :
    start e maxevents r ≤ i ∧ i < start e maxevents r + (copied e maxevents fifos r).length := by
  by_contra hout
  rw [pass_output, if_neg hout] at h
  simp at h

theorem transparent_iff (hfifo : ∀ ev ∈ r.fetched, ev.fifo = true → ev.fd ∈ fifos) :
    Transparent e maxevents fifos r ↔ (copied e maxevents fifos r).length = r.users.length := by
  have hstart := @start_le e maxevents r
  have hcopied := @length_copied e maxevents fifos r
  have hfewer := length_filter_le (fun ev => decide (ev.fd ∉ fifos)) r.users
  rw [foreign_fetched hfifo] at hcopied
  constructor
  · rintro ⟨place, hinj, hplace⟩
    have hbetween j := kernel_entry_between (hplace j).2
    let slot (j : Fin r.users.length) : Fin (copied e maxevents fifos r).length :=
      ⟨place j - start e maxevents r, by have := hbetween j; omega⟩
    have hslot : Injective slot := by
      intro i j hij
      have hval : place i - start e maxevents r = place j - start e maxevents r :=
        congrArg Fin.val hij
      have hi := hbetween i
      have hj := hbetween j
      exact hinj (by omega)
    have hcard := Fintype.card_le_of_injective slot hslot
    rw [Fintype.card_fin, Fintype.card_fin] at hcard
    have hle : (foreign fifos r.users).length ≤ r.users.length := hfewer
    omega
  · intro hlen
    have hsame : copied e maxevents fifos r = r.users := by
      refine List.Sublist.eq_of_length ?_ hlen
      rw [copied, foreign_fetched hfifo]
      exact (take_sublist _ _).trans filter_sublist
    refine ⟨fun j => start e maxevents r + j, fun i j hij => Fin.ext (by simpa using hij),
      fun j => ?_⟩
    rw [pass_counter, pass_output, hsame, if_pos (by dsimp only; omega)]
    exact ⟨by dsimp only; omega, by simp⟩

/-- All events of the kernel are returned exactly when none has a fifo in `data.fd` and they fit
behind the network events. -/
theorem kernel_events_returned (e : Nat) (maxevents : Int) (fifos : List Int) (r : Round)
    (hfifo : ∀ ev ∈ r.fetched, ev.fifo = true → ev.fd ∈ fifos) :
    Transparent e maxevents fifos r ↔
      (∀ ev ∈ r.users, ev.fd ∉ fifos) ∧
        (r.users = [] ∨ ((arrivals r.found e).length + r.users.length : Int) ≤ maxevents) := by
  have hfewer := length_filter_le (fun ev => decide (ev.fd ∉ fifos)) r.users
  have hall : (∀ ev ∈ r.users, ev.fd ∉ fifos) ↔
      (foreign fifos r.users).length = r.users.length := by
    simp [foreign, length_filter_eq_length_iff]
  rw [transparent_iff hfifo, hall, ← length_eq_zero_iff, length_copied, length_stored,
    foreign_fetched hfifo]
  change (foreign fifos r.users).length ≤ _ at hfewer
  omega

theorem kernel_event_returned_behind_network_event :
    Transparent 0 2 [5] ⟨oneReady, 1, [⟨1, 5, true⟩, ⟨1, 7, false⟩]⟩ :=
  (kernel_events_returned 0 2 [5] ⟨oneReady, 1, [⟨1, 5, true⟩, ⟨1, 7, false⟩]⟩
    (by decide)).mpr ⟨by decide, .inr (by decide)⟩

def noneReady : State := { oneReady with readyConnections := fun _ => [] }

theorem kernel_event_swallowed : (pass 0 2 [5] ⟨noneReady, 0, [⟨1, 5, false⟩]⟩).1 = 0 ∧
      ¬ Transparent 0 2 [5] ⟨noneReady, 0, [⟨1, 5, false⟩]⟩ ∧
      ¬ Transparent 0 1 [5] ⟨oneReady, 1, [⟨1, 7, false⟩]⟩ := by
  refine ⟨by decide, ?_, ?_⟩
  · rintro ⟨place, -, hplace⟩
    have hplaced := kernel_entry_between (hplace ⟨0, by decide⟩).2
    have hcopied : (copied 0 2 [5] ⟨noneReady, 0, [⟨1, 5, false⟩]⟩).length = 0 := by decide
    omega
  · rintro ⟨place, -, hplace⟩
    have hplaced := kernel_entry_between (hplace ⟨0, by decide⟩).2
    have hcopied : (copied 0 1 [5] ⟨oneReady, 1, [⟨1, 7, false⟩]⟩).length = 0 := by decide
    omega

end Pass

def Quiet (e : Nat) (fifos : List Int) (r : Round) : Prop :=
  arrivals r.found e = [] ∧ ∀ ev ∈ r.fetched, ev.fifo = true ∧ ev.fd ∈ fifos

def Expired (e : Nat) (timeout : Int) (r : Round) : Prop :=
  (r.Sleeps e timeout ∨ timeout = 0) ∧ r.fetched = []

theorem pass_counter_eq_zero {maxevents : Int} {fifos : List Int} {r : Round}
    (h : maxevents ≤ 0 ∨ Quiet e fifos r) : (pass e maxevents fifos r).1 = 0 := by
  rw [pass_counter, length_copied, length_stored]
  obtain hmax | ⟨hnone, hfifo⟩ := h
  · omega
  · have hforeign : foreign fifos r.fetched = [] :=
      filter_eq_nil_iff.mpr fun ev hev => by simpa using (hfifo ev hev).2
    simp [hnone, hforeign]

theorem passes_eq_none {maxevents : Int} {fifos : List Int} (timeout : Int) {rounds : List Round}
    (h : ∀ r ∈ rounds, maxevents ≤ 0 ∨ Quiet e fifos r) (flag : Bool) :
    passes e maxevents timeout fifos flag rounds = none := by
  induction rounds generalizing flag with
  | nil => rfl
  | cons r rest ih =>
    obtain ⟨hfirst, hrest⟩ := forall_mem_cons.mp h
    simp [passes, pass_counter_eq_zero hfirst, returns, ih hrest]

def Answers (active : Bool) (e : Nat) (maxevents timeout : Int) (fifos : List Int)
    (rounds : List Round) : Prop :=
  (0 < maxevents → 0 ≤ timeout → (∀ r ∈ rounds, Quiet e fifos r) →
    (∃ r ∈ rounds, Expired e timeout r) →
      lightEpollWait active e maxevents timeout fifos rounds = some 0) ∧
  (maxevents ≤ 0 → lightEpollWait active e maxevents timeout fifos [] = some (-1))

/-- A call never returns 0, and refuses an array without entries for an inactive epoll only. -/
theorem wait_answers_iff (active : Bool) (e : Nat) (maxevents timeout : Int) (fifos : List Int)
    (rounds : List Round) :
    (Answers active e maxevents timeout fifos rounds ↔
      if 0 < maxevents then
        ¬ (0 ≤ timeout ∧ (∀ r ∈ rounds, Quiet e fifos r) ∧ ∃ r ∈ rounds, Expired e timeout r)
      else active = false) ∧
    (active = true → (∀ r ∈ rounds, maxevents ≤ 0 ∨ Quiet e fifos r) →
      lightEpollWait active e maxevents timeout fifos rounds = none) := by
  have hwaits : active = true → (∀ r ∈ rounds, maxevents ≤ 0 ∨ Quiet e fifos r) →
      lightEpollWait active e maxevents timeout fifos rounds = none := by
    rintro rfl hrounds
    exact passes_eq_none timeout hrounds false
  refine ⟨?_, hwaits⟩
  unfold Answers
  split
  · next hpos =>
    rw [and_iff_left (fun hneg => absurd hpos (not_lt.mpr hneg))]
    constructor
    · rintro h ⟨htimeout, hquiet, hexpired⟩
      have hzero := h hpos htimeout hquiet hexpired
      cases active with
      | false => cases hzero
      | true => rw [hwaits rfl fun r hr => .inr (hquiet r hr)] at hzero; cases hzero
    · intro h _ htimeout hquiet hexpired
      exact absurd ⟨htimeout, hquiet, hexpired⟩ h
  · next hneg =>
    rw [and_iff_right (fun hpos => absurd hpos hneg), forall_prop_of_true (not_lt.mp hneg)]
    cases active with
    | false => simp [lightEpollWait]
    | true => simp [lightEpollWait, passes]

theorem wait_goes_on : Expired 0 1000 ⟨noneReady, 1, []⟩ ∧
      lightEpollWait true 0 4 1000 [5] [⟨noneReady, 1, []⟩] = none ∧
      lightEpollWait true 0 0 1000 [5] [⟨oneReady, 1, [⟨1, 7, false⟩]⟩] = none ∧
      ¬ Answers true 0 4 1000 [5] [⟨noneReady, 1, []⟩] := by
  have hexpired : Expired 0 1000 ⟨noneReady, 1, []⟩ := ⟨.inl ⟨rfl, by decide⟩, rfl⟩
  have hquiet : Quiet 0 [5] ⟨noneReady, 1, []⟩ := ⟨by decide, by decide⟩
  have hnone : lightEpollWait true 0 4 1000 [5] [⟨noneReady, 1, []⟩] = none := by decide
  refine ⟨hexpired, hnone, by decide, fun h => ?_⟩
  have hzero := h.1 (by decide) (by decide) (by simpa using hquiet) ⟨_, by simp, hexpired⟩
  rw [hnone] at hzero
  cases hzero

end LightStack.Epoll.Calls.Wait
