import LightStack.Epoll.Calls.Model

/-!
# What the calls on an epoll change

`Grows` says that events were queued and bits set, and nothing else.
-/

namespace LightStack.Epoll.Calls

open Function List

variable {s t u : State} {e maxevents : Nat}

structure Grows (P : EventInfo → Prop) (s t : State) : Prop where
  nodes : t.nodes = s.nodes
  multicore : t.multicore = s.multicore
  rx : t.rx = s.rx
  leftover : t.leftover = s.leftover
  interest : t.interest = s.interest
  edgeTriggered : t.edgeTriggered = s.edgeTriggered
  active : t.active = s.active
  bit : ∀ e info, s.bit e info = true → t.bit e info = true
  queued : ∀ e info, info ∈ s.queued e → info ∈ t.queued e
  new : ∀ e info, t.bit e info = true → s.bit e info = true ∨ (P info ∧ info ∈ t.queued e)

namespace Grows

variable {P Q : EventInfo → Prop}

theorem refl (P : EventInfo → Prop) (s : State) : Grows P s s :=
  ⟨rfl, rfl, rfl, rfl, rfl, rfl, rfl, fun _ _ h => h, fun _ _ h => h, fun _ _ h => .inl h⟩

theorem trans (h : Grows P s t) (h' : Grows P t u) : Grows P s u where
  nodes := h'.nodes.trans h.nodes
  multicore := h'.multicore.trans h.multicore
  rx := h'.rx.trans h.rx
  leftover := h'.leftover.trans h.leftover
  interest := h'.interest.trans h.interest
  edgeTriggered := h'.edgeTriggered.trans h.edgeTriggered
  active := h'.active.trans h.active
  bit := fun e info hbit => h'.bit e info (h.bit e info hbit)
  queued := fun e info hin => h'.queued e info (h.queued e info hin)
  new := by
    intro e info hbit
    obtain hold | hnew := h'.new e info hbit
    · obtain hold | ⟨hP, hin⟩ := h.new e info hold
      · exact .inl hold
      · exact .inr ⟨hP, h'.queued e info hin⟩
    · exact .inr hnew

theorem mono (h : Grows P s t) (hPQ : ∀ info, P info → Q info) : Grows Q s t :=
  { h with
    new := fun e info hbit => (h.new e info hbit).imp id fun ⟨hP, hin⟩ => ⟨hPQ info hP, hin⟩ }

end Grows

variable {info' : EventInfo} {e' : Nat}

variable {info : EventInfo}

theorem bit_setBit {e : Nat} {b : Bool} : (s.setBit e info b).bit e' info' =
      if e' = e ∧ info' = info then b else s.bit e' info' := by
  unfold State.setBit
  by_cases he : e' = e
  · subst he
    by_cases hinfo : info' = info <;> simp [hinfo]
  · simp [he]

theorem Grows.of_append (hnodes : t.nodes = s.nodes) (hmulticore : t.multicore = s.multicore)
    (hrx : t.rx = s.rx) (hleftover : t.leftover = s.leftover) (hinterest : t.interest = s.interest)
    (hedge : t.edgeTriggered = s.edgeTriggered) (hactive : t.active = s.active)
    (hbit : t.bit = s.bit) (hqueued : ∀ e' info', info' ∈ s.queued e' → info' ∈ t.queued e')
    (hin : info ∈ t.queued e) :
    Grows (fun info' => info' = info) s (t.setBit e info true) where
  nodes := hnodes
  multicore := hmulticore
  rx := hrx
  leftover := hleftover
  interest := hinterest
  edgeTriggered := hedge
  active := hactive
  bit := by
    intro e' info' h
    rw [bit_setBit]
    split
    · rfl
    · rwa [hbit]
  queued := hqueued
  new := by
    intro e' info' h
    rw [bit_setBit] at h
    split at h
    · next hsame =>
      obtain ⟨rfl, rfl⟩ := hsame
      exact .inr ⟨rfl, hin⟩
    · rw [hbit] at h
      exact .inl h

theorem mem_queued_shadow (h : info' ∈ s.queued e') :
    info' ∈ State.queued { s with
      shadowConnections := update s.shadowConnections e (s.shadowConnections e ++ [info]) } e' := by
  unfold State.queued at h ⊢
  by_cases he : e' = e
  · subst he
    simp only [update_self, append_assoc, mem_append] at h ⊢
    exact h.imp id .inr
  · simpa [he] using h

theorem grows_shadow (s : State) (e : Nat) (info : EventInfo) :
    Grows (fun info' => info' = info) s (State.setBit { s with
      shadowConnections :=
        update s.shadowConnections e (s.shadowConnections e ++ [info]) } e info true) :=
  Grows.of_append rfl rfl rfl rfl rfl rfl rfl rfl (fun _ _ h => mem_queued_shadow h)
    (by simp [State.queued])

/-! ## The stack -/

theorem grows_countRound (P : EventInfo → Prop) (s : State) (k : Nat) (j : Sock) :
    Grows P s (countRound s k j) := by
  unfold countRound
  split
  · exact ⟨rfl, rfl, rfl, rfl, rfl, rfl, rfl, fun _ _ h => h, fun _ _ h => h, fun _ _ h => .inl h⟩
  · exact Grows.refl P s

theorem mem_queued_ready (h : info' ∈ s.queued e') : info' ∈ (queueReady s e info).queued e' := by
  unfold State.queued queueReady at *
  by_cases he : e' = e
  · subst he
    simp only [update_self, mem_append] at h ⊢
    exact h.imp id .inl
  · simpa [he] using h

theorem grows_ready (s : State) (e : Nat) (info : EventInfo) :
    Grows (fun info' => info' = info) s ((queueReady s e info).setBit e info true) :=
  Grows.of_append rfl rfl rfl rfl rfl rfl rfl rfl (fun _ _ h => mem_queued_ready h)
    (by simp [State.queued, queueReady])

theorem grows_addEpollEventToQueue (s : State) (k : Nat) (i : Sock) (event : Event) (room : Bool) :
    Grows (fun info => info = ⟨s.resolve k i, event⟩) s
      (addEpollEventToQueue s k i event room).1 := by
  have hcount := grows_countRound (fun info => info = ⟨s.resolve k i, event⟩) s k (s.resolve k i)
  unfold addEpollEventToQueue
  dsimp only
  split
  · exact hcount
  · split
    · exact hcount.trans (grows_ready _ _ _)
    · exact hcount

theorem bit_addEpollEventToQueue (s : State) (k : Nat) (i : Sock) (event : Event)
    (hnodes : s.nodes (s.resolve k i) = [e])
    (hinterest : s.interest e ⟨s.resolve k i, event⟩ = true) :
    (addEpollEventToQueue s k i event true).1.bit e ⟨s.resolve k i, event⟩ = true := by
  have hselected : selected s k (s.resolve k i) = some e := by simp [selected, hnodes, position]
  simp [addEpollEventToQueue, hselected, hinterest, bit_setBit]

theorem grows_addEpollEventToShadow (s : State) (e : Nat) (info : EventInfo) (room : Bool) :
    Grows (fun info' => info' = info) s (addEpollEventToShadow s e info room) := by
  unfold addEpollEventToShadow
  split
  · exact grows_shadow s e info
  · exact Grows.refl _ s

theorem grows_queueIfReady (s : State) (e : Nat) (info : EventInfo) (room : Bool) :
    Grows (fun info' => info' = info) s (queueIfReady s e info room) := by
  unfold queueIfReady
  split
  · exact grows_addEpollEventToShadow s e info room
  · exact Grows.refl _ s

def Transfer (info : EventInfo) : Prop := info.event = .epollin ∨ info.event = .epollout

theorem grows_queueAvailable (s : State) (e : Nat) (j : Sock) (room : Event → Bool) :
    Grows Transfer s (queueAvailable s e j room) := by
  have hin : Grows Transfer s (queueIfReady s e ⟨j, .epollin⟩ (room .epollin)) :=
    (grows_queueIfReady s e _ _).mono (by rintro _ rfl; exact .inl rfl)
  have hout := (grows_queueIfReady (queueIfReady s e ⟨j, .epollin⟩ (room .epollin)) e
    ⟨j, .epollout⟩ (room .epollout)).mono (Q := Transfer) (by rintro _ rfl; exact .inr rfl)
  exact hin.trans hout

theorem bit_queueIfReady (info : EventInfo) (hnode : e ∈ s.nodes info.sockfd)
    (hinterest : s.interest e info = true) (havailable : s.eventAvailable info = true) :
    (queueIfReady s e info true).bit e info = true := by
  simp only [queueIfReady, hinterest, havailable, Bool.and_self, if_true]
  unfold addEpollEventToShadow
  split
  · simp [bit_setBit]
  · next hnot =>
    by_contra hbit
    exact hnot ⟨hnode, by simpa using hbit, rfl⟩

theorem bit_queueAvailable {j : Sock} {room : Event → Bool} (hnode : e ∈ s.nodes j)
    (hinterest : s.interest e ⟨j, .epollin⟩ = true) (hdata : s.checkData j = true)
    (hroom : room .epollin = true) : (queueAvailable s e j room).bit e ⟨j, .epollin⟩ = true := by
  refine (grows_queueIfReady _ e ⟨j, .epollout⟩ (room .epollout)).bit e _ ?_
  rw [hroom]
  exact bit_queueIfReady ⟨j, .epollin⟩ (s := s) hnode hinterest hdata

/-! ## light_epoll_wait -/

section Drain

variable {acc : (EventInfo → Bool) × List EventInfo} {info : EventInfo} {l : List EventInfo}

theorem bit_of_takeEvent (h : (takeEvent s e acc info').1 info = true) :
    acc.1 info = true ∧ (e ∈ s.nodes info.sockfd → info ≠ info') := by
  unfold takeEvent at h
  split at h
  · by_cases hinfo : info = info'
    · simp [hinfo] at h
    · exact ⟨by simpa [hinfo] using h, fun _ => hinfo⟩
  · next hnode =>
    refine ⟨h, ?_⟩
    rintro hin rfl
    exact hnode hin

theorem stored_takeEvent (h : info ∈ (takeEvent s e acc info').2) :
    info ∈ acc.2 ∨ (e ∈ s.nodes info.sockfd ∧ acc.1 info = true) := by
  unfold takeEvent at h
  split at h
  · next hnode =>
    dsimp only at h
    split at h
    · next hvalid =>
      simp only [Bool.and_eq_true] at hvalid
      obtain hold | hnew := mem_append.mp h
      · exact .inl hold
      · obtain rfl := mem_singleton.mp hnew
        exact .inr ⟨hnode, hvalid.1.2⟩
    · exact .inl h
  · exact .inl h

theorem stored_subset_takeEvent (h : info ∈ acc.2) : info ∈ (takeEvent s e acc info').2 := by
  unfold takeEvent
  split
  · dsimp only
    split
    · exact mem_append_left _ h
    · exact h
  · exact h

theorem length_takeEvent (s : State) (e : Nat) (acc : (EventInfo → Bool) × List EventInfo)
    (info' : EventInfo) : (takeEvent s e acc info').2.length ≤ acc.2.length + 1 := by
  unfold takeEvent
  split
  · dsimp only
    split <;> simp
  · omega

theorem takeEvent_valid (info' : EventInfo) (hnode : e ∈ s.nodes info.sockfd)
    (hinterest : s.interest e info = true) (havailable : s.eventAvailable info = true)
    (hbit : acc.1 info = true) :
    (takeEvent s e acc info').1 info = true ∨ info ∈ (takeEvent s e acc info').2 := by
  by_cases hinfo : info' = info
  · subst hinfo
    exact .inr (by simp [takeEvent, hnode, hinterest, havailable, hbit])
  · unfold takeEvent
    split
    · exact .inl (by simpa [Ne.symm hinfo] using hbit)
    · exact .inl hbit

theorem bit_of_drain (h : (drain s e maxevents l acc).1.1 info = true) : acc.1 info = true ∧
      (e ∈ s.nodes info.sockfd → info ∈ l → info ∈ (drain s e maxevents l acc).2) := by
  induction l generalizing acc with
  | nil => exact ⟨h, fun _ hin => hin⟩
  | cons info' rest ih =>
    unfold drain at h ⊢
    split at h
    · next hroom =>
      obtain ⟨htake, hrest⟩ := ih h
      obtain ⟨hacc, hne⟩ := bit_of_takeEvent htake
      refine ⟨hacc, fun hnode hin => ?_⟩
      rw [if_pos hroom]
      exact hrest hnode ((mem_cons.mp hin).resolve_left (hne hnode))
    · next hfull =>
      rw [if_neg hfull]
      exact ⟨h, fun _ hin => hin⟩

theorem stored_of_drain (h : info ∈ (drain s e maxevents l acc).1.2) :
    info ∈ acc.2 ∨ (e ∈ s.nodes info.sockfd ∧ acc.1 info = true) := by
  induction l generalizing acc with
  | nil => exact .inl h
  | cons info' rest ih =>
    unfold drain at h
    split at h
    · obtain hin | ⟨hnode, hbit⟩ := ih h
      · exact stored_takeEvent hin
      · exact .inr ⟨hnode, (bit_of_takeEvent hbit).1⟩
    · exact .inl h

theorem stored_subset_drain (h : info ∈ acc.2) : info ∈ (drain s e maxevents l acc).1.2 := by
  induction l generalizing acc with
  | nil => exact h
  | cons info' rest ih =>
    unfold drain
    split
    · exact ih (stored_subset_takeEvent h)
    · exact h

theorem drain_valid (hnode : e ∈ s.nodes info.sockfd) (hinterest : s.interest e info = true)
    (havailable : s.eventAvailable info = true) (hbit : acc.1 info = true) :
    (drain s e maxevents l acc).1.1 info = true ∨ info ∈ (drain s e maxevents l acc).1.2 := by
  induction l generalizing acc with
  | nil => exact .inl hbit
  | cons info' rest ih =>
    unfold drain
    split
    · obtain hkept | hstored := takeEvent_valid info' hnode hinterest havailable hbit
      · exact ih hkept
      · exact .inr (stored_subset_drain hstored)
    · exact .inl hbit

theorem drain_all (h : acc.2.length + l.length < maxevents) : (drain s e maxevents l acc).2 = [] ∧
      (drain s e maxevents l acc).1.2.length ≤ acc.2.length + l.length := by
  induction l generalizing acc with
  | nil => exact ⟨rfl, le_rfl⟩
  | cons info' rest ih =>
    have hlen := length_takeEvent s e acc info'
    rw [length_cons] at h
    unfold drain
    rw [if_pos (by omega)]
    obtain ⟨hempty, hle⟩ := @ih (takeEvent s e acc info') (by omega)
    refine ⟨hempty, hle.trans ?_⟩
    rw [length_cons]
    omega

end Drain

abbrev drainShadow (s : State) (e maxevents : Nat) :=
  drain s e maxevents (s.shadowConnections e) (s.bit e, [])

abbrev drainReady (s : State) (e maxevents : Nat) :=
  drain s e maxevents (s.readyConnections e) (drainShadow s e maxevents).1

theorem queued_collect : (collect s e maxevents).1.queued e =
    (drainShadow s e maxevents).2 ++ (drainReady s e maxevents).2 := by
  simp [collect, State.queued]

theorem bit_collect : (collect s e maxevents).1.bit e = (drainReady s e maxevents).1.1 := by
  simp [collect]

theorem collect_of_ne (he : e' ≠ e) : (collect s e maxevents).1.queued e' = s.queued e' ∧
      (collect s e maxevents).1.bit e' = s.bit e' := by
  simp [collect, State.queued, he]

theorem bit_of_collect (h : (collect s e maxevents).1.bit e' info = true) :
    s.bit e' info = true := by
  by_cases he : e' = e
  · subst he
    rw [bit_collect] at h
    exact (bit_of_drain (bit_of_drain h).1).1
  · rwa [(collect_of_ne he).2] at h

theorem queued_of_collect (hnode : e' ∈ s.nodes info.sockfd) (hqueued : info ∈ s.queued e')
    (h : (collect s e maxevents).1.bit e' info = true) :
    info ∈ (collect s e maxevents).1.queued e' := by
  by_cases he : e' = e
  · subst he
    rw [bit_collect] at h
    rw [queued_collect, mem_append]
    obtain ⟨hshadow, hready⟩ := bit_of_drain h
    obtain ⟨-, hshadow⟩ := bit_of_drain hshadow
    exact (mem_append.mp hqueued).imp (hshadow hnode) (hready hnode)
  · rwa [(collect_of_ne he).1]

theorem bit_of_stored (h : info ∈ (collect s e maxevents).2) :
    e ∈ s.nodes info.sockfd ∧ s.bit e info = true := by
  obtain hshadow | ⟨hnode, hbit⟩ := stored_of_drain (l := s.readyConnections e) h
  · obtain hnil | hvalid := stored_of_drain (l := s.shadowConnections e) hshadow
    · cases hnil
    · exact hvalid
  · exact ⟨hnode, (bit_of_drain hbit).1⟩

theorem collect_valid (maxevents : Nat) (info : EventInfo) (hnode : e ∈ s.nodes info.sockfd)
    (hinterest : s.interest e info = true) (havailable : s.eventAvailable info = true)
    (hbit : s.bit e info = true) :
    (collect s e maxevents).1.bit e info = true ∨ info ∈ (collect s e maxevents).2 := by
  rw [bit_collect]
  have hshadow : (drainShadow s e maxevents).1.1 info = true ∨
      info ∈ (drainShadow s e maxevents).1.2 := drain_valid hnode hinterest havailable hbit
  obtain hkept | hstored := hshadow
  · exact drain_valid hnode hinterest havailable hkept
  · exact .inr (stored_subset_drain hstored)

theorem collect_all (h : (s.queued e).length < maxevents) :
    (collect s e maxevents).1.queued e = [] := by
  rw [State.queued, length_append] at h
  have hshadow : (drainShadow s e maxevents).2 = [] ∧
      (drainShadow s e maxevents).1.2.length ≤ 0 + (s.shadowConnections e).length :=
    drain_all (by simpa using (by omega : (s.shadowConnections e).length < maxevents))
  have hready : (drainReady s e maxevents).2 = [] := (drain_all (by omega)).1
  rw [queued_collect, hshadow.1, hready, append_nil]

def Rearmable (info : EventInfo) : Prop := info.event ≠ .epollhup ∧ info.event ≠ .epollerr

theorem grows_rearm (e rearms : Nat) (l : List EventInfo) (s : State) :
    Grows Rearmable s (rearm e rearms l s) := by
  induction l generalizing rearms s with
  | nil =>
    unfold rearm
    exact Grows.refl _ s
  | cons info rest ih =>
    unfold rearm
    split
    · exact ih rearms s
    · next hrearm =>
      split
      · exact Grows.refl _ s
      · refine Grows.trans ?_ (ih _ _)
        refine (grows_shadow s e info).mono ?_
        rintro _ rfl
        simp only [notRearmed, not_or, Bool.or_eq_true, decide_eq_true_eq] at hrearm
        exact ⟨hrearm.2.1.2, hrearm.2.2⟩

theorem bit_rearm {rearms : Nat} {l : List EventInfo} (hrearms : l.length ≤ rearms) (hin : info ∈ l)
    (hnode : e ∈ s.nodes info.sockfd) (hlevel : s.edgeTriggered e info.sockfd = false)
    (hrearmable : Rearmable info) : (rearm e rearms l s).bit e info = true := by
  induction l generalizing rearms s with
  | nil => cases hin
  | cons info' rest ih =>
    rw [length_cons] at hrearms
    unfold rearm
    split
    · next hskip =>
      obtain rfl | hrest := mem_cons.mp hin
      · have hbit : s.bit e info = true := by
          simpa [hnode, notRearmed, hlevel, hrearmable.1, hrearmable.2] using hskip
        exact (grows_rearm e rearms rest s).bit e info hbit
      · exact ih (by omega) hrest hnode hlevel
    · cases rearms with
      | zero => omega
      | succ rearms =>
        dsimp only
        obtain rfl | hrest := mem_cons.mp hin
        · exact (grows_rearm e rearms rest _).bit e info (by simp [bit_setBit])
        · exact ih (by omega) hrest hnode hlevel

theorem length_stored : (collect s e maxevents).2.length ≤ maxevents := by
  have hdrain : ∀ (l : List EventInfo) (acc : (EventInfo → Bool) × List EventInfo),
      acc.2.length ≤ maxevents → (drain s e maxevents l acc).1.2.length ≤ maxevents := by
    intro l
    induction l with
    | nil => exact fun acc h => h
    | cons info rest ih =>
      intro acc h
      unfold drain
      split
      · have hlen := length_takeEvent s e acc info
        exact ih _ (by omega)
      · exact h
  exact hdrain _ _ (hdrain _ _ (Nat.zero_le _))

end LightStack.Epoll.Calls
