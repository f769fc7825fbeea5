import LightStack.Conn.Posting
import LightStack.Lib.Update
import LightStack.Service.Rings.Model

/-!
# Kernel sockets, their indices and the commands that carry them

A satellite entry and its socket refer to each other, and a socket that a command carries refers to
nothing.
-/

namespace LightStack.Service.Rings

open Lib

/-! ## One socket -/

structure Good (x : KernelSocket) : Prop where
  sk : x.live = true → x.sk = true
  listen : x.state = .listen → x.stream = true ∧ x.unconnected = true
  connection : x.state = .connection → x.unconnected = false

structure Alike (x y : KernelSocket) : Prop where
  live : y.live = true → x.live = true
  sk : y.sk = x.sk
  userData : y.userData = x.userData
  stream : y.stream = x.stream
  unconnected : y.unconnected = x.unconnected

theorem Alike.refl (x : KernelSocket) : Alike x x := ⟨id, rfl, rfl, rfl, rfl⟩

variable {x y : KernelSocket} {e : Entry}

theorem Alike.trans {z : KernelSocket} (hxy : Alike x y) (hyz : Alike y z) : Alike x z where
  live := fun h => hxy.live (hyz.live h)
  sk := hyz.sk.trans hxy.sk
  userData := hyz.userData.trans hxy.userData
  stream := hyz.stream.trans hxy.stream
  unconnected := hyz.unconnected.trans hxy.unconnected

theorem good_blank : Good .blank :=
  ⟨by simp [KernelSocket.blank], by simp [KernelSocket.blank], by simp [KernelSocket.blank]⟩

theorem good_opened (c : Nat) (stream : Bool) : Good (opened c stream) :=
  ⟨by simp [opened], by simp [opened], by simp [opened]⟩

theorem good_acceptedSocket (user : Option Nat) : Good (acceptedSocket user) :=
  ⟨by simp [acceptedSocket], by simp [acceptedSocket], by simp [acceptedSocket]⟩

theorem Good.flags (h : Good x) {readQueued writeQueued wakes glued listed : Bool} :
    Good { x with
      readQueued := readQueued, writeQueued := writeQueued, wakes := wakes
      glued := glued, listed := listed } :=
  ⟨h.sk, h.listen, h.connection⟩

theorem Alike.flags (x : KernelSocket) (readQueued writeQueued wakes glued listed : Bool) :
    Alike x { x with
      readQueued := readQueued, writeQueued := writeQueued, wakes := wakes
      glued := glued, listed := listed } :=
  ⟨id, rfl, rfl, rfl, rfl⟩

theorem Good.inetListen (h : Good x) (success : Bool) :
    Good (inetListen x success) ∧ Alike x (inetListen x success) := by
  unfold Service.inetListen
  split
  · next htest =>
    simp only [Bool.and_eq_true] at htest
    exact ⟨⟨h.sk, fun _ => ⟨htest.1.1.2, htest.1.1.1⟩, by simp⟩, ⟨id, rfl, rfl, rfl, rfl⟩⟩
  · exact ⟨h, .refl x⟩

theorem Good.kernelClose (h : Good x) :
    Good (kernelClose x) ∧ Alike x (kernelClose x) ∧ (kernelClose x).live = false := by
  unfold Service.kernelClose
  split
  · refine ⟨⟨by simp, ?_, ?_⟩, ⟨by simp, rfl, rfl, rfl, rfl⟩, rfl⟩
    · intro hlisten
      dsimp only at hlisten ⊢
      split at hlisten
      · cases hlisten
      · contradiction
    · intro hconnection
      dsimp only at hconnection ⊢
      split at hconnection
      · cases hconnection
      · exact h.connection hconnection
  · next hsk =>
    refine ⟨h, .refl x, Bool.eq_false_iff.mpr fun hlive => hsk (h.sk hlive)⟩

structure Sockets (p : Proc) : Prop where
  good : ∀ a, Good (p.memory a)
  user : ∀ c a, p.satellite c = some a → (p.memory a).userData = some c ∧ (p.memory a).sk = true

structure Keeps (p q : Proc) : Prop where
  satellite : q.satellite = p.satellite
  alike : ∀ a, Alike (p.memory a) (q.memory a)
  good : ∀ a, Good (q.memory a)

namespace Keeps

variable {p q r : Proc}

theorem of_eq (h : ∀ a, Good (p.memory a)) (hsatellite : q.satellite = p.satellite)
    (hmemory : q.memory = p.memory) : Keeps p q :=
  ⟨hsatellite, fun _ => hmemory ▸ .refl _, fun a => hmemory ▸ h a⟩

theorem trans (hpq : Keeps p q) (hqr : Keeps q r) : Keeps p r :=
  ⟨hqr.satellite.trans hpq.satellite, fun a => (hpq.alike a).trans (hqr.alike a), hqr.good⟩

theorem update (h : ∀ a, Good (p.memory a)) {a : Nat} (hsatellite : q.satellite = p.satellite)
    (hmemory : q.memory = Function.update p.memory a y) (halike : Alike (p.memory a) y)
    (hgood : Good y) : Keeps p q := by
  refine ⟨hsatellite, ?_, ?_⟩
  · rw [hmemory]
    exact forall_update (P := fun b x => Alike (p.memory b) x) halike fun _ _ => .refl _
  · rw [hmemory]
    exact forall_update (P := fun _ x => Good x) hgood fun b _ => h b

variable (h : ∀ a, Good (p.memory a)) (a : Nat)

include h

theorem refl : Keeps p p := of_eq h rfl rfl

theorem halt (e : Halt) : Keeps p (p.halt e) := of_eq h rfl rfl

theorem serve : Keeps p (serve p a) := by
  unfold Service.serve
  split
  · exact refl h
  · split
    · exact halt h _
    · exact refl h

theorem useSk : Keeps p (useSk p a) := by
  unfold Service.useSk
  split
  · exact refl h
  · exact halt h _

theorem appGlueListen (socket : Option Nat) (success : Bool) :
    Keeps p (appGlueListen p socket success) := by
  unfold Service.appGlueListen
  split
  · exact halt h _
  · next a =>
    split
    · exact halt h _
    · obtain ⟨hgood, halike⟩ := Good.inetListen (x := { p.memory a with wakes := true })
        (h a).flags success
      exact update h rfl rfl ((Alike.flags _ _ _ true _ _).trans halike) hgood

theorem inetShutdown (socket : Option Nat) (how : Int) : Keeps p (inetShutdown p socket how) := by
  unfold Service.inetShutdown
  split
  · exact halt h _
  · next a =>
    split
    · exact refl h
    · split
      · exact halt h _
      · split
        · next hlisten =>
          have hunconnected := ((h a).listen hlisten.1).2
          exact update h rfl rfl ⟨id, rfl, rfl, rfl, hunconnected.symm⟩
            ⟨(h a).sk, by simp [wakeup], by simp [wakeup]⟩
        · exact update h rfl rfl (.flags ..) (h a).flags

theorem processClosed : Keeps p (processClosed p a) := by
  unfold Service.processClosed
  split
  · obtain ⟨hgood, halike, -⟩ := (h a).kernelClose
    exact update h rfl rfl halike hgood
  · exact halt h _

theorem disconnects : Keeps p (p.setMemory a { p.memory a with state := .close }) :=
  update h rfl rfl ⟨id, rfl, rfl, rfl, rfl⟩ ⟨(h a).sk, by simp, by simp⟩

theorem waitForBuffers : Keeps p (waitForBuffers p a) := by
  unfold Service.waitForBuffers
  split
  · exact refl h
  · have hlisted : Keeps p { p.setMemory a { p.memory a with listed := true } with
        available := p.available ++ [a] } := update h rfl rfl (.flags ..) (h a).flags
    dsimp only
    split
    · exact hlisted
    · exact hlisted.trans (useSk hlisted.good a)

theorem appGlueSockReadable : Keeps p (appGlueSockReadable p a) := by
  unfold Service.appGlueSockReadable
  split
  · split
    · exact halt h _
    · exact refl h
  · exact update h rfl rfl (.flags ..) (h a).flags

theorem appGlueSockWriteSpace : Keeps p (appGlueSockWriteSpace p a) := by
  unfold Service.appGlueSockWriteSpace
  split
  · exact refl h
  · exact update h rfl rfl (.flags ..) (h a).flags

omit h in
theorem andThen (hpq : Keeps p q) {f : Proc → Proc}
    (hf : (∀ a, Good (q.memory a)) → Keeps q (f q)) : Keeps p (q.andThen f) := by
  unfold Proc.andThen
  split
  · exact hpq
  · exact hpq.trans (hf hpq.good)

theorem processReadable (hq : processReadable p = some q) : Keeps p q := by
  unfold Service.processReadable at hq
  split at hq
  · cases hq
  · next a rest _ =>
    cases hq
    have htaken : Keeps p { p.setMemory a { p.memory a with readQueued := false } with
        readQueue := rest } := update h rfl rfl (.flags ..) (h a).flags
    refine (htaken.trans (serve htaken.good a)).andThen fun hgood => ?_
    have hused := useSk hgood a
    exact hused.trans (of_eq hused.good rfl rfl)

theorem processWritable (hq : processWritable p = some q) : Keeps p q := by
  unfold Service.processWritable at hq
  split at hq
  · cases hq
  · next a rest _ =>
    cases hq
    have htaken : Keeps p { p.setMemory a { p.memory a with writeQueued := false } with
        writeQueue := rest } := update h rfl rfl (.flags ..) (h a).flags
    exact (htaken.trans (serve htaken.good a)).andThen fun hgood => useSk hgood a

theorem notifyFirst {room : Bool} (hq : notifyFirst p room = some q) : Keeps p q := by
  unfold Service.notifyFirst at hq
  split at hq
  · cases hq
  · next a rest _ =>
    split at hq
    · cases hq
      exact refl h
    · split at hq
      · cases hq
        exact halt h _
      · next b _ =>
        cases hq
        have hused : Keeps p (if (p.memory b).stream then p else Service.useSk p b) := by
          split
          · exact refl h
          · exact useSk h b
        generalize (if (p.memory b).stream then p else Service.useSk p b) = r at hused ⊢
        refine hused.andThen fun hgood => ?_
        split
        · exact refl hgood
        · split
          · exact update hgood rfl rfl (.flags ..) (hgood a).flags
          · exact halt hgood _

omit h in
theorem sockets (hpq : Keeps p q) (hp : Sockets p) : Sockets q where
  good := hpq.good
  user := by
    intro c a hc
    rw [hpq.satellite] at hc
    obtain ⟨huser, hsk⟩ := hp.user c a hc
    exact ⟨(hpq.alike a).userData.trans huser, (hpq.alike a).sk.trans hsk⟩

end Keeps

theorem Sockets.update {p q : Proc} (h : Sockets p) {a : Nat}
    (hmemory : q.memory = Function.update p.memory a y) (hgood : Good y)
    (hsatellite : ∀ c b, q.satellite c = some b →
      b = a ∧ y.userData = some c ∧ y.sk = true ∨ b ≠ a ∧ p.satellite c = some b) :
    Sockets q where
  good := by
    rw [hmemory]
    exact forall_update (P := fun _ x => Good x) hgood fun b _ => h.good b
  user := by
    intro c b hc
    rw [hmemory]
    rcases hsatellite c b hc with ⟨rfl, huser⟩ | ⟨hb, hold⟩
    · simpa using huser
    · simpa [hb] using h.user c b hold

def plain : Entry → Bool
  | .bind _ _ => true
  | .listen _ => true
  | .shutdown _ how => decide (how ≠ 2)
  | .txKick _ => true
  | .rxKick _ => true
  | .txPoolEmpty _ => true
  | .setsockopt _ => true
  | _ => false

theorem descr_of_plain (h : plain e = true) : descr e = none := by
  cases e with
  | setSocketRing | decline => cases h
  | _ => rfl

theorem keeps_processCommand {p : Proc} {k address : Nat} {success : Bool}
    (h : ∀ a, Good (p.memory a)) (hplain : plain e = true) :
    Keeps p (processCommand p k success address e) := by
  cases e with
  | bind | setsockopt =>
    simp only [processCommand]
    split
    · exact .refl h
    · exact .useSk h _
  | listen c => exact .appGlueListen h _ _
  | shutdown c how =>
    have hhow : how ≠ 2 := of_decide_eq_true hplain
    simp only [processCommand, if_neg hhow]
    split
    · exact .refl h
    · exact .inetShutdown h _ _
  | txKick c =>
    simp only [processCommand]
    split
    · exact .refl h
    · exact (Keeps.serve h _).andThen fun hgood => .useSk hgood _
  | rxKick c =>
    simp only [processCommand]
    split
    · exact .refl h
    · exact .serve h _
  | txPoolEmpty c =>
    simp only [processCommand]
    split
    · exact .refl h
    · exact .waitForBuffers h _
  | openSocket | close | setSocketRing | decline => cases hplain

inductive Effect (p : Proc) (k address : Nat) (success : Bool) (e : Entry) (q : Proc) : Prop
  | keeps (hkeeps : Keeps p q) (hdescr : ∀ a, descr e = some (k, a) → (p.memory a).sk = false)
  | opens {i c : Nat} {stream : Bool} (he : e = .openSocket i c stream) (hsuccess : success = true)
      (hmemory : q.memory = Function.update p.memory address (opened c stream))
      (hsatellite : q.satellite = Function.update p.satellite c (some address))
  | blanks {i c : Nat} {stream : Bool} (he : e = .openSocket i c stream)
      (hmemory : q.memory = Function.update p.memory address .blank)
      (hsatellite : q.satellite = p.satellite)
  | gives {c a : Nat} (he : e = .setSocketRing c (k, a)) (hsk : (p.memory a).sk = true)
      (hmemory : q.memory = Function.update p.memory a { p.memory a with userData := some c })
      (hsatellite : q.satellite = Function.update p.satellite c (some a))
  | closes {c a : Nat} {y : KernelSocket} (he : e = .close c ∨ e = .shutdown c 2)
      (hc : p.satellite c = some a)
      (hmemory : q.memory = Function.update p.memory a y) (hgood : Good y)
      (hlive : y.live = false)
      (hsatellite : q.satellite = Function.update p.satellite c none)
  | declines {a : Nat} {y : KernelSocket} (he : e = .decline (k, a))
      (hmemory : q.memory = Function.update p.memory a y) (hgood : Good y)
      (hlive : y.live = false) (huser : y.userData = none)
      (hsatellite : q.satellite = p.satellite)

theorem appGlueCloseSocket_memory {p : Proc} {a : Nat} (h : Good (p.memory a)) :
    ∃ y, (appGlueCloseSocket p a).memory = Function.update p.memory a y ∧ Good y ∧
      y.live = false ∧ ((p.memory a).sk = true → y.userData = none) ∧
      ((p.memory a).sk = false → Alike (p.memory a) y) := by
  have hclean : Good { p.memory a with
      readQueued := false
      writeQueued := false
      userData := if (p.memory a).sk then none else (p.memory a).userData } :=
    ⟨h.sk, h.listen, h.connection⟩
  obtain ⟨hgood, halike, hlive⟩ := hclean.kernelClose
  refine ⟨_, rfl, hgood, hlive, fun hsk => ?_, fun hsk => ?_⟩
  · rw [halike.userData]
    exact if_pos hsk
  · have hsame : Alike (p.memory a) { p.memory a with
        readQueued := false
        writeQueued := false
        userData := if (p.memory a).sk then none else (p.memory a).userData } :=
      ⟨id, rfl, by simp [hsk], rfl, rfl⟩
    exact hsame.trans halike

theorem effect_processCommand {p : Proc} {k address : Nat} {success : Bool}
    (h : ∀ a, Good (p.memory a)) :
    Effect p k address success e (processCommand p k success address e) := by
  by_cases hplain : plain e = true
  · refine .keeps (keeps_processCommand h hplain) ?_
    intro a hdescr
    rw [descr_of_plain hplain] at hdescr
    cases hdescr
  cases e with
  | openSocket i c stream =>
    cases success with
    | false => exact .blanks rfl rfl rfl
    | true => exact .opens rfl rfl rfl rfl
  | close c =>
    simp only [processCommand]
    split
    · exact .keeps (.refl h) (by simp [descr])
    · next a hc =>
      obtain ⟨y, hmemory, hgood, hlive, -, -⟩ := appGlueCloseSocket_memory (h a)
      exact .closes (.inl rfl) hc hmemory hgood hlive rfl
  | shutdown c how =>
    obtain rfl : how = 2 := by simpa [plain] using hplain
    simp only [processCommand, if_true]
    split
    · exact .keeps (.refl h) (by simp [descr])
    · next a hc =>
      obtain ⟨y, hmemory, hgood, hlive, -, -⟩ := appGlueCloseSocket_memory (h a)
      exact .closes (.inr rfl) hc hmemory hgood hlive rfl
  | setSocketRing c d =>
    obtain ⟨owner, a⟩ := d
    simp only [processCommand]
    split
    · next howner =>
      refine .keeps (.halt h _) fun a' hdescr => ?_
      cases hdescr
      exact absurd rfl howner
    · next howner =>
      obtain rfl : owner = k := not_not.mp howner
      split
      · next hsk =>
        refine .keeps (.halt h _) fun a' hdescr => ?_
        cases hdescr
        simpa using hsk
      · next hsk =>
        have hsk : (p.memory a).sk = true := by simpa using hsk
        refine .gives rfl hsk ?_ ?_
        all_goals
          unfold userDataAvailableCbk serve
          split
          · rfl
          · split <;> rfl
  | decline d =>
    obtain ⟨owner, a⟩ := d
    simp only [processCommand]
    split
    · next howner =>
      refine .keeps (.halt h _) fun a' hdescr => ?_
      cases hdescr
      exact absurd rfl howner
    · next howner =>
      obtain rfl : owner = k := not_not.mp howner
      obtain ⟨y, hmemory, hgood, hlive, huser, halike⟩ := appGlueCloseSocket_memory (h a)
      by_cases hsk : (p.memory a).sk = true
      · exact .declines rfl hmemory hgood hlive (huser hsk) rfl
      · have hsk : (p.memory a).sk = false := Bool.eq_false_iff.mpr hsk
        refine .keeps (.update h rfl hmemory (halike hsk) hgood) fun a' hdescr => ?_
        cases hdescr
        exact hsk
  | bind | listen | txKick | rxKick | txPoolEmpty | setsockopt => exact absurd rfl hplain

end LightStack.Service.Rings
