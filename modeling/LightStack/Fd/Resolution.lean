import LightStack.Fd.Mapping.Bijection

/-!
# How the calls resolve their descriptor

The data calls go on from the socket of the descriptor to its entry in `multicore_socket_copies`.
-/

namespace LightStack.Fd.Resolution

open Lib Fd.Mapping

/-- `copy index` is a call that reads the socket of the descriptor and works on its copy. -/
inductive Target where
  | kernel
  | nothing
  | exits
  | socket (index : Nat)
  | copy (index copied : Nat)
  | epoll (index : Nat)
  | epollSocket (epoll socket : Nat)

inductive IoctlRequest where
  | fionread
  | fionbio
  | other
  deriving DecidableEq

inductive FcntlCmd where
  | getfl
  | setfl
  | other
  deriving DecidableEq

inductive Call where
  | send (fd : Int)
  | recv (fd : Int)
  | writev (fd : Int) (iovcnt : Nat)
  | readv (fd : Int) (iovcnt : Nat)
  | ioctl (fd : Int) (request : IoctlRequest) (argp : Bool)
  | fcntl (fd : Int) (cmd : FcntlCmd)
  | setsockopt (fd : Int) (optval : Bool)
  | shutdown (fd : Int)
  | epollCtl (epfd op fd : Int)
  | close (fd : Int)

/-! ## The calls -/

def useSocket (t : Tables) (fd : Int) : Except Fault Target := do
  let (index, _) ← lightFdToSocketEpollIndex t fd
  let i ← slot connectionPoolSize index
  return .socket i

def ifLight (t : Tables) (fd : Int) (light : Except Fault Target) : Except Fault Target := do
  if ← isLightFd t fd then light else return .kernel

/-- `proc_id` of the descriptors and `multicore_socket_copies` of the sockets. -/
structure Routing where
  procId : Nat → Nat
  copies : Nat → Nat → Int

def Routing.realSocket (r : Routing) (i : Nat) : Int := r.copies i (r.procId i)

def useCopy (t : Tables) (r : Routing) (fd : Int) : Except Fault Target := do
  let (index, _) ← lightFdToSocketEpollIndex t fd
  let i ← slot connectionPoolSize index
  let j ← slot connectionPoolSize (r.realSocket i)
  return .copy i j

def lightSend (t : Tables) (r : Routing) (fd : Int) : Except Fault Target := useCopy t r fd

def lightRecv (t : Tables) (r : Routing) (fd : Int) : Except Fault Target := useCopy t r fd

def lightWritev (t : Tables) (r : Routing) (fd : Int) (iovcnt : Nat) : Except Fault Target :=
  ifLight t fd (if iovcnt = 0 then return .nothing else lightSend t r fd)

def lightReadv (t : Tables) (r : Routing) (fd : Int) (iovcnt : Nat) : Except Fault Target :=
  ifLight t fd (if iovcnt = 0 then return .nothing else lightRecv t r fd)

def lightIoctl (t : Tables) (fd : Int) (request : IoctlRequest) (argp : Bool) :
    Except Fault Target :=
  ifLight t fd do
    let (index, _) ← lightFdToSocketEpollIndex t fd
    if !argp then return .nothing
    else
      match request with
      | .fionread | .fionbio =>
        let i ← slot connectionPoolSize index
        return .socket i
      | .other => return .nothing

def lightFcntl (t : Tables) (fd : Int) (cmd : FcntlCmd) : Except Fault Target :=
  ifLight t fd do
    let (index, _) ← lightFdToSocketEpollIndex t fd
    match cmd with
    | .getfl | .setfl =>
      let i ← slot connectionPoolSize index
      return .socket i
    | .other => return .nothing

def lightSetsockopt (t : Tables) (fd : Int) (optval : Bool) : Except Fault Target :=
  if !optval then return .nothing else useSocket t fd

def lightShutdown (t : Tables) (fd : Int) : Except Fault Target := useSocket t fd

def validOp (op : Int) : Bool := 1 ≤ op && op ≤ 3

def epollCtlLight (epindex op index : Int) : Except Fault Target :=
  if epindex < 0 then return .nothing
  else if !validOp op then return .nothing
  else if index < 0 ∨ connectionPoolSize ≤ index then return .exits
  else do
    let i ← slot connectionPoolSize index
    let e ← slot epollPoolSize epindex
    return .epollSocket e i

def epollCtlKernel (epindex : Int) : Except Fault Target :=
  if epindex < 0 then return .nothing
  else do
    let e ← slot epollPoolSize epindex
    return .epoll e

def lightEpollCtl (t : Tables) (epfd op fd : Int) : Except Fault Target := do
  let (epindex, _) ← lightFdToSocketEpollIndex t epfd
  if ← isLightFd t fd then
    let (index, _) ← lightFdToSocketEpollIndex t fd
    epollCtlLight epindex op index
  else epollCtlKernel epindex

def lightClose (t : Tables) (sh : Shared) (fd : Int) : Except Fault Target :=
  ifLight t fd do
    let (index, kind) ← lightFdToSocketEpollIndex t fd
    match kind with
    | .socket =>
      let lightFd ← socketEpollIndexToLightFd t index .socket
      let _ ← putBackLightFd t sh lightFd
      let i ← slot connectionPoolSize index
      return .socket i
    | .epoll =>
      let e ← slot epollPoolSize index
      let lightFd ← socketEpollIndexToLightFd t e .epoll
      let _ ← putBackLightFd t sh lightFd
      return .epoll e

def resolve (s : State) (r : Routing) : Call → Except Fault Target
  | .send fd => lightSend s.tables r fd
  | .recv fd => lightRecv s.tables r fd
  | .writev fd iovcnt => lightWritev s.tables r fd iovcnt
  | .readv fd iovcnt => lightReadv s.tables r fd iovcnt
  | .ioctl fd request argp => lightIoctl s.tables fd request argp
  | .fcntl fd cmd => lightFcntl s.tables fd cmd
  | .setsockopt fd optval => lightSetsockopt s.tables fd optval
  | .shutdown fd => lightShutdown s.tables fd
  | .epollCtl epfd op fd => lightEpollCtl s.tables epfd op fd
  | .close fd => lightClose s.tables s.shared fd

def OwnsSocket (s : State) (fd : Int) (i : Nat) : Prop :=
  ∃ n : Nat, fd = n ∧ n < trueFdMaxSize ∧ i < connectionPoolSize ∧
    s.tables.trueToLight n = some i ∧ s.live i = true

def OwnsEpoll (s : State) (fd : Int) (e : Nat) : Prop :=
  ∃ n : Nat, fd = n ∧ n < trueFdMaxSize ∧ e < epollPoolSize ∧
    s.tables.trueToLight n = some (e + connectionPoolSize) ∧
    s.live (e + connectionPoolSize) = true

def Call.descriptor : Call → Int
  | .send fd | .recv fd | .writev fd _ | .readv fd _ | .ioctl fd _ _
  | .fcntl fd _ | .setsockopt fd _ | .shutdown fd | .epollCtl _ _ fd
  | .close fd => fd

def Call.epollDescriptor : Call → Int
  | .epollCtl epfd _ _ => epfd
  | c => c.descriptor

def Right (s : State) (c : Call) : Target → Prop
  | .kernel => True
  | .nothing => True
  | .exits => False
  | .socket i => OwnsSocket s c.descriptor i
  | .copy i j => OwnsSocket s c.descriptor i ∧ s.live j = true
  | .epoll e => OwnsEpoll s c.epollDescriptor e
  | .epollSocket e i => OwnsEpoll s c.epollDescriptor e ∧ OwnsSocket s c.descriptor i

def Safe (s : State) (r : Routing) (c : Call) : Prop :=
  ∃ target, resolve s r c = .ok target ∧ Right s c target

def InTables (fd : Int) : Prop := 0 ≤ fd ∧ fd < trueFdMaxSize

def IsPlaceholder (s : State) (fd : Int) : Prop := s.tables.fullTrueFd fd.toNat = true

def MapsToSocket (s : State) (fd : Int) : Prop :=
  ∃ i < connectionPoolSize, s.tables.trueToLight fd.toNat = some i

def MapsToEpoll (s : State) (fd : Int) : Prop :=
  ∃ e, s.tables.trueToLight fd.toNat = some (e + connectionPoolSize)

/-- The entry for the stack process in `multicore_socket_copies` is a live socket. -/
def Routed (s : State) (r : Routing) (fd : Int) : Prop :=
  ∃ i < connectionPoolSize, s.tables.trueToLight fd.toNat = some i ∧
    ∃ j < connectionPoolSize, r.realSocket i = (j : Nat) ∧ s.live j = true

def Suits (s : State) (r : Routing) : Call → Prop
  | .send fd | .recv fd => InTables fd ∧ Routed s r fd
  | .shutdown fd => InTables fd ∧ MapsToSocket s fd
  | .setsockopt fd optval => optval = true → InTables fd ∧ MapsToSocket s fd
  | .writev fd iovcnt | .readv fd iovcnt =>
    InTables fd ∧ (IsPlaceholder s fd → iovcnt ≠ 0 → Routed s r fd)
  | .ioctl fd request argp =>
    InTables fd ∧ (IsPlaceholder s fd → argp = true → request ≠ .other → MapsToSocket s fd)
  | .fcntl fd cmd => InTables fd ∧ (IsPlaceholder s fd → cmd ≠ .other → MapsToSocket s fd)
  | .epollCtl epfd op fd =>
    InTables epfd ∧ InTables fd ∧
      (s.tables.trueToLight epfd.toNat ≠ none → (IsPlaceholder s fd → validOp op = true →
          MapsToEpoll s epfd ∧ MapsToSocket s fd) ∧
        (¬IsPlaceholder s fd → MapsToEpoll s epfd))
  | .close fd => InTables fd ∧ (IsPlaceholder s fd → s.tables.trueToLight fd.toNat ≠ none)

inductive Found (s : State) (n : Nat) : Prop where
  | none (hentry : s.tables.trueToLight n = none)
      (hlookup : lightFdToSocketEpollIndex s.tables n = .ok (-1, .socket))
  | socket (i : Nat) (hi : i < connectionPoolSize)
      (hentry : s.tables.trueToLight n = some i) (hlive : s.live i = true)
      (hlookup : lightFdToSocketEpollIndex s.tables n = .ok ((i : Int), .socket))
  | epoll (e : Nat) (he : e < epollPoolSize)
      (hentry : s.tables.trueToLight n = some (e + connectionPoolSize))
      (hlive : s.live (e + connectionPoolSize) = true)
      (hlookup : lightFdToSocketEpollIndex s.tables n = .ok ((e : Int), .epoll))

variable {n i e : Nat} {fd : Int} {p : Int × Kind}

theorem found {fds : List Nat} {s : State} (h : Maps fds s) (hn : n < trueFdMaxSize) :
    Found s n := by
  cases hentry : s.tables.trueToLight n with
  | none => exact .none hentry (lightFdToSocketEpollIndex_of_none hn hentry)
  | some light =>
    obtain ⟨pairs, h⟩ := h
    have hlive := h.mapped_live hentry
    have hlt := (h.putBackLightFd_ok hentry).1
    obtain ⟨index, kind, hlookup, hlight, hsocket⟩ := lightFdToSocketEpollIndex_of_some hn hentry
    cases kind with
    | socket =>
      obtain rfl : index = light := Int.ofNat_inj.mp hlight
      exact .socket index (hsocket rfl) hentry hlive hlookup
    | epoll =>
      obtain rfl : index + connectionPoolSize = light := Int.ofNat_inj.mp hlight
      exact .epoll index (by omega) hentry hlive hlookup

def SafeResult (s : State) (c : Call) (r : Except Fault Target) : Prop :=
  ∃ target, r = .ok target ∧ Right s c target

@[simp]
theorem safeResult_error (s : State) (c : Call) (f : Fault) : ¬SafeResult s c (.error f) := by
  rintro ⟨target, h, -⟩
  cases h

@[simp]
theorem safeResult_ok (s : State) (c : Call) (target : Target) :
    SafeResult s c (.ok target) ↔ Right s c target := by
  simp [SafeResult]

theorem inTables_natCast : InTables (n : Int) ↔ n < trueFdMaxSize := by
  simp only [InTables]
  omega

theorem slot_of_not_inTables (h : ¬InTables fd) :
    slot trueFdMaxSize fd = .error (.outOfBounds fd) :=
  if_neg h

theorem ownsSocket_iff {s : State} (hn : n < trueFdMaxSize) : OwnsSocket s (n : Int) i ↔
      i < connectionPoolSize ∧ s.tables.trueToLight n = some i ∧ s.live i = true := by
  constructor
  · rintro ⟨m, hm, -, h⟩
    obtain rfl := Int.ofNat_inj.mp hm
    exact h
  · exact fun h => ⟨n, rfl, hn, h⟩

theorem ownsEpoll_iff {s : State} (hn : n < trueFdMaxSize) : OwnsEpoll s (n : Int) e ↔
      e < epollPoolSize ∧ s.tables.trueToLight n = some (e + connectionPoolSize) ∧
        s.live (e + connectionPoolSize) = true := by
  constructor
  · rintro ⟨m, hm, -, h⟩
    obtain rfl := Int.ofNat_inj.mp hm
    exact h
  · exact fun h => ⟨n, rfl, hn, h⟩

variable {fds : List Nat} {s : State} {r : Routing}

theorem useSocket_safe_iff (h : Maps fds s) (c : Call) :
    SafeResult s c (useSocket s.tables c.descriptor) ↔
      InTables c.descriptor ∧ MapsToSocket s c.descriptor := by
  by_cases hin : InTables c.descriptor
  · obtain ⟨n, hn⟩ := Int.eq_ofNat_of_zero_le hin.1
    have hlt : n < trueFdMaxSize := inTables_natCast.mp (hn ▸ hin)
    simp only [hin, true_and]
    simp only [hn, MapsToSocket, Int.toNat_natCast]
    cases found h hlt with
    | none hentry hlookup => simp [useSocket, hlookup, slot_neg_one, hentry, bind, Except.bind]
    | socket i hi hentry hlive hlookup =>
      simp [useSocket, hlookup, slot_natCast hi, hentry, hi, Right, hn,
        ownsSocket_iff hlt, hlive, pure, Except.pure, bind, Except.bind]
    | epoll e he hentry hlive hlookup =>
      have he' : e < connectionPoolSize := Nat.lt_trans he (by decide)
      have hpos : connectionPoolSize ≠ 0 := by decide
      apply iff_of_false
      · simp [useSocket, hlookup, slot_natCast he', hentry, Right, hn,
          ownsSocket_iff hlt, hpos, pure, Except.pure, bind, Except.bind]
      · rintro ⟨i, hi, heq⟩
        rw [hentry] at heq
        have := Option.some.inj heq
        omega
  · simp [hin, useSocket, lightFdToSocketEpollIndex, slot_of_not_inTables hin, bind, Except.bind]

theorem useCopy_safe_iff (h : Maps fds s) (r : Routing) (c : Call) :
    SafeResult s c (useCopy s.tables r c.descriptor) ↔
      InTables c.descriptor ∧ Routed s r c.descriptor := by
  by_cases hin : InTables c.descriptor
  · obtain ⟨n, hn⟩ := Int.eq_ofNat_of_zero_le hin.1
    have hlt : n < trueFdMaxSize := inTables_natCast.mp (hn ▸ hin)
    rw [and_iff_right hin]
    cases found h hlt with
    | none hentry hlookup =>
      simp [useCopy, hn, hlookup, slot_neg_one, hentry, Routed, bind, Except.bind]
    | socket i hi hentry hlive hlookup =>
      have hrouted : Routed s r c.descriptor ↔
          ∃ j < connectionPoolSize, r.realSocket i = (j : Nat) ∧ s.live j = true := by
        simp [Routed, hn, hentry, hi]
      rw [hrouted]
      cases hj : slot connectionPoolSize (r.realSocket i) with
      | ok j =>
        obtain ⟨hjlt, heq⟩ := slot_eq_ok_iff.mp hj
        simp [useCopy, hn, hlookup, slot_natCast hi, slot_natCast hjlt, heq, Right,
          ownsSocket_iff hlt, hi, hentry, hlive, hjlt, pure, Except.pure, bind, Except.bind]
      | error f =>
        apply iff_of_false
        · simp [useCopy, hn, hlookup, slot_natCast hi, hj, bind, Except.bind]
        · rintro ⟨j, hjlt, heq, -⟩
          rw [heq, slot_natCast hjlt] at hj
          cases hj
    | epoll e he hentry hlive hlookup =>
      have he' : e < connectionPoolSize := Nat.lt_trans he (by decide)
      apply iff_of_false
      · cases hj : slot connectionPoolSize (r.realSocket e) <;>
          simp [useCopy, hn, hlookup, slot_natCast he', hj, Right, ownsSocket_iff hlt, hentry,
            show connectionPoolSize ≠ 0 by decide, pure, Except.pure, bind, Except.bind]
      · rintro ⟨i, hi, heq, -⟩
        rw [hn, Int.toNat_natCast, hentry] at heq
        have := Option.some.inj heq
        omega
  · simp [hin, useCopy, lightFdToSocketEpollIndex, slot_of_not_inTables hin, bind, Except.bind]

theorem ifLight_safe_iff (c : Call) (fd : Int) (light : Except Fault Target) :
    SafeResult s c (ifLight s.tables fd light) ↔
      InTables fd ∧ (IsPlaceholder s fd → SafeResult s c light) := by
  by_cases hin : InTables fd
  · obtain ⟨n, rfl⟩ := Int.eq_ofNat_of_zero_le hin.1
    have hn : n < trueFdMaxSize := inTables_natCast.mp hin
    cases hplace : s.tables.fullTrueFd n with
    | true =>
      simp [ifLight, isLightFd_natCast s.tables hn, hplace, hin, IsPlaceholder, bind, Except.bind]
    | false =>
      simp [ifLight, isLightFd_natCast s.tables hn, hplace, hin, IsPlaceholder,
        Right, pure, Except.pure, bind, Except.bind]
  · simp [hin, ifLight, isLightFd, slot_of_not_inTables hin, bind, Except.bind]

section

variable (h : Maps fds s)

include h

theorem lookup_ok (hin : InTables fd) : ∃ p, lightFdToSocketEpollIndex s.tables fd = .ok p := by
  obtain ⟨n, rfl⟩ := Int.eq_ofNat_of_zero_le hin.1
  cases found h (inTables_natCast.mp hin) with
  | none _ hlookup | socket _ _ _ _ hlookup | epoll _ _ _ _ hlookup => exact ⟨_, hlookup⟩

theorem lightIoctl_safe_iff (fd : Int) (request : IoctlRequest) (argp : Bool) :
    SafeResult s (.ioctl fd request argp) (lightIoctl s.tables fd request argp) ↔
      Suits s r (.ioctl fd request argp) := by
  have huse := useSocket_safe_iff h (.ioctl fd request argp)
  simp only [Call.descriptor] at huse
  simp only [lightIoctl, ifLight_safe_iff, Suits]
  refine and_congr_right fun hin => imp_congr_right fun _ => ?_
  obtain ⟨p, hp⟩ := lookup_ok h hin
  simp only [useSocket, hp, hin, true_and, bind, Except.bind] at huse
  cases argp with
  | false => simp [hp, Right, pure, Except.pure, bind, Except.bind]
  | true =>
    cases request with
    | fionread | fionbio => simpa [hp, bind, Except.bind] using huse
    | other => simp [hp, Right, pure, Except.pure, bind, Except.bind]

theorem lightFcntl_safe_iff (fd : Int) (cmd : FcntlCmd) :
    SafeResult s (.fcntl fd cmd) (lightFcntl s.tables fd cmd) ↔
      Suits s r (.fcntl fd cmd) := by
  have huse := useSocket_safe_iff h (.fcntl fd cmd)
  simp only [Call.descriptor] at huse
  simp only [lightFcntl, ifLight_safe_iff, Suits]
  refine and_congr_right fun hin => imp_congr_right fun _ => ?_
  obtain ⟨p, hp⟩ := lookup_ok h hin
  simp only [useSocket, hp, hin, true_and, bind, Except.bind] at huse
  cases cmd with
  | getfl | setfl => simpa [hp, bind, Except.bind] using huse
  | other => simp [hp, Right, pure, Except.pure, bind, Except.bind]

theorem vectored_safe_iff (c : Call) (iovcnt : Nat) : SafeResult s c
        (ifLight s.tables c.descriptor
          (if iovcnt = 0 then return .nothing else useCopy s.tables r c.descriptor)) ↔
      InTables c.descriptor ∧
        (IsPlaceholder s c.descriptor → iovcnt ≠ 0 → Routed s r c.descriptor) := by
  rw [ifLight_safe_iff]
  refine and_congr_right fun hin => imp_congr_right fun _ => ?_
  by_cases hzero : iovcnt = 0
  · simp [hzero, Right, pure, Except.pure]
  · simp [hzero, useCopy_safe_iff h r c, hin]

theorem lightSetsockopt_safe_iff (fd : Int) (optval : Bool) :
    SafeResult s (.setsockopt fd optval) (lightSetsockopt s.tables fd optval) ↔
      Suits s r (.setsockopt fd optval) := by
  cases optval with
  | false => simp [lightSetsockopt, Suits, Right, pure, Except.pure]
  | true =>
    simpa [lightSetsockopt, Suits, Call.descriptor] using useSocket_safe_iff h (.setsockopt fd true)

end

/-! ## `light_epoll_ctl` and `light_close` -/

theorem not_mapsToEpoll_of_socket (hi : i < connectionPoolSize)
    (hentry : s.tables.trueToLight n = some i) : ¬MapsToEpoll s n := by
  rintro ⟨e, he⟩
  rw [Int.toNat_natCast, hentry] at he
  have := Option.some.inj he
  omega

theorem not_mapsToSocket_of_epoll
    (hentry : s.tables.trueToLight n = some (e + connectionPoolSize)) : ¬MapsToSocket s n := by
  rintro ⟨i, hi, heq⟩
  rw [Int.toNat_natCast, hentry] at heq
  have := Option.some.inj heq
  omega

theorem ownsEpoll_mapsToEpoll (h : OwnsEpoll s fd e) : MapsToEpoll s fd := by
  obtain ⟨n, rfl, -, -, hentry, -⟩ := h
  exact ⟨e, hentry⟩

theorem ownsSocket_mapsToSocket (h : OwnsSocket s fd i) : MapsToSocket s fd := by
  obtain ⟨n, rfl, -, hi, hentry, -⟩ := h
  exact ⟨i, hi, hentry⟩

section

variable (h : Maps fds s)

include h

theorem lookup_neg_iff (hn : n < trueFdMaxSize)
    (hp : lightFdToSocketEpollIndex s.tables n = .ok p) :
    p.1 < 0 ↔ s.tables.trueToLight n = none := by
  cases found h hn with
  | none hentry hlookup | socket i hi hentry hlive hlookup | epoll e he hentry hlive hlookup =>
    rw [hlookup, Except.ok.injEq] at hp
    simp [← hp, hentry]

theorem lookup_of_mapsToEpoll (hn : n < trueFdMaxSize) (hmaps : MapsToEpoll s n) :
    ∃ e < epollPoolSize, OwnsEpoll s n e ∧
      lightFdToSocketEpollIndex s.tables n = .ok ((e : Int), .epoll) := by
  cases found h hn with
  | none hentry =>
    obtain ⟨e, he⟩ := hmaps
    rw [Int.toNat_natCast, hentry] at he
    cases he
  | socket i hi hentry => exact absurd hmaps (not_mapsToEpoll_of_socket hi hentry)
  | epoll e he hentry hlive hlookup =>
    exact ⟨e, he, (ownsEpoll_iff hn).mpr ⟨he, hentry, hlive⟩, hlookup⟩

theorem lookup_of_mapsToSocket (hn : n < trueFdMaxSize) (hmaps : MapsToSocket s n) :
    ∃ i < connectionPoolSize, OwnsSocket s n i ∧
      lightFdToSocketEpollIndex s.tables n = .ok ((i : Int), .socket) := by
  cases found h hn with
  | none hentry =>
    obtain ⟨i, -, hi⟩ := hmaps
    rw [Int.toNat_natCast, hentry] at hi
    cases hi
  | socket i hi hentry hlive hlookup =>
    exact ⟨i, hi, (ownsSocket_iff hn).mpr ⟨hi, hentry, hlive⟩, hlookup⟩
  | epoll e he hentry => exact absurd hmaps (not_mapsToSocket_of_epoll hentry)

theorem epollCtlLight_safe_iff {m : Nat} {op : Int} {q : Int × Kind} (hm : m < trueFdMaxSize)
    (hn : n < trueFdMaxSize) (hp : lightFdToSocketEpollIndex s.tables m = .ok p)
    (hq : lightFdToSocketEpollIndex s.tables n = .ok q) :
    SafeResult s (.epollCtl m op n) (epollCtlLight p.1 op q.1) ↔
      (s.tables.trueToLight m ≠ none → validOp op = true → MapsToEpoll s m ∧ MapsToSocket s n) := by
  have hneg := lookup_neg_iff h hm hp
  constructor
  · rintro ⟨target, htarget, hright⟩ hsome hvalid
    have hge : ¬p.1 < 0 := fun hlt => hsome (hneg.mp hlt)
    simp only [epollCtlLight, hge, if_false, hvalid, Bool.not_true, Bool.false_eq_true] at htarget
    split at htarget
    · cases htarget
      exact hright.elim
    · cases hi : slot connectionPoolSize q.1 with
      | error f => simp [hi, bind, Except.bind] at htarget
      | ok i =>
        cases he : slot epollPoolSize p.1 with
        | error f => simp [hi, he, bind, Except.bind] at htarget
        | ok e =>
          simp only [hi, he, bind, Except.bind, pure, Except.pure, Except.ok.injEq] at htarget
          subst htarget
          exact ⟨ownsEpoll_mapsToEpoll hright.1, ownsSocket_mapsToSocket hright.2⟩
  · intro hmaps
    by_cases hlt : p.1 < 0
    · simp [epollCtlLight, hlt, Right, pure, Except.pure]
    by_cases hvalid : validOp op = true
    · obtain ⟨hmapE, hmapS⟩ := hmaps (fun hnone => hlt (hneg.mpr hnone)) hvalid
      obtain ⟨e, he, howns, hlookup⟩ := lookup_of_mapsToEpoll h hm hmapE
      obtain ⟨i, hi, howns', hlookup'⟩ := lookup_of_mapsToSocket h hn hmapS
      rw [hlookup, Except.ok.injEq] at hp
      rw [hlookup', Except.ok.injEq] at hq
      have hrange : ¬((i : Int) < 0 ∨ (connectionPoolSize : Int) ≤ i) := by omega
      subst hp hq
      refine ⟨.epollSocket e i, ?_, howns, howns'⟩
      rw [epollCtlLight, if_neg hlt, if_neg (by simp [hvalid]), if_neg hrange]
      simp only [slot_natCast hi, slot_natCast he, pure, Except.pure, bind, Except.bind]
    · simp [epollCtlLight, hlt, hvalid, Right, pure, Except.pure]

theorem epollCtlKernel_safe_iff {m : Nat} {op : Int} (hm : m < trueFdMaxSize)
    (hp : lightFdToSocketEpollIndex s.tables m = .ok p) :
    SafeResult s (.epollCtl m op fd) (epollCtlKernel p.1) ↔
      (s.tables.trueToLight m ≠ none → MapsToEpoll s m) := by
  have hneg := lookup_neg_iff h hm hp
  constructor
  · rintro ⟨target, htarget, hright⟩ hsome
    have hge : ¬p.1 < 0 := fun hlt => hsome (hneg.mp hlt)
    simp only [epollCtlKernel, hge, if_false] at htarget
    cases he : slot epollPoolSize p.1 with
    | error f => simp [he, bind, Except.bind] at htarget
    | ok e =>
      simp only [he, bind, Except.bind, pure, Except.pure, Except.ok.injEq]
        at htarget
      subst htarget
      exact ownsEpoll_mapsToEpoll hright
  · intro hmaps
    by_cases hlt : p.1 < 0
    · simp [epollCtlKernel, hlt, Right, pure, Except.pure]
    · obtain ⟨e, he, howns, hlookup⟩ :=
        lookup_of_mapsToEpoll h hm (hmaps fun hnone => hlt (hneg.mpr hnone))
      rw [hlookup, Except.ok.injEq] at hp
      subst hp
      refine ⟨.epoll e, ?_, howns⟩
      simp [epollCtlKernel, slot_natCast he, pure, Except.pure, bind, Except.bind]

theorem lightEpollCtl_safe_iff (epfd op fd : Int) :
    SafeResult s (.epollCtl epfd op fd) (lightEpollCtl s.tables epfd op fd) ↔
      Suits s r (.epollCtl epfd op fd) := by
  by_cases hepfd : InTables epfd
  · by_cases hfd : InTables fd
    · obtain ⟨m, rfl⟩ := Int.eq_ofNat_of_zero_le hepfd.1
      obtain ⟨n, rfl⟩ := Int.eq_ofNat_of_zero_le hfd.1
      have hm := inTables_natCast.mp hepfd
      have hn := inTables_natCast.mp hfd
      obtain ⟨p, hp⟩ := lookup_ok h hepfd
      obtain ⟨q, hq⟩ := lookup_ok h hfd
      simp only [Suits, hepfd, hfd, true_and, IsPlaceholder, Int.toNat_natCast]
      cases hplace : s.tables.fullTrueFd n with
      | true =>
        simpa [lightEpollCtl, hp, hq, isLightFd_natCast s.tables hn, hplace,
          bind, Except.bind] using epollCtlLight_safe_iff h hm hn hp hq
      | false =>
        simpa [lightEpollCtl, hp, isLightFd_natCast s.tables hn, hplace,
          bind, Except.bind] using epollCtlKernel_safe_iff h hm hp
    · obtain ⟨p, hp⟩ := lookup_ok h hepfd
      simp [Suits, hfd, lightEpollCtl, hp, isLightFd, slot_of_not_inTables hfd, bind, Except.bind]
  · simp [Suits, hepfd, lightEpollCtl, lightFdToSocketEpollIndex,
      slot_of_not_inTables hepfd, bind, Except.bind]

theorem lightClose_safe_iff (fd : Int) :
    SafeResult s (.close fd) (lightClose s.tables s.shared fd) ↔
      Suits s r (.close fd) := by
  simp only [lightClose, ifLight_safe_iff, Suits]
  refine and_congr_right fun hin => imp_congr_right fun _ => ?_
  obtain ⟨n, rfl⟩ := Int.eq_ofNat_of_zero_le hin.1
  have hn := inTables_natCast.mp hin
  rw [Int.toNat_natCast]
  cases found h hn with
  | none hentry hlookup =>
    simp [hlookup, hentry, socketEpollIndexToLightFd, lightIndex, slot_neg_one, bind, Except.bind]
  | socket i hi hentry hlive hlookup =>
    obtain ⟨pairs, h⟩ := h
    obtain ⟨hlt, tables, shared, hput, -⟩ := h.putBackLightFd_ok hentry
    have hindex : lightIndex (i : Int) .socket = (i : Nat) := rfl
    have hfd := socketEpollIndexToLightFd_eq (t := s.tables) hindex (hlt.trans (by decide))
    rw [(h.inverse i n).mpr hentry] at hfd
    simp [hlookup, hfd, hput, slot_natCast hi, Right, Call.descriptor,
      ownsSocket_iff hn, hi, hentry, hlive, pure, Except.pure, bind, Except.bind]
  | epoll e he hentry hlive hlookup =>
    obtain ⟨pairs, h⟩ := h
    obtain ⟨hlt, tables, shared, hput, -⟩ := h.putBackLightFd_ok hentry
    have hindex : lightIndex (e : Int) .epoll = (e + connectionPoolSize : Nat) := rfl
    have hfd := socketEpollIndexToLightFd_eq (t := s.tables) hindex (hlt.trans (by decide))
    rw [(h.inverse _ n).mpr hentry] at hfd
    simp [hlookup, hfd, hput, slot_natCast he, Right, Call.descriptor,
      Call.epollDescriptor, ownsEpoll_iff hn, he, hentry, hlive, pure,
      Except.pure, bind, Except.bind]

end

theorem resolve_safe_iff (h : Maps fds s) (c : Call) :
    SafeResult s c (resolve s r c) ↔ Suits s r c := by
  cases c with
  | send fd => exact useCopy_safe_iff h r (.send fd)
  | recv fd => exact useCopy_safe_iff h r (.recv fd)
  | writev fd iovcnt => exact vectored_safe_iff h (.writev fd iovcnt) iovcnt
  | readv fd iovcnt => exact vectored_safe_iff h (.readv fd iovcnt) iovcnt
  | ioctl fd request argp => exact lightIoctl_safe_iff h fd request argp
  | fcntl fd cmd => exact lightFcntl_safe_iff h fd cmd
  | setsockopt fd optval => exact lightSetsockopt_safe_iff h fd optval
  | shutdown fd => exact useSocket_safe_iff h (.shutdown fd)
  | epollCtl epfd op fd => exact lightEpollCtl_safe_iff h epfd op fd
  | close fd => exact lightClose_safe_iff h fd

def SoundWhileAlive (s : State) : Prop := s.fault = none → ∃ fds, Maps fds s

theorem step_soundWhileAlive {t : State} {a : Mapping.Action}
    (h : SoundWhileAlive s) (hstep : step s a = some t) : SoundWhileAlive t := by
  intro hfault
  have halive : s.fault = none := by
    cases hs : s.fault with
    | none => rfl
    | some f => simp [step, hs] at hstep
  obtain ⟨fds, hmaps⟩ := h halive
  rcases step_outcome hmaps hstep with ⟨-, hmaps, -⟩ | ⟨-, f, rfl⟩
  · exact ⟨fds, hmaps⟩
  · cases hfault

theorem soundWhileAlive_of_reachable (hreach : system.Reachable s) : SoundWhileAlive s := by
  refine hreach.invariant ?_ ?_
  · intro s hstart _
    exact maps_start hstart
  · intro s a t h hstep
    exact step_soundWhileAlive h hstep

/-- Every socket is its own copy. -/
def ownCopies : Routing := ⟨fun _ => 0, fun i _ => i⟩

end LightStack.Fd.Resolution
