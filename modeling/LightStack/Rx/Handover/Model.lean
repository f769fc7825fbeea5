import LightStack.Mbuf

/-!
# From a received frame to the chain of `tcp_recvmsg`

IP trims the `sk_buff`, but the mbuf changes only when the payload is handed over. Received sk_buffs
are linear.
-/

namespace LightStack.Rx.Handover

open Function

abbrev Heap := Nat → Mbuf

/-! ## Received frames -/

structure Frame where
  mbuf : Mbuf
  ipHeaderLen : Nat
  tcpHeaderLen : Nat
  totLen : Nat

def vlanTagged (m : Mbuf) : Bool := (m.read 14).drop 12 = [0x81, 0x00]

def Frame.linkLen (f : Frame) : Nat := if vlanTagged f.mbuf then 18 else 14

def Frame.payloadStart (f : Frame) : Nat :=
  f.mbuf.dataOff + f.linkLen + f.ipHeaderLen + f.tcpHeaderLen

def Frame.payloadLen (f : Frame) : Nat := f.totLen - f.ipHeaderLen - f.tcpHeaderLen

def Frame.payload (f : Frame) : List UInt8 := (f.mbuf.buf.drop f.payloadStart).take f.payloadLen

def Frame.padding (f : Frame) : Nat := f.mbuf.dataLen - f.linkLen - f.totLen

@[mk_iff]
structure Frame.WellFormed (f : Frame) : Prop where
  within : f.mbuf.dataOff + f.mbuf.dataLen ≤ f.mbuf.buf.length
  small : f.mbuf.buf.length < 2 ^ 16
  complete : f.linkLen + f.totLen ≤ f.mbuf.dataLen
  headers : f.ipHeaderLen + f.tcpHeaderLen ≤ f.totLen

instance (f : Frame) : Decidable f.WellFormed := decidable_of_iff' _ (Frame.wellFormed_iff f)

structure SkBuff where
  headerMbuf : Nat
  head : Nat
  data : Nat
  len : Nat
  /-- The size that `SKB_TRUESIZE` adds the structures to. -/
  size : Nat
  seq : Nat
  endSeq : Nat
  syn : Bool
  fin : Bool

def SkBuff.pull (skb : SkBuff) (n : Nat) : SkBuff :=
  { skb with data := skb.data + n, len := skb.len - n }

def SkBuff.trim (skb : SkBuff) (n : Nat) : SkBuff :=
  { skb with len := min skb.len n }

def moveAddresses (m : Mbuf) : List UInt8 :=
  m.buf.take (m.dataOff + 4) ++ m.read 12 ++ m.buf.drop (m.dataOff + 16)

def rxConstructSkb (heap : Heap) (id seq : Nat) (fin : Bool) : Heap × SkBuff :=
  let m := heap id
  let skb : SkBuff :=
    ⟨id, m.dataOff, m.dataOff, m.dataLen, m.dataLen, seq, seq, false, fin⟩
  if vlanTagged m then
    (update heap id { m with buf := moveAddresses m },
      { skb with data := m.dataOff + 4, len := skb.len - 4 })
  else (heap, skb)

def ipInput (skb : SkBuff) (f : Frame) : SkBuff := ((skb.pull 14).trim f.totLen).pull f.ipHeaderLen

structure Iovec where
  segs : List Nat
  len : Nat

def adj (m : Mbuf) (len : Int) : Option Mbuf :=
  let len := toUInt16 len
  if m.dataLen < len then none
  else some { m with
    dataLen := m.dataLen - len
    dataOff := m.dataOff + len
    pktLen := toUInt32 (m.pktLen - len) }

def memcpyToiovec (heap : Heap) (iov : Iovec) (id offset len : Nat) : Option (Heap × Iovec) :=
  match adj (heap id) offset with
  | none => none
  | some m =>
    match iov.segs with
    | [] => some (update heap id { m with pktLen := m.dataLen }, ⟨[id], iov.len + len⟩)
    | head :: rest =>
      let heap := update heap id m
      if (head :: rest).getLast? = some id then
        some (heap, ⟨head :: rest, iov.len + len⟩)
      else
        some (update heap head { heap head with
            pktLen := toUInt32 ((heap head).pktLen + m.dataLen) },
          ⟨head :: rest ++ [id], iov.len + len⟩)

def skbCopyDatagramIovec (heap : Heap) (iov : Iovec) (skb : SkBuff)
    (offset len : Nat) : Option (Heap × Iovec × SkBuff) :=
  let m := heap skb.headerMbuf
  match adj m (skb.data - m.dataOff) with
  | none => none
  | some m =>
    let heap := update heap skb.headerMbuf m
    if offset < skb.len then
      let copy := min (skb.len - offset) len
      match memcpyToiovec heap iov skb.headerMbuf offset copy with
      | none => none
      | some (heap, iov) =>
        if copy = len then
          some (heap, iov, { skb with data := skb.data + copy })
        else none
    else if len = 0 then some (heap, iov, skb) else none

structure Conn where
  heap : Heap
  nextId : Nat
  queue : List SkBuff
  ucopy : Iovec
  copiedSeq : Nat
  rcvNxt : Nat
  urgSeq : Option Nat
  urgInline : Bool

def seqSub (a b : Nat) : Nat := (a + 2 ^ 32 - b) % 2 ^ 32

def seqAdd (a n : Nat) : Nat := (a + n) % 2 ^ 32

def before (a b : Nat) : Bool := 2 ^ 31 ≤ seqSub a b

/-! ## Collapsing the receive queue -/

/-- What `tcp_try_rmem_schedule` meets when the receive buffer is over its limit: the sizes of
`struct sk_buff` and its shared info, how many sk_buffs can be allocated, and whether the frame is
dropped in the end. -/
structure Pressure where
  skbSize : Nat
  shinfoSize : Nat
  allocs : Nat
  drops : Bool

def tcpWinFromSpace (space : Nat) : Nat := space - space / 2

def Pressure.bloated (p : Pressure) (skb : SkBuff) : Bool :=
  skb.len < tcpWinFromSpace (skb.size + p.skbSize + p.shinfoSize)

/-- The sk_buffs before the point where collapsing is useful, and those from there on. -/
def collapsePoint (p : Pressure) (start : Nat) : List SkBuff → List SkBuff × Nat × List SkBuff
  | [] => ([], start, [])
  | skb :: rest =>
    if !before start skb.endSeq then collapsePoint p start rest
    else if !skb.syn && !skb.fin && (p.bloated skb || before skb.seq start) ||
        rest.head?.any (fun next => skb.endSeq ≠ next.seq) then ([], start, skb :: rest)
    else
      let r := collapsePoint p skb.endSeq rest
      (skb :: r.1, r.2)

/-- How far one new sk_buff reaches, what is left of the queue, and whether another one follows.
`skb_copy_bits` copies nothing from an sk_buff without fragments. -/
def collapseInto (start copy : Nat) : List SkBuff → Nat × List SkBuff × Bool
  | [] => (start, [], false)
  | skb :: rest =>
    let size := if before start skb.endSeq then min copy (seqSub skb.endSeq start) else 0
    let start := seqAdd start size
    if before start skb.endSeq then (start, skb :: rest, true)
    else match rest with
      | [] => (start, [], false)
      | next :: _ =>
        if next.syn || next.fin then (start, rest, false)
        else if copy = size then (start, rest, true)
        else collapseInto start (copy - size) rest

def collapseLoop (p : Pressure) (stop : Nat) : Nat → Nat → Nat → List SkBuff → List SkBuff
  | 0, _, _, queue => queue
  | allocs + 1, id, start, queue =>
    match queue with
    | [] => []
    | skb :: _ =>
      let header := skb.data - skb.head
      if !before start stop || decide (4096 < header + p.shinfoSize) then queue
      else
        let copy := min (4096 - header - p.shinfoSize) (seqSub stop start)
        let r := collapseInto start copy queue
        -- the header is copied, with its flags, but `len` stays 0
        ⟨id, 0, header, 0, allocSkb (copy + header), start, r.1, skb.syn, skb.fin⟩ ::
          if r.2.2 then collapseLoop p stop allocs (id + 1) r.1 r.2.1 else r.2.1

def tcpCollapse (p : Pressure) (id start stop : Nat) (queue : List SkBuff) : List SkBuff :=
  let r := collapsePoint p start queue
  match r.2.2 with
  | [] => r.1
  | skb :: rest =>
    if skb.syn || skb.fin then r.1 ++ skb :: rest
    else r.1 ++ collapseLoop p stop p.allocs id r.2.1 (skb :: rest)

def tcpPruneQueue (c : Conn) (p : Pressure) : Conn :=
  { c with
    queue := tcpCollapse p c.nextId c.copiedSeq c.rcvNxt c.queue
    nextId := c.nextId + p.allocs }

/-! ## Receiving a segment -/

inductive Path where
  | fast (room : Bool)
  | slow (pressure : Option Pressure)

def directCopy (c : Conn) (skb : SkBuff) (tcpHeaderLen : Nat) (path : Path) :
    Option (Heap × Iovec × SkBuff) :=
  if skb.seq = c.rcvNxt ∧ c.copiedSeq = c.rcvNxt ∧ c.urgSeq = none then
    match path with
    | .fast true => skbCopyDatagramIovec c.heap c.ucopy skb tcpHeaderLen (skb.len - tcpHeaderLen)
    | .fast false => none
    | .slow _ =>
      skbCopyDatagramIovec c.heap c.ucopy (skb.pull tcpHeaderLen) 0 (skb.len - tcpHeaderLen)
  else none

def tcpQueueRcv (c : Conn) (skb : SkBuff) (tcpHeaderLen : Nat) : Conn :=
  { c with queue := c.queue ++ [skb.pull tcpHeaderLen], rcvNxt := skb.endSeq }

def queueOrDrop (c : Conn) (skb : SkBuff) (tcpHeaderLen : Nat) : Path → Conn
  | .slow (some p) =>
    let c := tcpPruneQueue c p
    if p.drops then c else tcpQueueRcv c skb tcpHeaderLen
  | .slow none | .fast _ => tcpQueueRcv c skb tcpHeaderLen

def tcpV4Rcv (skb : SkBuff) (tcpHeaderLen : Nat) : SkBuff :=
  { skb with endSeq := seqAdd skb.seq (skb.len - tcpHeaderLen + if skb.fin then 1 else 0) }

def tcpReceive (c : Conn) (skb : SkBuff) (tcpHeaderLen : Nat) (path : Path) : Conn :=
  -- pure acknowledgements and retransmissions are dropped
  if !before c.rcvNxt skb.endSeq then c
  else match directCopy c skb tcpHeaderLen path with
    | some (heap, iov, _) =>
      { c with
        heap := heap
        ucopy := iov
        copiedSeq := seqAdd c.copiedSeq (skb.len - tcpHeaderLen)
        rcvNxt := skb.endSeq }
    | none => queueOrDrop c skb tcpHeaderLen path

def receive (c : Conn) (f : Frame) (seq : Nat) (fin : Bool) (path : Path) : Conn :=
  let id := c.nextId
  let r := rxConstructSkb (update c.heap id f.mbuf) id seq fin
  tcpReceive { c with heap := r.1, nextId := id + 1 }
    (tcpV4Rcv (ipInput r.2 f) f.tcpHeaderLen) f.tcpHeaderLen path

inductive Found where
  | nothing
  | data (passed : List SkBuff) (skb : SkBuff) (offset : Nat) (rest : List SkBuff)
  | fin (passed rest : List SkBuff)

def findSkb (seq : Nat) (passed : List SkBuff) : List SkBuff → Found
  | [] => .nothing
  | skb :: rest =>
    if before seq skb.seq then .nothing
    else
      let offset := seqSub seq skb.seq
      let offset := if skb.syn then seqSub offset 1 else offset
      if offset < skb.len then .data passed skb offset rest
      else if skb.fin then .fin passed rest
      else findSkb seq (passed ++ [skb]) rest

def urgentRange (c : Conn) (offset used : Nat) : Nat × Nat × Nat :=
  match c.urgSeq with
  | none => (c.copiedSeq, offset, used)
  | some urgSeq =>
    let urgOffset := seqSub urgSeq c.copiedSeq
    if urgOffset < used then
      if urgOffset = 0 then
        if c.urgInline then (c.copiedSeq, offset, used)
        else (seqAdd c.copiedSeq 1, offset + 1, used - 1)
      else (c.copiedSeq, offset, urgOffset)
    else (c.copiedSeq, offset, used)

def passUrgent (c : Conn) : Conn :=
  match c.urgSeq with
  | none => c
  | some urgSeq =>
    if before urgSeq c.copiedSeq then { c with urgSeq := none } else c

def afterCopy (c : Conn) (passed : List SkBuff) (skb : SkBuff)
    (rest : List SkBuff) (offset used : Nat) : Conn × Bool :=
  let c := passUrgent c
  if used + offset < skb.len then
    ({ c with queue := passed ++ skb :: rest }, true)
  else if skb.fin then
    ({ c with queue := passed ++ rest, copiedSeq := seqAdd c.copiedSeq 1 }, false)
  else ({ c with queue := passed ++ rest }, true)

def recvIteration (c : Conn) (copied : Bool) : Conn × Bool :=
  if c.urgSeq = some c.copiedSeq ∧ copied then (c, false)
  else
    match findSkb c.copiedSeq [] c.queue with
    | .nothing => (c, false)
    | .fin passed rest =>
      ({ c with queue := passed ++ rest, copiedSeq := seqAdd c.copiedSeq 1 }, false)
    | .data passed skb offset rest =>
      let used := min (skb.len - offset) (c.heap skb.headerMbuf).dataLen
      if used = 0 then (c, false)
      else
        let r := urgentRange c offset used
        let c := { c with copiedSeq := r.1 }
        if r.2.2 = 0 then afterCopy c passed skb rest r.2.1 0
        else
          match skbCopyDatagramIovec c.heap c.ucopy skb r.2.1 r.2.2 with
          | none => (c, false)
          | some (heap, iov, skb) =>
            afterCopy { c with
                heap := heap
                ucopy := iov
                copiedSeq := seqAdd c.copiedSeq r.2.2 }
              passed skb rest r.2.1 r.2.2

def recvLoop (copied : Bool) : Nat → Conn → Conn
  | 0, c => c
  | fuel + 1, c =>
    let r := recvIteration c copied
    if r.2 then recvLoop true fuel r.1 else r.1

def recvFuel (queue : List SkBuff) : Nat := (queue.map fun skb => skb.len + 1).sum + 1

structure Handed where
  heap : Heap
  iov : Iovec

def tcpRecvmsg (c : Conn) : Handed × Conn :=
  let c := if c.queue = [] then c else recvLoop false (recvFuel c.queue) c
  (⟨c.heap, c.ucopy⟩, { c with ucopy := ⟨[], 0⟩ })

def Conn.start (isn : Nat) : Conn :=
  { heap := fun _ => ⟨[], 0, 0, 0⟩, nextId := 0, queue := [],
    ucopy := ⟨[], 0⟩, copiedSeq := isn, rcvNxt := isn, urgSeq := none,
    urgInline := false }

/-- A frame that begins `overlap` bytes before what is expected next. -/
structure Arrival where
  frame : Frame
  overlap : Nat
  fin : Bool
  path : Path
  wellFormed : frame.WellFormed
  recent : overlap < 2 ^ 31

def Arrival.unconsumed (a : Arrival) : List UInt8 := a.frame.payload.drop a.overlap

def Arrival.newLen (a : Arrival) : Nat := a.frame.payloadLen - a.overlap

/-- The frame has data or a `FIN` that was not received before. -/
def Arrival.isNew (a : Arrival) : Bool :=
  decide (a.overlap < a.frame.payloadLen + if a.fin then 1 else 0)

/-- The frame does not find the receive buffer over its limit. -/
def Arrival.fits (a : Arrival) : Bool :=
  match a.path with
  | .slow (some _) => false
  | .slow none | .fast _ => true

def receiveArrival (c : Conn) (a : Arrival) : Conn :=
  receive c a.frame (seqSub c.rcvNxt a.overlap) a.fin a.path

def receiveAll (c : Conn) (as : List Arrival) : Conn := as.foldl receiveArrival c

def recvRounds (c : Conn) : List (List Arrival) → List Handed
  | [] => []
  | as :: rounds =>
    let r := tcpRecvmsg (receiveAll c as)
    r.1 :: recvRounds r.2 rounds

def FinLast : List Arrival → Prop
  | [] => True
  | a :: as => (a.fin = true → ∀ b ∈ as, b.isNew = false) ∧ FinLast as

end LightStack.Rx.Handover
