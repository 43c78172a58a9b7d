import CodeBlocks.Kcp.Control.State

/-!
# Writing to the send queue and reading from the receive queue

`ikcp_write` with its two modes, `ikcp_peeksize`, `ikcp_recv`, and
`ikcp_parse_data`, which stores a received segment in `rcv_buf` and moves what
has become contiguous to `rcv_queue`. Allocation succeeds, as the functions
themselves assert.
-/

namespace CodeBlocks.Kcp

/-- The fragment loop of `ikcp_write`: `count` segments of at most `mss` bytes,
numbered down to zero in message mode and all zero in stream mode. -/
def ikcpFragment (mss : Nat) (streamMode : Bool) : Nat → List UInt8 → List IKCPSEG
  | 0, _ => []
  | count + 1, buffer =>
    let size := if buffer.length > mss then mss else buffer.length
    { frg := if streamMode then 0 else UInt32.ofNat count, data := buffer.take size } ::
      ikcpFragment mss streamMode count (buffer.drop size)

/-- The tail-merging step of stream mode: the last queued segment is replaced by
one filled up to `mss` with `frg` zero, and the bytes not yet placed remain. -/
def ikcpExtendTail (mss : Nat) (queue : List IKCPSEG) (buffer : List UInt8) :
    List IKCPSEG × List UInt8 :=
  match queue.getLast? with
  | none => (queue, buffer)
  | some old =>
    if old.data.length < mss then
      let capacity := mss - old.data.length
      let extend := if buffer.length < capacity then buffer.length else capacity
      (queue.dropLast ++ [{ frg := 0, data := old.data ++ buffer.take extend }],
        buffer.drop extend)
    else (queue, buffer)

/-- Number of segments for the bytes that are left. -/
def ikcpFragmentCount (mss len : Nat) : Nat := if len ≤ mss then 1 else (len + mss - 1) / mss

/-- A length passed on as a C `int`. -/
def ikcpIntLen (data : List UInt8) : Int := (Int32.ofNat data.length).toInt

/-- Another send queue with its counter. -/
def IKCPCB.setSndQueue (kcp : IKCPCB) (queue : List IKCPSEG) (nsndQue : UInt32) : IKCPCB :=
  { kcp with sndQueue := queue, nsndQue := nsndQue }

/-- `ikcp_write`. A negative length is refused; `count` fragments are queued
one by one, each counted in `nsnd_que`. -/
def ikcpWrite (kcp : IKCPCB) (data : List UInt8) (alwaysStream : Bool) : Int × IKCPCB :=
  let len := ikcpIntLen data
  if len < 0 then (-1, kcp)
  else
    let mss := kcp.mss.toNat
    let buffer := data.take len.toNat
    let streamMode := decide (kcp.stream ≠ 0) || alwaysStream
    let (queue, buffer) :=
      if streamMode then ikcpExtendTail mss kcp.sndQueue buffer else (kcp.sndQueue, buffer)
    if streamMode ∧ buffer = [] then (0, kcp.setSndQueue queue kcp.nsndQue)
    else
      let count := ikcpFragmentCount mss buffer.length
      if !streamMode ∧ count ≥ ikcpWndRcv.toNat then (-2, kcp)
      else
        (0, kcp.setSndQueue (queue ++ ikcpFragment mss streamMode count buffer)
          (kcp.nsndQue + UInt32.ofNat count))

/-- `ikcp_send`. -/
def ikcpSend (kcp : IKCPCB) (data : List UInt8) : Int × IKCPCB := ikcpWrite kcp data false

/-- `ikcp_append`. -/
def ikcpAppend (kcp : IKCPCB) (data : List UInt8) : Int × IKCPCB := ikcpWrite kcp data true

/-- The merge loop of `ikcp_recv`: segments up to and including the first one
with `frg` zero, and the segments behind it. -/
def ikcpMessage : List IKCPSEG → List IKCPSEG × List IKCPSEG
  | [] => ([], [])
  | seg :: rest =>
    if seg.frg = 0 then ([seg], rest)
    else
      let (message, behind) := ikcpMessage rest
      (seg :: message, behind)

/-- The payloads of a run of segments, one after the other. -/
def payload (segs : List IKCPSEG) : List UInt8 := segs.flatMap IKCPSEG.data

/-- `ikcp_peeksize`; the sum of the lengths is a C `int`. -/
def ikcpPeeksize (kcp : IKCPCB) : Int :=
  match kcp.rcvQueue with
  | [] => -1
  | seg :: _ =>
    if seg.frg = 0 then seg.len.toInt32.toInt
    else if kcp.nrcvQue < seg.frg + 1 then -1
    else ikcpIntLen (payload (ikcpMessage kcp.rcvQueue).1)

/-- The loop that moves contiguous segments from `rcv_buf` to `rcv_queue`. -/
def ikcpMoveLoop : List IKCPSEG → IKCPCB → IKCPCB
  | [], kcp => { kcp with rcvBuf := [] }
  | seg :: rest, kcp =>
    if seg.sn = kcp.rcvNxt ∧ kcp.nrcvQue < kcp.rcvWnd then
      ikcpMoveLoop rest { kcp with
        nrcvBuf := kcp.nrcvBuf - 1
        rcvQueue := kcp.rcvQueue ++ [seg]
        nrcvQue := kcp.nrcvQue + 1
        rcvNxt := kcp.rcvNxt + 1 }
    else { kcp with rcvBuf := seg :: rest }

/-- Move available data from `rcv_buf` to `rcv_queue`. -/
def ikcpMove (kcp : IKCPCB) : IKCPCB := ikcpMoveLoop kcp.rcvBuf kcp

/-- The merge loop of `ikcp_recv` takes the first message off the queue. -/
def ikcpDeliver (kcp : IKCPCB) : IKCPCB :=
  { kcp with
    rcvQueue := (ikcpMessage kcp.rcvQueue).2
    nrcvQue := kcp.nrcvQue - UInt32.ofNat (ikcpMessage kcp.rcvQueue).1.length }

/-- Fast recovery: a window that was full and is open again is announced. -/
def ikcpRecover (kcp : IKCPCB) (recover : Bool) : IKCPCB :=
  if kcp.nrcvQue < kcp.rcvWnd ∧ recover then { kcp with probe := kcp.probe ||| ikcpAskTell }
  else kcp

/-- What `ikcp_recv` leaves: its return value, the bytes copied out, the control
block, and whether its assertion on the length held. -/
structure RecvResult where
  rc : Int
  bytes : List UInt8
  kcp : IKCPCB
  asserted : Bool
  deriving DecidableEq, Repr

/-- `ikcp_recv` into a buffer of `len` bytes; a negative `len` peeks, without
taking the message off the queue. -/
def ikcpRecv (kcp : IKCPCB) (len : Int32) : RecvResult :=
  let room := if len < 0 then -len else len
  let peeksize := ikcpPeeksize kcp
  if kcp.rcvQueue = [] then ⟨-1, [], kcp, true⟩
  else if peeksize < 0 then ⟨-2, [], kcp, true⟩
  else if peeksize > room.toInt then ⟨-3, [], kcp, true⟩
  else
    let recover := decide (kcp.nrcvQue ≥ kcp.rcvWnd)
    let bytes := payload (ikcpMessage kcp.rcvQueue).1
    let size := ikcpIntLen bytes
    let kcp := if len < 0 then kcp else ikcpDeliver kcp
    ⟨size, bytes, ikcpRecover (ikcpMove kcp) recover, decide (size = peeksize)⟩

/-- The backward scan of `ikcp_parse_data` over the reversed `rcv_buf`: `none`
for a repeated number, else the buffer with the segment in its place. -/
def ikcpInsert (newseg : IKCPSEG) : List IKCPSEG → Option (List IKCPSEG)
  | [] => some [newseg]
  | seg :: prev =>
    if seg.sn = newseg.sn then none
    else if itimediff newseg.sn seg.sn > 0 then some (newseg :: seg :: prev)
    else (ikcpInsert newseg prev).map (seg :: ·)

/-- One more segment in `rcv_buf`. -/
def ikcpStore (kcp : IKCPCB) (buf : List IKCPSEG) : IKCPCB :=
  { kcp with rcvBuf := buf, nrcvBuf := kcp.nrcvBuf + 1 }

/-- `ikcp_parse_data`. -/
def ikcpParseData (kcp : IKCPCB) (newseg : IKCPSEG) : IKCPCB :=
  if itimediff newseg.sn (kcp.rcvNxt + kcp.rcvWnd) ≥ 0 ∨ itimediff newseg.sn kcp.rcvNxt < 0 then
    kcp
  else
    match ikcpInsert newseg kcp.rcvBuf.reverse with
    | none => ikcpMove kcp
    | some buf => ikcpMove (ikcpStore kcp buf.reverse)

end CodeBlocks.Kcp
