import CodeBlocks.Kcp.Control.Queue

/-!
# Flushing

`ikcp_flush`: pending acknowledgements, window probes and the segments of
`snd_buf` that are due are packed behind the head room of one buffer, which is
handed to the output callback whenever the next segment would pass the MTU.
The four packing sites of the source test the same bound and share `FlushBuf.put`.
-/

namespace CodeBlocks.Kcp

/-- The output buffer during a flush: what follows the head room in every
datagram handed to the output callback so far, and the bytes encoded since. -/
structure FlushBuf where
  sent : List (List UInt8) := []
  body : List UInt8 := []
  deriving DecidableEq, Repr

/-- `ptr - buffer`. -/
def FlushBuf.size (b : FlushBuf) (kcp : IKCPCB) : Nat := kcp.headRoom.toNat + b.body.length

/-- `ikcp_output` of the buffer, which skips an empty one, and the reset of the cursor. -/
def FlushBuf.output (b : FlushBuf) (kcp : IKCPCB) : FlushBuf :=
  { sent := if b.size kcp = 0 then b.sent else b.sent ++ [b.body], body := [] }

/-- One packing site: make room for the head and the payload, then encode them. -/
def FlushBuf.put (kcp : IKCPCB) (b : FlushBuf) (seg : IKCPSEG) : FlushBuf :=
  let need := ikcpOverhead + seg.data.length
  let b := if b.size kcp + need > kcp.mtu.toNat then b.output kcp else b
  { b with body := b.body ++ seg.wire }

/-- The segment that `ikcp_flush` fills in for acknowledgements and probes. -/
def ikcpFlushSeg (kcp : IKCPCB) : IKCPSEG :=
  { conv := kcp.conv, cmd := ikcpCmdAck, frg := 0, wnd := ikcpWndUnused kcp,
    una := kcp.rcvNxt, sn := 0, ts := 0 }

/-- The acknowledgement segments, one for each entry of `acklist`. The source counts them with an
`int`, so this is its loop for fewer than `2 ^ 31` entries. -/
def ikcpAckSegs (kcp : IKCPCB) : List IKCPSEG :=
  kcp.acklist.map fun (sn, ts) => { ikcpFlushSeg kcp with sn := sn, ts := ts }

/-- The window probe timer of `ikcp_flush`. -/
def ikcpProbeTimer (kcp : IKCPCB) : IKCPCB :=
  if kcp.rmtWnd = 0 then
    if kcp.probeWait = 0 then
      { kcp with probeWait := ikcpProbeInit, tsProbe := kcp.current + ikcpProbeInit }
    else if itimediff kcp.current kcp.tsProbe ≥ 0 then
      let wait := if kcp.probeWait < ikcpProbeInit then ikcpProbeInit else kcp.probeWait
      let wait := wait + wait / 2
      let wait := if wait > ikcpProbeLimit then ikcpProbeLimit else wait
      { kcp with
        probeWait := wait, tsProbe := kcp.current + wait, probe := kcp.probe ||| ikcpAskSend }
    else kcp
  else { kcp with tsProbe := 0, probeWait := 0 }

/-- The probe commands whose bits are set. They reuse the segment of the
acknowledgements, so `sn` and `ts` are those of the last one. -/
def ikcpProbeSegs (kcp : IKCPCB) (acks : List IKCPSEG) (probe : UInt32) : List IKCPSEG :=
  let seg := acks.getLast?.getD (ikcpFlushSeg kcp)
  (if probe &&& ikcpAskSend ≠ 0 then [{ seg with cmd := ikcpCmdWask }] else []) ++
    (if probe &&& ikcpAskTell ≠ 0 then [{ seg with cmd := ikcpCmdWins }] else [])

/-- The loop that moves segments from `snd_queue` to `snd_buf` while the window is open. -/
def ikcpFillLoop (cwnd wnd current : UInt32) : List IKCPSEG → IKCPCB → IKCPCB
  | [], kcp => { kcp with sndQueue := [] }
  | newseg :: rest, kcp =>
    if itimediff kcp.sndNxt (kcp.sndUna + cwnd) < 0 then
      ikcpFillLoop cwnd wnd current rest { kcp with
        nsndQue := kcp.nsndQue - 1
        nsndBuf := kcp.nsndBuf + 1
        sndNxt := kcp.sndNxt + 1
        sndBuf := kcp.sndBuf ++ [{ newseg with
          conv := kcp.conv, cmd := ikcpCmdPush, wnd := wnd, ts := current, sn := kcp.sndNxt,
          una := kcp.rcvNxt, resendts := current, rto := kcp.rxRto.toUInt32, fastack := 0,
          xmit := 0 }] }
    else { kcp with sndQueue := newseg :: rest }

/-- Why a segment of `snd_buf` is sent, if it is. -/
inductive SendReason where
  | first
  | timeout
  | fast
  | none
  deriving DecidableEq, Repr

/-- The three tests of the data loop, in the order of the source. -/
def ikcpSendReason (kcp : IKCPCB) (current resent : UInt32) (segment : IKCPSEG) : SendReason :=
  if segment.xmit = 0 then .first
  else if itimediff current segment.resendts ≥ 0 then .timeout
  else if segment.fastack ≥ resent ∧
      (segment.xmit.toInt32 ≤ kcp.fastlimit ∨ kcp.fastlimit ≤ 0) then .fast
  else .none

/-- `needsend`. -/
def ikcpNeedsend (kcp : IKCPCB) (current resent : UInt32) (segment : IKCPSEG) : Bool :=
  decide (ikcpSendReason kcp current resent segment ≠ .none)

/-- The timer fields of a segment after the tests of the data loop. -/
def ikcpRearm (kcp : IKCPCB) (current rtomin : UInt32) (segment : IKCPSEG) :
    SendReason → IKCPSEG
  | .first =>
    { segment with
      xmit := segment.xmit + 1, rto := kcp.rxRto.toUInt32,
      resendts := current + kcp.rxRto.toUInt32 + rtomin }
  | .timeout =>
    let rto := if kcp.nodelay = 0 then segment.rto + imax segment.rto kcp.rxRto.toUInt32
      else
        let step := if kcp.nodelay < 2 then segment.rto.toInt32 else kcp.rxRto
        segment.rto + (step / 2).toUInt32
    { segment with xmit := segment.xmit + 1, rto := rto, resendts := current + rto }
  | .fast =>
    { segment with
      xmit := segment.xmit + 1, fastack := 0, resendts := current + segment.rto }
  | .none => segment

/-- The header fields written just before a segment is encoded. -/
def ikcpStamp (kcp : IKCPCB) (current wnd : UInt32) (segment : IKCPSEG) : IKCPSEG :=
  { segment with ts := current, wnd := wnd, una := kcp.rcvNxt }

/-- The variables of the data loop. -/
structure FlushState where
  buf : FlushBuf
  xmit : UInt32
  state : UInt32
  change : Bool
  lost : Bool
  waitTime : UInt32
  deriving DecidableEq, Repr

/-- One turn of the data loop. -/
def ikcpFlushSegment (kcp : IKCPCB) (current resent rtomin wnd : UInt32) (segment : IKCPSEG)
    (st : FlushState) : IKCPSEG × FlushState :=
  let reason := ikcpSendReason kcp current resent segment
  let segment := ikcpRearm kcp current rtomin segment reason
  let st := { st with
    xmit := if reason = SendReason.timeout then st.xmit + 1 else st.xmit
    lost := st.lost || decide (reason = SendReason.timeout)
    change := st.change || decide (reason = SendReason.fast) }
  let (segment, st) :=
    if reason = SendReason.none then (segment, st)
    else
      let segment := ikcpStamp kcp current wnd segment
      (segment, { st with
        buf := st.buf.put kcp segment
        state := if segment.xmit ≥ kcp.deadLink then 0xffffffff else st.state })
  let diff := itimediff segment.resendts current
  (segment, { st with
    waitTime := if diff > 0 ∧ diff < st.waitTime.toNat then UInt32.ofNat diff.toNat
      else st.waitTime })

/-- The data loop over `snd_buf`. -/
def ikcpFlushLoop (kcp : IKCPCB) (current resent rtomin wnd : UInt32) :
    List IKCPSEG → FlushState → List IKCPSEG × FlushState
  | [], st => ([], st)
  | segment :: rest, st =>
    let (segment, st) := ikcpFlushSegment kcp current resent rtomin wnd segment st
    let (rest, st) := ikcpFlushLoop kcp current resent rtomin wnd rest st
    (segment :: rest, st)

/-- The window of a flush. -/
def ikcpFlushWnd (kcp : IKCPCB) : UInt32 :=
  let cwnd := imin kcp.sndWnd kcp.rmtWnd
  if kcp.nocwnd = 0 then imin kcp.cwnd cwnd else cwnd

/-- The congestion state after a flush with fast resends or losses. -/
def ikcpFlushCwnd (kcp : IKCPCB) (change lost : Bool) (resent cwnd : UInt32) : IKCPCB :=
  let kcp := if change then
      let half := (kcp.sndNxt - kcp.sndUna) / 2
      let ssthresh := if half < ikcpThreshMin then ikcpThreshMin else half
      { kcp with
        ssthresh := ssthresh, cwnd := ssthresh + resent, incr := (ssthresh + resent) * kcp.mss }
    else kcp
  let kcp := if lost then
      let half := cwnd / 2
      { kcp with
        ssthresh := if half < ikcpThreshMin then ikcpThreshMin else half,
        cwnd := 1, incr := kcp.mss }
    else kcp
  if kcp.cwnd < 1 then { kcp with cwnd := 1, incr := kcp.mss } else kcp

/-- What a flush leaves: the control block, the datagrams in output order
without their head room, and the returned waiting time. -/
structure FlushResult where
  kcp : IKCPCB
  sent : List (List UInt8)
  waitTime : UInt32
  deriving DecidableEq, Repr

/-- The part of `ikcp_flush` before the data loop: acknowledgements and probes
are encoded, and `snd_buf` is filled up to the window. -/
def ikcpFlushHead (kcp : IKCPCB) (current : UInt32) : IKCPCB × FlushBuf :=
  let kcp := { kcp with current := current }
  let acks := ikcpAckSegs kcp
  let buf := acks.foldl (FlushBuf.put kcp) {}
  let wnd := ikcpWndUnused kcp
  let kcp := ikcpProbeTimer { kcp with acklist := [] }
  let buf := (ikcpProbeSegs kcp acks kcp.probe).foldl (FlushBuf.put kcp) buf
  let kcp := { kcp with probe := 0 }
  (ikcpFillLoop (ikcpFlushWnd kcp) wnd current kcp.sndQueue kcp, buf)

/-- The number of later acknowledgements that triggers a fast resend. -/
def ikcpResent (kcp : IKCPCB) : UInt32 :=
  if kcp.fastresend > 0 then kcp.fastresend.toUInt32 else 0xffffffff

/-- The delay added to a first timeout. -/
def ikcpRtomin (kcp : IKCPCB) : UInt32 :=
  if kcp.nodelay = 0 then (kcp.rxRto >>> 3).toUInt32 else 0

/-- `ikcp_flush`. -/
def ikcpFlush (kcp : IKCPCB) (current : UInt32) : FlushResult :=
  let wnd := ikcpWndUnused kcp
  let (kcp, buf) := ikcpFlushHead kcp current
  let (sndBuf, st) := ikcpFlushLoop kcp current (ikcpResent kcp) (ikcpRtomin kcp) wnd kcp.sndBuf
    { buf := buf, xmit := kcp.xmit, state := kcp.state, change := false, lost := false,
      waitTime := kcp.interval }
  let buf := if st.buf.size kcp > kcp.headRoom.toNat then st.buf.output kcp else st.buf
  let kcp := { kcp with sndBuf := sndBuf, xmit := st.xmit, state := st.state }
  { kcp := ikcpFlushCwnd kcp st.change st.lost (ikcpResent kcp) (ikcpFlushWnd kcp)
    sent := buf.sent
    waitTime := st.waitTime }

/-- `ikcp_can_send_ack`. -/
def ikcpCanSendAck (kcp : IKCPCB) : UInt32 :=
  if kcp.acklist.length ≤ 0 then 0
  else if kcp.nsndQue > 0 then 0
  else if kcp.nsndBuf > 0 then 0
  else 1

/-- `ikcp_flush_ack`: the control block after it and the datagrams without their head room. -/
def ikcpFlushAck (kcp : IKCPCB) : IKCPCB × List (List UInt8) :=
  if kcp.acklist.length ≤ 0 then (kcp, [])
  else
    let buf := (ikcpAckSegs kcp).foldl (FlushBuf.put kcp) {}
    let buf := if buf.size kcp > kcp.headRoom.toNat then buf.output kcp else buf
    ({ kcp with acklist := [] }, buf.sent)

end CodeBlocks.Kcp
