import CodeBlocks.Kcp.Control.Queue

/-!
# Processing a datagram

`ikcp_input`: every segment of a datagram takes effect as soon as it is read,
and a later segment that is refused ends the call without undoing the earlier
ones. Fast-ack counting and the congestion window are updated only after a
datagram was read to its end.
-/

namespace CodeBlocks.Kcp

/-- `ikcp_update_ack`. Products and sums of `int` operands wrap at 32 bits;
`delta` is a C `long`. -/
def ikcpUpdateAck (kcp : IKCPCB) (rtt : Int32) : IKCPCB :=
  let (srtt, rttval) :=
    if kcp.rxSrtt = 0 then (rtt, rtt / 2)
    else
      let delta : Int := ((rtt - kcp.rxSrtt).toInt.natAbs : Int)
      let rttval := Int32.ofInt (((3 * kcp.rxRttval).toInt + delta).tdiv 4)
      let srtt := (7 * kcp.rxSrtt + rtt) / 8
      (if srtt < 1 then 1 else srtt, rttval)
  let rto := srtt.toUInt32 + imax kcp.interval (4 * rttval).toUInt32
  { kcp with
    rxSrtt := srtt, rxRttval := rttval,
    rxRto := (ibound kcp.rxMinrto.toUInt32 rto ikcpRtoMax).toInt32 }

/-- `ikcp_shrink_buf`. -/
def ikcpShrinkBuf (kcp : IKCPCB) : IKCPCB :=
  match kcp.sndBuf with
  | seg :: _ => { kcp with sndUna := seg.sn }
  | [] => { kcp with sndUna := kcp.sndNxt }

/-- The loop of `ikcp_parse_ack` with the buffer counter. -/
def ikcpParseAckLoop (sn : UInt32) : List IKCPSEG → UInt32 → List IKCPSEG × UInt32
  | [], nsndBuf => ([], nsndBuf)
  | seg :: rest, nsndBuf =>
    if sn = seg.sn then (rest, nsndBuf - 1)
    else if itimediff sn seg.sn < 0 then (seg :: rest, nsndBuf)
    else
      let (rest, nsndBuf) := ikcpParseAckLoop sn rest nsndBuf
      (seg :: rest, nsndBuf)

/-- `ikcp_parse_ack`. -/
def ikcpParseAck (kcp : IKCPCB) (sn : UInt32) : IKCPCB :=
  if itimediff sn kcp.sndUna < 0 ∨ itimediff sn kcp.sndNxt ≥ 0 then kcp
  else
    let (sndBuf, nsndBuf) := ikcpParseAckLoop sn kcp.sndBuf kcp.nsndBuf
    { kcp with sndBuf := sndBuf, nsndBuf := nsndBuf }

/-- The loop of `ikcp_parse_una` with the buffer counter. -/
def ikcpParseUnaLoop (una : UInt32) : List IKCPSEG → UInt32 → List IKCPSEG × UInt32
  | [], nsndBuf => ([], nsndBuf)
  | seg :: rest, nsndBuf =>
    if itimediff una seg.sn > 0 then ikcpParseUnaLoop una rest (nsndBuf - 1)
    else (seg :: rest, nsndBuf)

/-- `ikcp_parse_una`. -/
def ikcpParseUna (kcp : IKCPCB) (una : UInt32) : IKCPCB :=
  let (sndBuf, nsndBuf) := ikcpParseUnaLoop una kcp.sndBuf kcp.nsndBuf
  { kcp with sndBuf := sndBuf, nsndBuf := nsndBuf }

/-- The loop of `ikcp_parse_fastack` (without `IKCP_FASTACK_CONSERVE`). -/
def ikcpFastackLoop (sn : UInt32) : List IKCPSEG → List IKCPSEG
  | [] => []
  | seg :: rest =>
    if itimediff sn seg.sn < 0 then seg :: rest
    else if sn ≠ seg.sn then { seg with fastack := seg.fastack + 1 } :: ikcpFastackLoop sn rest
    else seg :: ikcpFastackLoop sn rest

/-- `ikcp_parse_fastack`. -/
def ikcpParseFastack (kcp : IKCPCB) (sn : UInt32) : IKCPCB :=
  if itimediff sn kcp.sndUna < 0 ∨ itimediff sn kcp.sndNxt ≥ 0 then kcp
  else { kcp with sndBuf := ikcpFastackLoop sn kcp.sndBuf }

/-- `ikcp_ack_push`. -/
def ikcpAckPush (kcp : IKCPCB) (sn ts : UInt32) : IKCPCB :=
  { kcp with acklist := kcp.acklist ++ [(sn, ts)] }

/-- The control block with the loop variables of `ikcp_input`: `maxack` is
`none` while `flag` is zero. -/
structure InputState where
  kcp : IKCPCB
  maxack : Option UInt32
  deriving DecidableEq, Repr

/-- The branch of `ikcp_input` for `IKCP_CMD_ACK`. -/
def ikcpInputAck (st : InputState) (seg : IKCPSEG) : InputState :=
  let kcp := if itimediff st.kcp.current seg.ts ≥ 0 then
      ikcpUpdateAck st.kcp (st.kcp.current - seg.ts).toInt32
    else st.kcp
  let kcp := ikcpShrinkBuf (ikcpParseAck kcp seg.sn)
  match st.maxack with
  | none => ⟨kcp, some seg.sn⟩
  | some maxack => ⟨kcp, some (if itimediff seg.sn maxack > 0 then seg.sn else maxack)⟩

/-- The branch of `ikcp_input` for `IKCP_CMD_PUSH`. -/
def ikcpInputPush (kcp : IKCPCB) (seg : IKCPSEG) : IKCPCB :=
  if itimediff seg.sn (kcp.rcvNxt + kcp.rcvWnd) < 0 then
    let kcp := ikcpAckPush kcp seg.sn seg.ts
    if itimediff seg.sn kcp.rcvNxt ≥ 0 then ikcpParseData kcp seg else kcp
  else kcp

/-- What every accepted segment does: its window and its `una` take effect. -/
def ikcpInputCommon (kcp : IKCPCB) (seg : IKCPSEG) : IKCPCB :=
  ikcpShrinkBuf (ikcpParseUna { kcp with rmtWnd := seg.wnd } seg.una)

/-- The effect of one accepted segment. -/
def ikcpInputSeg (st : InputState) (seg : IKCPSEG) : InputState :=
  let kcp := ikcpInputCommon st.kcp seg
  if seg.cmd = ikcpCmdAck then ikcpInputAck ⟨kcp, st.maxack⟩ seg
  else if seg.cmd = ikcpCmdPush then ⟨ikcpInputPush kcp seg, st.maxack⟩
  else if seg.cmd = ikcpCmdWask then
    ⟨{ kcp with probe := kcp.probe ||| ikcpAskTell }, st.maxack⟩
  else ⟨kcp, st.maxack⟩

/-- The loop of `ikcp_input`: its return code and the state it leaves. Every
turn consumes a segment head, so the length of the data bounds the turns. -/
def ikcpInputLoop : Nat → InputState → List UInt8 → Int × InputState
  | 0, st, _ => (0, st)
  | fuel + 1, st, data =>
    if data.length < ikcpOverhead then (0, st)
    else
      match ikcpReadSeg st.kcp.conv data with
      | .error rc => (rc, st)
      | .ok (seg, rest) => ikcpInputLoop fuel (ikcpInputSeg st seg) rest

/-- The congestion window update that ends `ikcp_input`. -/
def ikcpUpdateCwnd (kcp : IKCPCB) (prevUna : UInt32) : IKCPCB :=
  if itimediff kcp.sndUna prevUna > 0 ∧ kcp.cwnd < kcp.rmtWnd then
    let mss := kcp.mss
    let (cwnd, incr) :=
      if kcp.cwnd < kcp.ssthresh then (kcp.cwnd + 1, kcp.incr + mss)
      else
        let incr := if kcp.incr < mss then mss else kcp.incr
        let incr := incr + (mss * mss / incr + mss / 16)
        (if (kcp.cwnd + 1) * mss ≤ incr then (incr + mss - 1) / (if mss > 0 then mss else 1)
          else kcp.cwnd, incr)
    if cwnd > kcp.rmtWnd then { kcp with cwnd := kcp.rmtWnd, incr := kcp.rmtWnd * mss }
    else { kcp with cwnd := cwnd, incr := incr }
  else kcp

/-- What `ikcp_input` does once the datagram is read to its end. -/
def ikcpInputEnd (st : InputState) (prevUna : UInt32) : IKCPCB :=
  let kcp := match st.maxack with
    | none => st.kcp
    | some maxack => ikcpParseFastack st.kcp maxack
  ikcpUpdateCwnd kcp prevUna

/-- `ikcp_input`; the size is a C `long` and is cut to an `int` by the first test. -/
def ikcpInput (kcp : IKCPCB) (data : List UInt8) : Int × IKCPCB :=
  if ikcpIntLen data < ikcpOverhead then (-1, kcp)
  else
    let (rc, st) := ikcpInputLoop data.length ⟨kcp, none⟩ data
    if rc < 0 then (rc, st.kcp) else (0, ikcpInputEnd st kcp.sndUna)

end CodeBlocks.Kcp
