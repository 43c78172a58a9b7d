import CodeBlocks.Kcp.Control.Segment

/-!
# The control block

`IKCPCB` with the fields that the functions used by `KCPSession` read or write,
its constructor and its setters, and the window queries. The four queues are
lists in queue order, kept beside the 32-bit counters the code maintains for
them; `acklist` is the list of its `ackcount` live entries, of which there are
fewer than `2 ^ 31`.
-/

namespace CodeBlocks.Kcp

/-- `struct IKCPCB`. -/
structure IKCPCB where
  conv : UInt32
  mtu : UInt32
  mss : UInt32
  state : UInt32
  headRoom : UInt32
  sndUna : UInt32
  sndNxt : UInt32
  rcvNxt : UInt32
  ssthresh : UInt32
  rxRttval : Int32
  rxSrtt : Int32
  rxRto : Int32
  rxMinrto : Int32
  sndWnd : UInt32
  sndHghwat : UInt32
  rcvWnd : UInt32
  rmtWnd : UInt32
  cwnd : UInt32
  probe : UInt32
  current : UInt32
  interval : UInt32
  xmit : UInt32
  nrcvBuf : UInt32
  nsndBuf : UInt32
  nrcvQue : UInt32
  nsndQue : UInt32
  nodelay : UInt32
  tsProbe : UInt32
  probeWait : UInt32
  deadLink : UInt32
  incr : UInt32
  sndQueue : List IKCPSEG
  rcvQueue : List IKCPSEG
  sndBuf : List IKCPSEG
  rcvBuf : List IKCPSEG
  acklist : List (UInt32 × UInt32)
  fastresend : Int32
  fastlimit : Int32
  nocwnd : Int32
  stream : Int32
  deriving DecidableEq, Repr

/-- `ikcp_create`. -/
def ikcpCreate (conv : UInt32) : IKCPCB where
  conv := conv
  sndUna := 0
  sndNxt := 0
  rcvNxt := 0
  tsProbe := 0
  probeWait := 0
  sndWnd := ikcpWndSnd
  rcvWnd := ikcpWndRcv
  rmtWnd := ikcpWndRcv
  sndHghwat := ikcpSndHghwat
  probe := 0
  mtu := ikcpMtuDef
  mss := ikcpMtuDef - UInt32.ofNat ikcpOverhead
  headRoom := 0
  cwnd := 1
  incr := ikcpMtuDef - UInt32.ofNat ikcpOverhead
  stream := 0
  sndQueue := []
  rcvQueue := []
  sndBuf := []
  rcvBuf := []
  nrcvBuf := 0
  nsndBuf := 0
  nrcvQue := 0
  nsndQue := 0
  state := 0
  acklist := []
  rxSrtt := 0
  rxRttval := 0
  rxRto := ikcpRtoDef.toInt32
  rxMinrto := ikcpRtoMin.toInt32
  current := 0
  interval := ikcpInterval
  nodelay := 0
  ssthresh := ikcpThreshInit
  fastresend := 0
  fastlimit := ikcpFastackLimit
  nocwnd := 0
  xmit := 0
  deadLink := ikcpDeadlink

/-- `ikcp_stream`. -/
def ikcpStream (kcp : IKCPCB) (stream : Int32) : IKCPCB :=
  { kcp with stream := if stream ≠ 0 then 1 else 0 }

/-- `ikcp_wndsize`. -/
def ikcpWndsize (kcp : IKCPCB) (sndwnd rcvwnd : Int32) : IKCPCB :=
  { kcp with
    sndWnd := if sndwnd > 0 then sndwnd.toUInt32 else kcp.sndWnd
    rcvWnd := if rcvwnd > 0 then imax rcvwnd.toUInt32 ikcpWndRcv else kcp.rcvWnd }

/-- `ikcp_setmtu`; allocating the new buffer succeeds. -/
def ikcpSetmtu (kcp : IKCPCB) (mtu : Int32) : Int × IKCPCB :=
  if mtu < 50 ∨ mtu < Int32.ofNat ikcpOverhead then (-1, kcp)
  else if mtu < kcp.headRoom.toInt32 then (-2, kcp)
  else
    let mss := mtu.toUInt32 - kcp.headRoom - UInt32.ofNat ikcpOverhead
    (0, { kcp with
      mtu := mtu.toUInt32, mss := mss, incr := if kcp.incr = 0 then mss else kcp.incr })

/-- `ikcp_set_head_room`. -/
def ikcpSetHeadRoom (kcp : IKCPCB) (headRoom : UInt32) : Int × IKCPCB :=
  if headRoom ≥ kcp.mss then (-1, kcp)
  else (0, { kcp with headRoom := headRoom, mss := kcp.mss - headRoom })

/-- `ikcp_set_snd_hghwat`. -/
def ikcpSetSndHghwat (kcp : IKCPCB) (sndHghwat : UInt32) : IKCPCB :=
  { kcp with sndHghwat := sndHghwat }

/-- `ikcp_nodelay`; a negative argument leaves its setting unchanged. -/
def ikcpNodelay (kcp : IKCPCB) (nodelay interval resend nc : Int32) : IKCPCB :=
  let kcp := if nodelay ≥ 0 then
      { kcp with
        nodelay := nodelay.toUInt32
        rxMinrto := if nodelay ≠ 0 then ikcpRtoNdl.toInt32 else ikcpRtoMin.toInt32 }
    else kcp
  let kcp := if interval ≥ 0 then
      { kcp with
        interval := if interval > 5000 then 5000
          else if interval < 10 then 10 else interval.toUInt32 }
    else kcp
  let kcp := if resend ≥ 0 then { kcp with fastresend := resend } else kcp
  if nc ≥ 0 then { kcp with nocwnd := nc } else kcp

/-- `ikcp_waitsnd`. -/
def ikcpWaitsnd (kcp : IKCPCB) : UInt32 := kcp.nsndBuf + kcp.nsndQue

/-- `ikcp_is_alive`. -/
def ikcpIsAlive (kcp : IKCPCB) : Bool := kcp.state == 0

/-- `ikcp_need_drain`. -/
def ikcpNeedDrain (kcp : IKCPCB) : Bool := decide (ikcpWaitsnd kcp > kcp.sndWnd)

/-- `ikcp_reach_snd_hghwat`. -/
def ikcpReachSndHghwat (kcp : IKCPCB) : Bool :=
  decide (ikcpWaitsnd kcp ≥ kcp.sndWnd + kcp.sndHghwat)

/-- `ikcp_calc_wnd`. -/
def ikcpCalcWnd (kcp : IKCPCB) (useCwnd : Bool) : UInt32 :=
  let wnd := imin kcp.sndWnd kcp.rmtWnd
  if useCwnd ∧ kcp.nocwnd = 0 then imin kcp.cwnd wnd else wnd

/-- `ikcp_available_wnd_in_mss`. -/
def ikcpAvailableWndInMss (kcp : IKCPCB) (useCwnd : Bool) : UInt32 :=
  let waitsnd := ikcpWaitsnd kcp
  let wnd := ikcpCalcWnd kcp useCwnd
  if wnd > waitsnd then wnd - waitsnd else 0

/-- `ikcp_available_wnd_in_bytes`. -/
def ikcpAvailableWndInBytes (kcp : IKCPCB) : UInt32 := ikcpAvailableWndInMss kcp false * kcp.mss

/-- `ikcp_available_sndwnd_in_bytes`. -/
def ikcpAvailableSndwndInBytes (kcp : IKCPCB) : UInt32 := ikcpAvailableWndInMss kcp true * kcp.mss

/-- `ikcp_wnd_unused`. -/
def ikcpWndUnused (kcp : IKCPCB) : UInt32 :=
  if kcp.nrcvQue < kcp.rcvWnd then kcp.rcvWnd - kcp.nrcvQue else 0

end CodeBlocks.Kcp
