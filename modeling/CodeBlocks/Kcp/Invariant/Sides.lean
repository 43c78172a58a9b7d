import CodeBlocks.Kcp.Control.Params

/-!
# The two halves of a control block

Sending and receiving share one record but almost no fields. Each half is a
projection of the control block with its own invariant; retransmission
bookkeeping is left out of the sending half, so that the functions that only
touch timers and counters leave it unchanged by definition. Every change of
`snd_buf` on input only removes segments, and the window invariant survives any
removal followed by `ikcp_shrink_buf`.
-/

namespace CodeBlocks.Kcp

open Serial

/-- What never changes after a segment is numbered: the rest is bookkeeping. -/
def IKCPSEG.core (seg : IKCPSEG) : IKCPSEG :=
  { conv := seg.conv, cmd := seg.cmd, frg := seg.frg, sn := seg.sn, data := seg.data }

@[simp] theorem IKCPSEG.core_conv (seg : IKCPSEG) : seg.core.conv = seg.conv := rfl
@[simp] theorem IKCPSEG.core_cmd (seg : IKCPSEG) : seg.core.cmd = seg.cmd := rfl
@[simp] theorem IKCPSEG.core_frg (seg : IKCPSEG) : seg.core.frg = seg.frg := rfl
@[simp] theorem IKCPSEG.core_sn (seg : IKCPSEG) : seg.core.sn = seg.sn := rfl
@[simp] theorem IKCPSEG.core_data (seg : IKCPSEG) : seg.core.data = seg.data := rfl

@[simp] theorem map_core_sn (segs : List IKCPSEG) :
    (segs.map IKCPSEG.core).map IKCPSEG.sn = segs.map IKCPSEG.sn := by
  rw [List.map_map]
  rfl

/-- The sending half. -/
structure SendSide where
  conv : UInt32
  mss : UInt32
  una : UInt32
  nxt : UInt32
  wnd : UInt32
  rmt : UInt32
  queue : List IKCPSEG
  nque : UInt32
  buf : List IKCPSEG
  nbuf : UInt32

/-- The receiving half. -/
structure ReceiveSide where
  nxt : UInt32
  wnd : UInt32
  queue : List IKCPSEG
  nque : UInt32
  buf : List IKCPSEG
  nbuf : UInt32
  acks : List (UInt32 × UInt32)

def IKCPCB.sendSide (kcp : IKCPCB) : SendSide where
  conv := kcp.conv
  mss := kcp.mss
  una := kcp.sndUna
  nxt := kcp.sndNxt
  wnd := kcp.sndWnd
  rmt := kcp.rmtWnd
  queue := kcp.sndQueue
  nque := kcp.nsndQue
  buf := kcp.sndBuf.map IKCPSEG.core
  nbuf := kcp.nsndBuf

def IKCPCB.receiveSide (kcp : IKCPCB) : ReceiveSide where
  nxt := kcp.rcvNxt
  wnd := kcp.rcvWnd
  queue := kcp.rcvQueue
  nque := kcp.nrcvQue
  buf := kcp.rcvBuf
  nbuf := kcp.nrcvBuf
  acks := kcp.acklist

/-- Fragment numbers of queued segments stay below the receive window that
`ikcp_write` tests against. -/
structure IKCPSEG.Queued (mss : UInt32) (seg : IKCPSEG) : Prop where
  data_le : seg.data.length ≤ mss.toNat
  frg_lt : seg.frg.toNat < 128

/-- Invariant of the sending half. The distance in flight is also below `2 ^ 16`,
because the remote window is a 16-bit field. -/
structure SendSide.Inv (s : SendSide) : Prop where
  nque_eq : s.nque = UInt32.ofNat s.queue.length
  nbuf_eq : s.nbuf = UInt32.ofNat s.buf.length
  within : Within s.una (dist s.una s.nxt) (s.buf.map IKCPSEG.sn)
  una_eq : s.una = (s.buf.head?.map IKCPSEG.sn).getD s.nxt
  flight_le : dist s.una s.nxt ≤ s.wnd.toNat
  flight_lt : dist s.una s.nxt < 2 ^ 16
  rmt_lt : s.rmt.toNat < 2 ^ 16
  queued : ∀ seg ∈ s.queue, seg.Queued s.mss
  last_frg : ∀ seg, s.queue.getLast? = some seg → seg.frg = 0
  buffered : ∀ seg ∈ s.buf, seg.Queued s.mss
  pushed : ∀ seg ∈ s.buf, seg.conv = s.conv ∧ seg.cmd = ikcpCmdPush

/-- Invariant of the receiving half. -/
structure ReceiveSide.Inv (r : ReceiveSide) : Prop where
  wnd_lt : r.wnd.toNat < 2 ^ 31
  nque_eq : r.nque = UInt32.ofNat r.queue.length
  nque_le : r.queue.length ≤ r.wnd.toNat
  nbuf_eq : r.nbuf = UInt32.ofNat r.buf.length
  within : Within r.nxt r.wnd.toNat (r.buf.map IKCPSEG.sn)

/-- `ikcp_shrink_buf` after some segments have left the buffer. -/
def SendSide.shrink (s : SendSide) (buf : List IKCPSEG) : SendSide :=
  { s with
    buf := buf, nbuf := UInt32.ofNat buf.length,
    una := (buf.head?.map IKCPSEG.sn).getD s.nxt }

/-- What is in flight is bounded by a window, and that by its type. -/
theorem SendSide.Inv.buf_length_lt {s : SendSide} (h : s.Inv) : s.buf.length < 2 ^ 16 := by
  have := h.within.length_le
  rw [List.length_map] at this
  have := h.flight_lt
  omega

/-- Removing segments and shrinking keeps the window: the new lower end is the
first segment left, or the upper end when none is left. -/
theorem SendSide.Inv.shrink {s : SendSide} (h : s.Inv) {buf : List IKCPSEG}
    (hs : buf.Sublist s.buf) : (s.shrink buf).Inv := by
  have hw := h.within.sublist (hs.map IKCPSEG.sn)
  have hmove : ∃ n ≤ dist s.una s.nxt,
      dist (s.shrink buf).una s.nxt = n ∧ Within (s.shrink buf).una n (buf.map IKCPSEG.sn) := by
    cases buf with
    | nil => exact ⟨0, by omega, dist_self _, Within.nil⟩
    | cons seg rest =>
        have hd : dist s.una seg.sn < dist s.una s.nxt := hw.bounded _ List.mem_cons_self
        exact ⟨_, by omega, dist_rebase hd.le, hw.rebase_head⟩
  obtain ⟨n, hn, hdist, hwithin⟩ := hmove
  constructor
  · exact h.nque_eq
  · rfl
  · change Within (s.shrink buf).una (dist (s.shrink buf).una s.nxt) _
    rw [hdist]
    exact hwithin
  · rfl
  · change dist (s.shrink buf).una s.nxt ≤ _
    have : dist s.una s.nxt ≤ s.wnd.toNat := h.flight_le
    rw [hdist]
    exact hn.trans this
  · change dist (s.shrink buf).una s.nxt < _
    rw [hdist]
    exact hn.trans_lt h.flight_lt
  · exact h.rmt_lt
  · exact h.queued
  · exact h.last_frg
  · exact fun seg hseg => h.buffered seg (hs.subset hseg)
  · exact fun seg hseg => h.pushed seg (hs.subset hseg)

end CodeBlocks.Kcp
