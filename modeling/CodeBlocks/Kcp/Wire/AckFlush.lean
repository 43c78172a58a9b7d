import CodeBlocks.Kcp.Invariant.Tally
import CodeBlocks.Kcp.Wire.Datagrams

/-!
# Flushing acknowledgements alone

`ikcp_flush_ack` repeats the first stage of `ikcp_flush`. Where nothing waits to
be sent and no probe is due, the other stages add nothing. `nsnd_que` counts
modulo `2 ^ 32`, so it only tells an empty queue from one that is shorter than
that.
-/

namespace CodeBlocks.Kcp

open Serial

/-- The four queues and the sequence numbers. -/
structure IKCPCB.SameQueues (kcp kcp' : IKCPCB) : Prop where
  sndQueue : kcp'.sndQueue = kcp.sndQueue
  sndBuf : kcp'.sndBuf = kcp.sndBuf
  rcvQueue : kcp'.rcvQueue = kcp.rcvQueue
  rcvBuf : kcp'.rcvBuf = kcp.rcvBuf
  sndUna : kcp'.sndUna = kcp.sndUna
  sndNxt : kcp'.sndNxt = kcp.sndNxt
  rcvNxt : kcp'.rcvNxt = kcp.rcvNxt

/-- The two flushes output the same datagrams, send every acknowledgement and change no queue. -/
structure IKCPCB.FlushesAlike (kcp : IKCPCB) (current : UInt32) : Prop where
  sent : (ikcpFlushAck kcp).2 = (ikcpFlush kcp current).sent
  acklist : (ikcpFlushAck kcp).1.acklist = [] ∧ (ikcpFlush kcp current).kcp.acklist = []
  queues : kcp.SameQueues (ikcpFlushAck kcp).1 ∧ kcp.SameQueues (ikcpFlush kcp current).kcp

/-- An acknowledgement may be sent alone, and the remote window is open with no probe asked for. -/
structure IKCPCB.AckOnly (kcp : IKCPCB) : Prop where
  can : ikcpCanSendAck kcp = 1
  noAsk : kcp.probe &&& ikcpAskSend = 0
  noTell : kcp.probe &&& ikcpAskTell = 0
  window_open : kcp.rmtWnd > 0

/-- Acknowledgements are sent alone only when nothing else waits. -/
theorem ikcpCanSendAck_eq_one {kcp : IKCPCB} (h : ikcpCanSendAck kcp = 1) :
    0 < kcp.acklist.length ∧ kcp.nsndQue = 0 ∧ kcp.nsndBuf = 0 := by
  have hzero {x : UInt32} (hx : ¬ x > 0) : x = 0 := by
    have hle := UInt32.not_lt.mp hx
    exact UInt32.le_antisymm hle (UInt32.zero_le)
  revert h
  unfold ikcpCanSendAck
  split
  · intro h
    cases h
  split
  · intro h
    cases h
  split
  · intro h
    cases h
  · rename_i hacks hque hbuf
    exact fun _ => ⟨by omega, hzero hque, hzero hbuf⟩

section Idle

variable {kcp : IKCPCB}

/-- A flush with nothing queued leaves the sending half. -/
theorem ikcpFlush_sendSide_idle (hqueue : kcp.sndQueue = []) (h : kcp.sendSide.Inv)
    (current : UInt32) :
    (ikcpFlush kcp current).kcp.sendSide = kcp.sendSide := by
  obtain ⟨moved, rest, hsplit, hside, -⟩ := ikcpFlush_fill h current
  rw [hqueue] at hsplit
  obtain ⟨rfl, rfl⟩ := List.append_eq_nil_iff.mp hsplit.symm
  rw [hside, SendSide.fill_nil hqueue]

/-- Then a flush leaves the queues. -/
theorem ikcpFlush_sameQueues (hqueue : kcp.sndQueue = []) (hbuf : kcp.sndBuf = [])
    (h : kcp.sendSide.Inv) (current : UInt32) :
    kcp.SameQueues (ikcpFlush kcp current).kcp := by
  have hs := ikcpFlush_sendSide_idle hqueue h current
  have hr := ikcpFlush_receiveSide kcp current
  have hcores : (ikcpFlush kcp current).kcp.sndBuf.map IKCPSEG.core = kcp.sndBuf.map IKCPSEG.core :=
    congrArg SendSide.buf hs
  constructor
  · exact congrArg SendSide.queue hs
  · rw [hbuf, List.map_nil, List.map_eq_nil_iff] at hcores
    rw [hcores, hbuf]
  · exact congrArg ReceiveSide.queue hr
  · exact congrArg ReceiveSide.buf hr
  · exact congrArg SendSide.una hs
  · exact congrArg SendSide.nxt hs
  · exact congrArg ReceiveSide.nxt hr

/-- With the remote window open and no probe asked for, such a flush encodes acknowledgements
only. -/
theorem ikcpFlushSegs_idle (hqueue : kcp.sndQueue = []) (hbuf : kcp.sndBuf = [])
    (h : kcp.sendSide.Inv) (hopen : kcp.rmtWnd > 0) (hask : kcp.probe &&& ikcpAskSend = 0)
    (htell : kcp.probe &&& ikcpAskTell = 0) (current : UInt32) :
    ikcpFlushSegs kcp current = ikcpAckSegs kcp := by
  have hnone : (ikcpFlushHead kcp current).1.sndBuf = [] := by
    have hs := ikcpFlush_sendSide_idle hqueue h current
    rw [ikcpFlush_sendSide] at hs
    have hcores : (ikcpFlushHead kcp current).1.sndBuf.map IKCPSEG.core =
        kcp.sndBuf.map IKCPSEG.core := congrArg SendSide.buf hs
    rwa [hbuf, List.map_nil, List.map_eq_nil_iff] at hcores
  have hne : kcp.rmtWnd ≠ 0 := (UInt32.ne_of_lt hopen).symm
  have hprobes : ikcpProbeSegs (ikcpProbeTimer { kcp with current := current, acklist := [] })
      (ikcpAckSegs kcp)
      (ikcpProbeTimer { kcp with current := current, acklist := [] }).probe = [] := by
    rw [ikcpProbeTimer, if_neg hne]
    simp only [ikcpProbeSegs, hask, htell, ne_eq, not_true_eq_false, if_false, List.append_nil]
  simp only [ikcpFlushSegs, hnone, hprobes, ikcpDueSegs, List.filter_nil, List.map_nil,
    List.append_nil]

end Idle

/-- The two flushes agree on every reachable control block with a pending acknowledgement, nothing
counted as waiting to be sent, no probe bit and an open remote window, as long as the send queue
is shorter than its counter can tell. -/
theorem ikcpFlushAck_eq_ikcpFlush {sessionId : UInt32} {params : Params} {kcp : IKCPCB}
    (h : kcp.Reachable sessionId params) (hshort : kcp.sndQueue.length < 2 ^ 32)
    (hack : kcp.AckOnly) (current : UInt32) : kcp.FlushesAlike current := by
  have hinv := h.inv
  obtain ⟨hacks, hque, hbufs⟩ := ikcpCanSendAck_eq_one hack.can
  have hqueue : kcp.sndQueue = [] := by
    have hnque : kcp.nsndQue = UInt32.ofNat kcp.sndQueue.length := hinv.send.nque_eq
    have hlen := congrArg UInt32.toNat (hque.symm.trans hnque)
    rw [UInt32.toNat_ofNat_of_lt' hshort] at hlen
    exact List.length_eq_zero_iff.mp hlen.symm
  have hbuf : kcp.sndBuf = [] := by
    have hlen := hinv.consistent.nsndBuf_eq
    rw [hbufs] at hlen
    exact List.length_eq_zero_iff.mp hlen.symm
  have hnone : ¬ kcp.acklist.length ≤ 0 := by omega
  have hsame := ikcpFlush_sameQueues hqueue hbuf hinv.send current
  have hsegs := ikcpFlushSegs_idle hqueue hbuf hinv.send hack.window_open hack.noAsk hack.noTell
    current
  constructor
  · rw [ikcpFlush_sent_eq, hsegs, ikcpFlushAck, if_neg hnone]
  · rw [ikcpFlushAck, if_neg hnone]
    exact ⟨rfl, congrArg ReceiveSide.acks (ikcpFlush_receiveSide kcp current)⟩
  · refine ⟨?_, hsame⟩
    rw [ikcpFlushAck, if_neg hnone]
    exact ⟨rfl, rfl, rfl, rfl, rfl, rfl, rfl⟩

/-- `ikcp_write` touches the send queue and its counter only. -/
theorem ikcpWrite_form (kcp : IKCPCB) (data : List UInt8) (alwaysStream : Bool) :
    ∃ queue nsndQue, (ikcpWrite kcp data alwaysStream).2 = kcp.setSndQueue queue nsndQue := by
  have hkept : ∃ queue nsndQue, kcp = kcp.setSndQueue queue nsndQue :=
    ⟨kcp.sndQueue, kcp.nsndQue, rfl⟩
  simp only [ikcpWrite]
  repeat' split
  all_goals first | exact hkept | exact ⟨_, _, rfl⟩

/-- One byte after the other, queues of every length are reached where a segment holds one byte. -/
theorem exists_reachable_queue {sessionId : UInt32} {params : Params} {kcp : IKCPCB}
    (h : kcp.Reachable sessionId params) (hmss : kcp.mss.toNat = 1) (htally : kcp.tally = ⟨0, 0, 0⟩)
    (n : Nat) :
    ∃ queue nsndQue, (kcp.setSndQueue queue nsndQue).Reachable sessionId params ∧
      (kcp.setSndQueue queue nsndQue).tally = ⟨0, n, 0⟩ := by
  induction n with
  | zero => exact ⟨kcp.sndQueue, kcp.nsndQue, h, htally⟩
  | succ n ih =>
      obtain ⟨queue, nsndQue, hreach, hn⟩ := ih
      obtain ⟨queue', nsndQue', hform⟩ := ikcpWrite_form (kcp.setSndQueue queue nsndQue) [0] true
      have hmss' : (kcp.setSndQueue queue nsndQue).mss.toNat = 1 := hmss
      have hadd := ikcpWrite_tally_stream (hmss'.symm ▸ Nat.one_pos) [0] (Bool.or_true _)
      rw [hn, hmss', hform] at hadd
      refine ⟨queue', nsndQue', ?_, hadd⟩
      obtain ⟨kcp₀, calls, h₀, heq⟩ := hreach
      refine ⟨kcp₀, calls ++ [.append [0]], h₀, ?_⟩
      rw [List.foldl_append, ← heq]
      exact hform.symm

/-- A PUSH segment without a payload. -/
def firstPush : List UInt8 :=
  ikcpEncodeSeg { conv := 7, cmd := ikcpCmdPush, frg := 0, wnd := 128, una := 0, sn := 0, ts := 0 }

/-- A session whose segments hold one byte, after a first PUSH segment. -/
def tinySession : IKCPCB :=
  (ControlCall.input firstPush).run
    ((initializeControl 7 { mtu := 50, headRoom := 25, nocongestion := 1 }).getD (ikcpCreate 0))

/-- `Initialize` and one datagram lead there. -/
theorem tinySession_reachable :
    tinySession.Reachable 7 { mtu := 50, headRoom := 25, nocongestion := 1 } :=
  ⟨_, [.input firstPush], rfl, rfl⟩

/-- It owes an acknowledgement and nothing else. -/
theorem tinySession_ackOnly : tinySession.AckOnly where
  can := by decide +kernel
  noAsk := by decide +kernel
  noTell := by decide +kernel
  window_open := by decide +kernel

/-- The acknowledgement of the first segment. -/
theorem flushesAlike_tinySession : tinySession.FlushesAlike 5 :=
  ikcpFlushAck_eq_ikcpFlush tinySession_reachable (by decide +kernel) tinySession_ackOnly 5

/-- With `2 ^ 32` segments in its queue the counter is zero, and only the full flush sends them. -/
theorem not_flushesAlike_full_queue :
    ∃ kcp : IKCPCB, kcp.Reachable 7 { mtu := 50, headRoom := 25, nocongestion := 1 } ∧
      kcp.AckOnly ∧ ¬ kcp.FlushesAlike 0 := by
  obtain ⟨queue, nsndQue, hqueue, htally⟩ := exists_reachable_queue tinySession_reachable
    (by decide +kernel) (by decide +kernel) (2 ^ 32)
  have hlen : queue.length = 2 ^ 32 := congrArg Tally.queued htally
  have hfree : ikcpFlushFree (tinySession.setSndQueue queue nsndQue) = 64 :=
    (by decide +kernel : ikcpFlushFree tinySession = 64)
  have hzero : nsndQue = 0 := by
    have hnque : nsndQue = UInt32.ofNat queue.length := hqueue.inv.send.nque_eq
    rw [hnque, hlen]
    rfl
  refine ⟨_, hqueue, ⟨?_, tinySession_ackOnly.noAsk, tinySession_ackOnly.noTell,
    tinySession_ackOnly.window_open⟩, ?_⟩
  · rw [hzero]
    exact (by decide +kernel : ikcpCanSendAck (tinySession.setSndQueue [] 0) = 1)
  · intro halike
    have hflushed := congrArg Tally.queued (ikcpFlush_tally hqueue.inv.send 0)
    have hsame : (ikcpFlush (tinySession.setSndQueue queue nsndQue) 0).kcp.tally.queued =
        queue.length := congrArg List.length halike.queues.2.sndQueue
    rw [htally, hfree, hsame, hlen] at hflushed
    exact absurd hflushed (by decide)

end CodeBlocks.Kcp
