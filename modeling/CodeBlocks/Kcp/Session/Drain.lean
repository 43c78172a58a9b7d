import CodeBlocks.Kcp.Invariant.Flush
import CodeBlocks.Kcp.Invariant.Write
import CodeBlocks.Kcp.Session.Steps

/-!
# The receive loop reads everything

`ProcessPacketInLoopThread` reads until nothing is left or the session is closed.
Whatever the message callbacks do, no segment arrives while the loop runs and
every turn takes one off, so the turns that the model allows are enough.
-/

namespace CodeBlocks.Kcp

/-- The segments that have arrived and are not read yet. -/
def ReceiveSide.unread (r : ReceiveSide) : Nat := r.queue.length + r.buf.length

def IKCPCB.unread (kcp : IKCPCB) : Nat := kcp.receiveSide.unread

/-- Moving segments from the buffer to the queue loses none. -/
theorem ikcpMove_unread (kcp : IKCPCB) : (ikcpMove kcp).unread = kcp.unread := by
  have hloop (buf : List IKCPSEG) (k : IKCPCB) :
      (ikcpMoveLoop buf k).unread = k.rcvQueue.length + buf.length := by
    induction buf generalizing k with
    | nil => rfl
    | cons seg buf ih =>
        unfold ikcpMoveLoop
        split
        · rw [ih, List.length_append, List.length_cons, List.length_cons, List.length_nil]
          omega
        · rfl
  exact hloop kcp.rcvBuf kcp

/-- Asking for a window update reads nothing. -/
theorem ikcpRecover_unread (kcp : IKCPCB) (recover : Bool) :
    (ikcpRecover kcp recover).unread = kcp.unread :=
  congrArg ReceiveSide.unread (ikcpRecover_receiveSide kcp recover)

/-- The segments of the message that is handed over are read. -/
theorem ikcpDeliver_unread (kcp : IKCPCB) :
    (ikcpDeliver kcp).unread + (ikcpMessage kcp.rcvQueue).1.length = kcp.unread := by
  have hlen : (ikcpMessage kcp.rcvQueue).1.length + (ikcpMessage kcp.rcvQueue).2.length =
      kcp.rcvQueue.length := by
    rw [← List.length_append, ikcpMessage_append]
  change (ikcpMessage kcp.rcvQueue).2.length + kcp.rcvBuf.length + _ =
    kcp.rcvQueue.length + kcp.rcvBuf.length
  omega

/-- Reading leaves no more unread. -/
theorem ikcpRecv_unread_le (kcp : IKCPCB) (len : Int32) :
    (ikcpRecv kcp len).kcp.unread ≤ kcp.unread := by
  rcases ikcpRecv_cases kcp len with ⟨_, _, heq⟩ | ⟨_, _, recover, heq⟩
  · rw [heq]
  · rw [heq, ikcpRecover_unread, ikcpMove_unread]
    split
    · exact le_rfl
    · have hdeliver := ikcpDeliver_unread kcp
      omega

/-- A message holds at least one segment. -/
theorem ikcpMessage_pos {queue : List IKCPSEG} (h : queue ≠ []) :
    0 < (ikcpMessage queue).1.length := by
  cases queue with
  | nil => exact absurd rfl h
  | cons seg rest =>
      unfold ikcpMessage
      split
      · exact Nat.zero_lt_one
      · exact Nat.succ_pos _

/-- An empty queue has no message. -/
theorem ikcpPeeksize_nil {kcp : IKCPCB} (h : kcp.rcvQueue = []) : ikcpPeeksize kcp < 0 := by
  rw [ikcpPeeksize, h]
  exact Int.negSucc_lt_zero 0

/-- Reading as many bytes as can be read takes a message off. -/
theorem ikcpRecv_unread_lt {kcp : IKCPCB} (h : ¬ ikcpPeeksize kcp < 0) :
    (ikcpRecv kcp (Int32.ofInt (ikcpPeeksize kcp))).kcp.unread < kcp.unread := by
  have hqueue : kcp.rcvQueue ≠ [] := fun hnil => h (ikcpPeeksize_nil hnil)
  have hlen := KCPSession.ikcpPeeksize_nonneg h
  have hroom : (Int32.ofInt (ikcpPeeksize kcp)).toInt = ikcpPeeksize kcp :=
    KCPSession.toInt_ikcpPeeksize kcp
  have hmessage := ikcpMessage_pos hqueue
  have hdeliver := ikcpDeliver_unread kcp
  rw [ikcpRecv, if_neg hqueue, if_neg h, if_neg hlen, if_neg (by rw [hroom]; exact lt_irrefl _)]
  simp only [if_neg hlen, ikcpRecover_unread, ikcpMove_unread]
  omega

/-- While no packet arrives, nothing becomes unread. -/
theorem SessionStep.unread_le {s s' : KCPSession} {p p' : List UInt8}
    (hstep : SessionStep (fun _ => False) (s, p) (s', p')) : s'.kcp.unread ≤ s.kcp.unread := by
  cases hstep with
  | enqueue _ taken _ alwaysStream =>
      exact (congrArg ReceiveSide.unread (ikcpWrite_receiveSide s.kcp taken alwaysStream)).le
  | refuse _ taken _ alwaysStream =>
      exact (congrArg ReceiveSide.unread (ikcpWrite_receiveSide s.kcp taken alwaysStream)).le
  | flush _ _ currentMs =>
      exact (congrArg ReceiveSide.unread (ikcpFlush_receiveSide s.kcp currentMs)).le
  | receive _ size =>
      rw [(s.receive_spec size).1]
      exact ikcpRecv_unread_le s.kcp _
  | input _ _ harrives => exact harrives.elim
  | _ => exact le_rfl

/-- Without a datagram no step adds to what is unread. -/
theorem SessionSteps.unread_le {c c' : KCPSession × List UInt8}
    (h : SessionSteps (fun _ => False) c c') : c'.1.kcp.unread ≤ c.1.kcp.unread := by
  refine h.preserves (P := fun s _ => s.kcp.unread ≤ c.1.kcp.unread) ?_ le_rfl
  intro s p s' p' hstep hle
  exact hstep.unread_le.trans hle

namespace KCPSession

/-- Each round of the read loop leaves fewer unread segments, so the loop ends. -/
theorem onReadEvent_unread_lt {s : KCPSession} (h : ¬ ikcpPeeksize s.kcp < 0)
    (calls : List UserCall) :
    (s.onReadEvent (ikcpPeeksize s.kcp) calls).kcp.unread < s.kcp.unread := by
  have hrest : SessionSteps (fun _ => False) (s.receive (ikcpPeeksize s.kcp), [])
      (s.onReadEvent (ikcpPeeksize s.kcp) calls, []) := onReadEvent_rest s _ calls
  apply hrest.unread_le.trans_lt
  rw [(s.receive_spec _).1]
  exact ikcpRecv_unread_lt h

/-- The loop ends as the loop of the code does: with a closed session, or with
nothing left to read. -/
theorem drain_done (fuel : Nat) (calls : List (List UserCall)) (s : KCPSession)
    (hfuel : s.kcp.unread ≤ fuel) :
    (drain fuel calls s).closed = true ∨ ikcpPeeksize (drain fuel calls s).kcp < 0 := by
  induction fuel generalizing calls s with
  | zero =>
      have hqueue : s.kcp.rcvQueue = [] := by
        apply List.eq_nil_of_length_eq_zero
        have hzero : s.kcp.rcvQueue.length + s.kcp.rcvBuf.length ≤ 0 := hfuel
        omega
      exact Or.inr (ikcpPeeksize_nil hqueue)
  | succ fuel ih =>
      unfold drain
      split
      · exact Or.inl ‹_›
      split
      · exact Or.inr ‹_›
      · rename_i hpeek
        apply ih
        have hlt := onReadEvent_unread_lt hpeek (calls.headD [])
        omega

/-- After a packet that is not refused, everything that can be read was read. -/
theorem processPacketInLoopThread_done (s : KCPSession) (packet : KCPReceivedPacket)
    (peerAddress : InetAddress) (calls : List (List UserCall))
    (hinput : 0 ≤ (ikcpInput s.kcp packet.remainingData).1) :
    (s.processPacketInLoopThread packet peerAddress calls).closed = true ∨
      ikcpPeeksize (s.processPacketInLoopThread packet peerAddress calls).kcp < 0 := by
  unfold processPacketInLoopThread
  by_cases hclosed : s.closed = true
  · rw [if_pos hclosed]
    exact Or.inl hclosed
  rw [if_neg hclosed]
  simp only [if_neg (not_lt.mpr hinput)]
  split
  · exact drain_done _ calls _ le_rfl
  · exact drain_done _ calls _ le_rfl

end KCPSession

end CodeBlocks.Kcp
