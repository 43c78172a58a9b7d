import CodeBlocks.Kcp.Session.Steps

/-!
# The peer of a session

A session keeps its id, and it keeps the address of its peer in everything but the
processing of a packet: there it takes the address that the packet came from.
-/

namespace CodeBlocks.Kcp

/-- The same id and the same peer. -/
structure SamePeer (s s' : KCPSession) : Prop where
  sessionId : s'.sessionId = s.sessionId
  peerAddress : s'.peerAddress = s.peerAddress

namespace SamePeer

/-- Nothing has happened. -/
theorem refl (s : KCPSession) : SamePeer s s := ⟨rfl, rfl⟩

/-- Two steps that keep the peer keep it together. -/
theorem trans {s s' s'' : KCPSession} (h : SamePeer s s') (h' : SamePeer s' s'') :
    SamePeer s s'' :=
  ⟨h'.sessionId.trans h.sessionId, h'.peerAddress.trans h.peerAddress⟩

/-- A record does not touch the peer. -/
theorem log (s : KCPSession) (event : SessionEvent) : SamePeer s (s.log event) := ⟨rfl, rfl⟩

/-- Nor does the flush of the thread's queue. -/
theorem flushTxQueue (s : KCPSession) : SamePeer s s.flushTxQueue := by
  unfold KCPSession.flushTxQueue
  split
  · exact log s _
  · exact refl s

/-- Every part of a task keeps id and peer. -/
theorem composable : Composable SamePeer where
  refl := refl
  trans := trans
  setKcp _ _ := ⟨rfl, rfl⟩
  report s event _ := log s event
  flushed s currentMs := by
    have hflush : SamePeer s (s.flush currentMs) := ⟨rfl, rfl⟩
    exact hflush.trans (flushTxQueue _)

/-- So does a call of the connection callback. -/
theorem onConnectionEvent (s : KCPSession) (connected : Bool) :
    SamePeer s (s.onConnectionEvent connected) :=
  composable.ite _ (refl s) (log s _)

/-- And `Close`. -/
theorem close (s : KCPSession) (lastFlush : Bool) (currentMs : UInt32) :
    SamePeer s (s.close lastFlush currentMs) := by
  unfold KCPSession.close
  split
  · exact refl s
  · have hclosing : SamePeer s { s with closed := true } := ⟨rfl, rfl⟩
    exact (composable.ite _ hclosing (composable.flushed _ currentMs)).trans
      (onConnectionEvent _ false)

/-- A call of the user keeps id and peer. -/
theorem call (s : KCPSession) (userCall : UserCall) : SamePeer s (s.call userCall) := by
  cases userCall with
  | write data currentMs =>
      unfold KCPSession.call KCPSession.writeInLoopThread
      simp only
      split
      · exact log s _
      · exact ((log s _).trans (composable.writeWindow _ data currentMs)).trans
          (composable.writeRemaining _ _ _)
  | close lastFlush currentMs => exact close s lastFlush currentMs

/-- So does every sequence of calls. -/
theorem calls (s : KCPSession) (calls : List UserCall) :
    SamePeer s (calls.foldl KCPSession.call s) := by
  induction calls generalizing s with
  | nil => exact refl s
  | cons userCall calls ih => exact (call s userCall).trans (ih _)

/-- The receive loop keeps the peer that the packet has set before it. -/
theorem drain (fuel : Nat) (userCalls : List (List UserCall)) (s : KCPSession) :
    SamePeer s (KCPSession.drain fuel userCalls s) := by
  induction fuel generalizing userCalls s with
  | zero => exact refl s
  | succ fuel ih =>
      unfold KCPSession.drain
      split
      · exact refl s
      split
      · exact refl s
      · refine trans ?_ (ih _ _)
        have hreceive := composable.receive s (ikcpPeeksize s.kcp)
        have hcalls := composable.ite ((ikcpRecv s.kcp (Int32.ofInt (ikcpPeeksize s.kcp))).rc > 0 ∧
          (s.receive (ikcpPeeksize s.kcp)).callbacks.message) hreceive
          (calls _ (userCalls.headD []))
        unfold KCPSession.onReadEvent
        simp only
        split
        · exact hcalls
        · exact hcalls.trans (log _ _)

/-- Only a packet that the control block accepts brings another peer. -/
theorem processPacketInLoopThread (s : KCPSession) (packet : KCPReceivedPacket)
    (peerAddress : InetAddress) (calls : List (List UserCall)) :
    (s.processPacketInLoopThread packet peerAddress calls).sessionId = s.sessionId ∧
      ((s.processPacketInLoopThread packet peerAddress calls).peerAddress = s.peerAddress ∨
        (s.processPacketInLoopThread packet peerAddress calls).peerAddress = peerAddress) := by
  unfold KCPSession.processPacketInLoopThread
  split
  · exact ⟨rfl, Or.inl rfl⟩
  simp only
  split
  · exact ⟨rfl, Or.inl rfl⟩
  · have hdrain := drain ((ikcpInput s.kcp packet.remainingData).2.rcvQueue.length +
      (ikcpInput s.kcp packet.remainingData).2.rcvBuf.length) calls
      { s.setKcp (ikcpInput s.kcp packet.remainingData).2 with peerAddress := peerAddress }
    split
    · exact ⟨hdrain.sessionId, Or.inr hdrain.peerAddress⟩
    · exact ⟨hdrain.sessionId, Or.inr hdrain.peerAddress⟩

/-- A session starts with the id and the peer that it is given. -/
theorem initializeWith {sessionId : UInt32} {peerAddress : InetAddress} {params : Params}
    {callbacks : SessionCallbacks} {userCalls : List UserCall} {s : KCPSession}
    (h : KCPSession.initializeWith sessionId peerAddress params callbacks userCalls = some s) :
    s.sessionId = sessionId ∧ s.peerAddress = peerAddress := by
  obtain ⟨kcp, -, rfl⟩ := Option.map_eq_some_iff.mp h
  have hstart := composable.ite (callbacks.connection = true)
    (onConnectionEvent { kcp, sessionId, peerAddress, callbacks } true) (calls _ userCalls)
  exact ⟨hstart.sessionId, hstart.peerAddress⟩

end SamePeer

/-- The address that a task may take the peer to. -/
def SessionTask.source : SessionTask → Option InetAddress
  | .packet _ peerAddress _ => some peerAddress
  | _ => none

/-- After a task the peer is the one before or the sender of the packet, and the id is the same. -/
theorem SessionTask.run_peer (s : KCPSession) (task : SessionTask) :
    (task.run s).sessionId = s.sessionId ∧
      ((task.run s).peerAddress = s.peerAddress ∨
        task.source = some (task.run s).peerAddress) := by
  cases task with
  | call userCall =>
      obtain ⟨hid, hpeer⟩ := SamePeer.call s userCall
      exact ⟨hid, Or.inl hpeer⟩
  | update currentMs =>
      suffices hsame : SamePeer s (s.updateConnectionState currentMs) from
        ⟨hsame.sessionId, Or.inl hsame.peerAddress⟩
      unfold KCPSession.updateConnectionState
      split
      · exact SamePeer.refl s
      split
      · exact SamePeer.close s false currentMs
      · exact (SamePeer.composable.flushed s currentMs).trans (SamePeer.log _ _)
  | packet received peerAddress calls =>
      obtain ⟨hid, hpeer⟩ := SamePeer.processPacketInLoopThread s received peerAddress calls
      exact ⟨hid, hpeer.imp_right fun hnew => congrArg some hnew.symm⟩

end CodeBlocks.Kcp
