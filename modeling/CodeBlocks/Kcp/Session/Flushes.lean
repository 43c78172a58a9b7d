import CodeBlocks.Kcp.Session.Steps

/-!
# Flushes of the send queue

Wherever a session runs `ikcp_flush`, it flushes the queue of its thread next. So
nothing that it does leaves datagrams behind that are queued and not handed over.
-/

namespace CodeBlocks.Kcp

/-- Whether datagrams may be queued behind an event, and whether they may have been before. -/
def SessionEvent.owes (owed : Bool) : SessionEvent → Bool
  | .assigned _ => true
  | .output _ _ => true
  | .flushTxQueue => false
  | _ => owed

/-- Some more events, with nothing queued behind them that was not before. -/
structure Settles (s s' : KCPSession) : Prop where
  callbacks : s'.callbacks = s.callbacks
  events : s.callbacks.flushTxQueue = true →
    ∃ more, s'.events = s.events ++ more ∧ more.foldl SessionEvent.owes false = false

namespace Settles

/-- Where nothing happens nothing is queued. -/
theorem refl (s : KCPSession) : Settles s s := ⟨rfl, fun _ => ⟨[], by simp⟩⟩

/-- What is settled twice is settled. -/
theorem trans {s s' s'' : KCPSession} (h : Settles s s') (h' : Settles s' s'') :
    Settles s s'' := by
  refine ⟨h'.callbacks.trans h.callbacks, fun hflush => ?_⟩
  obtain ⟨more, hmore, hsettled⟩ := h.events hflush
  obtain ⟨more', hmore', hsettled'⟩ := h'.events (by rw [h.callbacks, hflush])
  refine ⟨more ++ more', ?_, ?_⟩
  · rw [hmore', hmore, List.append_assoc]
  · rw [List.foldl_append, hsettled, hsettled']

/-- A change of nothing but the events, by an event that queues nothing. -/
theorem log (s : KCPSession) {event : SessionEvent} (hevent : event.owes false = false) :
    Settles s (s.log event) :=
  ⟨rfl, fun _ => ⟨[event], rfl, hevent⟩⟩

/-- A change of other fields queues nothing. -/
theorem of_events {s s' : KCPSession} (hcallbacks : s'.callbacks = s.callbacks)
    (hevents : s'.events = s.events) : Settles s s' :=
  ⟨hcallbacks, fun _ => ⟨[], by rw [hevents, List.append_nil], rfl⟩⟩

/-- The control block may be replaced. -/
theorem setKcp (s : KCPSession) (kcp : IKCPCB) : Settles s (s.setKcp kcp) := of_events rfl rfl

/-- A flush, and the flush of the queue behind it. -/
theorem flushed (s : KCPSession) (currentMs : UInt32) :
    Settles s (s.flush currentMs).flushTxQueue := by
  have hlog (c : Prop) [Decidable c] (s : KCPSession) (event : SessionEvent) :
      (if c then s.log event else s).callbacks = s.callbacks := by
    split <;> rfl
  refine ⟨hlog _ _ _, fun hflush => ?_⟩
  have hset : (s.flush currentMs).callbacks.flushTxQueue = true := hflush
  rw [KCPSession.flushTxQueue, if_pos hset, KCPSession.log, KCPSession.flush]
  refine ⟨_, List.append_assoc _ _ _, ?_⟩
  rw [List.foldl_append]
  rfl

/-- Every part of a task settles, since each flush has that of the queue behind it. -/
theorem composable : Composable Settles where
  refl := refl
  trans := trans
  setKcp := setKcp
  report := by
    intro s event hreport
    refine log s ?_
    cases event with
    | assigned count => cases hreport
    | output body address => cases hreport
    | _ => rfl
  flushed := flushed

/-- A call of the connection callback queues nothing. -/
theorem onConnectionEvent (s : KCPSession) (connected : Bool) :
    Settles s (s.onConnectionEvent connected) :=
  composable.ite _ (refl s) (log s rfl)

/-- `Close` settles, with a last flush or without. -/
theorem close (s : KCPSession) (lastFlush : Bool) (currentMs : UInt32) :
    Settles s (s.close lastFlush currentMs) := by
  unfold KCPSession.close
  split
  · exact refl s
  · have hclosing : Settles s { s with closed := true } := of_events rfl rfl
    exact (composable.ite _ hclosing (flushed _ currentMs)).trans (onConnectionEvent _ false)

/-- `UpdateConnectionState` settles, whether the link is alive or dead. -/
theorem updateConnectionState (s : KCPSession) (currentMs : UInt32) :
    Settles s (s.updateConnectionState currentMs) := by
  unfold KCPSession.updateConnectionState
  split
  · exact refl s
  split
  · exact close s false currentMs
  · exact (flushed s currentMs).trans (log _ rfl)

/-- `WriteInLoopThread` settles, whether it can send at once or not. -/
theorem writeInLoopThread (s : KCPSession) (data : List UInt8) (currentMs : UInt32) :
    Settles s (s.writeInLoopThread data currentMs) := by
  unfold KCPSession.writeInLoopThread
  have hwritten : Settles s (s.log (.written data)) := log s rfl
  simp only
  split
  · exact hwritten
  · exact (hwritten.trans (composable.writeWindow _ data currentMs)).trans
      (composable.writeRemaining _ _ _)

/-- So does every call of the user. -/
theorem call (s : KCPSession) (userCall : UserCall) : Settles s (s.call userCall) := by
  cases userCall with
  | write data currentMs => exact writeInLoopThread s data currentMs
  | close lastFlush currentMs => exact close s lastFlush currentMs

/-- And every sequence of them. -/
theorem calls (s : KCPSession) (calls : List UserCall) :
    Settles s (calls.foldl KCPSession.call s) := by
  induction calls generalizing s with
  | nil => exact refl s
  | cons userCall calls ih => exact (call s userCall).trans (ih _)

/-- `OnReadEvent` settles, through the calls of its message callback. -/
theorem onReadEvent (s : KCPSession) (size : Int) (userCalls : List UserCall) :
    Settles s (s.onReadEvent size userCalls) := by
  have hcalls := composable.ite ((ikcpRecv s.kcp (Int32.ofInt size)).rc > 0 ∧
    (s.receive size).callbacks.message) (composable.receive s size) (calls _ userCalls)
  unfold KCPSession.onReadEvent
  simp only
  generalize (if (ikcpRecv s.kcp (Int32.ofInt size)).rc > 0 ∧
    (s.receive size).callbacks.message = true then userCalls.foldl KCPSession.call (s.receive size)
    else s.receive size) = s' at hcalls ⊢
  split
  · exact hcalls
  · exact hcalls.trans (log _ rfl)

/-- So does the receive loop. -/
theorem drain (fuel : Nat) (userCalls : List (List UserCall)) (s : KCPSession) :
    Settles s (KCPSession.drain fuel userCalls s) := by
  induction fuel generalizing userCalls s with
  | zero => exact refl s
  | succ fuel ih =>
      unfold KCPSession.drain
      split
      · exact refl s
      split
      · exact refl s
      · exact (onReadEvent s _ _).trans (ih _ _)

/-- `ProcessPacketInLoopThread` settles whatever the packet is. -/
theorem processPacketInLoopThread (s : KCPSession) (packet : KCPReceivedPacket)
    (peerAddress : InetAddress) (userCalls : List (List UserCall)) :
    Settles s (s.processPacketInLoopThread packet peerAddress userCalls) := by
  unfold KCPSession.processPacketInLoopThread
  split
  · exact refl s
  have hinput := setKcp s (ikcpInput s.kcp packet.remainingData).2
  simp only
  split
  · exact hinput
  · have haddress : Settles s { s.setKcp (ikcpInput s.kcp packet.remainingData).2 with
        peerAddress := peerAddress } := of_events rfl rfl
    exact composable.ite _ (haddress.trans (drain _ userCalls _)) (log _ rfl)

/-- No task leaves datagrams queued. -/
theorem run (s : KCPSession) (task : SessionTask) : Settles s (task.run s) := by
  cases task with
  | call userCall => exact call s userCall
  | update currentMs => exact updateConnectionState s currentMs
  | packet received peerAddress userCalls =>
      exact processPacketInLoopThread s received peerAddress userCalls

/-- Neither does the start of a session, up to the calls of its connection callback. -/
theorem initializeWith {sessionId : UInt32} {peerAddress : InetAddress} {params : Params}
    {callbacks : SessionCallbacks} {userCalls : List UserCall} {s : KCPSession}
    (h : KCPSession.initializeWith sessionId peerAddress params callbacks userCalls = some s) :
    ∃ kcp, Settles { kcp, sessionId, peerAddress, callbacks } s := by
  obtain ⟨kcp, _, rfl⟩ := Option.map_eq_some_iff.mp h
  exact ⟨kcp, composable.ite _ (onConnectionEvent _ true) (calls _ userCalls)⟩

end Settles

end CodeBlocks.Kcp
