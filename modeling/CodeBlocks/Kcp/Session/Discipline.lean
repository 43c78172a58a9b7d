import CodeBlocks.Kcp.Session.Steps

/-!
# The order of the callbacks

A session that has come up either runs, and then it makes no call of the
connection callback, or it goes down once, and then nothing but records of
writes follows. `Passage` says which of these happened between two states of a
run. The states in question are the ones between the tasks and also those in
the middle of a task: after every call that a callback makes.
-/

namespace CodeBlocks.Kcp

/-- A call of the connection callback. -/
def SessionEvent.isConnection : SessionEvent → Bool
  | .connection _ => true
  | _ => false

/-- A record of a call of `Write`. -/
def SessionEvent.isWritten : SessionEvent → Bool
  | .written _ => true
  | _ => false

/-- No call of the connection callback, and no change of the closed flag. -/
structure Undisturbed (s s' : KCPSession) : Prop where
  closed : s'.closed = s.closed
  callbacks : s'.callbacks = s.callbacks
  events : ∃ more, s'.events = s.events ++ more ∧ ∀ e ∈ more, e.isConnection = false

/-- A session that was closed, and has only recorded writes since. -/
structure Afterwards (s s' : KCPSession) : Prop where
  before : s.closed = true
  after : s'.closed = true
  kcp : s'.kcp = s.kcp
  callbacks : s'.callbacks = s.callbacks
  events : ∃ more, s'.events = s.events ++ more ∧ ∀ e ∈ more, e.isWritten = true

/-- What can happen to a session between two states of a run. -/
inductive Passage (s s' : KCPSession) : Prop where
  | running (hopen : s.closed = false) (h : Undisturbed s s')
  | closing (mid : KCPSession) (lastFlush : Bool) (currentMs : UInt32) (hopen : s.closed = false)
      (h : Undisturbed s mid) (hafter : Afterwards (mid.close lastFlush currentMs) s')
  | closed (h : Afterwards s s')

namespace Undisturbed

/-- Nothing has happened. -/
theorem refl (s : KCPSession) : Undisturbed s s :=
  ⟨rfl, rfl, [], by simp⟩

/-- One quiet stretch follows another. -/
theorem trans {s s' s'' : KCPSession} (h : Undisturbed s s') (h' : Undisturbed s' s'') :
    Undisturbed s s'' := by
  obtain ⟨more, hmore, hquiet⟩ := h.events
  obtain ⟨more', hmore', hquiet'⟩ := h'.events
  refine ⟨h'.closed.trans h.closed, h'.callbacks.trans h.callbacks, more ++ more', ?_, ?_⟩
  · rw [hmore', hmore, List.append_assoc]
  · intro e he
    exact (List.mem_append.mp he).elim (hquiet e) (hquiet' e)

/-- A record of anything but a call of the connection callback. -/
theorem log (s : KCPSession) {event : SessionEvent} (hevent : event.isConnection = false) :
    Undisturbed s (s.log event) :=
  ⟨rfl, rfl, [event], rfl, by simp [hevent]⟩

/-- The control block may be replaced. -/
theorem setKcp (s : KCPSession) (kcp : IKCPCB) : Undisturbed s (s.setKcp kcp) :=
  ⟨rfl, rfl, [], by simp [KCPSession.setKcp]⟩

/-- `ikcp_flush` records its window and its datagrams only. -/
theorem flush (s : KCPSession) (currentMs : UInt32) : Undisturbed s (s.flush currentMs) := by
  refine ⟨rfl, rfl, _, rfl, fun e he => ?_⟩
  rcases List.mem_cons.mp he with rfl | he
  · rfl
  · obtain ⟨body, _, rfl⟩ := List.mem_map.mp he
    rfl

/-- So does the flush of the thread's queue behind it. -/
theorem flushed (s : KCPSession) (currentMs : UInt32) :
    Undisturbed s (s.flush currentMs).flushTxQueue := by
  unfold KCPSession.flushTxQueue
  split
  · exact (flush s currentMs).trans (log _ rfl)
  · exact flush s currentMs

/-- Every part of a task that leaves the connection callback alone is quiet. -/
theorem composable : Composable Undisturbed where
  refl := refl
  trans := trans
  setKcp := setKcp
  report := by
    intro s event hreport
    refine log s ?_
    cases event with
    | connection connected => cases hreport
    | _ => rfl
  flushed := flushed

end Undisturbed

namespace Afterwards

/-- A closed session of which nothing is asked. -/
theorem refl {s : KCPSession} (h : s.closed = true) : Afterwards s s :=
  ⟨h, h, rfl, rfl, [], by simp⟩

/-- Once closed, a session stays so over any two stretches. -/
theorem trans {s s' s'' : KCPSession} (h : Afterwards s s') (h' : Afterwards s' s'') :
    Afterwards s s'' := by
  obtain ⟨more, hmore, hwritten⟩ := h.events
  obtain ⟨more', hmore', hwritten'⟩ := h'.events
  refine ⟨h.before, h'.after, h'.kcp.trans h.kcp, h'.callbacks.trans h.callbacks,
    more ++ more', ?_, ?_⟩
  · rw [hmore', hmore, List.append_assoc]
  · intro e he
    exact (List.mem_append.mp he).elim (hwritten e) (hwritten' e)

end Afterwards

namespace KCPSession

/-- A call of the connection callback. -/
theorem onConnectionEvent_spec (s : KCPSession) (connected : Bool) :
    (s.onConnectionEvent connected).closed = s.closed ∧
      (s.onConnectionEvent connected).callbacks = s.callbacks ∧
      (s.onConnectionEvent connected).events = s.events ++
        (if s.callbacks.connection then [.connection connected] else []) := by
  unfold onConnectionEvent
  split
  · exact ⟨rfl, rfl, rfl⟩
  · exact ⟨rfl, rfl, (List.append_nil _).symm⟩

/-- What `Close` does to an open session. -/
theorem close_spec {s : KCPSession} (h : s.closed = false) (lastFlush : Bool)
    (currentMs : UInt32) :
    (s.close lastFlush currentMs).closed = true ∧
      (s.close lastFlush currentMs).callbacks = s.callbacks ∧
      ∃ more, (s.close lastFlush currentMs).events = s.events ++ more ++
          (if s.callbacks.connection then [.connection false] else []) ∧
        ∀ e ∈ more, e.isConnection = false := by
  unfold close
  rw [if_neg (by simp [h])]
  have hflush := Undisturbed.composable.ite (lastFlush = true)
    (Undisturbed.refl { s with closed := true }) (Undisturbed.flushed _ currentMs)
  obtain ⟨more, hmore, hquiet⟩ := hflush.events
  obtain ⟨hclosed, hcallbacks, hevents⟩ := onConnectionEvent_spec
    (if lastFlush = true then ({ s with closed := true }.flush currentMs).flushTxQueue
      else { s with closed := true }) false
  refine ⟨hclosed.trans hflush.closed, hcallbacks.trans hflush.callbacks, more, ?_, hquiet⟩
  rw [hevents, hmore, hflush.callbacks]

end KCPSession

namespace Passage

/-- Passages compose: a session that has gone down does not come up again. -/
theorem trans {s s' s'' : KCPSession} (h : Passage s s') (h' : Passage s' s'') :
    Passage s s'' := by
  cases h with
  | running hopen h =>
      have hstill := h.closed.trans hopen
      cases h' with
      | running hopen' h' => exact .running hopen (h.trans h')
      | closing mid lastFlush currentMs hopen' h' hafter =>
          exact .closing mid lastFlush currentMs hopen (h.trans h') hafter
      | closed h' => exact absurd h'.before (by simp [hstill])
  | closing mid lastFlush currentMs hopen h hafter =>
      cases h' with
      | running hopen' h' => exact absurd hafter.after (by simp [hopen'])
      | closing mid' lastFlush' currentMs' hopen' h' hafter' =>
          exact absurd hafter.after (by simp [hopen'])
      | closed h' => exact .closing mid lastFlush currentMs hopen h (hafter.trans h')
  | closed h =>
      cases h' with
      | running hopen' h' => exact absurd h.after (by simp [hopen'])
      | closing mid' lastFlush' currentMs' hopen' h' hafter' =>
          exact absurd h.after (by simp [hopen'])
      | closed h' => exact .closed (h.trans h')

/-- The empty passage, of an open session or a closed one. -/
theorem refl (s : KCPSession) : Passage s s := by
  cases hclosed : s.closed with
  | false => exact .running hclosed (.refl s)
  | true => exact .closed (.refl hclosed)

/-- Once a session is closed its control block does not change. -/
theorem frozen {s s' : KCPSession} (h : Passage s s') (hclosed : s.closed = true) :
    s'.closed = true ∧ s'.kcp = s.kcp := by
  cases h with
  | running hopen h => exact absurd hclosed (by simp [hopen])
  | closing mid lastFlush currentMs hopen h hafter => exact absurd hclosed (by simp [hopen])
  | closed h => exact ⟨h.after, h.kcp⟩

/-- `Close` takes an open session down, and does nothing to a closed one. -/
theorem close (s : KCPSession) (lastFlush : Bool) (currentMs : UInt32) :
    Passage s (s.close lastFlush currentMs) := by
  cases hclosed : s.closed with
  | false =>
      exact .closing s lastFlush currentMs hclosed (.refl s)
        (.refl (KCPSession.close_spec hclosed lastFlush currentMs).1)
  | true =>
      unfold KCPSession.close
      rw [if_pos hclosed]
      exact refl s

/-- `WriteInLoopThread` lets an open session run, and only records the write to a closed one. -/
theorem writeInLoopThread (s : KCPSession) (data : List UInt8) (currentMs : UInt32) :
    Passage s (s.writeInLoopThread data currentMs) := by
  unfold KCPSession.writeInLoopThread
  cases hclosed : s.closed with
  | true =>
      rw [if_pos (show (s.log (.written data)).closed = true from hclosed)]
      exact .closed ⟨hclosed, hclosed, rfl, rfl, [.written data], rfl,
        by simp [SessionEvent.isWritten]⟩
  | false =>
      rw [if_neg (by simp [KCPSession.log, hclosed])]
      have hlog : Undisturbed s (s.log (.written data)) := Undisturbed.log s rfl
      exact .running hclosed
        ((hlog.trans (Undisturbed.composable.writeWindow _ data currentMs)).trans
          (Undisturbed.composable.writeRemaining _ _ _))

/-- A call of the user is a passage. -/
theorem call (s : KCPSession) (userCall : UserCall) : Passage s (s.call userCall) := by
  cases userCall with
  | write data currentMs => exact writeInLoopThread s data currentMs
  | close lastFlush currentMs => exact close s lastFlush currentMs

/-- `UpdateConnectionState` lets the session run, or closes it when the link is dead. -/
theorem updateConnectionState (s : KCPSession) (currentMs : UInt32) :
    Passage s (s.updateConnectionState currentMs) := by
  unfold KCPSession.updateConnectionState
  cases hclosed : s.closed with
  | true => exact refl s
  | false =>
      simp only [Bool.false_eq_true, ite_false]
      split
      · exact close s false currentMs
      · exact .running hclosed ((Undisturbed.flushed s currentMs).trans (.log _ rfl))

end Passage

namespace KCPSession

/-- The states after each of the calls that a callback makes. -/
def callMoments (s : KCPSession) : List UserCall → List KCPSession
  | [] => []
  | userCall :: calls => s.call userCall :: callMoments (s.call userCall) calls

/-- The states in `OnReadEvent`: after `ikcp_recv` and after each call of the callback. -/
def readMoments (s : KCPSession) (bytesCanRead : Int) (calls : List UserCall) :
    List KCPSession :=
  let len := (ikcpRecv s.kcp (Int32.ofInt bytesCanRead)).rc
  let s := s.receive bytesCanRead
  s :: if len > 0 ∧ s.callbacks.message then s.callMoments calls else []

/-- The states in the receive loop. -/
def drainMoments : Nat → List (List UserCall) → KCPSession → List KCPSession
  | 0, _, _ => []
  | fuel + 1, calls, s =>
    if s.closed then []
    else if ikcpPeeksize s.kcp < 0 then []
    else s.readMoments (ikcpPeeksize s.kcp) (calls.headD []) ++
      drainMoments fuel calls.tail (s.onReadEvent (ikcpPeeksize s.kcp) (calls.headD []))

/-- The states in `ProcessPacketInLoopThread`: after `ikcp_input`, and those of the loop. -/
def packetMoments (s : KCPSession) (packet : KCPReceivedPacket) (peerAddress : InetAddress)
    (calls : List (List UserCall)) : List KCPSession :=
  if s.closed then []
  else
    let (result, kcp) := ikcpInput s.kcp packet.remainingData
    let s := s.setKcp kcp
    s :: if result < 0 then []
      else
        drainMoments (kcp.rcvQueue.length + kcp.rcvBuf.length) calls
          { s with peerAddress := peerAddress }

end KCPSession

/-- The states in a task and after it. -/
def SessionTask.moments (s : KCPSession) (task : SessionTask) : List KCPSession :=
  match task with
  | .packet received peerAddress calls =>
    s.packetMoments received peerAddress calls ++ [task.run s]
  | _ => [task.run s]

/-- The states in a run of tasks. -/
def SessionTask.runMoments (s : KCPSession) : List SessionTask → List KCPSession
  | [] => []
  | task :: tasks => task.moments s ++ runMoments (task.run s) tasks

/-- Some states that a session passes one after another on its way from a state to another. -/
structure Path (s : KCPSession) (moments : List KCPSession) (s' : KCPSession) : Prop where
  pairwise : (s :: moments).Pairwise Passage
  last : ∀ m ∈ s :: moments, Passage m s'

namespace Path

/-- A passage without a state to look at. -/
theorem nil {s s' : KCPSession} (h : Passage s s') : Path s [] s' :=
  ⟨List.pairwise_singleton _ _, by simpa using h⟩

/-- Two paths, one behind the other. -/
theorem append {s s' s'' : KCPSession} {moments moments' : List KCPSession}
    (h : Path s moments s') (h' : Path s' moments' s'') : Path s (moments ++ moments') s'' := by
  obtain ⟨hhead', htail'⟩ := List.pairwise_cons.mp h'.pairwise
  refine ⟨?_, fun m hm => ?_⟩
  · rw [← List.cons_append, List.pairwise_append]
    exact ⟨h.pairwise, htail', fun m hm m' hm' => (h.last m hm).trans (hhead' m' hm')⟩
  · rw [← List.cons_append, List.mem_append] at hm
    rcases hm with hm | hm
    · exact (h.last m hm).trans (h'.last s' List.mem_cons_self)
    · exact h'.last m (List.mem_cons_of_mem _ hm)

/-- A passage to a state from which a path goes on. -/
theorem cons {s m s' : KCPSession} {moments : List KCPSession} (h : Passage s m)
    (h' : Path m moments s') : Path s (m :: moments) s' := by
  refine @append s m s' [m] moments ⟨?_, ?_⟩ h'
  · simpa using h
  · simpa using ⟨h, Passage.refl m⟩

/-- The calls of a callback, with a state after each of them. -/
theorem calls (s : KCPSession) (calls : List UserCall) :
    Path s (s.callMoments calls) (calls.foldl KCPSession.call s) := by
  induction calls generalizing s with
  | nil => exact nil (Passage.refl s)
  | cons userCall calls ih => exact cons (Passage.call s userCall) (ih _)

/-- `OnReadEvent` of an open session, through the calls of its message callback. -/
theorem onReadEvent {s : KCPSession} (hopen : s.closed = false) (size : Int)
    (calls : List UserCall) : Path s (s.readMoments size calls) (s.onReadEvent size calls) := by
  have hreceive : Undisturbed s (s.receive size) :=
    Undisturbed.composable.receive s size
  refine cons (.running hopen hreceive) ?_
  unfold KCPSession.onReadEvent
  by_cases hlen : (ikcpRecv s.kcp (Int32.ofInt size)).rc > 0
  · simp only [hlen, true_and, ite_true]
    split
    · exact Path.calls _ calls
    · exact nil (Passage.refl _)
  · simp only [hlen, false_and, ite_false]
    exact nil (.running (hreceive.closed.trans hopen) (.log _ rfl))

/-- The receive loop, which stops as soon as a callback has closed the session. -/
theorem drain (fuel : Nat) (calls : List (List UserCall)) (s : KCPSession) :
    Path s (KCPSession.drainMoments fuel calls s) (KCPSession.drain fuel calls s) := by
  induction fuel generalizing calls s with
  | zero => exact nil (Passage.refl s)
  | succ fuel ih =>
      unfold KCPSession.drainMoments KCPSession.drain
      split
      · exact nil (Passage.refl s)
      rename_i hopen
      split
      · exact nil (Passage.refl s)
      · exact (onReadEvent (by simpa using hopen) _ _).append (ih _ _)

/-- `ProcessPacketInLoopThread`, from `ikcp_input` to the end of the receive loop. -/
theorem packet (s : KCPSession) (packet : KCPReceivedPacket) (peerAddress : InetAddress)
    (calls : List (List UserCall)) :
    Path s (s.packetMoments packet peerAddress calls)
      (s.processPacketInLoopThread packet peerAddress calls) := by
  unfold KCPSession.packetMoments KCPSession.processPacketInLoopThread
  cases hclosed : s.closed with
  | true => exact nil (Passage.refl s)
  | false =>
      simp only [Bool.false_eq_true, ite_false]
      generalize ikcpInput s.kcp packet.remainingData = input
      refine cons (.running hclosed (.setKcp s input.2)) ?_
      split
      · exact nil (Passage.refl _)
      · -- the new address is set without a moment in between
        have haddress : Undisturbed (s.setKcp input.2)
            { s.setKcp input.2 with peerAddress := peerAddress } := ⟨rfl, rfl, [], by simp⟩
        have hopen : (s.setKcp input.2).closed = false := hclosed
        refine append (nil (.running hopen haddress)) ?_
        have hdrain := drain (input.2.rcvQueue.length + input.2.rcvBuf.length) calls
          { s.setKcp input.2 with peerAddress := peerAddress }
        generalize KCPSession.drain _ calls _ = s' at hdrain
        split
        · rename_i hcomplete
          have hopen' : s'.closed = false := by simpa using hcomplete.1
          rw [← List.append_nil (KCPSession.drainMoments _ _ _)]
          exact hdrain.append (nil (.running hopen' (.log s' rfl)))
        · exact hdrain

/-- Every task is a path through the states in it. -/
theorem task (s : KCPSession) (task : SessionTask) : Path s (task.moments s) (task.run s) := by
  cases task with
  | call userCall => exact cons (Passage.call s userCall) (nil (Passage.refl _))
  | update currentMs =>
      exact cons (Passage.updateConnectionState s currentMs) (nil (Passage.refl _))
  | packet received peerAddress calls =>
      exact (packet s received peerAddress calls).append
        (cons (Passage.refl _) (nil (Passage.refl _)))

/-- So is every run of tasks. -/
theorem run (s : KCPSession) (tasks : List SessionTask) :
    Path s (SessionTask.runMoments s tasks) (tasks.foldl SessionTask.run s) := by
  induction tasks generalizing s with
  | nil => exact nil (Passage.refl s)
  | cons task tasks ih => exact (Path.task s task).append (ih _)

end Path

/-- What was recorded between an open state and a later one: the events of a running session, and
if it has gone down the call of the connection callback with the writes after it. -/
theorem Passage.events_of_open {s s' : KCPSession} (h : Passage s s') (hopen : s.closed = false)
    (hconnection : s.callbacks.connection = true) :
    ∃ more after, s'.events = s.events ++ more ++ after ∧ (∀ e ∈ more, e.isConnection = false) ∧
      (after = [] ∨ ∃ writes, after = .connection false :: writes ∧
        ∀ e ∈ writes, e.isWritten = true) := by
  cases h with
  | running _ h =>
      obtain ⟨more, hmore, hquiet⟩ := h.events
      exact ⟨more, [], by rw [hmore, List.append_nil], hquiet, Or.inl rfl⟩
  | closing mid lastFlush currentMs _ h hafter =>
      obtain ⟨more, hmore, hquiet⟩ := h.events
      obtain ⟨_, _, flushed, hflushed, hquiet'⟩ :=
        KCPSession.close_spec (h.closed.trans hopen) lastFlush currentMs
      obtain ⟨writes, hwrites, hwritten⟩ := hafter.events
      refine ⟨more ++ flushed, .connection false :: writes, ?_, ?_, Or.inr ⟨writes, rfl, hwritten⟩⟩
      · rw [hwrites, hflushed, hmore, h.callbacks, hconnection]
        simp
      · intro e he
        exact (List.mem_append.mp he).elim (hquiet e) (hquiet' e)
  | closed h => exact absurd h.before (by simp [hopen])

/-- The order in which a session makes its calls: the connection callback with `true` first and
never again, and with `false` at most once, after which there are neither messages nor
datagrams. -/
def Disciplined (events : List SessionEvent) : Prop :=
  ∃ rest, events = .connection true :: rest ∧ .connection true ∉ rest ∧
    rest.count (.connection false) ≤ 1 ∧
    ∀ before after, rest = before ++ .connection false :: after → ∀ e ∈ after,
      (∀ bytes, e ≠ .message bytes) ∧ ∀ body address, e ≠ .output body address

/-- The events of a quiet stretch hold no call of the connection callback. -/
theorem notMem_of_quiet {events : List SessionEvent} (h : ∀ e ∈ events, e.isConnection = false)
    (connected : Bool) : .connection connected ∉ events := by
  intro hmem
  cases h _ hmem

/-- Nor do the records of writes. -/
theorem notMem_of_written {events : List SessionEvent} (h : ∀ e ∈ events, e.isWritten = true)
    (connected : Bool) : .connection connected ∉ events := by
  intro hmem
  cases h _ hmem

/-- Events that begin with the call for the new session, go on quietly, and end with nothing or with
the call for the closed one and records of writes, are in order. -/
theorem disciplined_of_events {more after : List SessionEvent}
    (hmore : ∀ e ∈ more, e.isConnection = false)
    (hafter : after = [] ∨ ∃ writes, after = .connection false :: writes ∧
      ∀ e ∈ writes, e.isWritten = true) :
    Disciplined (.connection true :: (more ++ after)) := by
  refine ⟨more ++ after, rfl, ?_⟩
  have hnot := notMem_of_quiet hmore
  rcases hafter with rfl | ⟨writes, rfl, hwritten⟩
  · rw [List.append_nil]
    refine ⟨hnot true, ?_, ?_⟩
    · rw [List.count_eq_zero.mpr (hnot false)]
      exact Nat.zero_le 1
    · rintro before after rfl
      exact absurd (List.mem_append_right _ List.mem_cons_self) (hnot false)
  · have hwrites := notMem_of_written hwritten
    refine ⟨?_, ?_, ?_⟩
    · intro hmem
      rcases List.mem_append.mp hmem with hmem | hmem
      · exact hnot true hmem
      · rcases List.mem_cons.mp hmem with heq | hmem
        · cases heq
        · exact hwrites true hmem
    · rw [List.count_append, List.count_cons_self, List.count_eq_zero.mpr (hnot false),
        List.count_eq_zero.mpr (hwrites false)]
    · intro before after hsplit e he
      -- the only call with `false` is the known one
      have hsame : after = writes := by
        rcases List.append_eq_append_iff.mp hsplit with ⟨mid, hbefore, hmid⟩ | ⟨mid, hbefore, hmid⟩
        · cases mid with
          | nil => exact (List.cons.inj hmid).2.symm
          | cons m mid =>
              have hin : .connection false ∈ writes := by
                rw [(List.cons.inj hmid).2]
                exact List.mem_append_right _ List.mem_cons_self
              exact absurd hin (hwrites false)
        · cases mid with
          | nil => exact (List.cons.inj hmid).2
          | cons m mid =>
              have hin : .connection false ∈ more := by
                rw [hbefore, (List.cons.inj hmid).1]
                exact List.mem_append_right _ List.mem_cons_self
              exact absurd hin (hnot false)
      rw [hsame] at he
      have hevent := hwritten e he
      refine ⟨?_, ?_⟩
      · rintro bytes rfl
        cases hevent
      · rintro body address rfl
        cases hevent

/-- The states after each of the calls that the connection callback makes for a new session. -/
def KCPSession.startMoments (sessionId : UInt32) (peerAddress : InetAddress) (params : Params)
    (callbacks : SessionCallbacks) (calls : List UserCall) : List KCPSession :=
  (initializeControl sessionId params).elim [] fun kcp =>
    ({ kcp, sessionId, peerAddress, callbacks : KCPSession }.onConnectionEvent true).callMoments
      calls

/-- `Initialize` calls the connection callback first, and what the callback does is a path. -/
theorem KCPSession.initializeWith_path {sessionId : UInt32} {peerAddress : InetAddress}
    {params : Params} {callbacks : SessionCallbacks} {calls : List UserCall} {s : KCPSession}
    (h : initializeWith sessionId peerAddress params callbacks calls = some s)
    (hconnection : callbacks.connection = true) :
    ∃ up : KCPSession, up.closed = false ∧ up.callbacks = callbacks ∧
      up.events = [.connection true] ∧
      Path up (startMoments sessionId peerAddress params callbacks calls) s := by
  obtain ⟨kcp, hkcp, rfl⟩ := Option.map_eq_some_iff.mp h
  obtain ⟨hclosed, hcallbacks, hevents⟩ := onConnectionEvent_spec
    { kcp, sessionId, peerAddress, callbacks } true
  refine ⟨_, hclosed, hcallbacks, ?_, ?_⟩
  · rw [hevents]
    simp [hconnection]
  · rw [startMoments, hkcp]
    simp only [hconnection, ite_true, Option.elim_some]
    exact Path.calls _ calls

/-- Only the last flush of an open session changes the control block in `Close`. -/
theorem KCPSession.close_kcp (s : KCPSession) (lastFlush : Bool) (currentMs : UInt32) :
    (s.close lastFlush currentMs).kcp =
      if !s.closed && lastFlush then (ikcpFlush s.kcp currentMs).kcp else s.kcp := by
  unfold close
  cases s.closed with
  | true => rfl
  | false =>
      have hevent : ∀ s : KCPSession, (s.onConnectionEvent false).kcp = s.kcp := by
        intro s
        unfold onConnectionEvent
        split <;> rfl
      simp only [Bool.false_eq_true, ite_false, hevent]
      cases lastFlush with
      | false => rfl
      | true =>
          unfold flushTxQueue
          simp only [ite_true]
          split <;> rfl

/-- However the tasks of a session follow one another, it comes up exactly once, before anything
else, and goes down at most once, after which it hands out neither messages nor datagrams; and
from the first state on in which it is closed, in the middle of a task or between two, nothing
changes its control block. The final flush is part of the call of `Close`. -/
theorem session_discipline (sessionId : UInt32) (peerAddress : InetAddress) (params : Params)
    (callbacks : SessionCallbacks) (calls : List UserCall) (tasks : List SessionTask)
    (s : KCPSession)
    (h : KCPSession.initializeWith sessionId peerAddress params callbacks calls = some s)
    (hconnection : callbacks.connection = true) :
    Disciplined (tasks.foldl SessionTask.run s).events ∧
      (KCPSession.startMoments sessionId peerAddress params callbacks calls ++
        SessionTask.runMoments s tasks).Pairwise
          (fun m m' => m.closed = true → m'.closed = true ∧ m'.kcp = m.kcp) ∧
      ∀ (m : KCPSession) (lastFlush : Bool) (currentMs : UInt32),
        (m.close lastFlush currentMs).kcp =
          if !m.closed && lastFlush then (ikcpFlush m.kcp currentMs).kcp else m.kcp := by
  obtain ⟨up, hopen, hcallbacks, hevents, hstart⟩ := KCPSession.initializeWith_path h hconnection
  have hpath := hstart.append (Path.run s tasks)
  refine ⟨?_, ?_, KCPSession.close_kcp⟩
  · have hup : up.callbacks.connection = true := by rw [hcallbacks, hconnection]
    obtain ⟨more, after, hsplit, hmore, hafter⟩ :=
      (hpath.last up List.mem_cons_self).events_of_open hopen hup
    rw [hsplit, hevents]
    exact disciplined_of_events hmore hafter
  · exact (List.pairwise_cons.mp hpath.pairwise).2.imp fun hpassage => hpassage.frozen

/-- A session that is closed with a last flush, and then written to and updated. -/
def hangUpTasks : List SessionTask :=
  [.update 0, .call (.write [1, 2, 3] 5), .call (.close true 10), .call (.write [4] 11),
    .update 12]

/-- Its calls are in order although it is written to after it was closed. -/
theorem session_discipline_hangUpTasks :
    ∃ s, KCPSession.initializeWith 7 ⟨"10.0.0.1:9000"⟩ sessionParams {} [] = some s ∧
      (hangUpTasks.foldl SessionTask.run s).closed = true ∧
      Disciplined (hangUpTasks.foldl SessionTask.run s).events := by
  have hrun : (KCPSession.initializeWith 7 ⟨"10.0.0.1:9000"⟩ sessionParams {} []).map
      (fun s => (hangUpTasks.foldl SessionTask.run s).closed) = some true := by
    decide +kernel
  obtain ⟨s, hstart, hclosed⟩ := Option.map_eq_some_iff.mp hrun
  exact ⟨s, hstart, hclosed,
    (session_discipline 7 ⟨"10.0.0.1:9000"⟩ sessionParams {} [] hangUpTasks s hstart rfl).1⟩

end CodeBlocks.Kcp
