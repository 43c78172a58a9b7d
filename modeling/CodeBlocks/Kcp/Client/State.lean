import CodeBlocks.Kcp.Client.Changes

/-!
# The state of the client

What the state word, the two pointers, the reconnect timer and its flag say
together. A `ClientShape` keeps only which of them are set. As long as the
callbacks leave the client alone, its events act on the shape by one of a few
steps, and the consistency of the fields is a property of these.
-/

namespace CodeBlocks.Kcp

/-- Which of the fields of a client are set. -/
structure ClientShape where
  socket : Bool
  pendingSession : Bool
  session : Bool
  state : KCPClientState
  reconnectEnabled : Bool
  reconnectTimerRegistered : Bool
  reconnectTimer : Bool
  deriving DecidableEq, Repr

/-- The shape of a client. -/
def KCPClient.shape (client : KCPClient) : ClientShape where
  socket := client.socket
  pendingSession := client.pendingSession.isSome
  session := client.session.isSome
  state := client.state
  reconnectEnabled := client.reconnectEnabled
  reconnectTimerRegistered := client.reconnectTimerRegistered
  reconnectTimer := client.reconnectTimer

namespace ClientShape

/-- A handshake starts unless one is under way or done. -/
def build (s : ClientShape) : ClientShape :=
  if s.socket ∧ s.state = .closed then { s with pendingSession := true, state := .pending } else s

/-- Everything is dropped, and the timer is set where it has to be. -/
def reset (s : ClientShape) : ClientShape :=
  let s := { s with pendingSession := false, session := false, state := .closed }
  if s.socket ∧ s.reconnectEnabled ∧ !s.reconnectTimerRegistered then
    { s with reconnectTimerRegistered := true, reconnectTimer := true }
  else s

/-- The socket is closed, and with it the pointer that the state word names. -/
def disconnect (s : ClientShape) : ClientShape where
  socket := false
  pendingSession := s.pendingSession && s.state ≠ .pending
  session := s.session && s.state ≠ .connected
  state := .closed
  reconnectEnabled := s.reconnectEnabled
  reconnectTimerRegistered := false
  reconnectTimer := false

/-- What an event can do to the shape of a client whose callbacks leave it alone. -/
inductive Step (s : ClientShape) : ClientShape → Prop where
  | stay : Step s s
  | connect (h : s.socket = false) : Step s { s with socket := true }.build
  | disconnect : Step s s.disconnect
  | up (hsession : s.session = false) (hpending : s.pendingSession = true) :
      Step s { s with session := true, pendingSession := false, state := .connected }
  | reset : Step s s.reset
  | reconnect (h : s.reconnectTimer = true) :
      Step s { { s with reconnectTimer := false }.build with reconnectTimerRegistered := false }
  | enable (enabled : Bool) : Step s { s with reconnectEnabled := enabled }

end ClientShape

/-- The connection callback leaves the client alone. -/
def ClientEvent.Calm : ClientEvent → Prop
  | .connect _ _ => True
  | .disconnect callback _ => callback.disconnects = false
  | .packet input => input.callback.disconnects = false
  | .periodicTask _ callback _ => callback.disconnects = false
  | .reconnect _ => True
  | .session _ callback _ => callback.disconnects = false
  | .setReconnectEnabled _ => True

namespace KCPClient

variable {adler32 : UInt32 → List UInt8 → UInt32}

/-- Another session in the place of the current one. -/
theorem shape_setSession {client : KCPClient} {session : Option KCPSession}
    (h : session.isSome = client.session.isSome) :
    { client with session := session }.shape = client.shape := by
  unfold shape
  rw [h]

section Calm

variable {callback : CallbackRun} (hcalm : callback.disconnects = false)
include hcalm

/-- A calm callback changes the session at most. -/
theorem connectionDown_calm (client : KCPClient) (currentMs : UInt32) :
    ∃ session, (client.connectionDown callback currentMs).1 = { client with session := session } ∧
      session.isSome = client.session.isSome := by
  unfold connectionDown
  split
  · simp only [hcalm, Bool.false_eq_true, ite_false]
    exact ⟨_, rfl, Option.isSome_map⟩
  · exact ⟨client.session, rfl, rfl⟩

/-- Closing a session leaves the pointer to it set. -/
theorem closeSession_calm {client : KCPClient} {session : KCPSession}
    (h : client.session = some session) (lastFlush : Bool) (currentMs : UInt32) :
    ∃ session', (closeSession lastFlush callback currentMs client session).1 =
      { client with session := some session' } := by
  unfold closeSession
  split
  · exact ⟨session, by rw [← h]⟩
  · obtain ⟨session', heq, hsome⟩ := connectionDown_calm hcalm
      { client with session := some (session.close lastFlush currentMs) } currentMs
    obtain ⟨session'', hsession⟩ := Option.isSome_iff_exists.mp hsome
    exact ⟨session'', by rw [heq, hsession]⟩

/-- `ResetSession` lets go of the session and changes nothing else by it. -/
theorem dropSession_calm (client : KCPClient) (currentMs : UInt32) :
    (client.dropSession callback currentMs).1 = { client with session := none } := by
  unfold dropSession
  split
  · rename_i hsession
    rw [← hsession]
  · rename_i session hsession
    obtain ⟨session', heq⟩ := closeSession_calm hcalm hsession false currentMs
    exact congrArg (fun c : KCPClient => { c with session := none }) heq

/-- `ResetSession` as the shape has it, with the reconnect timer. -/
theorem resetSession_shape (client : KCPClient) (currentMs : UInt32) :
    (client.resetSession callback currentMs).1.shape = client.shape.reset := by
  unfold resetSession
  simp only [dropSession_calm hcalm]
  unfold scheduleReconnect ClientShape.reset
  cases hsocket : client.socket with
  | false => simp [shape, hsocket]
  | true =>
      cases henabled : client.reconnectEnabled with
      | false => simp [shape, hsocket, henabled]
      | true =>
          cases hregistered : client.reconnectTimerRegistered with
          | false => simp [shape, hsocket, henabled, hregistered]
          | true => simp [shape, hsocket, henabled, hregistered]

/-- `Disconnect` as the shape has it, from each of the three states. -/
theorem disconnect_shape (client : KCPClient) (currentMs : UInt32) :
    (client.disconnect callback currentMs).1.shape = client.shape.disconnect := by
  unfold disconnect disconnectWith ClientShape.disconnect
  cases hstate : client.state with
  | pending => simp [shape, disconnectSocket, hstate]
  | closed => simp [shape, disconnectSocket, hstate]
  | connected =>
      cases hsession : client.session with
      | none => simp [shape, disconnectSocket, hstate, hsession]
      | some session =>
          obtain ⟨session', heq⟩ := closeSession_calm hcalm hsession true currentMs
          simp [shape, disconnectSocket, hstate, heq]

/-- A task of the session does not change the shape. -/
theorem runSession_shape {client : KCPClient} {session : KCPSession}
    (h : client.session = some session) (task : SessionTask) (currentMs : UInt32) :
    (client.runSession session task callback currentMs).1.shape = client.shape := by
  unfold runSession
  have hset : { client with session := some (task.run session) }.shape = client.shape :=
    shape_setSession (by rw [h]; rfl)
  split
  · obtain ⟨session', heq, hsome⟩ := connectionDown_calm hcalm
      { client with session := some (task.run session) } currentMs
    rw [heq, shape_setSession hsome]
    exact hset
  · exact hset

end Calm

/-- `BuildSession` starts a handshake where there is a socket and nothing else yet. -/
theorem buildSession_shape (client : KCPClient) (now : Timestamp) :
    (client.buildSession now).1.shape = client.shape.build := by
  unfold buildSession ClientShape.build
  cases hsocket : client.socket with
  | false => simp [shape, hsocket]
  | true =>
      by_cases hstate : client.state = .closed
      · simp [shape, hsocket, hstate]
      · simp [shape, hsocket, hstate]

/-- `RunPeriodicTask` resets the client or leaves its shape alone. -/
theorem runPeriodicTask_shape {callback : CallbackRun} (hcalm : callback.disconnects = false)
    (client : KCPClient) (now : Timestamp) (currentMs : UInt32) :
    ClientShape.Step client.shape
      (client.runPeriodicTask now callback currentMs).1.shape := by
  have hreset : ClientShape.Step client.shape
      (client.resetSession callback currentMs).1.shape := by
    rw [resetSession_shape hcalm]
    exact .reset
  unfold runPeriodicTask
  split
  · split
    · exact .stay
    rename_i pending hpending
    split
    · exact hreset
    split
    · -- the handshake is retried
      have hsame : ∀ pending' : KCPPendingSession,
          { client with pendingSession := some pending' }.shape = client.shape := by
        intro pending'
        simp [shape, hpending]
      rw [hsame]
      exact .stay
    · exact .stay
  · split
    · exact .stay
    split
    · exact hreset
    split
    · exact hreset
    split
    · exact .stay
    · exact .stay
  · exact .stay

/-- A `SYN` packet brings the session up where a handshake waits for it. -/
theorem processSynPacket_shape {input : ClientPacket} (hcalm : input.callback.disconnects = false)
    (client : KCPClient) (header : KCPPublicHeader) (packet : KCPReceivedPacket) :
    ClientShape.Step client.shape (client.processSynPacket header packet input).1.shape := by
  unfold processSynPacket
  cases hsession : client.session with
  | some session =>
      simp only
      split
      · exact .stay
      · exact .stay
  | none =>
      simp only
      split
      · exact .stay
      rename_i hpending
      cases KCPSession.initializeWith header.sessionId client.serverAddress sessionParams
          client.sessionCallbacks input.callback.calls with
      | none => exact .stay
      | some session =>
          have hup : (client.sessionUp session input).1.shape =
              { client.shape with
                session := true, pendingSession := false, state := .connected } := by
            unfold sessionUp connectionUp
            simp [shape, hcalm]
          rw [Option.elim_some]
          simp only [hup]
          apply ClientShape.Step.up
          · simp [shape, hsession]
          · simp only [shape]
            exact Option.isSome_iff_ne_none.mpr hpending

/-- A `DATA` packet does not change the shape. -/
theorem processDataPacket_shape {input : ClientPacket} (hcalm : input.callback.disconnects = false)
    (client : KCPClient) (header : KCPPublicHeader) (packet : KCPReceivedPacket) :
    (client.processDataPacket header packet input).1.shape = client.shape := by
  unfold processDataPacket
  cases hsession : client.session with
  | none => rfl
  | some session =>
      have hreceived : { client with lastReceivedTime := input.now }.session = some session :=
        hsession
      exact runSession_shape hcalm hreceived _ _

/-- Nor does a `PONG` packet. -/
theorem processPongPacket_shape (client : KCPClient) (header : KCPPublicHeader)
    (packet : KCPReceivedPacket) (input : ClientPacket) :
    (client.processPongPacket header packet input).1.shape = client.shape := by
  unfold processPongPacket
  split
  · rfl
  · rfl

/-- Every handler of a packet makes one step, and most make none. -/
theorem dispatch_shape {input : ClientPacket} (hcalm : input.callback.disconnects = false)
    (client : KCPClient) (header : KCPPublicHeader) (packet : KCPReceivedPacket)
    (type : Option KCPReceivedPacketType) :
    ClientShape.Step client.shape (client.dispatch header packet input type).1.shape := by
  rcases type with _ | type
  · exact .stay
  cases type with
  | syn =>
      unfold dispatch
      exact processSynPacket_shape hcalm client header packet
  | rst =>
      unfold dispatch processRstPacket
      simp only [resetSession_shape hcalm]
      exact .reset
  | pong =>
      unfold dispatch
      rw [processPongPacket_shape]
      exact .stay
  | data =>
      unfold dispatch
      rw [processDataPacket_shape hcalm]
      exact .stay
  | ack => exact .stay
  | ping => exact .stay

/-- A datagram that is refused before its handler makes no step. -/
theorem handleRead_shape {input : ClientPacket} (hcalm : input.callback.disconnects = false)
    (client : KCPClient) :
    ClientShape.Step client.shape (client.handleRead adler32 input).1.shape := by
  unfold handleRead
  split
  · exact .stay
  split
  · exact .stay
  · rename_i hlen
    rw [processPacket_eq client (by omega)]
    split
    · exact .stay
    · exact dispatch_shape hcalm client _ _ _

/-- A calm event acts on the shape by one of its steps. -/
theorem step_shape (client : KCPClient) {event : ClientEvent} (hcalm : event.Calm) :
    ClientShape.Step client.shape (client.step adler32 event).shape := by
  unfold step handle
  cases event with
  | connect address now =>
      simp only
      split
      · exact .stay
      · rename_i hsocket
        have hbuild := buildSession_shape
          { client with serverAddress := address, socket := true } now
        have hconnect : (client.connect address now).1.shape =
            { client.shape with socket := true }.build := hbuild
        rw [hconnect]
        exact .connect (by simpa [shape] using hsocket)
  | disconnect callback currentMs =>
      simp only [disconnect_shape hcalm]
      exact .disconnect
  | packet input => exact handleRead_shape hcalm client
  | periodicTask now callback currentMs =>
      simp only
      split
      · exact runPeriodicTask_shape hcalm client now currentMs
      · exact .stay
  | reconnect now =>
      simp only
      split
      · rename_i htimer
        have hbuild := buildSession_shape { client with reconnectTimer := false } now
        have hreconnect : (client.reconnect now).1.shape =
            { { client.shape with reconnectTimer := false }.build with
              reconnectTimerRegistered := false } :=
          congrArg (fun s : ClientShape => { s with reconnectTimerRegistered := false }) hbuild
        rw [hreconnect]
        exact .reconnect htimer
      · exact .stay
  | session task callback currentMs =>
      cases hsession : client.session with
      | none => exact .stay
      | some session =>
          simp only [runSession_shape hcalm hsession]
          exact .stay
  | setReconnectEnabled enabled => exact .enable enabled

end KCPClient

namespace ClientShape

/-- What holds between events: the state word tells which pointer is set, there is a state only
where there is a socket, and the flag tells whether the timer is pending. -/
structure Consistent (s : ClientShape) : Prop where
  pending : s.state = .pending ↔ s.pendingSession = true ∧ s.session = false
  connected : s.state = .connected ↔ s.session = true ∧ s.pendingSession = false
  closed : s.state = .closed ↔ s.pendingSession = false ∧ s.session = false
  socket : s.socket = false → s.state = .closed
  timer : s.reconnectTimerRegistered = s.reconnectTimer

/-- A client without a session waits for the timer. -/
def Waiting (s : ClientShape) : Prop :=
  s.socket = true → s.state = .closed →
    s.reconnectTimer = true ∧ s.reconnectTimerRegistered = true

/-- A handshake may start where there is a socket. -/
theorem Consistent.build {s : ClientShape} (h : s.Consistent) (hsocket : s.socket = true) :
    s.build.Consistent := by
  unfold ClientShape.build
  split
  · rename_i hclosed
    obtain ⟨_, hsession⟩ := h.closed.mp hclosed.2
    refine ⟨?_, ?_, ?_, ?_, h.timer⟩
    · simp [hsession]
    · simp
    · simp
    · simp [hsocket]
  · exact h

/-- A reset leaves neither pointer set, and sets the timer together with its flag. -/
theorem Consistent.reset {s : ClientShape} (h : s.Consistent) : s.reset.Consistent := by
  unfold ClientShape.reset
  simp only
  split
  · exact ⟨by simp, by simp, by simp, by simp, rfl⟩
  · exact ⟨by simp, by simp, by simp, by simp, h.timer⟩

/-- `Disconnect` clears the pointer that the state word names, and there is no other. -/
theorem Consistent.disconnect {s : ClientShape} (h : s.Consistent) :
    s.disconnect.Consistent := by
  have hcleared : s.disconnect.pendingSession = false ∧ s.disconnect.session = false := by
    unfold ClientShape.disconnect
    cases hstate : s.state with
    | pending => simp [(h.pending.mp hstate).2]
    | connected => simp [(h.connected.mp hstate).2]
    | closed => simp [(h.closed.mp hstate).1, (h.closed.mp hstate).2]
  refine ⟨?_, ?_, ?_, fun _ => rfl, rfl⟩
  · rw [hcleared.1, hcleared.2]
    simp [ClientShape.disconnect]
  · rw [hcleared.1, hcleared.2]
    simp [ClientShape.disconnect]
  · rw [hcleared.1, hcleared.2]
    simp [ClientShape.disconnect]

/-- Every step keeps the fields consistent. -/
theorem Consistent.step {s s' : ClientShape} (h : s.Consistent) (hstep : Step s s') :
    s'.Consistent := by
  cases hstep with
  | stay => exact h
  | connect hsocket =>
      apply Consistent.build
      · exact ⟨h.pending, h.connected, h.closed, by simp, h.timer⟩
      · rfl
  | disconnect => exact h.disconnect
  | up hsession hpending =>
      have hstate := h.pending.mpr ⟨hpending, hsession⟩
      refine ⟨by simp, by simp, by simp, fun hsocket => ?_, h.timer⟩
      rw [h.socket hsocket] at hstate
      cases hstate
  | reset => exact h.reset
  | reconnect htimer =>
      unfold ClientShape.build
      simp only
      split
      · rename_i hclosed
        obtain ⟨_, hsession⟩ := h.closed.mp hclosed.2
        refine ⟨by simp [hsession], by simp, by simp, ?_, rfl⟩
        simp [hclosed.1]
      · exact ⟨h.pending, h.connected, h.closed, h.socket, rfl⟩
  | enable enabled => exact ⟨h.pending, h.connected, h.closed, h.socket, h.timer⟩

/-- A client that reconnects stays so. -/
theorem Waiting.step {s s' : ClientShape} (h : s.Waiting) (hconsistent : s.Consistent)
    (henabled : s.reconnectEnabled = true) (hstep : Step s s') : s'.Waiting := by
  intro hsocket hclosed
  cases hstep with
  | stay => exact h hsocket hclosed
  | connect hnone =>
      simp [ClientShape.build, hconsistent.socket hnone] at hclosed
  | disconnect => cases hsocket
  | up hsession hpending => cases hclosed
  | reset =>
      unfold ClientShape.reset at hsocket ⊢
      simp only [henabled, true_and] at hsocket ⊢
      split
      · exact ⟨rfl, rfl⟩
      · rename_i hregistered
        rw [if_neg hregistered] at hsocket
        have hregistered : s.socket = true → s.reconnectTimerRegistered = true := by
          simpa using hregistered
        have htrue := hregistered hsocket
        exact ⟨hconsistent.timer ▸ htrue, htrue⟩
  | reconnect htimer =>
      unfold ClientShape.build at hsocket hclosed
      simp only at hsocket hclosed
      split at hclosed
      · cases hclosed
      · rename_i hopen
        rw [if_neg hopen] at hsocket
        exact absurd ⟨hsocket, hclosed⟩ hopen
  | enable enabled => exact h hsocket hclosed

end ClientShape

namespace KCPClient

variable {adler32 : UInt32 → List UInt8 → UInt32}

/-- So does every run whose callbacks leave the client alone. -/
theorem consistent_run (callbacks : SessionCallbacks) (events : List ClientEvent)
    (hcalm : ∀ event ∈ events, event.Calm) :
    (events.foldl (KCPClient.step adler32) { callbacks }).shape.Consistent := by
  have hinit : ({ callbacks : KCPClient }).shape.Consistent :=
    ⟨by simp [shape], by simp [shape], by simp [shape], by simp [shape], rfl⟩
  suffices hrun : ∀ client : KCPClient, client.shape.Consistent →
      (events.foldl (KCPClient.step adler32) client).shape.Consistent from hrun _ hinit
  induction events with
  | nil => exact fun _ h => h
  | cons event events ih =>
      intro client h
      exact ih (fun e he => hcalm e (List.mem_cons_of_mem _ he)) _
        (h.step (step_shape client (hcalm event List.mem_cons_self)))

/-- From a waiting client on, as long as reconnecting is enabled. -/
theorem waiting_run {client : KCPClient} (hconsistent : client.shape.Consistent)
    (hwaiting : client.shape.Waiting) (events : List ClientEvent)
    (hcalm : ∀ event ∈ events, event.Calm)
    (henabled : ∀ before, before <+: events →
      (before.foldl (KCPClient.step adler32) client).reconnectEnabled = true) :
    (events.foldl (KCPClient.step adler32) client).shape.Waiting := by
  induction events generalizing client with
  | nil => exact hwaiting
  | cons event events ih =>
      have hstep := @step_shape adler32 client event (hcalm event List.mem_cons_self)
      have hnow : client.reconnectEnabled = true := henabled [] List.nil_prefix
      apply ih (hconsistent.step hstep) (hwaiting.step hconsistent hnow hstep)
      · exact fun e he => hcalm e (List.mem_cons_of_mem _ he)
      · intro before hbefore
        exact henabled (event :: before) (List.cons_prefix_cons.mpr ⟨rfl, hbefore⟩)

end KCPClient

/-- After any events whose callbacks leave the client alone, its state word tells which of its two
pointers is set; and where a `Connect` has opened the socket and reconnecting has been enabled
ever since, a client that is closed waits for its reconnect timer. -/
theorem client_consistent (adler32 : UInt32 → List UInt8 → UInt32) (callbacks : SessionCallbacks)
    (events : List ClientEvent) (hcalm : ∀ event ∈ events, event.Calm) :
    let run := List.foldl (KCPClient.step adler32) { callbacks }
    let client := run events
    (client.state = .pending ↔ client.pendingSession ≠ none ∧ client.session = none) ∧
      (client.state = .connected ↔ client.session ≠ none ∧ client.pendingSession = none) ∧
      (client.state = .closed ↔ client.pendingSession = none ∧ client.session = none) ∧
      ∀ before address now after, events = before ++ .connect address now :: after →
        (run before).socket = false →
        (∀ since, since <+: after →
          (run (before ++ .connect address now :: since)).reconnectEnabled = true) →
        client.socket = true → client.state = .closed →
          client.reconnectTimer = true ∧ client.reconnectTimerRegistered = true := by
  intro run client
  have hconsistent : client.shape.Consistent := KCPClient.consistent_run callbacks events hcalm
  refine ⟨?_, ?_, ?_, ?_⟩
  · simpa [KCPClient.shape, Option.isSome_iff_ne_none] using hconsistent.pending
  · simpa [KCPClient.shape, Option.isSome_iff_ne_none] using hconsistent.connected
  · simpa [KCPClient.shape] using hconsistent.closed
  · intro before address now after hsplit hsocket henabled
    have hcalms : (∀ event ∈ before, event.Calm) ∧ ∀ event ∈ after, event.Calm := by
      refine ⟨fun e he => hcalm e ?_, fun e he => hcalm e ?_⟩
      · rw [hsplit]
        exact List.mem_append_left _ he
      · rw [hsplit]
        exact List.mem_append_right _ (List.mem_cons_of_mem _ he)
    have hbefore : (run before).shape.Consistent :=
      KCPClient.consistent_run callbacks before hcalms.1
    -- `Connect` leaves a handshake, and from then on the timer is pending in the closed state
    have hconnect := @KCPClient.step_shape adler32 (run before) (.connect address now) trivial
    have hpending : (KCPClient.step adler32 (run before) (.connect address now)).state =
        .pending := by
      have hclosed : (run before).state = .closed := hbefore.socket hsocket
      simp [KCPClient.step, KCPClient.handle, hsocket, KCPClient.connect, KCPClient.buildSession,
        hclosed]
    have hwaiting := KCPClient.waiting_run (hbefore.step hconnect)
      (fun _ hclosed => absurd (hpending.symm.trans hclosed) (by decide)) after hcalms.2
      (fun since hsince => by simpa [run] using henabled since hsince)
    have hclient : client = after.foldl (KCPClient.step adler32)
        (KCPClient.step adler32 (run before) (.connect address now)) := by
      simp [client, run, hsplit]
    rw [hclient]
    exact hwaiting

/-- A server's reset while the handshake is under way. -/
def refusal : ClientPacket := { data := datagram .rst 0 [], now := 2 }

/-- A client that reconnects, and is refused. -/
def refusedRun : List ClientEvent :=
  [.setReconnectEnabled true, .connect ⟨"10.0.0.9:7000"⟩ 1, .packet refusal]

/-- The refused client is closed and waits for its timer. -/
theorem client_consistent_refusedRun :
    let client := refusedRun.foldl (KCPClient.step Zlib.adler32) {}
    client.state = .closed ∧ client.reconnectTimer = true ∧
      client.reconnectTimerRegistered = true := by
  have hclosed : (refusedRun.foldl (KCPClient.step Zlib.adler32) {}).state = .closed := by
    decide +kernel
  refine ⟨hclosed, ?_⟩
  refine (client_consistent Zlib.adler32 {} refusedRun ?_).2.2.2 [.setReconnectEnabled true] _ _
    [.packet refusal] rfl rfl ?_ (by decide +kernel) hclosed
  · simp [refusedRun, refusal, ClientEvent.Calm]
  · intro since hsince
    rw [← List.mem_inits] at hsince
    simp only [List.inits, List.map_cons, List.map_nil, List.mem_cons, List.not_mem_nil,
      or_false] at hsince
    rcases hsince with rfl | rfl
    · decide +kernel
    · decide +kernel

end CodeBlocks.Kcp
