import CodeBlocks.Kcp.Server.Server

/-!
# The client

`KCPClient` as its loop runs it: at most one pending handshake, one session, the
reconnect timer and the handlers of the packet types. The session runs in the
loop of the client, so the connection callback runs inside the operation that
brings the session up or down, and it may call `Disconnect`. A failed assertion
and a null dereference are effects, after which the code runs on.
-/

namespace CodeBlocks.Kcp

abbrev kClientMaxSynRetryTimes : UInt32 := 30

abbrev kClientSynSentTimeout : Int := 2 * kMicroSecondsPerSecond

abbrev kClientSessionIdleSeconds : Int := 120 * kMicroSecondsPerSecond

abbrev kClientMaxReconnectDelay : Int := 3 * kMicroSecondsPerSecond

abbrev kClientPingInterval : Int := 5 * kMicroSecondsPerSecond

/-- `KCPClient::State`. -/
inductive KCPClientState where
  | closed
  | pending
  | connected
  deriving DecidableEq, Repr

/-- The functions of the client that assert. -/
inductive ClientFunction where
  | processSynPacket
  | processRstPacket
  | processPongPacket
  | processDataPacket
  | processPacket
  | sendPacket
  | runPeriodicTask
  | disconnect
  deriving DecidableEq, Repr

/-- What the client does to the outside. -/
inductive ClientEffect where
  | send (packetType : KCPReceivedPacketType) (sessionId : UInt32)
  | reconnectAfter (delay : Int)
  | assertFailed (function : ClientFunction)
  | nullDereference
  deriving DecidableEq, Repr

/-- The effect of some assertions. -/
def ClientEffect.asserts (function : ClientFunction) (conditions : List Bool) :
    List ClientEffect :=
  if conditions.all id then [] else [.assertFailed function]

/-- What the connection callback does: calls on its session, and then maybe `Disconnect`. -/
structure CallbackRun where
  calls : List UserCall := []
  disconnects : Bool := false
  deriving DecidableEq, Repr

/-- `KCPClient`. `socket` says that `socket_` is set, and then it is open; the timers are
set or not. -/
structure KCPClient where
  serverAddress : InetAddress := ⟨""⟩
  socket : Bool := false
  pendingSession : Option KCPPendingSession := none
  session : Option KCPSession := none
  lastReceivedTime : Timestamp := 0
  lastPingTime : Timestamp := 0
  state : KCPClientState := .closed
  reconnectEnabled : Bool := false
  reconnectTimerRegistered : Bool := false
  reconnectTimes : Nat := 0
  periodicTaskTimer : Bool := false
  reconnectTimer : Bool := false
  callbacks : SessionCallbacks := {}
  deriving DecidableEq, Repr

/-- One received datagram with the clock readings seen while it is processed, the calls that the
message callback makes, and what the connection callback does. -/
structure ClientPacket where
  data : List UInt8
  now : Timestamp
  currentMs : UInt32 := 0
  calls : List (List UserCall) := []
  callback : CallbackRun := {}
  deriving DecidableEq, Repr

namespace KCPClient

/-- `SendPacket`. -/
def sendPacket (client : KCPClient) (packetType : KCPReceivedPacketType) (sessionId : UInt32) :
    List ClientEffect :=
  if client.socket then [.send packetType sessionId] else [.nullDereference]

/-- The end of `Disconnect`: timers, channel and socket. -/
def disconnectSocket (client : KCPClient) : KCPClient :=
  { client with
    periodicTaskTimer := false
    reconnectTimer := false
    reconnectTimerRegistered := false
    socket := false
    state := .closed }

/-- `Disconnect`, with the call of `Close` on the session as an argument. -/
def disconnectWith (closeSession : KCPClient → KCPSession → KCPClient × List ClientEffect)
    (client : KCPClient) : KCPClient × List ClientEffect :=
  match client.state with
  | .pending =>
    ({ client with pendingSession := none }.disconnectSocket,
      ClientEffect.asserts .disconnect [client.pendingSession.isSome])
  | .connected =>
    let asserts := ClientEffect.asserts .disconnect [client.session.isSome]
    match client.session with
    | none => (client.disconnectSocket, asserts ++ [.nullDereference])
    | some session =>
      let (client, effects) := closeSession client session
      match client.session with
      | none => (client.disconnectSocket, asserts ++ effects ++ [.nullDereference])
      | some session =>
        ({ client with session := none }.disconnectSocket,
          asserts ++ effects ++ client.sendPacket .rst session.sessionId)
  | .closed => (client.disconnectSocket, [])

/-- `Disconnect` inside the connection callback. The session that went down is closed already, so
that its `Close` runs no callback again. -/
def disconnectInCallback (client : KCPClient) (currentMs : UInt32) :
    KCPClient × List ClientEffect :=
  client.disconnectWith fun client session =>
    ({ client with session := some (session.close true currentMs) }, [])

/-- The connection callback for a session that went down. -/
def connectionDown (client : KCPClient) (callback : CallbackRun) (currentMs : UInt32) :
    KCPClient × List ClientEffect :=
  if client.callbacks.connection then
    let client :=
      { client with session := client.session.map (callback.calls.foldl KCPSession.call) }
    if callback.disconnects then client.disconnectInCallback currentMs else (client, [])
  else (client, [])

/-- `session_->Close`, which runs the connection callback unless the session is closed. -/
def closeSession (lastFlush : Bool) (callback : CallbackRun) (currentMs : UInt32)
    (client : KCPClient) (session : KCPSession) : KCPClient × List ClientEffect :=
  if session.closed then (client, [])
  else
    { client with session := some (session.close lastFlush currentMs) }.connectionDown callback
      currentMs

/-- `Disconnect`. -/
def disconnect (client : KCPClient) (callback : CallbackRun) (currentMs : UInt32) :
    KCPClient × List ClientEffect :=
  client.disconnectWith (closeSession true callback currentMs)

/-- `BuildSession`. -/
def buildSession (client : KCPClient) (now : Timestamp) : KCPClient × List ClientEffect :=
  if !client.socket then (client, [.nullDereference])
  else if client.state = .closed then
    ({ client with
        pendingSession := some { synSentTime := now, peerAddress := ⟨""⟩ }
        state := .pending },
      client.sendPacket .syn 0)
  else (client, [])

/-- The part of `ResetSession` that drops the session. -/
def dropSession (client : KCPClient) (callback : CallbackRun) (currentMs : UInt32) :
    KCPClient × List ClientEffect :=
  match client.session with
  | none => (client, [])
  | some session =>
    let (client, effects) := closeSession false callback currentMs client session
    ({ client with session := none }, effects)

/-- The part of `ResetSession` that sets the reconnect timer. -/
def scheduleReconnect (client : KCPClient) : KCPClient × List ClientEffect :=
  if !client.socket then (client, [.nullDereference])
  else if !client.reconnectEnabled then (client, [])
  else if client.reconnectTimerRegistered then (client, [])
  else
    let reconnectTimes := client.reconnectTimes + 1
    ({ client with
        reconnectTimes
        reconnectTimerRegistered := true
        reconnectTimer := true },
      [.reconnectAfter (min (reconnectTimes * (kMicroSecondsPerSecond / 2))
        kClientMaxReconnectDelay)])

/-- `ResetSession`. -/
def resetSession (client : KCPClient) (callback : CallbackRun) (currentMs : UInt32) :
    KCPClient × List ClientEffect :=
  let (client, dropped) := { client with pendingSession := none }.dropSession callback currentMs
  let (client, scheduled) := { client with state := .closed }.scheduleReconnect
  (client, dropped ++ scheduled)

/-- The timer that `ResetSession` has set. -/
def reconnect (client : KCPClient) (now : Timestamp) : KCPClient × List ClientEffect :=
  let (client, effects) := { client with reconnectTimer := false }.buildSession now
  ({ client with reconnectTimerRegistered := false }, effects)

/-- `Connect` to an address, when no socket is open and the calls into the kernel succeed. -/
def connect (client : KCPClient) (address : InetAddress) (now : Timestamp) :
    KCPClient × List ClientEffect :=
  let (client, effects) := { client with serverAddress := address, socket := true }.buildSession now
  ({ client with periodicTaskTimer := true }, effects)

/-- `RunPeriodicTask`. The time of a ping is not stored, as in the source. -/
def runPeriodicTask (client : KCPClient) (now : Timestamp) (callback : CallbackRun)
    (currentMs : UInt32) : KCPClient × List ClientEffect :=
  match client.state with
  | .pending =>
    match client.pendingSession with
    | none => (client, [.assertFailed .runPeriodicTask, .nullDereference])
    | some pending =>
      if pending.retryTimes ≥ kClientMaxSynRetryTimes then client.resetSession callback currentMs
      else if now - pending.synSentTime ≥ kClientSynSentTimeout then
        ({ client with
            pendingSession := some
              { pending with retryTimes := pending.retryTimes + 1, synSentTime := now } },
          client.sendPacket .syn pending.sessionId)
      else (client, [])
  | .connected =>
    match client.session with
    | none => (client, [.assertFailed .runPeriodicTask, .nullDereference])
    | some session =>
      if client.lastReceivedTime > 0 ∧
          now - client.lastReceivedTime ≥ kClientSessionIdleSeconds then
        client.resetSession callback currentMs
      else if session.closed then client.resetSession callback currentMs
      else if client.lastPingTime > 0 ∧ now - client.lastPingTime ≥ kClientPingInterval then
        (client, client.sendPacket .ping session.sessionId)
      else (client, [])
  | .closed => (client, [])

/-- The callbacks that `InitializeSession` sets: neither the one for the high-water mark nor the one
for the transmit queue. -/
def sessionCallbacks (client : KCPClient) : SessionCallbacks :=
  { client.callbacks with highWaterMark := false, flushTxQueue := false }

/-- The connection callback for a session that comes up may disconnect. The session is not stored
in the client yet. -/
def connectionUp (client : KCPClient) (callback : CallbackRun) (currentMs : UInt32) :
    KCPClient × List ClientEffect :=
  if client.callbacks.connection ∧ callback.disconnects then client.disconnectInCallback currentMs
  else (client, [])

/-- The end of `ProcessSynPacket`: the new session takes the place of the pending one. -/
def sessionUp (client : KCPClient) (session : KCPSession) (input : ClientPacket) :
    KCPClient × List ClientEffect :=
  let (client, effects) := client.connectionUp input.callback input.currentMs
  let client :=
    { client with
      session := some session
      pendingSession := none
      lastPingTime := input.now
      state := .connected }
  (client, effects ++ client.sendPacket .ack session.sessionId)

/-- `ProcessSynPacket`. -/
def processSynPacket (client : KCPClient) (header : KCPPublicHeader) (packet : KCPReceivedPacket)
    (input : ClientPacket) : KCPClient × List ClientEffect :=
  let asserts := ClientEffect.asserts .processSynPacket [packet.remainingBytes = 0,
    header.packetType = KCPReceivedPacketType.syn.code, header.sessionId > 0]
  let sessionId := header.sessionId
  match client.session with
  | some session =>
    if session.sessionId ≠ sessionId then (client, asserts ++ client.sendPacket .rst sessionId)
    else (client, asserts ++ client.sendPacket .ack sessionId)
  | none =>
    if client.pendingSession = none then (client, asserts ++ client.sendPacket .rst sessionId)
    else
      (KCPSession.initializeWith sessionId client.serverAddress sessionParams
        client.sessionCallbacks input.callback.calls).elim (client, asserts) fun session =>
          let (client, effects) := client.sessionUp session input
          (client, asserts ++ effects)

/-- `ProcessRstPacket`. -/
def processRstPacket (client : KCPClient) (header : KCPPublicHeader) (packet : KCPReceivedPacket)
    (input : ClientPacket) : KCPClient × List ClientEffect :=
  let asserts := ClientEffect.asserts .processRstPacket [packet.remainingBytes = 0,
    header.packetType = KCPReceivedPacketType.rst.code]
  let (client, effects) := client.resetSession input.callback input.currentMs
  (client, asserts ++ effects)

/-- `ProcessPongPacket`. -/
def processPongPacket (client : KCPClient) (header : KCPPublicHeader) (packet : KCPReceivedPacket)
    (input : ClientPacket) : KCPClient × List ClientEffect :=
  let asserts := ClientEffect.asserts .processPongPacket [packet.remainingBytes = 0,
    header.packetType = KCPReceivedPacketType.pong.code, header.sessionId > 0]
  match client.session with
  | none => (client, asserts ++ client.sendPacket .rst header.sessionId)
  | some _ => ({ client with lastReceivedTime := input.now }, asserts)

/-- The session of the client runs a task; the connection callback runs where it goes down. -/
def runSession (client : KCPClient) (session : KCPSession) (task : SessionTask)
    (callback : CallbackRun) (currentMs : UInt32) : KCPClient × List ClientEffect :=
  let client' := { client with session := some (task.run session) }
  if !session.closed ∧ (task.run session).closed then client'.connectionDown callback currentMs
  else (client', [])

/-- `ProcessDataPacket`. -/
def processDataPacket (client : KCPClient) (header : KCPPublicHeader) (packet : KCPReceivedPacket)
    (input : ClientPacket) : KCPClient × List ClientEffect :=
  let asserts := ClientEffect.asserts .processDataPacket
    [header.packetType = KCPReceivedPacketType.data.code, header.sessionId > 0]
  match client.session with
  | none => (client, asserts ++ client.sendPacket .rst header.sessionId)
  | some session =>
    let (client, effects) := { client with lastReceivedTime := input.now }.runSession session
      (.packet packet client.serverAddress input.calls) input.callback input.currentMs
    (client, asserts ++ effects)

/-- The `switch` of `ProcessPacket`. -/
def dispatch (client : KCPClient) (header : KCPPublicHeader) (packet : KCPReceivedPacket)
    (input : ClientPacket) : Option KCPReceivedPacketType → KCPClient × List ClientEffect
  | some .syn => client.processSynPacket header packet input
  | some .rst => client.processRstPacket header packet input
  | some .pong => client.processPongPacket header packet input
  | some .data => client.processDataPacket header packet input
  | some .ack => (client, [])
  | some .ping => (client, [])
  | none => (client, [])

/-- `ProcessPacket`. -/
def processPacket (adler32 : UInt32 → List UInt8 → UInt32) (client : KCPClient)
    (input : ClientPacket) : KCPClient × List ClientEffect :=
  let asserts := ClientEffect.asserts .processPacket [input.data.length ≤ kMaxPacketSize]
  match KCPReceivedPacket.readPublicHeader adler32 { data := input.data } with
  | (.error _, _) => (client, asserts)
  | (.ok header, packet) =>
    let (client, effects) :=
      client.dispatch header packet input (KCPReceivedPacketType.ofCode header.packetType)
    (client, asserts ++ effects)

/-- `HandleRead`. -/
def handleRead (adler32 : UInt32 → List UInt8 → UInt32) (client : KCPClient)
    (input : ClientPacket) : KCPClient × List ClientEffect :=
  if !client.socket then (client, [])
  else if input.data.length > kMaxPacketSize then (client, [])
  else client.processPacket adler32 input

end KCPClient

/-- Everything that can happen to a client. -/
inductive ClientEvent where
  | connect (address : InetAddress) (now : Timestamp)
  | disconnect (callback : CallbackRun) (currentMs : UInt32)
  | packet (input : ClientPacket)
  | periodicTask (now : Timestamp) (callback : CallbackRun) (currentMs : UInt32)
  | reconnect (now : Timestamp)
  | session (task : SessionTask) (callback : CallbackRun) (currentMs : UInt32)
  | setReconnectEnabled (enabled : Bool)
  deriving DecidableEq, Repr

/-- The client after an event, and the effects. `Connect` is called when no socket is open, and
timers fire when they are set. -/
def KCPClient.handle (adler32 : UInt32 → List UInt8 → UInt32) (client : KCPClient) :
    ClientEvent → KCPClient × List ClientEffect
  | .connect address now => if client.socket then (client, []) else client.connect address now
  | .disconnect callback currentMs => client.disconnect callback currentMs
  | .packet input => client.handleRead adler32 input
  | .periodicTask now callback currentMs =>
    if client.periodicTaskTimer then client.runPeriodicTask now callback currentMs else (client, [])
  | .reconnect now => if client.reconnectTimer then client.reconnect now else (client, [])
  | .session task callback currentMs =>
    match client.session with
    | none => (client, [])
    | some session => client.runSession session task callback currentMs
  | .setReconnectEnabled enabled => ({ client with reconnectEnabled := enabled }, [])

/-- The client after an event. -/
def KCPClient.step (adler32 : UInt32 → List UInt8 → UInt32) (client : KCPClient)
    (event : ClientEvent) : KCPClient :=
  (client.handle adler32 event).1

/-- A client that was created with some callbacks and has handled any events since. -/
def KCPClient.Reachable (adler32 : UInt32 → List UInt8 → UInt32) (client : KCPClient) : Prop :=
  ∃ callbacks events, client = List.foldl (KCPClient.step adler32) { callbacks } events

end CodeBlocks.Kcp
