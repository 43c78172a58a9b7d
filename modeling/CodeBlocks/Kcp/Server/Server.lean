import CodeBlocks.Core.Table
import CodeBlocks.Core.Run
import CodeBlocks.Kcp.Session.Session

/-!
# The server

`KCPServer` as its base loop runs it: the four maps, the handlers of the packet
types, and the periodic task. Every input carries one clock reading. What the
random source returns and what the connection callback of a new session does are
part of the input. A session runs its tasks in a loop of its own, so a packet
handed to it and a `Close` posted to it are effects here, and the tasks are
inputs; this covers every number of threads. A failed assertion is an effect as
well, after which the handler runs on as in a build without assertions.
-/

namespace CodeBlocks.Kcp

/-- `muduo::Timestamp`, in microseconds. -/
abbrev Timestamp := Int

abbrev kMicroSecondsPerSecond : Int := 1000000

abbrev kServerMaxSynRetryTimes : UInt32 := 10

/-- Two seconds. -/
abbrev kServerSynSentTimeout : Int := 2 * kMicroSecondsPerSecond

abbrev kServerSessionIdleSeconds : Int := 120 * kMicroSecondsPerSecond

abbrev kServerSessionTimeWaitSeconds : Int := 120 * kMicroSecondsPerSecond

abbrev kServerMaxGenSessionIdTryTimes : Nat := 20

/-- `KCPPendingSession`. -/
structure KCPPendingSession where
  sessionId : UInt32 := 0
  retryTimes : UInt32 := 0
  synReceivedTime : Timestamp := 0
  synSentTime : Timestamp := 0
  peerAddress : InetAddress
  deriving DecidableEq, Repr

/-- `KCPServer`; `callbacks` are those it sets for its sessions. -/
structure KCPServer where
  pendingSessionMap : Table String KCPPendingSession := ∅
  sessionMap : Table UInt32 KCPSession := ∅
  idleSessionMap : Table UInt32 Timestamp := ∅
  timeWaitSessionMap : Table UInt32 Timestamp := ∅
  callbacks : SessionCallbacks := {}

/-- What the server does to the outside and to its sessions. -/
inductive ServerEffect where
  | send (packetType : KCPReceivedPacketType) (sessionId : UInt32) (address : InetAddress)
  | close (sessionId : UInt32)
  | processPacket (sessionId : UInt32) (packet : KCPReceivedPacket) (address : InetAddress)
  | assertFailed
  deriving DecidableEq, Repr

/-- The effect of some assertions. -/
def ServerEffect.asserts (conditions : List Bool) : List ServerEffect :=
  if conditions.all id then [] else [.assertFailed]

/-- One received datagram: the bytes, where they came from, when, what the random
source returns while they are processed, and the calls that the connection callback of
a session makes that comes up. -/
structure ServerPacket where
  data : List UInt8
  clientAddress : InetAddress
  now : Timestamp
  rand : List (Option UInt32) := []
  calls : List UserCall := []
  deriving DecidableEq, Repr

namespace KCPServer

/-- The loop of `GenerateSessionId`, over the results of the random source. -/
def generateSessionIdLoop (server : KCPServer) : Nat → List (Option UInt32) → Option UInt32
  | 0, _ => none
  | _ + 1, [] => none
  | tries + 1, none :: rand => generateSessionIdLoop server tries rand
  | tries + 1, some randId :: rand =>
    if randId ∈ server.sessionMap then generateSessionIdLoop server tries rand
    else if randId ∈ server.timeWaitSessionMap then generateSessionIdLoop server tries rand
    else some randId

/-- `GenerateSessionId`; the random source fails where its results end. -/
def generateSessionId (server : KCPServer) (rand : List (Option UInt32)) : Option UInt32 :=
  server.generateSessionIdLoop kServerMaxGenSessionIdTryTimes rand

/-- `ProcessSynPacket`. -/
def processSynPacket (server : KCPServer) (header : KCPPublicHeader) (packet : KCPReceivedPacket)
    (input : ServerPacket) : KCPServer × List ServerEffect :=
  let asserts := ServerEffect.asserts [packet.remainingBytes = 0,
    header.packetType = KCPReceivedPacketType.syn.code, header.sessionId = 0]
  let sessionKey := input.clientAddress.toIpPort
  match server.pendingSessionMap.lookup sessionKey with
  | some pending =>
    if pending.retryTimes ≥ kServerMaxSynRetryTimes then
      ({ server with pendingSessionMap := server.pendingSessionMap.erase sessionKey },
        asserts ++ [.send .rst 0 input.clientAddress])
    else
      let pending :=
        { pending with retryTimes := pending.retryTimes + 1, synSentTime := input.now }
      ({ server with
          pendingSessionMap := AList.insert sessionKey pending server.pendingSessionMap },
        asserts ++ [.send .syn pending.sessionId input.clientAddress])
  | none =>
    match server.generateSessionId input.rand with
    | none => (server, asserts ++ [.send .rst 0 input.clientAddress])
    | some sessionId =>
      let pending : KCPPendingSession :=
        { sessionId, synReceivedTime := input.now, synSentTime := input.now,
          peerAddress := input.clientAddress }
      ({ server with
          pendingSessionMap := Table.insertNew server.pendingSessionMap sessionKey pending },
        asserts ++ [.send .syn sessionId input.clientAddress])

/-- `ProcessPingPacket`; the reading is stored whether or not there was one before. -/
def processPingPacket (server : KCPServer) (header : KCPPublicHeader) (packet : KCPReceivedPacket)
    (input : ServerPacket) : KCPServer × List ServerEffect :=
  let asserts := ServerEffect.asserts [packet.remainingBytes = 0,
    header.packetType = KCPReceivedPacketType.ping.code, header.sessionId > 0]
  let sessionId := header.sessionId
  if sessionId ∈ server.sessionMap then
    ({ server with idleSessionMap := AList.insert sessionId input.now server.idleSessionMap },
      asserts ++ [.send .pong sessionId input.clientAddress])
  else (server, asserts ++ [.send .rst sessionId input.clientAddress])

/-- The end of both ways of establishing a session: it is initialized and takes the place of
the pending one. Nothing where `InitializeSession` or the insertion fails. -/
def establish (server : KCPServer) (sessionId : UInt32) (input : ServerPacket) :
    Option KCPServer :=
  (KCPSession.initializeWith sessionId input.clientAddress sessionParams server.callbacks
    input.calls).bind fun session =>
      if sessionId ∈ server.sessionMap then none
      else
        some { server with
          sessionMap := Table.insertNew server.sessionMap sessionId session
          pendingSessionMap := server.pendingSessionMap.erase input.clientAddress.toIpPort
          idleSessionMap := Table.insertNew server.idleSessionMap sessionId input.now }

/-- `ProcessAckPacket`. -/
def processAckPacket (server : KCPServer) (header : KCPPublicHeader) (packet : KCPReceivedPacket)
    (input : ServerPacket) : KCPServer × List ServerEffect :=
  let asserts := ServerEffect.asserts [packet.remainingBytes = 0,
    header.packetType = KCPReceivedPacketType.ack.code]
  let sessionId := header.sessionId
  match server.pendingSessionMap.lookup input.clientAddress.toIpPort with
  | none =>
    if sessionId ∈ server.sessionMap then (server, asserts)
    else (server, asserts ++ [.send .rst 0 input.clientAddress])
  | some pending =>
    if sessionId ≠ pending.sessionId then (server, asserts ++ [.send .rst 0 input.clientAddress])
    else if sessionId ∈ server.sessionMap then (server, asserts)
    else ((server.establish sessionId input).getD server, asserts)

/-- `ProcessRstPacket`. -/
def processRstPacket (server : KCPServer) (header : KCPPublicHeader) (packet : KCPReceivedPacket)
    (input : ServerPacket) : KCPServer × List ServerEffect :=
  let asserts := ServerEffect.asserts [packet.remainingBytes = 0,
    header.packetType = KCPReceivedPacketType.rst.code]
  let sessionId := header.sessionId
  let server :=
    { server with
      pendingSessionMap := server.pendingSessionMap.erase input.clientAddress.toIpPort
      idleSessionMap := server.idleSessionMap.erase sessionId }
  if sessionId ∈ server.sessionMap then
    ({ server with
        sessionMap := server.sessionMap.erase sessionId
        timeWaitSessionMap := Table.insertNew server.timeWaitSessionMap sessionId input.now },
      asserts ++ [.close sessionId])
  else (server, asserts)

/-- `ProcessDataPacket`. -/
def processDataPacket (server : KCPServer) (header : KCPPublicHeader) (packet : KCPReceivedPacket)
    (input : ServerPacket) : KCPServer × List ServerEffect :=
  let sessionId := header.sessionId
  if sessionId ∈ server.sessionMap then
    (server, [.processPacket sessionId packet input.clientAddress])
  else if input.clientAddress.toIpPort ∈ server.pendingSessionMap then
    match server.establish sessionId input with
    | none => (server, [])
    | some server => (server, [.processPacket sessionId packet input.clientAddress])
  else (server, [.send .rst 0 input.clientAddress])

/-- The `switch` of `ProcessPacket`. -/
def dispatch (server : KCPServer) (header : KCPPublicHeader) (packet : KCPReceivedPacket)
    (input : ServerPacket) : Option KCPReceivedPacketType → KCPServer × List ServerEffect
  | some .syn => server.processSynPacket header packet input
  | some .ack => server.processAckPacket header packet input
  | some .rst => server.processRstPacket header packet input
  | some .ping => server.processPingPacket header packet input
  | some .data => server.processDataPacket header packet input
  | some .pong => (server, [])
  | none => (server, [])

/-- `ProcessPacket`. -/
def processPacket (adler32 : UInt32 → List UInt8 → UInt32) (server : KCPServer)
    (input : ServerPacket) : KCPServer × List ServerEffect :=
  if input.data.length > kMaxPacketSize then (server, [])
  else
    match KCPReceivedPacket.readPublicHeader adler32 { data := input.data } with
    | (.error _, _) => (server, [])
    | (.ok header, packet) =>
      server.dispatch header packet input (KCPReceivedPacketType.ofCode header.packetType)

/-- The first loop of `RunPeriodicTask`, for one entry: it is given up, offered again, or left
alone. -/
def retrySyn (now : Timestamp) (pending : KCPPendingSession) : Option KCPPendingSession :=
  if pending.retryTimes ≥ kServerMaxSynRetryTimes then none
  else if now - pending.synSentTime ≥ kServerSynSentTimeout then
    some { pending with retryTimes := pending.retryTimes + 1, synSentTime := now }
  else some pending

/-- The first loop of `RunPeriodicTask`. -/
def retrySyns (server : KCPServer) (now : Timestamp) : KCPServer :=
  { server with
    pendingSessionMap := Table.sweep (fun _ pending => retrySyn now pending)
      server.pendingSessionMap }

/-- What the first loop sends for an entry. -/
def retrySynEffects (now : Timestamp) (pending : KCPPendingSession) : List ServerEffect :=
  if pending.retryTimes ≥ kServerMaxSynRetryTimes then []
  else if now - pending.synSentTime ≥ kServerSynSentTimeout then
    [.send .syn pending.sessionId pending.peerAddress]
  else []

/-- A session leaves the live maps and is kept in the time-wait map. -/
def retire (server : KCPServer) (sessionId : UInt32) (now : Timestamp) : KCPServer :=
  { server with
    sessionMap := server.sessionMap.erase sessionId
    idleSessionMap := server.idleSessionMap.erase sessionId
    timeWaitSessionMap := Table.insertNew server.timeWaitSessionMap sessionId now }

/-- One turn of the second loop of `RunPeriodicTask`. -/
def expireSession (now : Timestamp) (server : KCPServer) (sessionId : UInt32)
    (session : KCPSession) : KCPServer × List ServerEffect :=
  match server.idleSessionMap.lookup sessionId with
  | none => (server.retire sessionId now, [.close sessionId])
  | some lastReceivedTime =>
    if now - lastReceivedTime ≥ kServerSessionIdleSeconds then
      (server.retire sessionId now, [.close sessionId])
    else if session.closed then (server.retire sessionId now, [])
    else (server, [])

/-- The second loop of `RunPeriodicTask`. -/
def expireSessions (now : Timestamp) :
    List (Σ _ : UInt32, KCPSession) → KCPServer → KCPServer × List ServerEffect
  | [], server => (server, [])
  | ⟨sessionId, session⟩ :: rest, server =>
    let (server, effects) := server.expireSession now sessionId session
    let (server, later) := expireSessions now rest server
    (server, effects ++ later)

/-- The third loop of `RunPeriodicTask`, for one entry. -/
def stillWaiting (now startTime : Timestamp) : Option Timestamp :=
  if now - startTime ≥ kServerSessionTimeWaitSeconds then none else some startTime

/-- `RunPeriodicTask`. -/
def runPeriodicTask (server : KCPServer) (now : Timestamp) : KCPServer × List ServerEffect :=
  let sends := server.pendingSessionMap.entries.flatMap fun e => retrySynEffects now e.2
  let server := server.retrySyns now
  let (server, closes) := expireSessions now server.sessionMap.entries server
  ({ server with
      timeWaitSessionMap := Table.sweep (fun _ startTime => stillWaiting now startTime)
        server.timeWaitSessionMap },
    sends ++ closes)

/-- A session of the server runs a task in its own loop. -/
def runSession (server : KCPServer) (sessionId : UInt32) (task : SessionTask) : KCPServer :=
  match server.sessionMap.lookup sessionId with
  | none => server
  | some session =>
    { server with sessionMap := AList.insert sessionId (task.run session) server.sessionMap }

end KCPServer

/-- Everything that can happen to a server. -/
inductive ServerEvent where
  | packet (input : ServerPacket)
  | periodicTask (now : Timestamp)
  | session (sessionId : UInt32) (task : SessionTask) (now : Timestamp)
  deriving DecidableEq, Repr

/-- The clock reading of an event. -/
def ServerEvent.now : ServerEvent → Timestamp
  | .packet input => input.now
  | .periodicTask now => now
  | .session _ _ now => now

/-- The server after an event, and the effects. -/
def KCPServer.handle (adler32 : UInt32 → List UInt8 → UInt32) (server : KCPServer) :
    ServerEvent → KCPServer × List ServerEffect
  | .packet input => server.processPacket adler32 input
  | .periodicTask now => server.runPeriodicTask now
  | .session sessionId task _ => (server.runSession sessionId task, [])

/-- The server after an event. -/
def KCPServer.step (adler32 : UInt32 → List UInt8 → UInt32) (server : KCPServer)
    (event : ServerEvent) : KCPServer :=
  (server.handle adler32 event).1

/-- A server that has started with some callbacks and has handled any events since. -/
def KCPServer.Reachable (adler32 : UInt32 → List UInt8 → UInt32) (server : KCPServer) : Prop :=
  ∃ callbacks events, server = List.foldl (KCPServer.step adler32) { callbacks } events

end CodeBlocks.Kcp
