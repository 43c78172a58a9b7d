import CodeBlocks.Kcp.Client.Changes
import CodeBlocks.Kcp.Server.Changes

/-!
# Disconnecting inside the connection callback

Three operations of the client run the connection callback and go on afterwards
with the socket or the session they had before. A callback that disconnects has
reset both by then, so that each of them dereferences a null pointer.
-/

namespace CodeBlocks.Kcp

/-- The operations that run the connection callback and go on after it. -/
inductive ClientOperation where
  | processSynPacket (header : KCPPublicHeader) (packet : KCPReceivedPacket) (input : ClientPacket)
  | resetSession (callback : CallbackRun) (currentMs : UInt32)
  | disconnect (callback : CallbackRun) (currentMs : UInt32)

namespace ClientOperation

/-- What the connection callback does. -/
def callback : ClientOperation → CallbackRun
  | processSynPacket _ _ input => input.callback
  | resetSession callback _ => callback
  | disconnect callback _ => callback

def run (client : KCPClient) : ClientOperation → KCPClient × List ClientEffect
  | processSynPacket header packet input => client.processSynPacket header packet input
  | resetSession callback currentMs => client.resetSession callback currentMs
  | disconnect callback currentMs => client.disconnect callback currentMs

/-- A session comes up, or an open one goes down, and a callback is set. -/
def RunsCallback (client : KCPClient) (operation : ClientOperation) : Prop :=
  client.callbacks.connection = true ∧
    match operation with
    | processSynPacket _ _ _ => client.session = none ∧ client.pendingSession ≠ none
    | resetSession _ _ => ∃ session, client.session = some session ∧ session.closed = false
    | disconnect _ _ =>
      client.state = .connected ∧ ∃ session, client.session = some session ∧ session.closed = false

end ClientOperation

/-- An operation that dereferenced no null pointer and left a client that is disconnected. -/
def EndsDisconnected (result : KCPClient × List ClientEffect) : Prop :=
  .nullDereference ∉ result.2 ∧ result.1.state = .closed ∧ result.1.session = none ∧
    result.1.pendingSession = none ∧ result.1.socket = false

namespace KCPClient

/-- `Disconnect` drops the socket on every path. -/
theorem disconnectWith_socket (close : KCPClient → KCPSession → KCPClient × List ClientEffect)
    (client : KCPClient) : (client.disconnectWith close).1.socket = false := by
  unfold disconnectWith
  split
  · rfl
  · split
    · rfl
    · simp only
      split
      · rfl
      · rfl
  · rfl

/-- `Disconnect` drops the session that it finds. -/
theorem disconnectInCallback_session {client : KCPClient} (hstate : client.state = .connected)
    (currentMs : UInt32) : (client.disconnectInCallback currentMs).1.session = none := by
  unfold disconnectInCallback disconnectWith
  simp only [hstate]
  cases hsession : client.session with
  | none => exact hsession
  | some session => rfl

/-- Sending without a socket dereferences a null pointer. -/
theorem sendPacket_null {client : KCPClient} (h : client.socket = false)
    (packetType : KCPReceivedPacketType) (sessionId : UInt32) :
    .nullDereference ∈ client.sendPacket packetType sessionId := by
  simp [sendPacket, h]

section Disconnects

variable {client : KCPClient} {callback : CallbackRun} (hdisconnects : callback.disconnects = true)
include hdisconnects

/-- A callback that disconnects takes the socket, and the session of a connected client. -/
theorem closeSession_disconnects (hconnection : client.callbacks.connection = true)
    {session : KCPSession} (hopen : session.closed = false) (lastFlush : Bool)
    (currentMs : UInt32) :
    (closeSession lastFlush callback currentMs client session).1.socket = false ∧
      (client.state = .connected →
        (closeSession lastFlush callback currentMs client session).1.session = none) := by
  unfold closeSession connectionDown
  simp only [hopen, Bool.false_eq_true, ite_false, hconnection, ite_true, hdisconnects]
  refine ⟨disconnectWith_socket _ _, fun hstate => ?_⟩
  apply disconnectInCallback_session
  exact hstate

/-- `ResetSession` asks the socket that is gone. -/
theorem resetSession_null (hconnection : client.callbacks.connection = true)
    {session : KCPSession} (hsession : client.session = some session)
    (hopen : session.closed = false) (currentMs : UInt32) :
    .nullDereference ∈ (client.resetSession callback currentMs).2 := by
  have hdropped : { client with pendingSession := none }.callbacks.connection = true := hconnection
  have hsocket := (closeSession_disconnects hdisconnects hdropped hopen false currentMs).1
  unfold resetSession dropSession
  simp only [hsession] at hsocket ⊢
  apply List.mem_append_right
  unfold scheduleReconnect
  simp [hsocket]

/-- `Disconnect` asks the session that is gone for its id. -/
theorem disconnect_null (hconnection : client.callbacks.connection = true)
    (hstate : client.state = .connected) {session : KCPSession}
    (hsession : client.session = some session) (hopen : session.closed = false)
    (currentMs : UInt32) : .nullDereference ∈ (client.disconnect callback currentMs).2 := by
  have hgone := (closeSession_disconnects hdisconnects hconnection hopen true currentMs).2 hstate
  unfold disconnect disconnectWith
  simp only [hstate, hsession, hgone]
  simp

end Disconnects

/-- `ProcessSynPacket` acknowledges over the socket that is gone. -/
theorem processSynPacket_null {client : KCPClient} {input : ClientPacket}
    (hconnection : client.callbacks.connection = true)
    (hdisconnects : input.callback.disconnects = true) (hsession : client.session = none)
    (hpending : client.pendingSession ≠ none) (header : KCPPublicHeader)
    (packet : KCPReceivedPacket) :
    .nullDereference ∈ (client.processSynPacket header packet input).2 := by
  have hsome : (KCPSession.initializeWith header.sessionId client.serverAddress sessionParams
      client.sessionCallbacks input.callback.calls).isSome = true := by
    rw [KCPSession.initializeWith, Option.isSome_map]
    exact KCPServer.initializeControl_isSome header.sessionId
  obtain ⟨session, hinit⟩ := Option.isSome_iff_exists.mp hsome
  unfold processSynPacket
  simp only [hsession, hpending, ite_false, hinit, Option.elim_some]
  apply List.mem_append_right
  unfold sessionUp
  apply List.mem_append_right
  apply sendPacket_null
  change (client.connectionUp input.callback input.currentMs).1.socket = false
  unfold connectionUp
  rw [if_pos ⟨hconnection, hdisconnects⟩]
  exact disconnectWith_socket _ _

end KCPClient

/-- No operation survives a connection callback that disconnects. -/
theorem not_endsDisconnected (client : KCPClient) (operation : ClientOperation)
    (hruns : operation.RunsCallback client) (hdisconnects : operation.callback.disconnects = true) :
    ¬ EndsDisconnected (operation.run client) := by
  rintro ⟨hnull, _⟩
  apply hnull
  obtain ⟨hconnection, hruns⟩ := hruns
  cases operation with
  | processSynPacket header packet input =>
      exact KCPClient.processSynPacket_null hconnection hdisconnects hruns.1 hruns.2 header packet
  | resetSession callback currentMs =>
      obtain ⟨session, hsession, hopen⟩ := hruns
      exact KCPClient.resetSession_null hdisconnects hconnection hsession hopen currentMs
  | disconnect callback currentMs =>
      obtain ⟨hstate, session, hsession, hopen⟩ := hruns
      exact KCPClient.disconnect_null hdisconnects hconnection hstate hsession hopen currentMs

/-- A client that has been offered session 7 and has taken it. -/
def joinRun : List ClientEvent :=
  [.connect ⟨"10.0.0.9:7000"⟩ 1, .packet { data := datagram .syn 7 [], now := 2 }]

private theorem joinRun_session :
    ∃ session, (joinRun.foldl (KCPClient.step Zlib.adler32) {}).session = some session ∧
      session.closed = false := by
  apply Option.map_eq_some_iff.mp
  decide +kernel

/-- The user disconnects, and so does the callback. -/
theorem not_endsDisconnected_joinRun :
    ¬ EndsDisconnected ((ClientOperation.disconnect { disconnects := true } 5).run
      (joinRun.foldl (KCPClient.step Zlib.adler32) {})) :=
  not_endsDisconnected _ _ ⟨by decide +kernel, by decide +kernel, joinRun_session⟩ rfl

/-- The server resets the session, and the callback disconnects. -/
def disconnectOnReset : ClientOperation := .resetSession { disconnects := true } 5

/-- A client that disconnects in the callback of a reset does not end disconnected. -/
theorem disconnectOnReset_dereferences :
    ∃ client : KCPClient, client.Reachable Zlib.adler32 ∧ disconnectOnReset.RunsCallback client ∧
      disconnectOnReset.callback.disconnects = true ∧
      ¬ EndsDisconnected (disconnectOnReset.run client) := by
  refine ⟨joinRun.foldl (KCPClient.step Zlib.adler32) {}, ⟨{}, joinRun, rfl⟩,
    ⟨by decide +kernel, joinRun_session⟩, rfl, fun h => h.1 ?_⟩
  decide +kernel

end CodeBlocks.Kcp
