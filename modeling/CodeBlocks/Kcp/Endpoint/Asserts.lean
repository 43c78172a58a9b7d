import CodeBlocks.Kcp.Server.Changes
import CodeBlocks.Kcp.Client.Changes

/-!
# Assertions on received datagrams

The packet handlers assert what an honest peer sends: no bytes behind the header
of a control packet, and a session id that is zero or not as the packet type
has it. Nothing on the way to them checks it, so a datagram that breaks the rule
reaches the assertion, whatever the state of the endpoint.
-/

namespace CodeBlocks.Kcp

variable {adler32 : UInt32 → List UInt8 → UInt32}

/-- What the handlers of the server assert, by packet type, session id and length. -/
def KCPServer.Expects (length : Nat) : Option (KCPReceivedPacketType × UInt32) → Prop
  | some (.syn, sessionId) => length = kPublicHeaderLength ∧ sessionId = 0
  | some (.ack, _) => length = kPublicHeaderLength
  | some (.rst, _) => length = kPublicHeaderLength
  | some (.ping, sessionId) => length = kPublicHeaderLength ∧ sessionId ≠ 0
  | _ => True

/-- What the handlers of the client assert, by packet type, session id and length. -/
def KCPClient.Expects (length : Nat) : Option (KCPReceivedPacketType × UInt32) → Prop
  | some (.syn, sessionId) => length = kPublicHeaderLength ∧ sessionId ≠ 0
  | some (.rst, _) => length = kPublicHeaderLength
  | some (.pong, sessionId) => length = kPublicHeaderLength ∧ sessionId ≠ 0
  | some (.data, sessionId) => sessionId ≠ 0
  | _ => True

/-- `ProcessPacket` of the server runs to completion: no assertion of its own or of a handler fails.
Those inside the `KCPSession` that a `DATA` packet is handed to are not counted. -/
def KCPServer.Completes (adler32 : UInt32 → List UInt8 → UInt32) (server : KCPServer)
    (input : ServerPacket) : Prop :=
  .assertFailed ∉ (server.processPacket adler32 input).2

/-- `ProcessPacket` of the client runs to completion: no assertion of its own or of a handler
fails, and where the socket is open and the connection callback does not disconnect, nothing else
fails on the way either. Those inside the `KCPSession` are not counted. -/
def KCPClient.Completes (adler32 : UInt32 → List UInt8 → UInt32) (client : KCPClient)
    (input : ClientPacket) : Prop :=
  ∀ effect ∈ (client.processPacket adler32 input).2,
    effect.harmless (client.socket && !input.callback.disconnects) = true

/-- A datagram carries nothing exactly when it ends with its header. -/
theorem remainingBytes_eq_zero_iff {data : List UInt8} {header : KCPPublicHeader}
    {packet : KCPReceivedPacket} (h : readDatagram adler32 data = some (header, packet)) :
    packet.remainingBytes = 0 ↔ data.length = kPublicHeaderLength := by
  obtain ⟨hle, hrest⟩ := readDatagram_remaining adler32 h
  rw [hrest]
  omega

/-- An unsigned number is positive or zero. -/
theorem uint32_pos_iff (x : UInt32) : x > 0 ↔ x ≠ 0 := by
  rw [gt_iff_lt, UInt32.lt_iff_toNat_lt, ne_eq, ← UInt32.toNat_inj]
  exact Nat.pos_iff_ne_zero

/-- Of a row of assertions one fails exactly when a condition does. -/
theorem ServerEffect.assertFailed_mem_iff (conditions : List Bool) {rest : List ServerEffect}
    (hrest : .assertFailed ∉ rest) :
    .assertFailed ∈ ServerEffect.asserts conditions ++ rest ↔ conditions.all id = false := by
  rw [List.mem_append, or_iff_left hrest, ServerEffect.asserts]
  split
  · rename_i hall
    simp [hall]
  · rename_i hall
    simp [hall]

/-- The assertions that the handler of a packet type makes at the server. -/
def KCPServer.assertions (header : KCPPublicHeader) (packet : KCPReceivedPacket) :
    KCPReceivedPacketType → List Bool
  | .syn => [packet.remainingBytes = 0, header.packetType = KCPReceivedPacketType.syn.code,
      header.sessionId = 0]
  | .ack => [packet.remainingBytes = 0, header.packetType = KCPReceivedPacketType.ack.code]
  | .rst => [packet.remainingBytes = 0, header.packetType = KCPReceivedPacketType.rst.code]
  | .ping => [packet.remainingBytes = 0, header.packetType = KCPReceivedPacketType.ping.code,
      header.sessionId > 0]
  | .pong => []
  | .data => []

/-- A handler of the server fails in its own assertions only. -/
theorem KCPServer.dispatch_effects (server : KCPServer) (header : KCPPublicHeader)
    (packet : KCPReceivedPacket) (input : ServerPacket) (type : KCPReceivedPacketType) :
    ∃ rest, (server.dispatch header packet input (some type)).2 =
      ServerEffect.asserts (assertions header packet type) ++ rest ∧ .assertFailed ∉ rest := by
  cases type with
  | syn =>
      rw [dispatch, processSynPacket]
      cases server.pendingSessionMap.lookup input.clientAddress.toIpPort with
      | some pending =>
          simp only
          split
          · exact ⟨_, rfl, by simp⟩
          · exact ⟨_, rfl, by simp⟩
      | none =>
          simp only
          cases server.generateSessionId input.rand with
          | none => exact ⟨_, rfl, by simp⟩
          | some sessionId => exact ⟨_, rfl, by simp⟩
  | ack =>
      rw [dispatch, processAckPacket]
      cases server.pendingSessionMap.lookup input.clientAddress.toIpPort with
      | none =>
          simp only
          split
          · exact ⟨[], (List.append_nil _).symm, by simp⟩
          · exact ⟨_, rfl, by simp⟩
      | some pending =>
          simp only
          repeat' split
          · exact ⟨_, rfl, by simp⟩
          · exact ⟨[], (List.append_nil _).symm, by simp⟩
          · exact ⟨[], (List.append_nil _).symm, by simp⟩
  | rst =>
      rw [dispatch, processRstPacket]
      simp only
      split
      · exact ⟨_, rfl, by simp⟩
      · exact ⟨[], (List.append_nil _).symm, by simp⟩
  | ping =>
      rw [dispatch, processPingPacket]
      split
      · exact ⟨_, rfl, by simp⟩
      · exact ⟨_, rfl, by simp⟩
  | pong => exact ⟨[], rfl, by simp⟩
  | data =>
      rw [dispatch, processDataPacket]
      split
      · exact ⟨_, rfl, by simp⟩
      split
      · cases server.establish header.sessionId input with
        | none => exact ⟨[], rfl, by simp⟩
        | some server => exact ⟨_, rfl, by simp⟩
      · exact ⟨_, rfl, by simp⟩

/-- The server passes its assertions exactly where the length is one that the type expects. -/
theorem KCPServer.completes_iff (server : KCPServer) {input : ServerPacket}
    (hlen : input.data.length ≤ kMaxPacketSize) :
    server.Completes adler32 input ↔
      Expects input.data.length (datagramKind adler32 input.data) := by
  have hkind : input.kind adler32 = datagramKind adler32 input.data := if_neg (by omega)
  cases hdata : datagramKind adler32 input.data with
  | none =>
      rw [Completes, server.processPacket_of_none (hkind.trans hdata)]
      simp [Expects]
  | some pair =>
      obtain ⟨type, sessionId⟩ := pair
      obtain ⟨header, packet, hread, htype, rfl, heq⟩ :=
        server.processPacket_of_kind (hkind.trans hdata)
      obtain ⟨rest, heffects, hrest⟩ := server.dispatch_effects header packet input type
      have hnine := remainingBytes_eq_zero_iff hread
      rw [Completes, heq, heffects, ServerEffect.assertFailed_mem_iff _ hrest, Bool.not_eq_false]
      cases type <;>
        simp [assertions, Expects, htype, hnine, uint32_pos_iff]

/-- The assertions that the handler of a packet type makes at the client. -/
def KCPClient.assertions (header : KCPPublicHeader) (packet : KCPReceivedPacket) :
    KCPReceivedPacketType → List Bool
  | .syn => [packet.remainingBytes = 0, header.packetType = KCPReceivedPacketType.syn.code,
      header.sessionId > 0]
  | .rst => [packet.remainingBytes = 0, header.packetType = KCPReceivedPacketType.rst.code]
  | .pong => [packet.remainingBytes = 0, header.packetType = KCPReceivedPacketType.pong.code,
      header.sessionId > 0]
  | .data => [header.packetType = KCPReceivedPacketType.data.code, header.sessionId > 0]
  | .ack => []
  | .ping => []

/-- A handler of the client fails in its own assertions only. -/
theorem KCPClient.dispatch_effects (client : KCPClient) (header : KCPPublicHeader)
    (packet : KCPReceivedPacket) (input : ClientPacket) (type : KCPReceivedPacketType)
    (strict : Bool) (hsocket : strict = true → client.socket = true)
    (hcallback : strict = true → input.callback.disconnects = false) :
    ∃ function rest, function.handler = true ∧
      (client.dispatch header packet input (some type)).2 =
        ClientEffect.asserts function (assertions header packet type) ++ rest ∧
      ∀ e ∈ rest, e.harmless strict = true := by
  cases type with
  | syn =>
      rw [dispatch, processSynPacket]
      refine ⟨.processSynPacket, ?_⟩
      cases client.session with
      | some session =>
          simp only
          split
          · exact ⟨_, rfl, rfl, sendPacket_harmless hsocket _ _⟩
          · exact ⟨_, rfl, rfl, sendPacket_harmless hsocket _ _⟩
      | none =>
          simp only
          split
          · exact ⟨_, rfl, rfl, sendPacket_harmless hsocket _ _⟩
          · generalize KCPSession.initializeWith header.sessionId client.serverAddress
              sessionParams client.sessionCallbacks input.callback.calls = result
            cases result with
            | none => exact ⟨[], rfl, (List.append_nil _).symm, by simp⟩
            | some session => exact ⟨_, rfl, rfl, sessionUp_harmless hsocket hcallback session⟩
  | rst =>
      rw [dispatch, processRstPacket]
      exact ⟨.processRstPacket, _, rfl, rfl, resetSession_harmless hsocket hcallback _⟩
  | pong =>
      rw [dispatch, processPongPacket]
      refine ⟨.processPongPacket, ?_⟩
      cases client.session with
      | none => exact ⟨_, rfl, rfl, sendPacket_harmless hsocket _ _⟩
      | some session => exact ⟨[], rfl, (List.append_nil _).symm, by simp⟩
  | data =>
      rw [dispatch, processDataPacket]
      refine ⟨.processDataPacket, ?_⟩
      cases client.session with
      | none => exact ⟨_, rfl, rfl, sendPacket_harmless hsocket _ _⟩
      | some session => exact ⟨_, rfl, rfl, runSession_harmless hcallback _ _ _⟩
  | ack => exact ⟨.processPacket, [], rfl, rfl, by simp⟩
  | ping => exact ⟨.processPacket, [], rfl, rfl, by simp⟩

/-- So does the client. -/
theorem KCPClient.completes_iff (client : KCPClient) {input : ClientPacket}
    (hlen : input.data.length ≤ kMaxPacketSize) :
    client.Completes adler32 input ↔
      Expects input.data.length (datagramKind adler32 input.data) := by
  cases hdata : datagramKind adler32 input.data with
  | none =>
      rw [Completes, client.processPacket_of_none hlen hdata]
      simp [Expects]
  | some pair =>
      obtain ⟨type, sessionId⟩ := pair
      obtain ⟨header, packet, hread, htype, rfl, heq⟩ := client.processPacket_of_kind hlen hdata
      obtain ⟨function, rest, hhandler, heffects, hrest⟩ :=
        client.dispatch_effects header packet input type
          (client.socket && !input.callback.disconnects)
          (fun h => (Bool.and_eq_true_iff.mp h).1)
          (fun h => by simpa using (Bool.and_eq_true_iff.mp h).2)
      have hnine := remainingBytes_eq_zero_iff hread
      rw [Completes, heq, heffects, List.forall_mem_append, and_iff_left hrest,
        ClientEffect.asserts_harmless_iff hhandler]
      cases type <;>
        simp [assertions, Expects, htype, hnine, uint32_pos_iff]

/-- Both endpoints process a datagram to completion, in any state, exactly when it is rejected,
has a type that is not handled, or is what the handler of its type asserts. -/
theorem processPacket_completes_iff (adler32 : UInt32 → List UInt8 → UInt32) (data : List UInt8)
    (hlen : data.length ≤ kMaxPacketSize) :
    (∀ (server : KCPServer) (input : ServerPacket), input.data = data →
        (server.Completes adler32 input ↔
          KCPServer.Expects data.length (datagramKind adler32 data))) ∧
      ∀ (client : KCPClient) (input : ClientPacket), input.data = data →
        (client.Completes adler32 input ↔
          KCPClient.Expects data.length (datagramKind adler32 data)) := by
  constructor
  · rintro server input rfl
    exact server.completes_iff hlen
  · rintro client input rfl
    exact client.completes_iff hlen

/-- A client that waits for the answer to its SYN packet. -/
def connectingClient : KCPClient :=
  [ClientEvent.connect ⟨"10.0.0.2:7000"⟩ 1].foldl (KCPClient.step Zlib.adler32) {}

/-- The answer that it waits for, with an id and nothing behind the header. -/
theorem processPacket_completes_syn :
    connectingClient.Completes Zlib.adler32 { data := datagram .syn 7 [], now := 2 } := by
  refine ((processPacket_completes_iff Zlib.adler32 (datagram .syn 7 []) (by decide +kernel)).2 _ _
    rfl).mpr ?_
  rw [(by decide +kernel : datagramKind Zlib.adler32 (datagram .syn 7 []) = some (.syn, 7))]
  exact ⟨by decide +kernel, by decide⟩

/-- One byte behind the header of a SYN packet fails at both endpoints: at a server that has just
started, and at a client that waits for an answer. -/
theorem not_processPacket_completes_trailing :
    KCPServer.Reachable Zlib.adler32 {} ∧ connectingClient.Reachable Zlib.adler32 ∧
      ¬ KCPServer.Completes Zlib.adler32 {}
        { data := datagram .syn 0 [1], clientAddress := ⟨"10.0.0.1:9000"⟩, now := 1 } ∧
      ¬ connectingClient.Completes Zlib.adler32 { data := datagram .syn 7 [1], now := 2 } := by
  refine ⟨⟨{}, [], rfl⟩, ⟨{}, _, rfl⟩, fun h => h (by decide +kernel), fun h => ?_⟩
  exact absurd (h (.assertFailed .processSynPacket) (by decide +kernel)) (by decide +kernel)

end CodeBlocks.Kcp
