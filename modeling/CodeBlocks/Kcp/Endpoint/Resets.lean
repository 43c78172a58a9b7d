import CodeBlocks.Kcp.Server.Resets
import CodeBlocks.Kcp.Client.Changes

/-!
# What an RST packet touches

At both endpoints the handler looks at less than the id in the packet: the server
withdraws whatever is on offer to the sender, and the client drops whatever it
has.
-/

namespace CodeBlocks.Kcp

/-- Entries of the server for other ids than the given one are unchanged by a packet. -/
structure KCPServer.TouchesOnly (adler32 : UInt32 → List UInt8 → UInt32) (server : KCPServer)
    (input : ServerPacket) (sessionId : UInt32) : Prop where
  pending : ∀ key pending, server.pendingSessionMap.lookup key = some pending →
    pending.sessionId ≠ sessionId →
    (server.processPacket adler32 input).1.pendingSessionMap.lookup key = some pending
  session : ∀ k, k ≠ sessionId →
    (server.processPacket adler32 input).1.sessionMap.lookup k = server.sessionMap.lookup k
  idle : ∀ k, k ≠ sessionId →
    (server.processPacket adler32 input).1.idleSessionMap.lookup k = server.idleSessionMap.lookup k

/-- A session of the client with another id, and a pending handshake, are unchanged by a packet. -/
structure KCPClient.TouchesOnly (adler32 : UInt32 → List UInt8 → UInt32) (client : KCPClient)
    (input : ClientPacket) (sessionId : UInt32) : Prop where
  pending : ∀ pending, client.pendingSession = some pending →
    (client.processPacket adler32 input).1.pendingSession = some pending
  session : ∀ session, client.session = some session → session.sessionId ≠ sessionId →
    (client.processPacket adler32 input).1.session = some session

variable {adler32 : UInt32 → List UInt8 → UInt32}

/-- The maps of the server after an RST packet. -/
theorem KCPServer.processPacket_rst (server : KCPServer) {input : ServerPacket}
    {sessionId : UInt32} (hkind : input.kind adler32 = some (.rst, sessionId)) :
    (server.processPacket adler32 input).1.pendingSessionMap =
        server.pendingSessionMap.erase input.clientAddress.toIpPort ∧
      (server.processPacket adler32 input).1.idleSessionMap =
        server.idleSessionMap.erase sessionId ∧
      ∀ k, k ≠ sessionId →
        (server.processPacket adler32 input).1.sessionMap.lookup k =
          server.sessionMap.lookup k := by
  obtain ⟨header, packet, _, _, rfl, heq⟩ := server.processPacket_of_kind hkind
  rw [heq, dispatch, processRstPacket]
  simp only
  split
  · exact ⟨rfl, rfl, fun k hk => AList.lookup_erase_ne hk⟩
  · exact ⟨rfl, rfl, fun k _ => rfl⟩

/-- RST touches only its session exactly when its address has no offer of another id. -/
theorem KCPServer.touchesOnly_iff (server : KCPServer) {input : ServerPacket} {sessionId : UInt32}
    (hkind : input.kind adler32 = some (.rst, sessionId)) :
    server.TouchesOnly adler32 input sessionId ↔ ¬ server.OtherOffer input sessionId := by
  obtain ⟨hpending, hidle, hsession⟩ := server.processPacket_rst hkind
  constructor
  · rintro h ⟨pending, hsome, hne⟩
    have hkept := h.pending _ pending hsome hne
    rw [hpending, AList.lookup_erase] at hkept
    cases hkept
  · intro hno
    constructor
    · intro key pending hsome hne
      rw [hpending, Table.lookup_erase_eq, if_neg]
      · exact hsome
      · rintro rfl
        exact hno ⟨pending, hsome, hne⟩
    · exact hsession
    · intro k hk
      rw [hidle]
      exact AList.lookup_erase_ne hk

/-- The client drops what it has, so there must be nothing else. -/
theorem KCPClient.touchesOnly_iff (client : KCPClient) {input : ClientPacket} {sessionId : UInt32}
    (hlen : input.data.length ≤ kMaxPacketSize)
    (hkind : datagramKind adler32 input.data = some (.rst, sessionId)) :
    client.TouchesOnly adler32 input sessionId ↔
      client.pendingSession = none ∧
        ∀ session, client.session = some session → session.sessionId = sessionId := by
  obtain ⟨header, packet, _, _, rfl, heq⟩ := client.processPacket_of_kind hlen hkind
  have hcleared := client.resetSession_cleared input.callback input.currentMs
  have hpending : (client.processPacket adler32 input).1.pendingSession = none := by
    rw [heq]
    exact hcleared.1
  have hsession : (client.processPacket adler32 input).1.session = none := by
    rw [heq]
    exact hcleared.2
  constructor
  · intro h
    constructor
    · cases hp : client.pendingSession with
      | none => rfl
      | some pending => exact absurd (hpending.symm.trans (h.pending pending hp)) (by simp)
    · intro session hs
      by_contra hne
      exact absurd (hsession.symm.trans (h.session session hs hne)) (by simp)
  · rintro ⟨hnone, hnamed⟩
    constructor
    · intro pending hp
      rw [hnone] at hp
      cases hp
    · intro session hs hne
      exact absurd (hnamed session hs) hne

/-- An RST packet touches only the session it names, exactly when at the server no other id is on
offer to its sender, and at the client no handshake is pending and no other session is up. -/
theorem rst_touchesOnly_iff (adler32 : UInt32 → List UInt8 → UInt32) (sessionId : UInt32) :
    (∀ (server : KCPServer) (input : ServerPacket),
        input.kind adler32 = some (.rst, sessionId) →
        (server.TouchesOnly adler32 input sessionId ↔ ¬ server.OtherOffer input sessionId)) ∧
      ∀ (client : KCPClient) (input : ClientPacket), input.data.length ≤ kMaxPacketSize →
        datagramKind adler32 input.data = some (.rst, sessionId) →
        (client.TouchesOnly adler32 input sessionId ↔
          client.pendingSession = none ∧
            ∀ session, client.session = some session → session.sessionId = sessionId) :=
  ⟨fun server _ hkind => server.touchesOnly_iff hkind,
    fun client _ hlen hkind => client.touchesOnly_iff hlen hkind⟩

/-- A server with session 7 up. -/
def connectedServer : KCPServer := connectRun.foldl (KCPServer.step Zlib.adler32) {}

/-- A client with session 7 up. -/
def connectedClient : KCPClient :=
  [ClientEvent.connect ⟨"10.0.0.2:7000"⟩ 1, .packet { data := datagram .syn 7 [], now := 2 }].foldl
    (KCPClient.step Zlib.adler32) {}

/-- The client of the sample has session 7. -/
theorem connectedClient_session : connectedClient.session.map KCPSession.sessionId = some 7 := by
  decide +kernel

/-- The reset of session 7 at both of its ends. -/
theorem rst_touchesOnly_connected :
    connectedServer.TouchesOnly Zlib.adler32
        { data := datagram .rst 7 [], clientAddress := ⟨"10.0.0.1:9000"⟩, now := 4 } 7 ∧
      connectedClient.TouchesOnly Zlib.adler32 { data := datagram .rst 7 [], now := 4 } 7 := by
  obtain ⟨hserver, hclient⟩ := rst_touchesOnly_iff Zlib.adler32 7
  constructor
  · refine (hserver _ _ (by decide +kernel)).mpr ?_
    rintro ⟨pending, hpending, _⟩
    rw [(by decide +kernel : KCPServer.pendingAt _ _ = none)] at hpending
    cases hpending
  · refine (hclient _ _ (by decide +kernel) (by decide +kernel)).mpr ⟨by decide +kernel, ?_⟩
    intro session hsession
    have hid := connectedClient_session
    rw [hsession] at hid
    exact Option.some.inj hid

/-- A server with id 8 on offer to a client. -/
def offeringServer : KCPServer :=
  [ServerEvent.packet { data := datagram .syn 0 [], clientAddress := ⟨"10.0.0.1:9000"⟩, now := 1,
                        rand := [some 8] }].foldl (KCPServer.step Zlib.adler32) {}

/-- A reset of an earlier session 6 arrives late: at the server while id 8 is on offer to the same
client, and at the client while session 7 is up. -/
theorem not_rst_touchesOnly_late :
    offeringServer.Reachable Zlib.adler32 ∧ connectedClient.Reachable Zlib.adler32 ∧
      ¬ offeringServer.TouchesOnly Zlib.adler32
        { data := datagram .rst 6 [], clientAddress := ⟨"10.0.0.1:9000"⟩, now := 2 } 6 ∧
      ¬ connectedClient.TouchesOnly Zlib.adler32 { data := datagram .rst 6 [], now := 4 } 6 := by
  refine ⟨⟨{}, _, rfl⟩, ⟨{}, _, rfl⟩, fun h => ?_, fun h => ?_⟩
  · have hkept := h.pending "10.0.0.1:9000" ⟨8, 0, 1, 1, ⟨"10.0.0.1:9000"⟩⟩ (by decide +kernel)
      (by decide)
    exact absurd hkept (by decide +kernel)
  · obtain ⟨session, hsession, hid⟩ := Option.map_eq_some_iff.mp connectedClient_session
    have hkept := h.session session hsession (by rw [hid]; decide)
    have hgone : (connectedClient.processPacket Zlib.adler32
        { data := datagram .rst 6 [], now := 4 }).1.session = none := by decide +kernel
    rw [hgone] at hkept
    cases hkept

end CodeBlocks.Kcp
