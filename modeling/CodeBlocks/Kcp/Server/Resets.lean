import CodeBlocks.Kcp.Server.Changes

/-!
# Resets at the server

When the server tells a client to reset, and what it does when it is told. An ACK
packet is compared with the offer to its sender before anything else, so one that
repeats an established id is answered with a reset where a second offer is out;
and an RST packet withdraws the offer to its sender, whatever id it names.
-/

namespace CodeBlocks.Kcp

variable {adler32 : UInt32 → List UInt8 → UInt32}

namespace KCPServer

/-- Processing the packet sends no RST packet and leaves the session in the map. -/
def KeepsAlive (adler32 : UInt32 → List UInt8 → UInt32) (server : KCPServer)
    (input : ServerPacket) (sessionId : UInt32) : Prop :=
  (∀ id address, .send .rst id address ∉ (server.processPacket adler32 input).2) ∧
    (server.processPacket adler32 input).1.sessionMap.lookup sessionId =
      server.sessionMap.lookup sessionId

/-- Another id than the given one is on offer to the sender of a packet. -/
def OtherOffer (server : KCPServer) (input : ServerPacket) (sessionId : UInt32) : Prop :=
  ∃ pending, server.pendingAt input = some pending ∧ pending.sessionId ≠ sessionId

/-- Assertions send nothing. -/
theorem not_mem_asserts (conditions : List Bool) (packetType : KCPReceivedPacketType)
    (id : UInt32) (address : InetAddress) :
    .send packetType id address ∉ ServerEffect.asserts conditions := by
  unfold ServerEffect.asserts
  split <;> simp

/-- An ACK packet of a live session is answered with a reset exactly when another id is on offer
to its sender. -/
theorem processAckPacket_live {server : KCPServer} {header : KCPPublicHeader}
    (packet : KCPReceivedPacket) (input : ServerPacket)
    (hlive : header.sessionId ∈ server.sessionMap) :
    (server.processAckPacket header packet input).1 = server ∧
      ((∃ id address, .send .rst id address ∈ (server.processAckPacket header packet input).2) ↔
        server.OtherOffer input header.sessionId) := by
  rw [processAckPacket, OtherOffer, pendingAt]
  cases hpending : server.pendingSessionMap.lookup input.clientAddress.toIpPort with
  | none =>
      simp only [hlive, ite_true]
      refine ⟨trivial, ?_, ?_⟩
      · rintro ⟨id, address, hmem⟩
        exact absurd hmem (not_mem_asserts _ _ _ _)
      · rintro ⟨pending, hsome, _⟩
        cases hsome
  | some pending =>
      by_cases hid : header.sessionId = pending.sessionId
      · have hlive' : pending.sessionId ∈ server.sessionMap := hid ▸ hlive
        simp only [ne_eq, hid, not_true_eq_false, ite_false, hlive', ite_true]
        refine ⟨trivial, ?_, ?_⟩
        · rintro ⟨id, address, hmem⟩
          exact absurd hmem (not_mem_asserts _ _ _ _)
        · rintro ⟨pending', hsome, hne⟩
          cases hsome
          exact absurd rfl hne
      · simp only [ne_eq, hid, not_false_eq_true, ite_true]
        refine ⟨trivial, fun _ => ⟨pending, rfl, fun h => hid h.symm⟩, fun _ => ?_⟩
        exact ⟨0, input.clientAddress, List.mem_append_right _ List.mem_cons_self⟩

end KCPServer

/-- A packet of a live session is processed without a reset and leaves the session in the map,
exactly when it is not an ACK packet from an address that another id is on offer to. -/
theorem keepsAlive_iff (adler32 : UInt32 → List UInt8 → UInt32) (server : KCPServer)
    (input : ServerPacket) (type : KCPReceivedPacketType) (sessionId : UInt32)
    (hkind : input.kind adler32 = some (type, sessionId))
    (htype : type = .ack ∨ type = .ping ∨ type = .data) (hlive : sessionId ∈ server.sessionMap) :
    server.KeepsAlive adler32 input sessionId ↔
      ¬ (type = .ack ∧ server.OtherOffer input sessionId) := by
  obtain ⟨header, packet, _, _, rfl, heq⟩ := server.processPacket_of_kind hkind
  rw [KCPServer.KeepsAlive, heq]
  rcases htype with rfl | rfl | rfl
  · obtain ⟨hsame, hrst⟩ := KCPServer.processAckPacket_live packet input hlive
    rw [KCPServer.dispatch, hsame, ← hrst]
    simp
  · rw [KCPServer.dispatch, KCPServer.processPingPacket, if_pos hlive]
    have hsends : ∀ id address, .send .rst id address ∉ ServerEffect.asserts
        [packet.remainingBytes = 0, header.packetType = KCPReceivedPacketType.ping.code,
          header.sessionId > 0] ++ [.send .pong header.sessionId input.clientAddress] := by
      intro id address hmem
      rcases List.mem_append.mp hmem with hmem | hmem
      · exact KCPServer.not_mem_asserts _ _ _ _ hmem
      · simp at hmem
    refine ⟨fun _ h => ?_, fun _ => ⟨hsends, rfl⟩⟩
    cases h.1
  · rw [KCPServer.dispatch, KCPServer.processDataPacket, if_pos hlive]
    refine ⟨fun _ h => ?_, fun _ => ⟨fun id address => by simp, rfl⟩⟩
    cases h.1

/-- A client that has established session 7. -/
def connectRun : List ServerEvent :=
  [.packet { data := datagram .syn 0 [], clientAddress := ⟨"10.0.0.1:9000"⟩, now := 1,
             rand := [some 7] },
   .packet { data := datagram .ack 7 [], clientAddress := ⟨"10.0.0.1:9000"⟩, now := 2 }]

/-- The same client, whose SYN packet arrives a second time after the session has come up. -/
def repeatedSynRun : List ServerEvent :=
  connectRun ++
    [.packet { data := datagram .syn 0 [], clientAddress := ⟨"10.0.0.1:9000"⟩, now := 3,
               rand := [some 8] }]

/-- Its ACK packet once more. -/
def repeatedAck : ServerPacket :=
  { data := datagram .ack 7 [], clientAddress := ⟨"10.0.0.1:9000"⟩, now := 4 }

/-- With no offer pending for its address a repeated ACK leaves the session alive. -/
theorem keepsAlive_repeatedAck :
    (connectRun.foldl (KCPServer.step Zlib.adler32) {}).KeepsAlive Zlib.adler32 repeatedAck 7 := by
  refine (keepsAlive_iff Zlib.adler32 _ repeatedAck .ack 7 (by decide +kernel) (Or.inl rfl)
    (by decide +kernel)).mpr ?_
  rintro ⟨_, pending, hpending, _⟩
  rw [(by decide +kernel : KCPServer.pendingAt _ _ = none)] at hpending
  cases hpending

/-- After a repeated SYN it does not. -/
theorem not_keepsAlive_repeatedAck :
    ∃ server : KCPServer, server.Reachable Zlib.adler32 ∧
      repeatedAck.kind Zlib.adler32 = some (.ack, 7) ∧ 7 ∈ server.sessionMap ∧
      ¬ server.KeepsAlive Zlib.adler32 repeatedAck 7 := by
  refine ⟨repeatedSynRun.foldl (KCPServer.step Zlib.adler32) {}, ⟨{}, _, rfl⟩, by decide +kernel,
    by decide +kernel, fun h => ?_⟩
  exact h.1 0 ⟨"10.0.0.1:9000"⟩ (by decide +kernel)

end CodeBlocks.Kcp
