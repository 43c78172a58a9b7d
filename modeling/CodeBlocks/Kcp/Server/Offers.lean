import CodeBlocks.Kcp.Server.Changes

/-!
# Which sessions come up

A session id enters `session_map_` through an ACK packet or through a DATA packet
that takes its place. The first path compares the id with the one offered to
the address, the second one does not.
-/

namespace CodeBlocks.Kcp

variable {adler32 : UInt32 → List UInt8 → UInt32}

namespace KCPServer

/-- An id enters `session_map_`. -/
def Inserts (adler32 : UInt32 → List UInt8 → UInt32) (server : KCPServer) (event : ServerEvent)
    (sessionId : UInt32) : Prop :=
  sessionId ∉ server.sessionMap ∧ sessionId ∈ (server.step adler32 event).sessionMap

/-- The event is a packet from an address that this id has been offered to. -/
def Offered (server : KCPServer) (event : ServerEvent) (sessionId : UInt32) : Prop :=
  ∃ input pending, event = .packet input ∧ server.pendingAt input = some pending ∧
    pending.sessionId = sessionId

/-- The event is an ACK or a DATA packet with this id. -/
def Acknowledges (adler32 : UInt32 → List UInt8 → UInt32) (event : ServerEvent)
    (sessionId : UInt32) : Prop :=
  ∃ input type, event = .packet input ∧ input.kind adler32 = some (type, sessionId) ∧
    (type = .ack ∨ type = .data)

/-- The event establishes a session: an ACK packet with the offered id, or a DATA packet from an
address with a pending session. -/
def Establishes (adler32 : UInt32 → List UInt8 → UInt32) (server : KCPServer)
    (event : ServerEvent) (sessionId : UInt32) : Prop :=
  sessionId ∉ server.sessionMap ∧ ∃ input type pending, event = .packet input ∧
    input.kind adler32 = some (type, sessionId) ∧ server.pendingAt input = some pending ∧
    (type = .ack ∧ pending.sessionId = sessionId ∨ type = .data)

/-- A DATA packet for an id that is not live, from an address that another id was offered to. -/
def ForeignData (adler32 : UInt32 → List UInt8 → UInt32) (server : KCPServer)
    (event : ServerEvent) : Prop :=
  ∃ input sessionId pending, event = .packet input ∧
    input.kind adler32 = some (.data, sessionId) ∧ sessionId ∉ server.sessionMap ∧
    server.pendingAt input = some pending ∧ pending.sessionId ≠ sessionId

/-- The timer adds no session. -/
theorem runPeriodicTask_mem {server : KCPServer} {now : Timestamp} {sessionId : UInt32}
    (h : sessionId ∈ (server.runPeriodicTask now).1.sessionMap) :
    sessionId ∈ server.sessionMap := by
  obtain ⟨session, hsession⟩ := Table.mem_iff_lookup.mp h
  have hentry := congrArg Entry.session (server.runPeriodicTask_entry now sessionId)
  change (server.runPeriodicTask now).1.sessionMap.lookup sessionId = _ at hentry
  rw [hsession] at hentry
  refine Table.mem_iff_lookup.mpr ⟨session, ?_⟩
  split at hentry
  · cases hentry
  · exact hentry.symm

/-- A packet of the two kinds that establish a session does so. -/
theorem step_establish {server : KCPServer} {input : ServerPacket} {type : KCPReceivedPacketType}
    {sessionId : UInt32} {pending : KCPPendingSession} (hnew : sessionId ∉ server.sessionMap)
    (hkind : input.kind adler32 = some (type, sessionId))
    (hpending : server.pendingAt input = some pending)
    (htype : type = .ack ∧ pending.sessionId = sessionId ∨ type = .data) :
    ∃ session, server.step adler32 (.packet input) = { server with
      sessionMap := Table.insertNew server.sessionMap sessionId session
      pendingSessionMap := server.pendingSessionMap.erase input.clientAddress.toIpPort
      idleSessionMap := Table.insertNew server.idleSessionMap sessionId input.now } := by
  obtain ⟨session, hestablish⟩ := establish_eq input hnew
  obtain ⟨header, packet, _, _, rfl, heq⟩ := processPacket_of_kind server hkind
  refine ⟨session, ?_⟩
  rw [step, handle, heq]
  unfold pendingAt at hpending
  rcases htype with ⟨rfl, hid⟩ | rfl
  · rw [dispatch, processAckPacket, hpending]
    simp only [ne_eq, hid, not_true_eq_false, hnew, ite_false, hestablish, Option.getD_some]
  · have hkey : input.clientAddress.toIpPort ∈ server.pendingSessionMap :=
      Table.mem_iff_lookup.mpr ⟨pending, hpending⟩
    rw [dispatch, processDataPacket, if_neg hnew, if_pos hkey, hestablish]

/-- A session that is established is inserted. -/
theorem establishes_inserts {server : KCPServer} {event : ServerEvent} {sessionId : UInt32}
    (h : server.Establishes adler32 event sessionId) : server.Inserts adler32 event sessionId := by
  obtain ⟨hnew, input, type, pending, rfl, hkind, hpending, htype⟩ := h
  obtain ⟨session, heq⟩ := step_establish hnew hkind hpending htype
  refine ⟨hnew, ?_⟩
  rw [heq]
  exact Table.mem_insertNew.mpr (Or.inl rfl)

/-- There is no other way into `session_map_`. -/
theorem inserts_iff (server : KCPServer) (event : ServerEvent) (sessionId : UInt32) :
    server.Inserts adler32 event sessionId ↔ server.Establishes adler32 event sessionId := by
  refine ⟨?_, establishes_inserts⟩
  rintro ⟨hnew, hmem⟩
  cases event with
  | periodicTask now => exact absurd (runPeriodicTask_mem hmem) hnew
  | session k task now => exact absurd ((server.runSession_keys k sessionId task).mp hmem) hnew
  | packet input =>
      have hchange : PacketChange adler32 server input (server.step adler32 (.packet input)) :=
        server.processPacket_change input
      generalize server.step adler32 (.packet input) = server' at hmem hchange
      cases hchange with
      | establish type k pending session hkind htype hk hpending =>
          rcases Table.mem_insertNew.mp hmem with rfl | hold
          · exact ⟨hnew, input, type, pending, rfl, hkind, hpending, htype⟩
          · exact absurd hold hnew
      | reset k _ _ => exact absurd (AList.mem_erase.mp hmem).2 hnew
      | _ => exact absurd hmem hnew

/-- In this step exactly the offered (address, id) pairs are accepted, by ACK and by DATA
packets alike. -/
def AcceptsOffered (adler32 : UInt32 → List UInt8 → UInt32) (server : KCPServer)
    (event : ServerEvent) : Prop :=
  (∀ sessionId, server.Inserts adler32 event sessionId → server.Offered event sessionId) ∧
    ∀ sessionId, Acknowledges adler32 event sessionId → sessionId ∉ server.sessionMap →
      (server.Inserts adler32 event sessionId ↔ server.Offered event sessionId)

/-- Only a DATA packet for another id than the one on offer is accepted wrongly. -/
theorem acceptsOffered_iff (server : KCPServer) (event : ServerEvent) :
    server.AcceptsOffered adler32 event ↔ ¬ server.ForeignData adler32 event := by
  constructor
  · rintro ⟨hoffered, _⟩ ⟨input, sessionId, pending, rfl, hkind, hnew, hpending, hne⟩
    have hinserts : server.Inserts adler32 (.packet input) sessionId :=
      establishes_inserts ⟨hnew, input, .data, pending, rfl, hkind, hpending, Or.inr rfl⟩
    obtain ⟨input', pending', heq, hpending', hid⟩ := hoffered sessionId hinserts
    cases heq
    rw [hpending] at hpending'
    cases hpending'
    exact hne hid
  · intro hforeign
    have hoffered : ∀ sessionId, server.Inserts adler32 event sessionId →
        server.Offered event sessionId := by
      intro sessionId hinserts
      obtain ⟨hnew, input, type, pending, rfl, hkind, hpending, ⟨rfl, hid⟩ | rfl⟩ :=
        (inserts_iff server event sessionId).mp hinserts
      · exact ⟨input, pending, rfl, hpending, hid⟩
      · refine ⟨input, pending, rfl, hpending, ?_⟩
        by_contra hne
        exact hforeign ⟨input, sessionId, pending, rfl, hkind, hnew, hpending, hne⟩
    refine ⟨hoffered, fun sessionId hack hnew => ⟨hoffered sessionId, ?_⟩⟩
    rintro ⟨input, pending, rfl, hpending, hid⟩
    obtain ⟨input', type, heq, hkind, htype⟩ := hack
    cases heq
    refine establishes_inserts ⟨hnew, input, type, pending, rfl, hkind, hpending, ?_⟩
    exact htype.imp_left fun hack => ⟨hack, hid⟩

end KCPServer

/-- In a run, every session that comes up was offered to the address it comes up for, exactly when
no DATA packet arrives whose id is not live and differs from the one offered to its sender. -/
theorem run_acceptsOffered_iff (adler32 : UInt32 → List UInt8 → UInt32)
    (callbacks : SessionCallbacks) (events : List ServerEvent) :
    Along (KCPServer.step adler32) (KCPServer.AcceptsOffered adler32) { callbacks } events ↔
      Along (KCPServer.step adler32) (fun server event => ¬ server.ForeignData adler32 event)
        { callbacks } events :=
  Along.congr KCPServer.acceptsOffered_iff _ _

/-- A client asks for a session and is offered id 7, then it sends data for id 9. -/
def foreignDataRun : List ServerEvent :=
  [.packet { data := datagram .syn 0 [], clientAddress := ⟨"10.0.0.1:9000"⟩, now := 1,
             rand := [some 7] },
   .packet { data := datagram .data 9 [1, 2], clientAddress := ⟨"10.0.0.1:9000"⟩, now := 2 }]

/-- A run of a fresh server that accepts an id it did not offer. -/
theorem not_acceptsOffered_foreignDataRun :
    ¬ Along (KCPServer.step Zlib.adler32) (KCPServer.AcceptsOffered Zlib.adler32) {}
      foreignDataRun := by
  rintro ⟨_, ⟨hoffered, _⟩, _⟩
  obtain ⟨input, pending, heq, hpending, hid⟩ := hoffered 9 ⟨by decide +kernel, by decide +kernel⟩
  cases heq
  rw [(by decide +kernel : KCPServer.pendingAt _ _ = some ⟨7, 0, 1, 1, ⟨"10.0.0.1:9000"⟩⟩)]
    at hpending
  cases hpending
  exact absurd hid (by decide)

end CodeBlocks.Kcp
