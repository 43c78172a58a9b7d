import CodeBlocks.Kcp.Network.State

/-!
# The server's end

Which ids the server sends to whom, which it keeps as pending, and for which of them
sessions come up.
-/

namespace CodeBlocks.Kcp

namespace KCPServer

/-- What the processing of a packet does: an id is sent to the sender only, and it is the pending
one of its address or a new one; and a session comes up for an id that the sender acknowledges. -/
structure Serves (adler32 : UInt32 → List UInt8 → UInt32) (server : KCPServer)
    (input : ServerPacket) (result : KCPServer × List ServerEffect) : Prop where
  sends : ∀ sessionId address, .send .syn sessionId address ∈ result.2 →
    address = input.clientAddress ∧
      ((∃ pending, server.pendingAt input = some pending ∧ pending.sessionId = sessionId) ∨
        server.generateSessionId input.rand = some sessionId)
  posts : ∀ sessionId packet address, .processPacket sessionId packet address ∈ result.2 →
    address = input.clientAddress ∧ input.kind adler32 = some (.data, sessionId)
  pending : ∀ key pending, result.1.pendingSessionMap.lookup key = some pending →
    (∃ before, server.pendingSessionMap.lookup key = some before ∧
      pending.sessionId = before.sessionId ∧ pending.peerAddress = before.peerAddress) ∨
      key = input.clientAddress.toIpPort ∧ pending.peerAddress = input.clientAddress ∧
        .send .syn pending.sessionId input.clientAddress ∈ result.2
  sessions : ∀ sessionId session, result.1.sessionMap.lookup sessionId = some session →
    server.sessionMap.lookup sessionId = some session ∨
      session.sessionId = sessionId ∧ session.peerAddress = input.clientAddress ∧
        ∃ type, input.kind adler32 = some (type, sessionId) ∧ (type = .ack ∨ type = .data)

variable {adler32 : UInt32 → List UInt8 → UInt32} {server : KCPServer} {input : ServerPacket}

/-- Assertions in front of the effects. -/
theorem Serves.asserts {server' : KCPServer} {effects : List ServerEffect}
    (h : Serves adler32 server input (server', effects)) (conditions : List Bool) :
    Serves adler32 server input (server', ServerEffect.asserts conditions ++ effects) := by
  have hback : ∀ effect ∈ ServerEffect.asserts conditions ++ effects, effect ≠ .assertFailed →
      effect ∈ effects := by
    intro effect hmem hne
    refine (List.mem_append.mp hmem).resolve_left fun hasserts => hne ?_
    unfold ServerEffect.asserts at hasserts
    split at hasserts
    · cases hasserts
    · exact List.mem_singleton.mp hasserts
  refine ⟨fun sessionId address hmem => h.sends sessionId address (hback _ hmem nofun),
    fun sessionId packet address hmem => h.posts sessionId packet address (hback _ hmem nofun),
    fun key pending hlookup => ?_, h.sessions⟩
  exact (h.pending key pending hlookup).imp_right fun ⟨hkey, hpeer, hmem⟩ =>
    ⟨hkey, hpeer, List.mem_append_right _ hmem⟩

/-- Fewer entries, and effects that neither offer nor post anything. -/
theorem Serves.of_less {server' : KCPServer} {effects : List ServerEffect}
    (hsends : ∀ sessionId address, .send .syn sessionId address ∉ effects)
    (hposts : ∀ sessionId packet address, .processPacket sessionId packet address ∉ effects)
    (hpending : ∀ key pending, server'.pendingSessionMap.lookup key = some pending →
      server.pendingSessionMap.lookup key = some pending)
    (hsessions : ∀ sessionId session, server'.sessionMap.lookup sessionId = some session →
      server.sessionMap.lookup sessionId = some session) :
    Serves adler32 server input (server', effects) where
  sends _ _ hmem := absurd hmem (hsends _ _)
  posts _ _ _ hmem := absurd hmem (hposts _ _ _)
  pending key pending hlookup := Or.inl ⟨pending, hpending key pending hlookup, rfl, rfl⟩
  sessions sessionId session hlookup := Or.inl (hsessions sessionId session hlookup)

/-- A packet that changes nothing, is offered no id and is not posted. -/
theorem Serves.same {effects : List ServerEffect}
    (hsends : ∀ sessionId address, .send .syn sessionId address ∉ effects)
    (hposts : ∀ sessionId packet address, .processPacket sessionId packet address ∉ effects) :
    Serves adler32 server input (server, effects) :=
  of_less hsends hposts (fun _ _ => id) fun _ _ => id

/-- A packet that is met with assertions only. -/
theorem Serves.asserts_only {server' : KCPServer} (h : Serves adler32 server input (server', []))
    (conditions : List Bool) :
    Serves adler32 server input (server', ServerEffect.asserts conditions) :=
  List.append_nil (ServerEffect.asserts conditions) ▸ h.asserts conditions

section Handlers

variable {header : KCPPublicHeader} {packet : KCPReceivedPacket}

/-- SYN is answered with an id that goes to its sender. -/
theorem processSynPacket_serves :
    Serves adler32 server input (server.processSynPacket header packet input) := by
  rw [processSynPacket]
  cases hpending : server.pendingSessionMap.lookup input.clientAddress.toIpPort with
  | some pending =>
      simp only
      split
      · refine Serves.asserts ?_ _
        exact .of_less (by simp) (by simp) (fun _ _ => Table.lookup_of_erase) fun _ _ => id
      · refine Serves.asserts ?_ _
        refine ⟨?_, by simp, ?_, fun _ _ => Or.inl⟩
        · intro sessionId address hmem
          simp only [List.mem_singleton, ServerEffect.send.injEq, true_and] at hmem
          exact ⟨hmem.2, Or.inl ⟨pending, hpending, hmem.1.symm⟩⟩
        · intro key again hlookup
          by_cases hkey : key = input.clientAddress.toIpPort
          · rw [hkey, AList.lookup_insert] at hlookup
            cases hlookup
            exact Or.inl ⟨pending, hkey ▸ hpending, rfl, rfl⟩
          · rw [AList.lookup_insert_ne hkey] at hlookup
            exact Or.inl ⟨again, hlookup, rfl, rfl⟩
  | none =>
      simp only
      cases hid : server.generateSessionId input.rand with
      | none => exact Serves.asserts (.same (by simp) (by simp)) _
      | some sessionId =>
          refine Serves.asserts ?_ _
          refine ⟨?_, by simp, ?_, fun _ _ => Or.inl⟩
          · intro sessionId' address hmem
            simp only [List.mem_singleton, ServerEffect.send.injEq, true_and] at hmem
            exact ⟨hmem.2, Or.inr (by rw [hid, hmem.1])⟩
          · intro key pending hlookup
            rw [Table.lookup_insertNew] at hlookup
            split at hlookup
            · rename_i hkey
              rw [hpending, Option.getD_none] at hlookup
              cases hlookup
              exact Or.inr ⟨hkey, rfl, List.mem_singleton_self _⟩
            · exact Or.inl ⟨pending, hlookup, rfl, rfl⟩

/-- A session that comes up for an acknowledged id. -/
theorem establish_serves {type : KCPReceivedPacketType} {sessionId : UInt32} {server' : KCPServer}
    (hkind : input.kind adler32 = some (type, sessionId)) (htype : type = .ack ∨ type = .data)
    (h : server.establish sessionId input = some server') {effects : List ServerEffect}
    (hsends : ∀ sessionId address, .send .syn sessionId address ∉ effects)
    (hposts : ∀ sessionId' packet address, .processPacket sessionId' packet address ∈ effects →
      address = input.clientAddress ∧ input.kind adler32 = some (.data, sessionId')) :
    Serves adler32 server input (server', effects) := by
  obtain ⟨session, hsession, hnew⟩ := Option.bind_eq_some_iff.mp h
  split at hnew
  · cases hnew
  rename_i hnot
  cases hnew
  obtain ⟨hid, hpeer⟩ := SamePeer.initializeWith hsession
  refine ⟨fun _ _ hmem => absurd hmem (hsends _ _), hposts,
    fun key pending hlookup => Or.inl ⟨pending, Table.lookup_of_erase hlookup, rfl, rfl⟩,
    fun sessionId' session' hlookup => ?_⟩
  dsimp only at hlookup
  rw [Table.lookup_insertNew] at hlookup
  split at hlookup
  · rename_i heq
    rw [AList.lookup_eq_none.mpr hnot, Option.getD_none] at hlookup
    cases hlookup
    rw [heq]
    exact Or.inr ⟨hid, hpeer, type, hkind, htype⟩
  · exact Or.inl hlookup

/-- ACK brings a session up for the id that the sender acknowledges. -/
theorem processAckPacket_serves (hkind : input.kind adler32 = some (.ack, header.sessionId)) :
    Serves adler32 server input (server.processAckPacket header packet input) := by
  rw [processAckPacket]
  cases hpending : server.pendingSessionMap.lookup input.clientAddress.toIpPort with
  | none =>
      simp only
      split
      · exact Serves.asserts_only (.same (by simp) (by simp)) _
      · exact Serves.asserts (.same (by simp) (by simp)) _
  | some pending =>
      simp only
      split
      · exact Serves.asserts (.same (by simp) (by simp)) _
      split
      · exact Serves.asserts_only (.same (by simp) (by simp)) _
      · refine Serves.asserts_only ?_ _
        cases hestablish : server.establish header.sessionId input with
        | none => exact .same (by simp) (by simp)
        | some server' =>
            exact establish_serves hkind (Or.inl rfl) hestablish (by simp) (by simp)

/-- RST removes entries only. -/
theorem processRstPacket_serves :
    Serves adler32 server input (server.processRstPacket header packet input) := by
  unfold processRstPacket
  simp only
  split
  · refine Serves.asserts ?_ _
    exact .of_less (by simp) (by simp) (fun _ _ => Table.lookup_of_erase)
      fun _ _ => Table.lookup_of_erase
  · refine Serves.asserts_only ?_ _
    exact .of_less (by simp) (by simp) (fun _ _ => Table.lookup_of_erase) fun _ _ => id

/-- PING is answered only. -/
theorem processPingPacket_serves :
    Serves adler32 server input (server.processPingPacket header packet input) := by
  rw [processPingPacket]
  split
  · refine Serves.asserts ?_ _
    exact .of_less (by simp) (by simp) (fun _ _ => id) fun _ _ => id
  · exact Serves.asserts (.same (by simp) (by simp)) _

/-- DATA is posted to the session that it names, which may come up for it. -/
theorem processDataPacket_serves (hkind : input.kind adler32 = some (.data, header.sessionId)) :
    Serves adler32 server input (server.processDataPacket header packet input) := by
  have hposts : ∀ sessionId' packet' address, .processPacket sessionId' packet' address ∈
      [ServerEffect.processPacket header.sessionId packet input.clientAddress] →
      address = input.clientAddress ∧ input.kind adler32 = some (.data, sessionId') := by
    intro sessionId' packet' address hmem
    simp only [List.mem_singleton, ServerEffect.processPacket.injEq] at hmem
    exact ⟨hmem.2.2, by rw [hkind, hmem.1]⟩
  rw [processDataPacket]
  split
  · exact ⟨by simp, hposts, fun _ pending h => Or.inl ⟨pending, h, rfl, rfl⟩, fun _ _ => Or.inl⟩
  split
  · cases hestablish : server.establish header.sessionId input with
    | none => exact .same (by simp) (by simp)
    | some server' => exact establish_serves hkind (Or.inr rfl) hestablish (by simp) hposts
  · exact .same (by simp) (by simp)

end Handlers

/-- Every packet is served in this way. -/
theorem processPacket_serves (server : KCPServer) (input : ServerPacket) :
    Serves adler32 server input (server.processPacket adler32 input) := by
  cases hkind : input.kind adler32 with
  | none =>
      rw [processPacket_of_none server hkind]
      exact .same (by simp) (by simp)
  | some kind =>
      obtain ⟨type, sessionId⟩ := kind
      obtain ⟨header, packet, -, -, rfl, heq⟩ := processPacket_of_kind server hkind
      rw [heq]
      cases type with
      | syn =>
          unfold dispatch
          exact processSynPacket_serves
      | ack =>
          unfold dispatch
          exact processAckPacket_serves hkind
      | rst =>
          unfold dispatch
          exact processRstPacket_serves
      | ping =>
          unfold dispatch
          exact processPingPacket_serves
      | pong => exact .same (by simp) (by simp)
      | data =>
          unfold dispatch
          exact processDataPacket_serves hkind

/-- Expired sessions are closed, and nothing else happens. -/
theorem expireSessions_effects (now : Timestamp) (sessions : List (Σ _ : UInt32, KCPSession))
    (server : KCPServer) :
    ∀ effect ∈ (expireSessions now sessions server).2, ∃ sessionId, effect = .close sessionId := by
  induction sessions generalizing server with
  | nil => simp [expireSessions]
  | cons e sessions ih =>
      intro effect hmem
      obtain ⟨k, session⟩ := e
      unfold expireSessions at hmem
      simp only at hmem
      rcases List.mem_append.mp hmem with hmem | hmem
      · unfold expireSession at hmem
        split at hmem
        · exact ⟨k, List.mem_singleton.mp hmem⟩
        split at hmem
        · exact ⟨k, List.mem_singleton.mp hmem⟩
        split at hmem
        · cases hmem
        · cases hmem
      · exact ih _ effect hmem

/-- `RunPeriodicTask` sends the pending ids to their addresses, and closes sessions. -/
theorem runPeriodicTask_effects (server : KCPServer) (now : Timestamp) :
    ∀ effect ∈ (server.runPeriodicTask now).2,
      (∃ key pending, server.pendingSessionMap.lookup key = some pending ∧
        effect = .send .syn pending.sessionId pending.peerAddress) ∨
      ∃ sessionId, effect = .close sessionId := by
  intro effect hmem
  rcases List.mem_append.mp hmem with hsend | hclose
  · obtain ⟨e, he, hsend⟩ := List.mem_flatMap.mp hsend
    unfold retrySynEffects at hsend
    split at hsend
    · cases hsend
    split at hsend
    · exact Or.inl ⟨e.1, e.2, AList.mem_lookup_iff.mpr he, List.mem_singleton.mp hsend⟩
    · cases hsend
  · exact Or.inr (expireSessions_effects _ _ _ effect hclose)

/-- A pending session that is retried keeps its id and its address. -/
theorem retrySyn_same {now : Timestamp} {pending again : KCPPendingSession}
    (h : retrySyn now pending = some again) :
    again.sessionId = pending.sessionId ∧ again.peerAddress = pending.peerAddress := by
  unfold retrySyn at h
  split at h
  · cases h
  split at h
  · cases h
    exact ⟨rfl, rfl⟩
  · cases h
    exact ⟨rfl, rfl⟩

/-- No session comes up in `RunPeriodicTask`. -/
theorem runPeriodicTask_sessions {now : Timestamp} {sessionId : UInt32} {session : KCPSession}
    (h : (server.runPeriodicTask now).1.sessionMap.lookup sessionId = some session) :
    server.sessionMap.lookup sessionId = some session := by
  have hentry := congrArg Entry.session (server.runPeriodicTask_entry now sessionId)
  change (server.runPeriodicTask now).1.sessionMap.lookup sessionId = _ at hentry
  rw [h] at hentry
  split at hentry
  · cases hentry
  · exact hentry.symm

end KCPServer

end CodeBlocks.Kcp
