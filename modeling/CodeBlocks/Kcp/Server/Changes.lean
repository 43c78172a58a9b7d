import Mathlib.Data.List.ReduceOption
import CodeBlocks.Kcp.Server.Server

/-!
# What an event changes in the maps of the server

One inversion of the packet handlers and one description of the periodic task,
entry by entry. Every property of runs is derived from these.
-/

namespace CodeBlocks.Kcp

/-- The packet type and the session id of a datagram that reaches a handler. -/
def ServerPacket.kind (adler32 : UInt32 → List UInt8 → UInt32) (input : ServerPacket) :
    Option (KCPReceivedPacketType × UInt32) :=
  if input.data.length > kMaxPacketSize then none else datagramKind adler32 input.data

namespace KCPServer

/-- The pending session of the address that a packet came from. -/
def pendingAt (server : KCPServer) (input : ServerPacket) : Option KCPPendingSession :=
  server.pendingSessionMap.lookup input.clientAddress.toIpPort

variable {adler32 : UInt32 → List UInt8 → UInt32}

/-- `ProcessPacket` drops what it does not accept and dispatches the rest. -/
theorem processPacket_eq (server : KCPServer) (input : ServerPacket) :
    server.processPacket adler32 input =
      if input.data.length > kMaxPacketSize then (server, [])
      else
        match readDatagram adler32 input.data with
        | none => (server, [])
        | some (header, packet) =>
          server.dispatch header packet input
            (KCPReceivedPacketType.ofCode header.packetType) := by
  rw [processPacket, readDatagram]
  cases KCPReceivedPacket.readPublicHeader adler32 { data := input.data } with
  | mk result packet =>
      cases result with
      | error code => rfl
      | ok header => rfl

/-- A dispatched packet by its kind. -/
theorem processPacket_of_kind (server : KCPServer) {input : ServerPacket}
    {type : KCPReceivedPacketType} {sessionId : UInt32}
    (h : input.kind adler32 = some (type, sessionId)) :
    ∃ header packet, readDatagram adler32 input.data = some (header, packet) ∧
      header.packetType = type.code ∧ header.sessionId = sessionId ∧
      server.processPacket adler32 input = server.dispatch header packet input (some type) := by
  unfold ServerPacket.kind at h
  split at h
  · cases h
  · rename_i hlen
    obtain ⟨header, packet, hread, htype, hid⟩ := datagramKind_eq_some adler32 h
    refine ⟨header, packet, hread, KCPReceivedPacketType.code_of_ofCode htype, hid, ?_⟩
    rw [processPacket_eq, if_neg hlen, hread]
    simp only [htype]

/-- What is of no kind changes nothing. -/
theorem processPacket_of_none (server : KCPServer) {input : ServerPacket}
    (h : input.kind adler32 = none) : server.processPacket adler32 input = (server, []) := by
  rw [processPacket_eq]
  split
  · rfl
  · rename_i hlen
    rw [ServerPacket.kind, if_neg hlen] at h
    cases hread : readDatagram adler32 input.data with
    | none => rfl
    | some pair =>
        obtain ⟨header, packet⟩ := pair
        simp only [datagramKind_eq_none adler32 h hread]
        rfl

/-- `InitializeSession` does not fail with the parameters of the server. -/
theorem initializeControl_isSome (sessionId : UInt32) :
    (initializeControl sessionId sessionParams).isSome = true := by
  rw [initializeControl]
  generalize hk : ikcpWndsize (ikcpStream (ikcpCreate sessionId) sessionParams.streamMode)
    sessionParams.sndWnd sessionParams.rcvWnd = kcp
  have hroom : kcp.headRoom = 0 := by
    rw [← hk]
    simp [ikcpWndsize, ikcpStream, ikcpCreate]
  have hmtu : ∃ kcp', ikcpSetmtu kcp sessionParams.mtu = (0, kcp') ∧ kcp'.mss = 1376 := by
    rw [ikcpSetmtu, hroom, if_neg (by decide), if_neg (by decide)]
    exact ⟨_, rfl, rfl⟩
  obtain ⟨kcp', hset, hmss⟩ := hmtu
  have hfits : ¬ sessionParams.headRoom.toUInt32 ≥ kcp'.mss := by
    rw [hmss]
    decide
  rw [hset]
  simp only [Int.reduceLT, ite_false, ikcpSetHeadRoom, hfits, Option.isSome_some]

/-- A session can always be established for an id that is not live. -/
theorem establish_eq {server : KCPServer} {sessionId : UInt32} (input : ServerPacket)
    (h : sessionId ∉ server.sessionMap) :
    ∃ session, server.establish sessionId input = some { server with
      sessionMap := Table.insertNew server.sessionMap sessionId session
      pendingSessionMap := server.pendingSessionMap.erase input.clientAddress.toIpPort
      idleSessionMap := Table.insertNew server.idleSessionMap sessionId input.now } := by
  have hinit : (KCPSession.initializeWith sessionId input.clientAddress sessionParams
      server.callbacks input.calls).isSome = true := by
    rw [KCPSession.initializeWith, Option.isSome_map]
    exact initializeControl_isSome sessionId
  obtain ⟨session, hsession⟩ := Option.isSome_iff_exists.mp hinit
  refine ⟨session, ?_⟩
  rw [establish, hsession, Option.bind_some, if_neg h]

/-- An accepted random id is neither live nor in time-wait, and it is the first such one among the
results of the tries. -/
theorem generateSessionId_eq (server : KCPServer) (rand : List (Option UInt32)) :
    server.generateSessionId rand =
      (rand.take kServerMaxGenSessionIdTryTimes).reduceOption.find? fun id =>
        decide (id ∉ server.sessionMap ∧ id ∉ server.timeWaitSessionMap) := by
  unfold generateSessionId
  generalize kServerMaxGenSessionIdTryTimes = tries
  induction tries generalizing rand with
  | zero => rfl
  | succ tries ih =>
      cases rand with
      | nil => rfl
      | cons result rand =>
          cases result with
          | none => exact ih rand
          | some id =>
              rw [generateSessionIdLoop, List.take_succ_cons, List.reduceOption_cons_of_some,
                List.find?_cons]
              by_cases hs : id ∈ server.sessionMap
              · simp [hs, ih]
              by_cases ht : id ∈ server.timeWaitSessionMap
              · simp [hs, ht, ih]
              · simp [hs, ht]

end KCPServer

/-- Everything that a packet can do to the maps, and on what grounds. -/
inductive PacketChange (adler32 : UInt32 → List UInt8 → UInt32) (server : KCPServer)
    (input : ServerPacket) : KCPServer → Prop where
  | same : PacketChange adler32 server input server
  | giveUp (sessionId : UInt32) (hkind : input.kind adler32 = some (.syn, sessionId)) :
      PacketChange adler32 server input { server with
        pendingSessionMap := server.pendingSessionMap.erase input.clientAddress.toIpPort }
  | offerAgain (pending again : KCPPendingSession)
      (hpending : server.pendingAt input = some pending)
      (hid : again.sessionId = pending.sessionId) :
      PacketChange adler32 server input { server with
        pendingSessionMap :=
          AList.insert input.clientAddress.toIpPort again server.pendingSessionMap }
  | offer (sessionId : UInt32) (pending : KCPPendingSession)
      (hkind : input.kind adler32 = some (.syn, sessionId)) (hnone : server.pendingAt input = none)
      (hid : server.generateSessionId input.rand = some pending.sessionId) :
      PacketChange adler32 server input { server with
        pendingSessionMap :=
          Table.insertNew server.pendingSessionMap input.clientAddress.toIpPort pending }
  | ping (sessionId : UInt32) (hlive : sessionId ∈ server.sessionMap) :
      PacketChange adler32 server input { server with
        idleSessionMap := AList.insert sessionId input.now server.idleSessionMap }
  | establish (type : KCPReceivedPacketType) (sessionId : UInt32) (pending : KCPPendingSession)
      (session : KCPSession) (hkind : input.kind adler32 = some (type, sessionId))
      (htype : type = .ack ∧ pending.sessionId = sessionId ∨ type = .data)
      (hnew : sessionId ∉ server.sessionMap) (hpending : server.pendingAt input = some pending) :
      PacketChange adler32 server input { server with
        sessionMap := Table.insertNew server.sessionMap sessionId session
        pendingSessionMap := server.pendingSessionMap.erase input.clientAddress.toIpPort
        idleSessionMap := Table.insertNew server.idleSessionMap sessionId input.now }
  | resetUnknown (sessionId : UInt32) (hkind : input.kind adler32 = some (.rst, sessionId))
      (hnew : sessionId ∉ server.sessionMap) :
      PacketChange adler32 server input { server with
        pendingSessionMap := server.pendingSessionMap.erase input.clientAddress.toIpPort
        idleSessionMap := server.idleSessionMap.erase sessionId }
  | reset (sessionId : UInt32) (hkind : input.kind adler32 = some (.rst, sessionId))
      (hlive : sessionId ∈ server.sessionMap) :
      PacketChange adler32 server input { server.retire sessionId input.now with
        pendingSessionMap := server.pendingSessionMap.erase input.clientAddress.toIpPort }

namespace KCPServer

variable {adler32 : UInt32 → List UInt8 → UInt32}

private theorem establish_change {server : KCPServer} {input : ServerPacket}
    {type : KCPReceivedPacketType} {sessionId : UInt32} (pending : KCPPendingSession)
    (hkind : input.kind adler32 = some (type, sessionId))
    (htype : type = .ack ∧ pending.sessionId = sessionId ∨ type = .data)
    (hnew : sessionId ∉ server.sessionMap) (hpending : server.pendingAt input = some pending) :
    ∃ server', server.establish sessionId input = some server' ∧
      PacketChange adler32 server input server' := by
  obtain ⟨session, heq⟩ := establish_eq input hnew
  exact ⟨_, heq, .establish type sessionId pending session hkind htype hnew hpending⟩

section Handlers

variable {server : KCPServer} {header : KCPPublicHeader} {packet : KCPReceivedPacket}
  {input : ServerPacket}

/-- SYN makes an offer, makes it again or gives it up. -/
theorem processSynPacket_change (hkind : input.kind adler32 = some (.syn, header.sessionId)) :
    PacketChange adler32 server input (server.processSynPacket header packet input).1 := by
  rw [processSynPacket]
  cases hpending : server.pendingSessionMap.lookup input.clientAddress.toIpPort with
  | some pending =>
      simp only
      split
      · exact .giveUp _ hkind
      · exact .offerAgain pending _ hpending rfl
  | none =>
      simp only
      cases hid : server.generateSessionId input.rand with
      | none => exact .same
      | some sessionId => exact .offer _ _ hkind hpending hid

/-- ACK establishes the session that it answers, if at all. -/
theorem processAckPacket_change (hkind : input.kind adler32 = some (.ack, header.sessionId)) :
    PacketChange adler32 server input (server.processAckPacket header packet input).1 := by
  unfold processAckPacket
  cases hpending : server.pendingSessionMap.lookup input.clientAddress.toIpPort with
  | none =>
      simp only
      split
      · exact .same
      · exact .same
  | some pending =>
      simp only
      split
      · exact .same
      rename_i hid
      split
      · exact .same
      rename_i hnew
      obtain ⟨server', hsome, hchange⟩ := establish_change pending hkind
        (Or.inl ⟨rfl, (not_not.mp hid).symm⟩) hnew hpending
      rw [hsome]
      exact hchange

/-- RST removes what carries its id. -/
theorem processRstPacket_change (hkind : input.kind adler32 = some (.rst, header.sessionId)) :
    PacketChange adler32 server input (server.processRstPacket header packet input).1 := by
  unfold processRstPacket
  simp only
  split
  · exact .reset _ hkind ‹_›
  · exact .resetUnknown _ hkind ‹_›

/-- PING keeps a live session from being idle. -/
theorem processPingPacket_change :
    PacketChange adler32 server input (server.processPingPacket header packet input).1 := by
  rw [processPingPacket]
  split
  · exact .ping _ ‹_›
  · exact .same

/-- DATA establishes a session that is not live, if there is an offer. -/
theorem processDataPacket_change (hkind : input.kind adler32 = some (.data, header.sessionId)) :
    PacketChange adler32 server input (server.processDataPacket header packet input).1 := by
  rw [processDataPacket]
  split
  · exact .same
  rename_i hnew
  split
  · rename_i hmem
    obtain ⟨pending, hpending⟩ := Table.mem_iff_lookup.mp hmem
    obtain ⟨server', hsome, hchange⟩ := establish_change pending hkind (Or.inr rfl) hnew hpending
    rw [hsome]
    exact hchange
  · exact .same

end Handlers

/-- Every packet makes one of these changes. -/
theorem processPacket_change (server : KCPServer) (input : ServerPacket) :
    PacketChange adler32 server input (server.processPacket adler32 input).1 := by
  cases hkind : input.kind adler32 with
  | none =>
      rw [processPacket_of_none server hkind]
      exact .same
  | some pair =>
      obtain ⟨type, sessionId⟩ := pair
      obtain ⟨header, packet, _, _, rfl, heq⟩ := processPacket_of_kind server hkind
      rw [heq]
      cases type with
      | syn =>
          unfold dispatch
          exact processSynPacket_change hkind
      | ack =>
          unfold dispatch
          exact processAckPacket_change hkind
      | rst =>
          unfold dispatch
          exact processRstPacket_change hkind
      | ping =>
          unfold dispatch
          exact processPingPacket_change
      | pong => exact .same
      | data =>
          unfold dispatch
          exact processDataPacket_change hkind

/-- What the second loop of `RunPeriodicTask` asks of a session. -/
def expires (server : KCPServer) (now : Timestamp) (sessionId : UInt32) (session : KCPSession) :
    Bool :=
  match server.idleSessionMap.lookup sessionId with
  | none => true
  | some lastReceivedTime =>
    decide (now - lastReceivedTime ≥ kServerSessionIdleSeconds) || session.closed

/-- A session that is due is retired, and any other is left. -/
theorem expireSession_eq (now : Timestamp) (server : KCPServer) (sessionId : UInt32)
    (session : KCPSession) :
    (server.expireSession now sessionId session).1 =
      if server.expires now sessionId session then server.retire sessionId now else server := by
  rw [expireSession, expires]
  cases server.idleSessionMap.lookup sessionId with
  | none => rfl
  | some lastReceivedTime =>
      by_cases hidle : now - lastReceivedTime ≥ kServerSessionIdleSeconds
      · simp [hidle]
      · cases hclosed : session.closed with
        | true => simp [hidle]
        | false => simp [hidle]

/-- The entries of one session id in the three maps that are keyed by ids. -/
structure Entry where
  session : Option KCPSession
  idle : Option Timestamp
  timeWait : Option Timestamp

def entry (server : KCPServer) (sessionId : UInt32) : Entry where
  session := server.sessionMap.lookup sessionId
  idle := server.idleSessionMap.lookup sessionId
  timeWait := server.timeWaitSessionMap.lookup sessionId

/-- Retiring a session touches its own entries only. -/
theorem entry_retire (server : KCPServer) (sessionId k : UInt32) (now : Timestamp) :
    (server.retire sessionId now).entry k =
      if k = sessionId then ⟨none, none, some ((server.entry k).timeWait.getD now)⟩
      else server.entry k := by
  simp only [entry, retire, Table.lookup_erase_eq, Table.lookup_insertNew]
  split
  · rename_i heq
    rw [heq]
  · rfl

/-- Whether a session is due depends on its own entry only. -/
theorem expires_congr {server server' : KCPServer} {now : Timestamp} {sessionId : UInt32}
    {session : KCPSession} (h : server'.entry sessionId = server.entry sessionId) :
    server'.expires now sessionId session = server.expires now sessionId session := by
  have hidle : server'.idleSessionMap.lookup sessionId = server.idleSessionMap.lookup sessionId :=
    congrArg Entry.idle h
  rw [expires, expires, hidle]

/-- The second loop of `RunPeriodicTask` retires exactly the sessions that expire. -/
theorem expireSessions_entry (now : Timestamp) (sessions : List (Σ _ : UInt32, KCPSession))
    (h : sessions.NodupKeys) (server : KCPServer) :
    (expireSessions now sessions server).1.pendingSessionMap = server.pendingSessionMap ∧
      ∀ k, (expireSessions now sessions server).1.entry k =
        if (sessions.dlookup k).any (server.expires now k) then
          ⟨none, none, some ((server.entry k).timeWait.getD now)⟩
        else server.entry k := by
  induction sessions generalizing server with
  | nil => exact ⟨rfl, fun _ => rfl⟩
  | cons e sessions ih =>
      obtain ⟨sessionId, session⟩ := e
      obtain ⟨hnot, hrest⟩ := List.nodupKeys_cons.mp h
      obtain ⟨hpending, hentry⟩ := ih hrest (server.expireSession now sessionId session).1
      unfold expireSessions
      simp only
      generalize hserver : (server.expireSession now sessionId session).1 = server'
        at hpending hentry
      rw [expireSession_eq] at hserver
      have hother : ∀ k, k ≠ sessionId → server'.entry k = server.entry k := by
        intro k hk
        rw [← hserver]
        split
        · rw [entry_retire, if_neg hk]
        · rfl
      refine ⟨hpending.trans ?_, fun k => ?_⟩
      · rw [← hserver]
        split <;> rfl
      · rw [hentry]
        by_cases hk : k = sessionId
        · subst hk
          rw [List.dlookup_eq_none.mpr hnot, List.dlookup_cons_eq, ← hserver]
          simp only [Option.any_none, Bool.false_eq_true, ite_false, Option.any_some]
          split
          · rw [entry_retire, if_pos rfl]
          · rfl
        · rw [List.dlookup_cons_ne _ _ hk, hother k hk]
          have hcongr : server'.expires now k = server.expires now k :=
            funext fun session => expires_congr (hother k hk)
          rw [hcongr]

/-- Of the three loops only the first one touches the offers. -/
theorem runPeriodicTask_pending (server : KCPServer) (now : Timestamp) (key : String) :
    (server.runPeriodicTask now).1.pendingSessionMap.lookup key =
      (server.pendingSessionMap.lookup key).bind (retrySyn now) := by
  have hpending := (expireSessions_entry now server.sessionMap.entries server.sessionMap.nodupKeys
    (server.retrySyns now)).1
  rw [← Table.lookup_sweep (fun _ pending => retrySyn now pending)]
  exact congrArg (AList.lookup key) hpending

/-- `RunPeriodicTask`, id by id: a session that expires is retired, and then the time-wait map
is swept. -/
theorem runPeriodicTask_entry (server : KCPServer) (now : Timestamp) (k : UInt32) :
    (server.runPeriodicTask now).1.entry k =
      if (server.entry k).session.any (server.expires now k) then
        ⟨none, none, stillWaiting now ((server.entry k).timeWait.getD now)⟩
      else
        { server.entry k with
          timeWait := (server.entry k).timeWait.bind (stillWaiting now) } := by
  have hentry := (expireSessions_entry now server.sessionMap.entries server.sessionMap.nodupKeys
    (server.retrySyns now)).2 k
  have hsame : (server.retrySyns now).entry k = server.entry k := rfl
  have hexpires : (server.retrySyns now).expires now k = server.expires now k :=
    funext fun _ => expires_congr hsame
  rw [hsame, hexpires] at hentry
  have hswept : (server.runPeriodicTask now).1.entry k =
      let e := (expireSessions now server.sessionMap.entries (server.retrySyns now)).1.entry k
      { e with timeWait := e.timeWait.bind (stillWaiting now) } := by
    simp only [entry, runPeriodicTask, Table.lookup_sweep]
    rfl
  rw [hswept, hentry]
  change _ = if (server.sessionMap.entries.dlookup k).any (server.expires now k) then _ else _
  split
  · rfl
  · rfl

/-- A task of a session leaves the ids. -/
theorem runSession_keys (server : KCPServer) (sessionId k : UInt32) (task : SessionTask) :
    k ∈ (server.runSession sessionId task).sessionMap ↔ k ∈ server.sessionMap := by
  unfold runSession
  cases hsession : server.sessionMap.lookup sessionId with
  | none => rfl
  | some session =>
      have hlive : sessionId ∈ server.sessionMap := Table.mem_iff_lookup.mpr ⟨session, hsession⟩
      rw [AList.mem_insert]
      exact ⟨fun h => h.elim (fun heq => heq ▸ hlive) id, Or.inr⟩

/-- A task of a session touches neither what is on offer nor what waits. -/
theorem runSession_frame (server : KCPServer) (sessionId : UInt32) (task : SessionTask) :
    (server.runSession sessionId task).pendingSessionMap = server.pendingSessionMap ∧
      (server.runSession sessionId task).timeWaitSessionMap = server.timeWaitSessionMap := by
  unfold runSession
  split
  · exact ⟨rfl, rfl⟩
  · exact ⟨rfl, rfl⟩

end KCPServer

end CodeBlocks.Kcp
