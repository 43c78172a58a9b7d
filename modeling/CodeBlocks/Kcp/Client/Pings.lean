import CodeBlocks.Kcp.Client.Silence

/-!
# How often the client pings

`RunPeriodicTask` sends a `PING` when the time in `last_ping_time_` is long ago.
That time is stored when the session comes up and never again, so once the
first `PING` was due, every firing of the timer sends another.
-/

namespace CodeBlocks.Kcp

/-- The effect is a `PING`. -/
def ClientEffect.isPing : ClientEffect → Bool
  | .send .ping _ => true
  | _ => false

/-- The clock reading of an event; events without one have no use for it. -/
def ClientEvent.now (event : ClientEvent) : Timestamp := event.clock.getD 0

namespace KCPClient

/-- `RunPeriodicTask` takes the branch that sends a `PING`. -/
structure PingDue (client : KCPClient) (now : Timestamp) : Prop where
  connected : client.state = .connected
  socket : client.socket = true
  alive : ∃ session, client.session = some session ∧ session.closed = false
  heard : ¬ (client.lastReceivedTime > 0 ∧
    now - client.lastReceivedTime ≥ kClientSessionIdleSeconds)
  due : client.lastPingTime > 0 ∧ now - client.lastPingTime ≥ kClientPingInterval

/-- No effect is a `PING`. -/
def Quiet (result : KCPClient × List ClientEffect) : Prop :=
  result.2.any ClientEffect.isPing = false

/-- Assertions send nothing. -/
theorem quiet_asserts (function : ClientFunction) (conditions : List Bool) :
    (ClientEffect.asserts function conditions).any ClientEffect.isPing = false := by
  unfold ClientEffect.asserts
  split <;> rfl

/-- Sending a packet of another type. -/
theorem quiet_sendPacket (client : KCPClient) {packetType : KCPReceivedPacketType}
    (h : packetType ≠ .ping) (sessionId : UInt32) :
    (client.sendPacket packetType sessionId).any ClientEffect.isPing = false := by
  unfold sendPacket
  split
  · cases packetType with
    | ping => exact absurd rfl h
    | _ => rfl
  · rfl

/-- `Disconnect` sends an `RST` at most. -/
theorem quiet_disconnectWith {close : KCPClient → KCPSession → KCPClient × List ClientEffect}
    (hclose : ∀ c s, Quiet (close c s)) (client : KCPClient) :
    Quiet (client.disconnectWith close) := by
  unfold disconnectWith Quiet
  split
  · exact quiet_asserts _ _
  · split
    · rw [List.any_append, quiet_asserts]
      rfl
    · rename_i session _
      have hclosed := hclose client session
      unfold Quiet at hclosed
      simp only
      split
      · rw [List.any_append, List.any_append, quiet_asserts, hclosed]
        rfl
      · rw [List.any_append, List.any_append, quiet_asserts, hclosed,
          quiet_sendPacket _ (by decide)]
        rfl
  · rfl

/-- So does a `Disconnect` in a callback. -/
theorem quiet_disconnectInCallback (client : KCPClient) (currentMs : UInt32) :
    Quiet (client.disconnectInCallback currentMs) := by
  apply quiet_disconnectWith
  intro c session
  rfl

/-- The connection callback of a session that goes down. -/
theorem quiet_connectionDown (client : KCPClient) (callback : CallbackRun) (currentMs : UInt32) :
    Quiet (client.connectionDown callback currentMs) := by
  unfold connectionDown
  split
  · simp only
    split
    · exact quiet_disconnectInCallback _ currentMs
    · rfl
  · rfl

/-- Closing a session sends no `PING`, whatever its callback does. -/
theorem quiet_closeSession (lastFlush : Bool) (callback : CallbackRun) (currentMs : UInt32)
    (client : KCPClient) (session : KCPSession) :
    Quiet (closeSession lastFlush callback currentMs client session) := by
  unfold closeSession
  split
  · rfl
  · exact quiet_connectionDown _ callback currentMs

/-- `BuildSession` sends a `SYN`. -/
theorem quiet_buildSession (client : KCPClient) (now : Timestamp) :
    Quiet (client.buildSession now) := by
  unfold buildSession
  split
  · rfl
  split
  · exact quiet_sendPacket client (by decide) 0
  · rfl

/-- `ResetSession` sends no `PING`, also when its callback disconnects. -/
theorem quiet_resetSession (client : KCPClient) (callback : CallbackRun) (currentMs : UInt32) :
    Quiet (client.resetSession callback currentMs) := by
  have hdrop (c : KCPClient) : Quiet (c.dropSession callback currentMs) := by
    unfold dropSession
    split
    · rfl
    · exact quiet_closeSession false callback currentMs c _
  have hschedule (c : KCPClient) : Quiet c.scheduleReconnect := by
    unfold scheduleReconnect
    repeat' split
    all_goals rfl
  unfold resetSession Quiet
  simp only
  rw [List.any_append, hdrop, hschedule]
  rfl

/-- A task of the session sends no `PING`: its datagrams are `DATA` packets. -/
theorem quiet_runSession (client : KCPClient) (session : KCPSession) (task : SessionTask)
    (callback : CallbackRun) (currentMs : UInt32) :
    Quiet (client.runSession session task callback currentMs) := by
  unfold runSession
  simp only
  split
  · exact quiet_connectionDown _ callback currentMs
  · rfl

/-- A packet is never answered by a `PING`. -/
theorem quiet_dispatch (client : KCPClient) (header : KCPPublicHeader) (packet : KCPReceivedPacket)
    (input : ClientPacket) (type : Option KCPReceivedPacketType) :
    Quiet (client.dispatch header packet input type) := by
  unfold dispatch Quiet
  split
  · unfold processSynPacket
    simp only
    split
    · split
      · rw [List.any_append, quiet_asserts, quiet_sendPacket _ (by decide)]
        rfl
      · rw [List.any_append, quiet_asserts, quiet_sendPacket _ (by decide)]
        rfl
    · split
      · rw [List.any_append, quiet_asserts, quiet_sendPacket _ (by decide)]
        rfl
      · cases KCPSession.initializeWith header.sessionId client.serverAddress sessionParams
            client.sessionCallbacks input.callback.calls with
        | none => exact quiet_asserts _ _
        | some session =>
            have hup : Quiet (client.connectionUp input.callback input.currentMs) := by
              unfold connectionUp
              split
              · exact quiet_disconnectInCallback client input.currentMs
              · rfl
            simp only [Option.elim_some, sessionUp]
            rw [List.any_append, List.any_append, quiet_asserts, hup,
              quiet_sendPacket _ (by decide)]
            rfl
  · unfold processRstPacket
    simp only
    rw [List.any_append, quiet_asserts, quiet_resetSession]
    rfl
  · unfold processPongPacket
    simp only
    split
    · rw [List.any_append, quiet_asserts, quiet_sendPacket _ (by decide)]
      rfl
    · exact quiet_asserts _ _
  · unfold processDataPacket
    simp only
    split
    · rw [List.any_append, quiet_asserts, quiet_sendPacket _ (by decide)]
      rfl
    · rw [List.any_append, quiet_asserts, quiet_runSession]
      rfl
  · rfl
  · rfl
  · rfl

/-- Nor is a datagram that is refused before its handler. -/
theorem quiet_handleRead (adler32 : UInt32 → List UInt8 → UInt32) (client : KCPClient)
    (input : ClientPacket) : Quiet (client.handleRead adler32 input) := by
  unfold handleRead
  split
  · rfl
  split
  · rfl
  unfold processPacket
  simp only
  split
  · exact quiet_asserts _ _
  · unfold Quiet
    simp only
    rw [List.any_append, quiet_asserts, quiet_dispatch]
    rfl

/-- Only the timer sends a `PING`. -/
theorem quiet_handle (adler32 : UInt32 → List UInt8 → UInt32) (client : KCPClient)
    {event : ClientEvent}
    (h : ∀ now callback currentMs, event ≠ .periodicTask now callback currentMs) :
    Quiet (client.handle adler32 event) := by
  cases event with
  | connect address now =>
      unfold handle
      simp only
      split
      · rfl
      · exact quiet_buildSession { client with serverAddress := address, socket := true } now
  | disconnect callback currentMs =>
      exact quiet_disconnectWith (quiet_closeSession true callback currentMs) client
  | packet input => exact quiet_handleRead adler32 client input
  | periodicTask now callback currentMs => exact absurd rfl (h now callback currentMs)
  | reconnect now =>
      unfold handle
      simp only
      split
      · exact quiet_buildSession { client with reconnectTimer := false } now
      · rfl
  | session task callback currentMs =>
      unfold handle
      simp only
      split
      · rfl
      · exact quiet_runSession client _ task callback currentMs
  | setReconnectEnabled enabled => rfl

/-- `RunPeriodicTask` sends a `PING` exactly when one is due. -/
theorem runPeriodicTask_pings_iff (client : KCPClient) (now : Timestamp) (callback : CallbackRun)
    (currentMs : UInt32) :
    (client.runPeriodicTask now callback currentMs).2.any ClientEffect.isPing = true ↔
      client.PingDue now := by
  have hquiet {result : KCPClient × List ClientEffect} (hresult : Quiet result)
      (hnot : ¬ client.PingDue now) :
      result.2.any ClientEffect.isPing = true ↔ client.PingDue now := by
    rw [hresult]
    exact ⟨fun h => absurd h Bool.false_ne_true, fun h => absurd h hnot⟩
  unfold runPeriodicTask
  split
  · rename_i hstate
    have hnot : ¬ client.PingDue now := fun h => by
      have hconnected := h.connected
      rw [hstate] at hconnected
      cases hconnected
    split
    · exact hquiet rfl hnot
    split
    · exact hquiet (quiet_resetSession client callback currentMs) hnot
    split
    · exact hquiet (quiet_sendPacket client (by decide) _) hnot
    · exact hquiet rfl hnot
  · rename_i hstate
    split
    · rename_i hnone
      exact hquiet rfl fun h => by
        obtain ⟨session, hsome, -⟩ := h.alive
        rw [hnone] at hsome
        cases hsome
    rename_i session hsession
    split
    · rename_i hsilent
      exact hquiet (quiet_resetSession client callback currentMs) fun h => h.heard hsilent
    rename_i hheard
    split
    · rename_i hclosed
      exact hquiet (quiet_resetSession client callback currentMs) fun h => by
        obtain ⟨session', hsome, hopen⟩ := h.alive
        rw [hsession] at hsome
        cases hsome
        rw [hclosed] at hopen
        cases hopen
    rename_i hopen
    split
    · rename_i hdue
      unfold sendPacket
      split
      · rename_i hsocket
        exact ⟨fun _ => ⟨hstate, hsocket, ⟨session, hsession, Bool.not_eq_true _ ▸ hopen⟩, hheard,
          hdue⟩, fun _ => rfl⟩
      · rename_i hsocket
        exact hquiet rfl fun h => hsocket h.socket
    · rename_i hearly
      exact hquiet rfl fun h => hearly h.due
  · rename_i hstate
    exact hquiet rfl fun h => by
      have hconnected := h.connected
      rw [hstate] at hconnected
      cases hconnected

end KCPClient

/-- A firing of the timer: the session it falls in, when that session came up, and its time. -/
structure Firing where
  session : Nat
  established : Timestamp
  time : Timestamp
  deriving DecidableEq, Repr

/-- The firing comes an interval after its session came up, or later. -/
def Firing.Late (firing : Firing) : Prop :=
  firing.time - firing.established ≥ kClientPingInterval

/-- A client whose sessions are counted, with the firings of its timer while it is connected and
those of them that sent a `PING`, the latest first. -/
structure PingLog where
  client : KCPClient
  sessions : Nat := 0
  established : Timestamp := 0
  firings : List Firing := []
  pings : List Firing := []

namespace PingLog

variable {adler32 : UInt32 → List UInt8 → UInt32}

/-- The event is a firing of the timer, and finds the client connected. -/
def fires (log : PingLog) : ClientEvent → Bool
  | .periodicTask _ _ _ => log.client.periodicTaskTimer && log.client.socket &&
    log.client.session.isSome && log.client.state = .connected
  | _ => false

/-- The client handles an event. -/
def step (adler32 : UInt32 → List UInt8 → UInt32) (log : PingLog) (event : ClientEvent) :
    PingLog :=
  let (client, effects) := log.client.handle adler32 event
  let comesUp : Bool := log.client.session.isNone && client.session.isSome
  let firing : Firing := ⟨log.sessions, log.established, event.now⟩
  { client
    sessions := if comesUp then log.sessions + 1 else log.sessions
    established := if comesUp then event.now else log.established
    firings := if log.fires event then firing :: log.firings else log.firings
    pings := if effects.any ClientEffect.isPing then firing :: log.pings else log.pings }

/-- Two `PING`s of one session are an interval apart, and each comes an interval after the session
came up. -/
structure Spaced (log : PingLog) : Prop where
  apart : log.pings.Pairwise fun later earlier =>
    later.session = earlier.session → later.time - earlier.time ≥ kClientPingInterval
  first : ∀ ping ∈ log.pings, ping.time - ping.established ≥ kClientPingInterval

/-- A firing of the timer that finds a `PING` due comes an interval after every late firing of its
session. -/
def FiringsApart (log : PingLog) : ClientEvent → Prop
  | .periodicTask now _ _ => log.client.periodicTaskTimer = true → log.client.PingDue now →
      ∀ firing ∈ log.firings, firing.session = log.sessions → firing.Late →
        now - firing.time ≥ kClientPingInterval
  | _ => True

/-- The stored time is that at which the session came up. -/
def Faithful (log : PingLog) : Prop :=
  log.client.session.isSome → log.client.lastPingTime = log.established

/-- Every event keeps the stored time that of the session. -/
theorem Faithful.step {log : PingLog} (h : log.Faithful) (event : ClientEvent) :
    (log.step adler32 event).Faithful := by
  have hold {client : KCPClient} (hsome : log.client.session.isSome) :
      (log.client.session.isNone && client.session.isSome) = false := by
    rw [← Option.not_isSome, hsome]
    rfl
  have hkept (hkeeps : KCPClient.Keeps log.client (log.step adler32 event).client) :
      (log.step adler32 event).Faithful := by
    intro hafter
    have hbefore := hkeeps.session hafter
    rw [hkeeps.ping, h hbefore]
    simp only [PingLog.step, hold hbefore, Bool.false_eq_true, if_false]
  by_cases hpacket : ∃ input, event = .packet input
  swap
  · exact hkept (KCPClient.Keeps.step log.client fun input heq => hpacket ⟨input, heq⟩)
  obtain ⟨input, rfl⟩ := hpacket
  rcases @KCPClient.handleRead_cases adler32 log.client input with
    ⟨-, hhears⟩ | ⟨-, hkeeps | hjoins⟩
  · intro _
    have hping := hhears.ping.trans (h hhears.some)
    simp only [PingLog.step, hold hhears.some, Bool.false_eq_true, if_false]
    exact hping
  · exact hkept hkeeps
  · intro _
    have hup : (log.client.session.isNone &&
        (log.client.handleRead adler32 input).1.session.isSome) = true := by
      rw [hjoins.none, hjoins.some]
      rfl
    simp only [PingLog.step, KCPClient.handle, hup, if_true]
    exact hjoins.ping

/-- Only a firing of the timer that finds a `PING` due is recorded. -/
theorem step_pings (log : PingLog) (event : ClientEvent) :
    ((log.step adler32 event).pings = log.pings ∧
      ∀ now callback currentMs, event = .periodicTask now callback currentMs →
        ¬ (log.client.periodicTaskTimer = true ∧ log.client.PingDue now)) ∨
    ∃ now callback currentMs, event = .periodicTask now callback currentMs ∧
      log.client.periodicTaskTimer = true ∧ log.client.PingDue now ∧
      (log.step adler32 event).pings = ⟨log.sessions, log.established, now⟩ :: log.pings := by
  by_cases htimer : ∃ now callback currentMs, event = .periodicTask now callback currentMs
  swap
  · have hnot : ∀ now callback currentMs, event ≠ .periodicTask now callback currentMs :=
      fun now callback currentMs heq => htimer ⟨now, callback, currentMs, heq⟩
    have hquiet := KCPClient.quiet_handle adler32 log.client hnot
    unfold KCPClient.Quiet at hquiet
    left
    refine ⟨?_, fun now callback currentMs heq => absurd heq (hnot now callback currentMs)⟩
    simp only [PingLog.step, hquiet, Bool.false_eq_true, if_false]
  obtain ⟨now, callback, currentMs, rfl⟩ := htimer
  by_cases hset : log.client.periodicTaskTimer = true
  · have hpings := log.client.runPeriodicTask_pings_iff now callback currentMs
    have hhandle : log.client.handle adler32 (.periodicTask now callback currentMs) =
        log.client.runPeriodicTask now callback currentMs := by
      rw [KCPClient.handle, if_pos hset]
    by_cases hdue : log.client.PingDue now
    · refine Or.inr ⟨now, callback, currentMs, rfl, hset, hdue, ?_⟩
      simp only [PingLog.step, hhandle, hpings.mpr hdue, if_true]
      rfl
    · have hnone := Bool.not_eq_true _ ▸ mt hpings.mp hdue
      refine Or.inl ⟨?_, fun now' _ _ heq hfires => ?_⟩
      · simp only [PingLog.step, hhandle, hnone, Bool.false_eq_true, if_false]
      · cases heq
        exact hdue hfires.2
  · refine Or.inl ⟨?_, fun now' _ _ heq hfires => hset hfires.1⟩
    simp only [PingLog.step, KCPClient.handle, hset, Bool.false_eq_true, if_false, List.any_nil]

/-- Every `PING` is a late firing, and every late firing of the session that is up has sent one:
the others find the session closed or its server silent, and it is over. -/
structure Tracked (log : PingLog) : Prop where
  faithful : log.Faithful
  numbered : ∀ firing ∈ log.firings, firing.session ≤ log.sessions
  sent : ∀ ping ∈ log.pings, ping ∈ log.firings ∧ ping.Late
  answered : log.client.session.isSome → log.established > 0 → ∀ firing ∈ log.firings,
    firing.session = log.sessions → firing.Late → firing ∈ log.pings

/-- A firing that leaves the session up finds a `PING` due if one may be due by then. -/
theorem pingDue_of_up {client : KCPClient} {now : Timestamp} {callback : CallbackRun}
    {currentMs : UInt32} (hstate : client.state = .connected) (hsocket : client.socket = true)
    (hup : (client.runPeriodicTask now callback currentMs).1.session.isSome)
    (hset : client.lastPingTime > 0) (hlate : now - client.lastPingTime ≥ kClientPingInterval) :
    client.PingDue now := by
  have hreset : ¬ (client.resetSession callback currentMs).1.session.isSome := by
    rw [(client.resetSession_cleared callback currentMs).2]
    exact Bool.false_ne_true
  unfold KCPClient.runPeriodicTask at hup
  simp only [hstate] at hup
  cases hsession : client.session with
  | none =>
      rw [hsession] at hup
      simp only [hsession] at hup
      cases hup
  | some session =>
      rw [hsession] at hup
      simp only at hup
      split at hup
      · exact absurd hup hreset
      rename_i hheard
      split at hup
      · exact absurd hup hreset
      rename_i hopen
      exact ⟨hstate, hsocket, ⟨session, hsession, Bool.not_eq_true _ ▸ hopen⟩, hheard, hset, hlate⟩

/-- A firing finds a session up, and none comes up. -/
theorem fires_cases {log : PingLog} {event : ClientEvent} (h : log.fires event = true) :
    ∃ now callback currentMs, event = .periodicTask now callback currentMs ∧
      log.client.socket = true ∧ log.client.session.isSome ∧ log.client.state = .connected ∧
      (log.step adler32 event).client =
        (log.client.runPeriodicTask now callback currentMs).1 := by
  cases event with
  | periodicTask now callback currentMs =>
      simp only [fires, Bool.and_eq_true, decide_eq_true_eq] at h
      obtain ⟨⟨⟨htimer, hsocket⟩, hsome⟩, hstate⟩ := h
      refine ⟨now, callback, currentMs, rfl, hsocket, hsome, hstate, ?_⟩
      simp only [PingLog.step, KCPClient.handle, htimer, if_true]
  | _ => cases h

/-- A `PING` is due only when the timer finds the client connected. -/
theorem fires_of_pingDue {log : PingLog} {now : Timestamp}
    (htimer : log.client.periodicTaskTimer = true) (hdue : log.client.PingDue now)
    (callback : CallbackRun) (currentMs : UInt32) :
    log.fires (.periodicTask now callback currentMs) = true := by
  obtain ⟨session, hsession, -⟩ := hdue.alive
  simp only [fires, htimer, hdue.socket, hsession, hdue.connected, Option.isSome_some, decide_true,
    Bool.and_self]

/-- Nothing is counted while a session is up. -/
theorem step_of_up {log : PingLog} (h : log.client.session.isSome) (event : ClientEvent) :
    (log.step adler32 event).sessions = log.sessions ∧
      (log.step adler32 event).established = log.established := by
  have hup {client : KCPClient} : (log.client.session.isNone && client.session.isSome) = false := by
    rw [← Option.not_isSome, h]
    rfl
  simp only [PingLog.step, hup, Bool.false_eq_true, if_false, and_self]

/-- A firing is recorded, and is a `PING` if it is late and the session stays. -/
theorem Tracked.step_of_fires {log : PingLog} (h : log.Tracked) {event : ClientEvent}
    (hfires : log.fires event = true) : (log.step adler32 event).Tracked := by
  have hpings := @step_pings adler32 log event
  obtain ⟨now, callback, currentMs, rfl, hsocket, hsome, hstate, hclient⟩ :=
    @fires_cases adler32 log event hfires
  obtain ⟨hsessions, hestablished⟩ := @step_of_up adler32 log hsome
    (.periodicTask now callback currentMs)
  have hfirings : (log.step adler32 (.periodicTask now callback currentMs)).firings =
      ⟨log.sessions, log.established, now⟩ :: log.firings := by
    simp only [PingLog.step, hfires, if_true]
    rfl
  refine ⟨h.faithful.step _, ?_, ?_, ?_⟩
  · rw [hfirings, hsessions, List.forall_mem_cons]
    exact ⟨le_rfl, h.numbered⟩
  · rw [hfirings]
    rcases hpings with ⟨hsame, -⟩ | ⟨now', _, _, heq, -, hdue, hmore⟩
    · rw [hsame]
      exact fun ping hping => ⟨List.mem_cons_of_mem _ (h.sent ping hping).1,
        (h.sent ping hping).2⟩
    · cases heq
      rw [hmore, List.forall_mem_cons]
      refine ⟨⟨List.mem_cons_self, ?_⟩, fun ping hping =>
        ⟨List.mem_cons_of_mem _ (h.sent ping hping).1, (h.sent ping hping).2⟩⟩
      rw [Firing.Late, ← h.faithful hsome]
      exact hdue.due.2
  · rw [hfirings, hsessions, hestablished, hclient]
    intro hup hpositive firing hfiring hsession hlate
    rcases hpings with ⟨hsame, hnone⟩ | ⟨now', _, _, heq, -, hdue, hmore⟩
    · rw [hsame]
      rcases List.mem_cons.mp hfiring with rfl | hfiring
      · have htimer : log.client.periodicTaskTimer = true := by
          simp only [fires, Bool.and_eq_true] at hfires
          exact hfires.1.1.1
        rw [Firing.Late, ← h.faithful hsome] at hlate
        rw [← h.faithful hsome] at hpositive
        exact absurd ⟨htimer, pingDue_of_up hstate hsocket hup hpositive hlate⟩
          (hnone now callback currentMs rfl)
      · exact h.answered hsome hpositive firing hfiring hsession hlate
    · cases heq
      rw [hmore]
      rcases List.mem_cons.mp hfiring with rfl | hfiring
      · exact List.mem_cons_self
      · exact List.mem_cons_of_mem _
          (h.answered hsome hpositive firing hfiring hsession hlate)

/-- No other event adds to the records; a session that comes up has a number that no firing has. -/
theorem Tracked.step_of_not_fires {log : PingLog} (h : log.Tracked) {event : ClientEvent}
    (hfires : log.fires event = false) : (log.step adler32 event).Tracked := by
  have hfirings : (log.step adler32 event).firings = log.firings := by
    simp only [PingLog.step, hfires, Bool.false_eq_true, if_false]
  have hsame : (log.step adler32 event).pings = log.pings := by
    rcases @step_pings adler32 log event with
      ⟨hsame, -⟩ | ⟨now, callback, currentMs, rfl, htimer, hdue, -⟩
    · exact hsame
    · rw [fires_of_pingDue htimer hdue] at hfires
      cases hfires
  by_cases hsome : log.client.session.isSome
  · obtain ⟨hsessions, hestablished⟩ := @step_of_up adler32 log hsome event
    refine ⟨h.faithful.step event, ?_, ?_, ?_⟩
    · rw [hfirings, hsessions]
      exact h.numbered
    · rw [hfirings, hsame]
      exact h.sent
    · rw [hfirings, hsame, hsessions, hestablished]
      exact fun _ => h.answered hsome
  · have hnone : log.client.session.isNone = true := by
      rw [← Option.not_isSome, Bool.eq_false_iff.mpr hsome]
      rfl
    have hle : log.sessions ≤ (log.step adler32 event).sessions := by
      simp only [PingLog.step]
      split
      · exact Nat.le_succ _
      · exact le_rfl
    refine ⟨h.faithful.step event, ?_, ?_, ?_⟩
    · rw [hfirings]
      exact fun firing hfiring => le_trans (h.numbered firing hfiring) hle
    · rw [hfirings, hsame]
      exact h.sent
    · -- a session that comes up now has a number that no firing has
      rw [hfirings]
      intro hup _ firing hfiring hsession _
      have hnext : (log.step adler32 event).sessions = log.sessions + 1 := by
        simp only [PingLog.step] at hup ⊢
        rw [hnone, hup]
        rfl
      have hnumber := h.numbered firing hfiring
      omega

/-- The records stay in order over every event. -/
theorem Tracked.step {log : PingLog} (h : log.Tracked) (event : ClientEvent) :
    (log.step adler32 event).Tracked := by
  cases hfires : log.fires event with
  | true => exact h.step_of_fires hfires
  | false => exact h.step_of_not_fires hfires

/-- A step keeps `PING`s spaced exactly when a firing that finds one due is apart from those
before it. -/
theorem spaced_step_iff {log : PingLog} (htracked : log.Tracked) (h : log.Spaced)
    (event : ClientEvent) : (log.step adler32 event).Spaced ↔ log.FiringsApart event := by
  rcases @step_pings adler32 log event with
    ⟨hsame, hnone⟩ | ⟨now, callback, currentMs, rfl, hset, hdue, hpings⟩
  · have hspaced : (log.step adler32 event).Spaced := by
      constructor
      · rw [hsame]
        exact h.apart
      · rw [hsame]
        exact h.first
    refine ⟨fun _ => ?_, fun _ => hspaced⟩
    cases event with
    | periodicTask now callback currentMs =>
        exact fun hset hdue => absurd ⟨hset, hdue⟩ (hnone now callback currentMs rfl)
    | _ => trivial
  · have hsome : log.client.session.isSome := by
      obtain ⟨session, hsession, -⟩ := hdue.alive
      rw [hsession]
      rfl
    have hdue' := hdue.due
    rw [htracked.faithful hsome] at hdue'
    constructor
    · intro hspaced _ _ firing hfiring hsession hlate
      have hapart := hspaced.apart
      rw [hpings, List.pairwise_cons] at hapart
      have hping := htracked.answered hsome hdue'.1 firing hfiring hsession hlate
      exact hapart.1 firing hping hsession.symm
    · intro hfirings
      constructor
      · rw [hpings, List.pairwise_cons]
        refine ⟨fun ping hping hsession => ?_, h.apart⟩
        obtain ⟨hfiring, hlate⟩ := htracked.sent ping hping
        exact hfirings hset hdue ping hfiring hsession.symm hlate
      · rw [hpings, List.forall_mem_cons]
        exact ⟨hdue'.2, h.first⟩

/-- What is spaced after an event was spaced before. -/
theorem spaced_of_step {log : PingLog} {event : ClientEvent}
    (h : (log.step adler32 event).Spaced) : log.Spaced := by
  rcases @step_pings adler32 log event with ⟨hsame, -⟩ | ⟨_, _, _, rfl, -, -, hpings⟩
  · constructor
    · rw [← hsame]
      exact h.apart
    · rw [← hsame]
      exact h.first
  · have hapart := h.apart
    have hfirst := h.first
    rw [hpings] at hapart hfirst
    exact ⟨(List.pairwise_cons.mp hapart).2, (List.forall_mem_cons.mp hfirst).2⟩

/-- A new client that has handled some events. -/
def run (adler32 : UInt32 → List UInt8 → UInt32) (callbacks : SessionCallbacks)
    (events : List ClientEvent) : PingLog :=
  events.foldl (step adler32) { client := { callbacks } }

end PingLog

/-- In every run of a client, the `PING`s of a session are an interval apart, and an interval after
its start, exactly when each firing of the timer that finds one due comes an interval after every
other firing that was late in the session. -/
theorem pings_spaced_iff (adler32 : UInt32 → List UInt8 → UInt32) (callbacks : SessionCallbacks)
    (events : List ClientEvent) :
    (PingLog.run adler32 callbacks events).Spaced ↔
      Along (PingLog.step adler32) PingLog.FiringsApart { client := { callbacks } } events := by
  apply Along.final_iff (J := PingLog.Tracked)
  · exact fun log event h => h.step event
  · exact fun log event htracked h => PingLog.spaced_step_iff htracked h event
  · exact fun log event => PingLog.spaced_of_step
  · refine ⟨fun h => ?_, fun firing hfiring => absurd hfiring List.not_mem_nil,
      fun ping hping => absurd hping List.not_mem_nil, fun h => ?_⟩
    · cases h
    · cases h
  · exact ⟨List.Pairwise.nil, fun ping hping => absurd hping List.not_mem_nil⟩

/-- The timer fires twice, two seconds apart, after the first interval. -/
def pingRun : List ClientEvent :=
  [.connect ⟨"10.0.0.9:7000"⟩ 1000000, .packet { data := datagram .syn 7 [], now := 2000000 },
    .periodicTask 8000000 {} 0, .periodicTask 10000000 {} 0]

/-- The two firings send a `PING` each. -/
theorem not_spaced_pingRun : ¬ (PingLog.run Zlib.adler32 {} pingRun).Spaced := by
  intro h
  have hpings : (PingLog.run Zlib.adler32 {} pingRun).pings =
      [⟨1, 2000000, 10000000⟩, ⟨1, 2000000, 8000000⟩] := by
    decide +kernel
  have hapart := h.apart
  rw [hpings] at hapart
  revert hapart
  decide

end CodeBlocks.Kcp
