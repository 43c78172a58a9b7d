import CodeBlocks.Core.Run
import CodeBlocks.Kcp.Client.Changes
import CodeBlocks.Kcp.Client.State

/-!
# How long the server has been silent

`RunPeriodicTask` resets a session whose server has been silent for too long. The
time it goes by is a field of the client, not of the session, and no new session
clears it: a reset may go by what an earlier session has heard.
-/

namespace CodeBlocks.Kcp

/-- The clock reading that an event comes with. -/
def ClientEvent.clock : ClientEvent → Option Timestamp
  | .connect _ now => some now
  | .packet input => some input.now
  | .periodicTask now _ _ => some now
  | .reconnect now => some now
  | _ => none

namespace KCPClient

variable {adler32 : UInt32 → List UInt8 → UInt32}

/-- `RunPeriodicTask` takes the branch for a silent server. -/
def TimesOut (client : KCPClient) (now : Timestamp) : Prop :=
  client.state = .connected ∧ client.session.isSome ∧ client.lastReceivedTime > 0 ∧
    now - client.lastReceivedTime ≥ kClientSessionIdleSeconds

/-- A connected client drops its session for the silence of its server, and keeps an open session
otherwise. -/
theorem runPeriodicTask_timesOut_iff {client : KCPClient} {session : KCPSession}
    (hstate : client.state = .connected) (hsession : client.session = some session)
    (now : Timestamp) (callback : CallbackRun) (currentMs : UInt32) :
    (client.TimesOut now →
        client.runPeriodicTask now callback currentMs = client.resetSession callback currentMs) ∧
      (session.closed = false →
        (client.TimesOut now ↔
          (client.runPeriodicTask now callback currentMs).1.session = none)) := by
  have hlong : client.TimesOut now ↔ client.lastReceivedTime > 0 ∧
      now - client.lastReceivedTime ≥ kClientSessionIdleSeconds :=
    ⟨fun h => h.2.2, fun h => ⟨hstate, by rw [hsession]; rfl, h⟩⟩
  have hreset (h : client.TimesOut now) :
      client.runPeriodicTask now callback currentMs = client.resetSession callback currentMs := by
    simp only [runPeriodicTask, hstate, hsession, if_pos (hlong.mp h)]
  refine ⟨hreset, fun hopen => ⟨fun h => ?_, fun hnone => ?_⟩⟩
  · rw [hreset h]
    exact (client.resetSession_cleared callback currentMs).2
  · by_contra h
    have hkept : (client.runPeriodicTask now callback currentMs).1 = client := by
      simp only [runPeriodicTask, hstate, hsession, if_neg (mt hlong.mpr h), hopen,
        Bool.false_eq_true, if_false]
      split
      · rfl
      · rfl
    rw [hkept, hsession] at hnone
    cases hnone

/-- A packet is a `PONG` or `DATA` that the client takes for its session. -/
def hears (adler32 : UInt32 → List UInt8 → UInt32) (client : KCPClient) (input : ClientPacket) :
    Bool :=
  client.socket && client.session.isSome && decide (input.data.length ≤ kMaxPacketSize) &&
    match datagramKind adler32 input.data with
    | some (.pong, _) => true
    | some (.data, _) => true
    | _ => false

/-- The two times stay, and no session comes up. -/
structure Keeps (client client' : KCPClient) : Prop where
  received : client'.lastReceivedTime = client.lastReceivedTime
  ping : client'.lastPingTime = client.lastPingTime
  session : client'.session.isSome → client.session.isSome

namespace Keeps

/-- Nothing has happened. -/
theorem refl (client : KCPClient) : Keeps client client := ⟨rfl, rfl, id⟩

/-- Two steps that keep the times keep them together. -/
theorem trans {a b c : KCPClient} (h : Keeps a b) (h' : Keeps b c) : Keeps a c :=
  ⟨h'.received.trans h.received, h'.ping.trans h.ping, h.session ∘ h'.session⟩

/-- `Disconnect` keeps the times when the way it closes the session does. -/
theorem disconnectWith {close : KCPClient → KCPSession → KCPClient × List ClientEffect}
    (hclose : ∀ c s, c.session = some s → Keeps c (close c s).1) (client : KCPClient) :
    Keeps client (client.disconnectWith close).1 := by
  unfold KCPClient.disconnectWith
  split
  · exact ⟨rfl, rfl, id⟩
  · split
    · exact ⟨rfl, rfl, id⟩
    · rename_i session hsession
      have hclosed := hclose client session hsession
      simp only
      split
      · exact ⟨hclosed.received, hclosed.ping, hclosed.session⟩
      · exact ⟨hclosed.received, hclosed.ping, by simp [disconnectSocket]⟩
  · exact ⟨rfl, rfl, id⟩

/-- A callback that calls `Disconnect` keeps them. -/
theorem disconnectInCallback (client : KCPClient) (currentMs : UInt32) :
    Keeps client (client.disconnectInCallback currentMs).1 := by
  apply disconnectWith
  intro c s hsession
  exact ⟨rfl, rfl, by simp [hsession]⟩

/-- So does the connection callback of a session that goes down, whatever it calls. -/
theorem connectionDown (client : KCPClient) (callback : CallbackRun) (currentMs : UInt32) :
    Keeps client (client.connectionDown callback currentMs).1 := by
  unfold KCPClient.connectionDown
  split
  · have hcalls : Keeps client
        { client with session := client.session.map (callback.calls.foldl KCPSession.call) } :=
      ⟨rfl, rfl, by simp⟩
    simp only
    split
    · exact hcalls.trans (disconnectInCallback _ currentMs)
    · exact hcalls
  · exact refl client

/-- Closing the session keeps the times, and the pointer to it. -/
theorem closeSession {client : KCPClient} {session : KCPSession}
    (h : client.session = some session) (lastFlush : Bool) (callback : CallbackRun)
    (currentMs : UInt32) :
    Keeps client (closeSession lastFlush callback currentMs client session).1 := by
  unfold KCPClient.closeSession
  split
  · exact refl client
  · have hclose : Keeps client
        { client with session := some (session.close lastFlush currentMs) } :=
      ⟨rfl, rfl, by simp [h]⟩
    exact hclose.trans (connectionDown _ callback currentMs)

/-- `Disconnect` outside a callback. -/
theorem disconnect (client : KCPClient) (callback : CallbackRun) (currentMs : UInt32) :
    Keeps client (client.disconnect callback currentMs).1 :=
  disconnectWith (fun _ _ hsession => closeSession hsession true callback currentMs) client

/-- `BuildSession` only writes down a handshake. -/
theorem buildSession (client : KCPClient) (now : Timestamp) :
    Keeps client (client.buildSession now).1 := by
  unfold KCPClient.buildSession
  split
  · exact refl client
  split
  · exact ⟨rfl, rfl, id⟩
  · exact refl client

/-- `ResetSession` closes the session and lets go of it. -/
theorem dropSession (client : KCPClient) (callback : CallbackRun) (currentMs : UInt32) :
    Keeps client (client.dropSession callback currentMs).1 := by
  unfold KCPClient.dropSession
  split
  · exact refl client
  · rename_i session hsession
    have hclose := closeSession hsession false callback currentMs
    exact ⟨hclose.received, hclose.ping, by simp⟩

/-- The reconnect timer has no part in the times. -/
theorem scheduleReconnect (client : KCPClient) : Keeps client client.scheduleReconnect.1 := by
  unfold KCPClient.scheduleReconnect
  split
  · exact refl client
  split
  · exact refl client
  split
  · exact refl client
  · exact ⟨rfl, rfl, id⟩

/-- `ResetSession` keeps the times, which is why the next session finds them. -/
theorem resetSession (client : KCPClient) (callback : CallbackRun) (currentMs : UInt32) :
    Keeps client (client.resetSession callback currentMs).1 := by
  have hdrop := dropSession { client with pendingSession := none } callback currentMs
  have hclosed : Keeps client { ({ client with pendingSession := none }.dropSession callback
      currentMs).1 with state := .closed } :=
    ⟨hdrop.received, hdrop.ping, hdrop.session⟩
  exact hclosed.trans (scheduleReconnect _)

/-- `RunPeriodicTask` never stores them. -/
theorem runPeriodicTask (client : KCPClient) (now : Timestamp) (callback : CallbackRun)
    (currentMs : UInt32) : Keeps client (client.runPeriodicTask now callback currentMs).1 := by
  unfold KCPClient.runPeriodicTask
  split
  · split
    · exact refl client
    split
    · exact resetSession client callback currentMs
    split
    · exact ⟨rfl, rfl, id⟩
    · exact refl client
  · split
    · exact refl client
    split
    · exact resetSession client callback currentMs
    split
    · exact resetSession client callback currentMs
    split
    · exact refl client
    · exact refl client
  · exact refl client

/-- A task of the session keeps them, with whatever its callbacks do. -/
theorem runSession {client : KCPClient} {session : KCPSession}
    (h : client.session = some session) (task : SessionTask) (callback : CallbackRun)
    (currentMs : UInt32) :
    Keeps client (client.runSession session task callback currentMs).1 := by
  have htask : Keeps client { client with session := some (task.run session) } :=
    ⟨rfl, rfl, by simp [h]⟩
  unfold KCPClient.runSession
  simp only
  split
  · exact htask.trans (connectionDown _ callback currentMs)
  · exact htask

/-- Whatever happens but a packet. -/
theorem step (client : KCPClient) {event : ClientEvent} (h : ∀ input, event ≠ .packet input) :
    Keeps client (client.step adler32 event) := by
  cases event with
  | connect address now =>
      unfold KCPClient.step handle
      simp only
      split
      · exact refl client
      · have hbuild := buildSession { client with serverAddress := address, socket := true } now
        exact ⟨hbuild.received, hbuild.ping, hbuild.session⟩
  | disconnect callback currentMs => exact disconnect client callback currentMs
  | packet input => exact absurd rfl (h input)
  | periodicTask now callback currentMs =>
      unfold KCPClient.step handle
      simp only
      split
      · exact runPeriodicTask client now callback currentMs
      · exact refl client
  | reconnect now =>
      unfold KCPClient.step handle
      simp only
      split
      · have hbuild := buildSession { client with reconnectTimer := false } now
        exact ⟨hbuild.received, hbuild.ping, hbuild.session⟩
      · exact refl client
  | session task callback currentMs =>
      unfold KCPClient.step handle
      simp only
      split
      · exact refl client
      · rename_i session hsession
        exact runSession hsession task callback currentMs
  | setReconnectEnabled enabled => exact ⟨rfl, rfl, id⟩

end Keeps

/-- A new session comes up. -/
structure Joins (client client' : KCPClient) (now : Timestamp) : Prop where
  none : client.session = none
  some : client'.session.isSome
  ping : client'.lastPingTime = now

/-- The client has heard of its server. -/
structure Hears (client client' : KCPClient) (now : Timestamp) : Prop where
  some : client.session.isSome
  received : client'.lastReceivedTime = now
  ping : client'.lastPingTime = client.lastPingTime

/-- A `SYN` packet brings a session up where there is none and a handshake waits for it. -/
theorem processSynPacket_cases (client : KCPClient) (header : KCPPublicHeader)
    (packet : KCPReceivedPacket) (input : ClientPacket) :
    Keeps client (client.processSynPacket header packet input).1 ∨
      Joins client (client.processSynPacket header packet input).1 input.now := by
  unfold processSynPacket
  simp only
  split
  · left
    split
    · exact Keeps.refl client
    · exact Keeps.refl client
  · rename_i hnone
    split
    · exact Or.inl (Keeps.refl client)
    cases KCPSession.initializeWith header.sessionId client.serverAddress sessionParams
        client.sessionCallbacks input.callback.calls with
    | none => exact Or.inl (Keeps.refl client)
    | some session => exact Or.inr ⟨hnone, rfl, rfl⟩

/-- A `PONG` packet is heard where there is a session. -/
theorem processPongPacket_cases (client : KCPClient) (header : KCPPublicHeader)
    (packet : KCPReceivedPacket) (input : ClientPacket) :
    (client.session = none ∧ Keeps client (client.processPongPacket header packet input).1) ∨
      Hears client (client.processPongPacket header packet input).1 input.now := by
  unfold processPongPacket
  cases hsession : client.session with
  | none => exact Or.inl ⟨rfl, Keeps.refl client⟩
  | some session => exact Or.inr ⟨by rw [hsession]; rfl, rfl, rfl⟩

/-- A `DATA` packet is heard where there is a session, before the session gets it. -/
theorem processDataPacket_cases (client : KCPClient) (header : KCPPublicHeader)
    (packet : KCPReceivedPacket) (input : ClientPacket) :
    (client.session = none ∧ Keeps client (client.processDataPacket header packet input).1) ∨
      Hears client (client.processDataPacket header packet input).1 input.now := by
  unfold processDataPacket
  cases hsession : client.session with
  | none => exact Or.inl ⟨rfl, Keeps.refl client⟩
  | some session =>
      have hrun := @Keeps.runSession { client with lastReceivedTime := input.now } session hsession
        (.packet packet client.serverAddress input.calls) input.callback input.currentMs
      exact Or.inr ⟨by rw [hsession]; rfl, hrun.received, hrun.ping⟩

/-- A packet lets the client hear of its server, or brings a session up, or does neither. -/
theorem handleRead_cases (client : KCPClient) (input : ClientPacket) :
    (client.hears adler32 input = true ∧
        Hears client (client.handleRead adler32 input).1 input.now) ∨
      (client.hears adler32 input = false ∧
        (Keeps client (client.handleRead adler32 input).1 ∨
          Joins client (client.handleRead adler32 input).1 input.now)) := by
  by_cases hopen : client.socket = true ∧ input.data.length ≤ kMaxPacketSize
  swap
  · right
    have hdeaf : client.hears adler32 input = false := by
      rw [← Bool.not_eq_true]
      intro h
      simp only [hears, Bool.and_eq_true, decide_eq_true_eq] at h
      exact hopen ⟨h.1.1.1, h.1.2⟩
    have hsame : (client.handleRead adler32 input).1 = client := by
      unfold handleRead
      split
      · rfl
      split
      · rfl
      · rename_i hsocket hlen
        exact absurd ⟨by simpa using hsocket, not_lt.mp hlen⟩ hopen
    rw [hsame]
    exact ⟨hdeaf, Or.inl (Keeps.refl client)⟩
  obtain ⟨hsocket, hlen⟩ := hopen
  have hread : client.handleRead adler32 input = client.processPacket adler32 input := by
    simp [handleRead, hsocket, not_lt.mpr hlen]
  rw [hread]
  cases hkind : datagramKind adler32 input.data with
  | none =>
      rw [processPacket_of_none client hlen hkind]
      exact Or.inr ⟨by simp [hears, hkind], Or.inl (Keeps.refl client)⟩
  | some kind =>
      obtain ⟨type, sessionId⟩ := kind
      obtain ⟨header, packet, -, -, -, hdispatch⟩ := processPacket_of_kind client hlen hkind
      rw [hdispatch]
      cases type with
      | syn =>
          exact Or.inr ⟨by simp [hears, hkind], processSynPacket_cases client header packet input⟩
      | rst =>
          have hreset := Keeps.resetSession client input.callback input.currentMs
          exact Or.inr ⟨by simp [hears, hkind], Or.inl hreset⟩
      | pong =>
          rcases processPongPacket_cases client header packet input with ⟨hnone, h⟩ | h
          · exact Or.inr ⟨by simp [hears, hnone], Or.inl h⟩
          · exact Or.inl ⟨by simp [hears, hkind, hsocket, hlen, h.some], h⟩
      | data =>
          rcases processDataPacket_cases client header packet input with ⟨hnone, h⟩ | h
          · exact Or.inr ⟨by simp [hears, hnone], Or.inl h⟩
          · exact Or.inl ⟨by simp [hears, hkind, hsocket, hlen, h.some], h⟩
      | ack => exact Or.inr ⟨by simp [hears, hkind], Or.inl (Keeps.refl client)⟩
      | ping => exact Or.inr ⟨by simp [hears, hkind], Or.inl (Keeps.refl client)⟩

end KCPClient

/-- A client with the times of its session: when it came up, and when a `PONG` or `DATA` packet was
last processed for it. -/
structure WatchedClient where
  client : KCPClient
  established : Timestamp := 0
  heard : Option Timestamp := none

namespace WatchedClient

variable {adler32 : UInt32 → List UInt8 → UInt32}

/-- The client handles an event, and the times are taken down. -/
def step (adler32 : UInt32 → List UInt8 → UInt32) (watched : WatchedClient) (event : ClientEvent) :
    WatchedClient :=
  let client := watched.client.step adler32 event
  match event with
  | .packet input =>
    if watched.client.session = none then
      if client.session.isSome then { client, established := input.now, heard := none }
      else { watched with client }
    else if watched.client.hears adler32 input then { watched with client, heard := some input.now }
    else { watched with client }
  | _ => { watched with client }

/-- An event keeps the times of the session, or the session hears of its server, or a new session
comes up. -/
theorem step_cases (watched : WatchedClient) (event : ClientEvent) :
    (KCPClient.Keeps watched.client (watched.client.step adler32 event) ∧
        watched.step adler32 event =
          { watched with client := watched.client.step adler32 event }) ∨
      ∃ now ∈ event.clock,
        (KCPClient.Hears watched.client (watched.client.step adler32 event) now ∧
            watched.step adler32 event =
              { watched with client := watched.client.step adler32 event, heard := some now }) ∨
          KCPClient.Joins watched.client (watched.client.step adler32 event) now ∧
            watched.step adler32 event = ⟨watched.client.step adler32 event, now, none⟩ := by
  by_cases hpacket : ∃ input, event = .packet input
  swap
  · refine Or.inl ⟨KCPClient.Keeps.step watched.client
      (fun input hinput => hpacket ⟨input, hinput⟩), ?_⟩
    cases event with
    | packet input => exact absurd ⟨input, rfl⟩ hpacket
    | _ => rfl
  obtain ⟨input, rfl⟩ := hpacket
  unfold WatchedClient.step
  simp only
  rcases @KCPClient.handleRead_cases adler32 watched.client input with
    ⟨hhears, hheard⟩ | ⟨hdeaf, hkeeps | hjoins⟩
  · rw [if_neg (Option.isSome_iff_ne_none.mp hheard.some), if_pos hhears]
    exact Or.inr ⟨input.now, rfl, Or.inl ⟨hheard, rfl⟩⟩
  · refine Or.inl ⟨hkeeps, ?_⟩
    rw [hdeaf]
    split
    · rename_i hnone
      split
      · rename_i hsome
        have hbefore := hkeeps.session hsome
        rw [hnone] at hbefore
        cases hbefore
      · rfl
    · rfl
  · have hsome : (watched.client.step adler32 (.packet input)).session.isSome := hjoins.some
    rw [if_pos hjoins.none, if_pos hsome]
    exact Or.inr ⟨input.now, rfl, Or.inr ⟨hjoins, rfl⟩⟩

/-- The times of the session are among those that the client keeps. -/
structure Faithful (watched : WatchedClient) : Prop where
  established : watched.client.session.isSome → watched.client.lastPingTime = watched.established
  heard : watched.client.session.isSome → ∀ time ∈ watched.heard,
    watched.client.lastReceivedTime = time

/-- Where the times are kept they stay those of the session. -/
theorem Faithful.keeps {watched : WatchedClient} (h : watched.Faithful) {client : KCPClient}
    (hkeeps : KCPClient.Keeps watched.client client) :
    { watched with client }.Faithful where
  established := fun hsome => hkeeps.ping.trans (h.established (hkeeps.session hsome))
  heard := fun hsome time htime => hkeeps.received.trans (h.heard (hkeeps.session hsome) time htime)

/-- Every event keeps the times of the session among those of the client. -/
theorem Faithful.step {watched : WatchedClient} (h : watched.Faithful) (event : ClientEvent) :
    (watched.step adler32 event).Faithful := by
  rcases @step_cases adler32 watched event with
    ⟨hkeeps, heq⟩ | ⟨now, _, ⟨hheard, heq⟩ | ⟨hjoins, heq⟩⟩
  · rw [heq]
    exact h.keeps hkeeps
  · rw [heq]
    exact ⟨fun _ => hheard.ping.trans (h.established hheard.some),
      fun _ time htime => hheard.received.trans (Option.some.inj htime)⟩
  · rw [heq]
    exact ⟨fun _ => hjoins.ping, fun _ _ htime => by cases htime⟩

/-- A new client that has handled some events. -/
def run (adler32 : UInt32 → List UInt8 → UInt32) (callbacks : SessionCallbacks)
    (events : List ClientEvent) : WatchedClient :=
  events.foldl (step adler32) { client := { callbacks } }

/-- Watching a client does not change what it does. -/
theorem step_client (watched : WatchedClient) (event : ClientEvent) :
    (watched.step adler32 event).client = watched.client.step adler32 event := by
  rcases @step_cases adler32 watched event with
    ⟨_, heq⟩ | ⟨now, _, ⟨_, heq⟩ | ⟨_, heq⟩⟩
  all_goals rw [heq]

/-- Nor does watching a whole run. -/
theorem run_client (callbacks : SessionCallbacks) (events : List ClientEvent) :
    (run adler32 callbacks events).client =
      List.foldl (KCPClient.step adler32) { callbacks } events := by
  have hfold : ∀ watched : WatchedClient, (events.foldl (step adler32) watched).client =
      List.foldl (KCPClient.step adler32) watched.client events := by
    induction events with
    | nil => exact fun _ => rfl
    | cons event events ih =>
        intro watched
        rw [List.foldl_cons, List.foldl_cons, ih, step_client]
  exact hfold _

/-- The times that the client keeps are those of its session, after any events. -/
theorem faithful_run (callbacks : SessionCallbacks) (events : List ClientEvent) :
    (run adler32 callbacks events).Faithful := by
  apply List.foldlRecOn
  · constructor
    · intro h
      cases h
    · intro h
      cases h
  · intro watched h event _
    exact h.step event

/-- A session came up at one of the readings so far, and nothing has been heard in it before. -/
structure Timed (watched : WatchedClient) (readings : List Timestamp) : Prop where
  established : watched.client.session.isSome → watched.established ∈ readings
  heard : ∀ time ∈ watched.heard, watched.established ≤ time

/-- An event that comes no earlier than those before it. -/
theorem Timed.step {watched : WatchedClient} {readings : List Timestamp}
    (h : watched.Timed readings) {event : ClientEvent}
    (hlater : ∀ now ∈ event.clock, ∀ reading ∈ readings, reading ≤ now) :
    (watched.step adler32 event).Timed (readings ++ event.clock.toList) := by
  rcases @step_cases adler32 watched event with
    ⟨hkeeps, heq⟩ | ⟨now, hnow, ⟨hheard, heq⟩ | ⟨hjoins, heq⟩⟩
  · rw [heq]
    exact ⟨fun hsome => List.mem_append_left _ (h.established (hkeeps.session hsome)), h.heard⟩
  · rw [heq]
    have hbefore := h.established hheard.some
    refine ⟨fun _ => List.mem_append_left _ hbefore, fun time htime => ?_⟩
    rw [← Option.some.inj htime]
    exact hlater now hnow _ hbefore
  · rw [heq]
    exact ⟨fun _ => List.mem_append_right _ (Option.mem_toList.mpr hnow),
      fun _ htime => by cases htime⟩

/-- While the clock does not run backwards. -/
theorem timed_run (callbacks : SessionCallbacks) {events : List ClientEvent}
    (hclock : (events.filterMap ClientEvent.clock).Pairwise (· ≤ ·)) :
    (run adler32 callbacks events).Timed (events.filterMap ClientEvent.clock) := by
  induction events using List.reverseRecOn with
  | nil =>
      constructor
      · intro hsome
        cases hsome
      · intro time htime
        cases htime
  | append_singleton events event ih =>
      have hreadings : (events ++ [event]).filterMap ClientEvent.clock =
          events.filterMap ClientEvent.clock ++ event.clock.toList := by
        rw [List.filterMap_append]
        cases hevent : event.clock with
        | none => simp [hevent]
        | some now => simp [hevent]
      rw [hreadings, List.pairwise_append] at hclock
      obtain ⟨hbefore, -, hlater⟩ := hclock
      rw [run, List.foldl_append, hreadings]
      exact (ih hbefore).step fun now hnow reading hreading =>
        hlater reading hreading now (Option.mem_toList.mpr hnow)

/-- The timer does not find a session that has heard nothing while the time of the last packet,
stored for an earlier session, is long ago. -/
def NoLeftover (watched : WatchedClient) : ClientEvent → Prop
  | .periodicTask now _ _ => watched.client.periodicTaskTimer = true →
    watched.client.state = .connected → watched.client.session.isSome → watched.heard = none →
      ¬ (watched.client.lastReceivedTime > 0 ∧
        now - watched.client.lastReceivedTime ≥ kClientSessionIdleSeconds)
  | _ => True

end WatchedClient

/-- Each time that `RunPeriodicTask` resets a session for the silence of its server, the session has
been up and its server silent for long enough. -/
def ResetsAfterSilence (adler32 : UInt32 → List UInt8 → UInt32) (callbacks : SessionCallbacks)
    (events : List ClientEvent) : Prop :=
  ∀ before now callback currentMs after,
    events = before ++ .periodicTask now callback currentMs :: after →
      let watched := WatchedClient.run adler32 callbacks before
      watched.client.periodicTaskTimer = true → watched.client.TimesOut now →
        now - watched.established ≥ kClientSessionIdleSeconds ∧
          ∀ time ∈ watched.heard, now - time ≥ kClientSessionIdleSeconds

/-- While the clock does not run backwards, sessions are reset for silence only after silence, as
long as the timer never goes by the time of an earlier session. The client that is watched is the
client itself, and the reset for silence is the one that an open session of a connected client
meets. -/
theorem resetsAfterSilence_of_noLeftover (adler32 : UInt32 → List UInt8 → UInt32)
    (callbacks : SessionCallbacks) (events : List ClientEvent)
    (hclock : (events.filterMap ClientEvent.clock).Pairwise (· ≤ ·))
    (h : Along (WatchedClient.step adler32) WatchedClient.NoLeftover { client := { callbacks } }
      events) :
    ResetsAfterSilence adler32 callbacks events ∧
      (WatchedClient.run adler32 callbacks events).client =
        List.foldl (KCPClient.step adler32) { callbacks } events ∧
      ∀ (client : KCPClient) session now callback currentMs, client.state = .connected →
        client.session = some session →
          (client.TimesOut now → client.runPeriodicTask now callback currentMs =
            client.resetSession callback currentMs) ∧
          (session.closed = false →
            (client.TimesOut now ↔
              (client.runPeriodicTask now callback currentMs).1.session = none)) := by
  refine ⟨?_, WatchedClient.run_client callbacks events,
    fun client session now callback currentMs hstate hsession =>
      KCPClient.runPeriodicTask_timesOut_iff hstate hsession now callback currentMs⟩
  intro before now callback currentMs after hevents
  simp only
  rw [hevents, List.filterMap_append, List.pairwise_append] at hclock
  rw [hevents, Along.append_iff] at h
  obtain ⟨-, hfresh, -⟩ := h
  have hfaithful := @WatchedClient.faithful_run adler32 callbacks before
  have htimed := @WatchedClient.timed_run adler32 callbacks before hclock.1
  rw [← WatchedClient.run] at hfresh
  generalize WatchedClient.run adler32 callbacks before = watched at hfaithful htimed hfresh ⊢
  rintro htimer ⟨hstate, hsome, hlong⟩
  cases hheard : watched.heard with
  | none => exact absurd hlong (hfresh htimer hstate hsome hheard)
  | some time =>
      have hreceived := hfaithful.heard hsome time hheard
      have hestablished := htimed.heard time hheard
      rw [hreceived] at hlong
      refine ⟨?_, fun time' htime => ?_⟩
      · exact le_trans hlong.2 (Int.sub_le_sub_left hestablished now)
      · rw [← Option.some.inj htime]
        exact hlong.2

/-- A client whose server falls silent. -/
def silenceRun : List ClientEvent :=
  [.setReconnectEnabled true, .connect ⟨"10.0.0.9:7000"⟩ 1000000,
    .packet { data := datagram .syn 7 [], now := 2000000 },
    .packet { data := datagram .pong 7 [], now := 3000000 }, .periodicTask 124000000 {} 0]

/-- The session is reset 121 seconds after it has last heard of its server. -/
theorem resetsAfterSilence_silenceRun :
    ResetsAfterSilence Zlib.adler32 {} silenceRun ∧
      ((WatchedClient.run Zlib.adler32 {} silenceRun.dropLast).client.session.isSome,
        (WatchedClient.run Zlib.adler32 {} silenceRun).client.session.isSome) = (true, false) := by
  refine ⟨(resetsAfterSilence_of_noLeftover Zlib.adler32 {} silenceRun (by decide) ?_).1,
    by decide +kernel⟩
  have hheard : (WatchedClient.run Zlib.adler32 {} silenceRun.dropLast).heard = some 3000000 := by
    decide +kernel
  refine ⟨trivial, trivial, trivial, trivial, fun _ _ _ hnone => ?_, trivial⟩
  exact absurd (hheard.symm.trans hnone) (by decide)

/-- A client whose server falls silent, and which has joined a second session since. -/
def relapseRun : List ClientEvent :=
  [.setReconnectEnabled true, .connect ⟨"10.0.0.9:7000"⟩ 1000000,
    .packet { data := datagram .syn 7 [], now := 2000000 },
    .packet { data := datagram .pong 7 [], now := 3000000 },
    .periodicTask 124000000 {} 0, .reconnect 125000000,
    .packet { data := datagram .syn 8 [], now := 126000000 }]

/-- The second session is reset a second after it came up. -/
theorem not_resetsAfterSilence_relapseRun :
    ¬ ResetsAfterSilence Zlib.adler32 {} (relapseRun ++ [.periodicTask 127000000 {} 0]) := by
  intro h
  have hwatched : ((WatchedClient.run Zlib.adler32 {} relapseRun).client.periodicTaskTimer,
      (WatchedClient.run Zlib.adler32 {} relapseRun).client.state,
      (WatchedClient.run Zlib.adler32 {} relapseRun).client.session.isSome,
      (WatchedClient.run Zlib.adler32 {} relapseRun).client.lastReceivedTime,
      (WatchedClient.run Zlib.adler32 {} relapseRun).established) =
        (true, .connected, true, 3000000, 126000000) := by
    decide +kernel
  simp only [Prod.mk.injEq] at hwatched
  obtain ⟨htimer, hstate, hsome, hreceived, hestablished⟩ := hwatched
  have hsilent := (h relapseRun 127000000 {} 0 [] rfl htimer
    ⟨hstate, hsome, by rw [hreceived]; decide, by rw [hreceived]; decide⟩).1
  rw [hestablished] at hsilent
  revert hsilent
  decide

end CodeBlocks.Kcp
