import CodeBlocks.Kcp.Network.State

/-!
# The client's end

Which session a client is in after an event, and which ids it acknowledges. Nothing but
a SYN packet brings it into a session, and it acknowledges no id but that of its session.
-/

namespace CodeBlocks.Kcp

namespace KCPClient

/-- The id of the session. -/
def currentId (client : KCPClient) : Option UInt32 := client.session.map KCPSession.sessionId

/-- A client that is in a session is connected, and its socket is open. -/
def Open (client : KCPClient) : Prop :=
  client.session.isSome → client.state = .connected ∧ client.socket = true

/-- No session comes up, no socket is opened, and no id is acknowledged. -/
structure Retains (client : KCPClient) (result : KCPClient × List ClientEffect) : Prop where
  isOpen : .nullDereference ∉ result.2 → client.Open → result.1.Open
  current : result.1.currentId = none ∨ result.1.currentId = client.currentId
  socket : result.1.socket = true → client.socket = true
  sends : ∀ packetType sessionId, .send packetType sessionId ∈ result.2 →
    packetType ≠ .ack ∧ packetType ≠ .data

/-- Assertions send nothing. -/
theorem asserts_sends (function : ClientFunction) (conditions : List Bool)
    {packetType : KCPReceivedPacketType} {sessionId : UInt32} :
    .send packetType sessionId ∉ ClientEffect.asserts function conditions := by
  unfold ClientEffect.asserts
  split <;> simp

/-- `SendPacket` sends the packet it was asked to, or none. -/
theorem sendPacket_sends {client : KCPClient} {packetType packetType' : KCPReceivedPacketType}
    {sessionId sessionId' : UInt32}
    (h : .send packetType' sessionId' ∈ client.sendPacket packetType sessionId) :
    packetType' = packetType ∧ sessionId' = sessionId := by
  unfold sendPacket at h
  split at h
  · simpa using h
  · simp at h

namespace Retains

/-- Nothing has happened. -/
theorem refl (client : KCPClient) : Retains client (client, []) :=
  ⟨fun _ => id, Or.inr rfl, id, by simp⟩

/-- What comes before and behind. -/
theorem trans {client client' : KCPClient} {effects : List ClientEffect}
    {result : KCPClient × List ClientEffect} (h : Retains client (client', effects))
    (h' : Retains client' result) : Retains client (result.1, effects ++ result.2) where
  isOpen hnull hopen := h'.isOpen (fun hmem => hnull (List.mem_append_right _ hmem))
    (h.isOpen (fun hmem => hnull (List.mem_append_left _ hmem)) hopen)
  current := by
    rcases h'.current with hnone | hsame
    · exact Or.inl hnone
    · rw [hsame]
      exact h.current
  socket hsocket := h.socket (h'.socket hsocket)
  sends packetType sessionId hmem := by
    rcases List.mem_append.mp hmem with hmem | hmem
    · exact h.sends _ _ hmem
    · exact h'.sends _ _ hmem

/-- Other fields, and effects that acknowledge nothing. -/
theorem frame {client client' : KCPClient} {effects : List ClientEffect}
    (hsession : client'.session = client.session) (hstate : client.session.isSome →
      client'.state = client.state) (hsocket : client'.socket = client.socket)
    (hsends : ∀ packetType sessionId, .send packetType sessionId ∈ effects →
      packetType ≠ .ack ∧ packetType ≠ .data) : Retains client (client', effects) where
  isOpen _ hopen hsome := by
    rw [hsession] at hsome
    rw [hstate hsome, hsocket]
    exact hopen hsome
  current := Or.inr (congrArg (Option.map KCPSession.sessionId) hsession)
  socket h := hsocket ▸ h
  sends := hsends

/-- A session that goes. -/
theorem gone {client client' : KCPClient} {effects : List ClientEffect}
    (hsession : client'.session = none) (hsocket : client'.socket = true → client.socket = true)
    (hsends : ∀ packetType sessionId, .send packetType sessionId ∈ effects →
      packetType ≠ .ack ∧ packetType ≠ .data) : Retains client (client', effects) where
  isOpen _ _ hsome := by
    rw [hsession] at hsome
    cases hsome
  current := Or.inl (by rw [currentId, hsession]; rfl)
  socket := hsocket
  sends := hsends

/-- A failed assertion acknowledges nothing. -/
theorem sends_asserts (function : ClientFunction) (conditions : List Bool)
    (packetType : KCPReceivedPacketType) (sessionId : UInt32)
    (h : .send packetType sessionId ∈ ClientEffect.asserts function conditions) :
    packetType ≠ .ack ∧ packetType ≠ .data := absurd h (asserts_sends _ _)

/-- `Disconnect` retains when the way it closes the session does. -/
theorem disconnectWith {close : KCPClient → KCPSession → KCPClient × List ClientEffect}
    (hclose : ∀ c s, c.session = some s → Retains c (close c s)) (client : KCPClient) :
    Retains client (client.disconnectWith close) := by
  unfold KCPClient.disconnectWith
  split
  · rename_i hstate
    refine ⟨fun _ hopen hsome => ?_, Or.inr rfl, nofun, sends_asserts _ _⟩
    have hconnected := (hopen hsome).1
    rw [hstate] at hconnected
    cases hconnected
  · split
    · rename_i hsession
      refine gone hsession nofun fun packetType sessionId hmem => ?_
      rcases List.mem_append.mp hmem with hmem | hmem
      · exact sends_asserts _ _ _ _ hmem
      · simp at hmem
    · rename_i session hsession
      have hclosed := hclose client session hsession
      simp only
      split
      · rename_i hnone
        refine gone hnone nofun fun packetType sessionId hmem => ?_
        simp only [List.mem_append, List.mem_singleton, reduceCtorEq, or_false] at hmem
        rcases hmem with hmem | hmem
        · exact sends_asserts _ _ _ _ hmem
        · exact hclosed.sends _ _ hmem
      · refine gone rfl nofun fun packetType sessionId hmem => ?_
        simp only [List.mem_append] at hmem
        rcases hmem with (hmem | hmem) | hmem
        · exact sends_asserts _ _ _ _ hmem
        · exact hclosed.sends _ _ hmem
        · obtain ⟨rfl, -⟩ := sendPacket_sends hmem
          simp
  · rename_i hstate
    refine ⟨fun _ hopen hsome => ?_, Or.inr rfl, nofun, by simp⟩
    have hconnected := (hopen hsome).1
    rw [hstate] at hconnected
    cases hconnected

/-- Another state of the same session. -/
theorem setSession {client : KCPClient} {session session' : KCPSession}
    (h : client.session = some session) (hid : session'.sessionId = session.sessionId) :
    Retains client ({ client with session := some session' }, []) where
  isOpen _ hopen _ := hopen (by rw [h]; rfl)
  current := Or.inr (by rw [currentId, currentId, h, Option.map_some, Option.map_some, hid])
  socket := id
  sends := by simp

/-- So does a `Disconnect` in a callback. -/
theorem disconnectInCallback (client : KCPClient) (currentMs : UInt32) :
    Retains client (client.disconnectInCallback currentMs) :=
  disconnectWith (fun _ session hsession =>
    setSession hsession (SamePeer.close session true currentMs).sessionId) client

/-- The connection callback of a session that goes down brings no other session up. -/
theorem connectionDown (client : KCPClient) (callback : CallbackRun) (currentMs : UInt32) :
    Retains client (client.connectionDown callback currentMs) := by
  unfold KCPClient.connectionDown
  split
  · have hcalls : Retains client ({ client with
        session := client.session.map (callback.calls.foldl KCPSession.call) }, []) := by
      cases hsession : client.session with
      | none => exact gone rfl id (by simp)
      | some session => exact setSession hsession (SamePeer.calls session callback.calls).sessionId
    simp only
    split
    · exact hcalls.trans (disconnectInCallback _ currentMs)
    · exact hcalls
  · exact refl client

/-- Closing the session acknowledges nothing. -/
theorem closeSession {client : KCPClient} {session : KCPSession}
    (h : client.session = some session) (lastFlush : Bool) (callback : CallbackRun)
    (currentMs : UInt32) :
    Retains client (closeSession lastFlush callback currentMs client session) := by
  unfold KCPClient.closeSession
  split
  · exact refl client
  · exact (setSession h (SamePeer.close session lastFlush currentMs).sessionId).trans
      (connectionDown _ callback currentMs)

/-- `Disconnect` outside a callback. -/
theorem disconnect (client : KCPClient) (callback : CallbackRun) (currentMs : UInt32) :
    Retains client (client.disconnect callback currentMs) :=
  disconnectWith (fun _ _ hsession => closeSession hsession true callback currentMs) client

/-- `BuildSession` sends a `SYN` and waits. -/
theorem buildSession (client : KCPClient) (now : Timestamp) :
    Retains client (client.buildSession now) := by
  unfold KCPClient.buildSession
  split
  · exact frame rfl (fun _ => rfl) rfl (by simp)
  split
  · rename_i hstate
    refine ⟨fun _ hopen hsome => ?_, Or.inr rfl, id, fun packetType sessionId hmem => ?_⟩
    · have hconnected := (hopen hsome).1
      rw [hstate] at hconnected
      cases hconnected
    · obtain ⟨rfl, -⟩ := sendPacket_sends hmem
      simp
  · exact refl client

/-- The end of `ResetSession`, where the session is gone. -/
theorem scheduleReconnect {client : KCPClient} (h : client.session = none) :
    Retains client { client with state := .closed }.scheduleReconnect := by
  unfold KCPClient.scheduleReconnect
  split
  · exact gone h id (by simp)
  split
  · exact gone h id (by simp)
  split
  · exact gone h id (by simp)
  · exact gone h id (by simp)

/-- `ResetSession` lets the session go. -/
theorem resetSession (client : KCPClient) (callback : CallbackRun) (currentMs : UInt32) :
    Retains client (client.resetSession callback currentMs) := by
  have hdrop : Retains client ({ client with pendingSession := none }.dropSession callback
      currentMs) ∧ ({ client with pendingSession := none }.dropSession callback
        currentMs).1.session = none := by
    unfold KCPClient.dropSession
    split
    · rename_i hsession
      exact ⟨frame rfl (fun _ => rfl) rfl (by simp), hsession⟩
    · rename_i session hsession
      have hclose := @closeSession { client with pendingSession := none } session hsession false
        callback currentMs
      exact ⟨gone rfl hclose.socket hclose.sends, rfl⟩
  obtain ⟨hdrop, hnone⟩ := hdrop
  unfold KCPClient.resetSession
  simp only
  exact hdrop.trans (scheduleReconnect hnone)

/-- `RunPeriodicTask` resets the session, pings, or asks again. -/
theorem runPeriodicTask (client : KCPClient) (now : Timestamp) (callback : CallbackRun)
    (currentMs : UInt32) : Retains client (client.runPeriodicTask now callback currentMs) := by
  have hquiet (packetType' : KCPReceivedPacketType) (sessionId' : UInt32)
      (hquiet : packetType' ≠ .ack ∧ packetType' ≠ .data) :
      ∀ packetType sessionId,
        .send packetType sessionId ∈ client.sendPacket packetType' sessionId' →
        packetType ≠ .ack ∧ packetType ≠ .data := by
    intro packetType sessionId hmem
    rw [(sendPacket_sends hmem).1]
    exact hquiet
  unfold KCPClient.runPeriodicTask
  split
  · split
    · exact frame rfl (fun _ => rfl) rfl (by simp)
    split
    · exact resetSession client callback currentMs
    split
    · exact frame rfl (fun _ => rfl) rfl (hquiet .syn _ (by simp))
    · exact refl client
  · split
    · exact frame rfl (fun _ => rfl) rfl (by simp)
    split
    · exact resetSession client callback currentMs
    split
    · exact resetSession client callback currentMs
    split
    · exact frame rfl (fun _ => rfl) rfl (hquiet .ping _ (by simp))
    · exact refl client
  · exact refl client

/-- A task of the session keeps its id. -/
theorem runSession {client : KCPClient} {session : KCPSession}
    (h : client.session = some session) (task : SessionTask) (callback : CallbackRun)
    (currentMs : UInt32) :
    Retains client (client.runSession session task callback currentMs) := by
  have htask := setSession h (SessionTask.run_peer session task).1
  unfold KCPClient.runSession
  simp only
  split
  · exact htask.trans (connectionDown _ callback currentMs)
  · exact htask

end Retains

/-- What an event does: the client stays in its session or leaves it, or it joins the one that it is
offered. It acknowledges the session that it is in. -/
structure Answers (adler32 : UInt32 → List UInt8 → UInt32) (client : KCPClient)
    (event : ClientEvent) (result : KCPClient × List ClientEffect) : Prop where
  isOpen : .nullDereference ∉ result.2 → client.Open → result.1.Open
  current : result.1.currentId = none ∨ result.1.currentId = client.currentId ∨
    ∃ input sessionId, event = .packet input ∧ client.socket = true ∧
      datagramKind adler32 input.data = some (.syn, sessionId) ∧
      result.1.currentId = some sessionId
  socket : result.1.socket = true →
    client.socket = true ∨ ∃ address now, event = .connect address now
  sends : ∀ packetType sessionId, .send packetType sessionId ∈ result.2 →
    packetType = .ack ∨ packetType = .data →
    client.currentId = some sessionId ∨ result.1.currentId = some sessionId

variable {adler32 : UInt32 → List UInt8 → UInt32}

/-- What brings no session up is an answer to any event. -/
theorem Retains.answers {client : KCPClient} {event : ClientEvent}
    {result : KCPClient × List ClientEffect} (h : Retains client result) :
    Answers adler32 client event result where
  isOpen := h.isOpen
  current := h.current.imp_right Or.inl
  socket hsocket := Or.inl (h.socket hsocket)
  sends packetType sessionId hmem hack := by
    obtain ⟨hne, hne'⟩ := h.sends packetType sessionId hmem
    exact absurd hack (not_or.mpr ⟨hne, hne'⟩)

/-- A session that comes up has the id of the packet, which is acknowledged. -/
theorem sessionUp_answers {client : KCPClient} {input : ClientPacket} {session : KCPSession}
    (hopen : client.socket = true)
    (hkind : datagramKind adler32 input.data = some (.syn, session.sessionId)) :
    Answers adler32 client (.packet input) (client.sessionUp session input) := by
  have hup : Retains client (client.connectionUp input.callback input.currentMs) := by
    unfold connectionUp
    split
    · exact Retains.disconnectInCallback client input.currentMs
    · exact Retains.refl client
  unfold sessionUp
  generalize client.connectionUp input.callback input.currentMs = up at hup ⊢
  obtain ⟨client', effects⟩ := up
  refine ⟨fun hnull _ _ => ⟨rfl, ?_⟩, Or.inr (Or.inr ⟨input, _, rfl, hopen, hkind, rfl⟩),
    fun _ => Or.inl hopen, fun packetType sessionId hmem hack => ?_⟩
  · by_contra hclosed
    change ¬ client'.socket = true at hclosed
    simp [sendPacket, hclosed] at hnull
  · rcases List.mem_append.mp hmem with hmem | hmem
    · obtain ⟨hne, hne'⟩ := hup.sends packetType sessionId hmem
      exact absurd hack (not_or.mpr ⟨hne, hne'⟩)
    · obtain ⟨-, rfl⟩ := sendPacket_sends hmem
      exact Or.inr rfl

/-- Assertions in front of an answer. -/
theorem Answers.asserts {client : KCPClient} {event : ClientEvent}
    {result : KCPClient × List ClientEffect} (h : Answers adler32 client event result)
    (function : ClientFunction) (conditions : List Bool) :
    Answers adler32 client event
      (result.1, ClientEffect.asserts function conditions ++ result.2) where
  isOpen hnull := h.isOpen fun hmem => hnull (List.mem_append_right _ hmem)
  current := h.current
  socket := h.socket
  sends packetType sessionId hmem hack := by
    rcases List.mem_append.mp hmem with hmem | hmem
    · exact absurd hmem (asserts_sends _ _)
    · exact h.sends packetType sessionId hmem hack

/-- A reply that changes nothing. -/
theorem sendPacket_answers {client : KCPClient} {event : ClientEvent}
    {packetType : KCPReceivedPacketType} {sessionId : UInt32}
    (h : packetType = .ack ∨ packetType = .data → client.currentId = some sessionId) :
    Answers adler32 client event (client, client.sendPacket packetType sessionId) where
  isOpen _ := id
  current := Or.inr (Or.inl rfl)
  socket := Or.inl
  sends _ _ hmem hack := by
    obtain ⟨rfl, rfl⟩ := sendPacket_sends hmem
    exact Or.inl (h hack)

/-- A `SYN` packet brings a session up, or its id is refused. -/
theorem processSynPacket_answers {client : KCPClient} {input : ClientPacket}
    {header : KCPPublicHeader} (hopen : client.socket = true)
    (hkind : datagramKind adler32 input.data = some (.syn, header.sessionId))
    (packet : KCPReceivedPacket) :
    Answers adler32 client (.packet input) (client.processSynPacket header packet input) := by
  unfold processSynPacket
  cases hsession : client.session with
  | some session =>
      simp only
      split
      · exact (sendPacket_answers (by simp)).asserts _ _
      · rename_i hid
        refine (sendPacket_answers fun _ => ?_).asserts _ _
        rw [currentId, hsession, Option.map_some, not_not.mp hid]
  | none =>
      simp only
      split
      · exact (sendPacket_answers (by simp)).asserts _ _
      cases hinit : KCPSession.initializeWith header.sessionId client.serverAddress sessionParams
          client.sessionCallbacks input.callback.calls with
      | none =>
          have hrefl : Answers adler32 client (.packet input) (client, []) :=
            (Retains.refl client).answers
          exact List.append_nil (ClientEffect.asserts _ _) ▸ hrefl.asserts _ _
      | some session =>
          rw [← (SamePeer.initializeWith hinit).1] at hkind
          exact (sessionUp_answers hopen hkind).asserts _ _

/-- A datagram is answered by what its type allows. -/
theorem handleRead_answers (client : KCPClient) (input : ClientPacket) :
    Answers adler32 client (.packet input) (client.handleRead adler32 input) := by
  unfold handleRead
  split
  · exact (Retains.refl client).answers
  rename_i hsocket
  split
  · exact (Retains.refl client).answers
  rename_i hlen
  cases hkind : datagramKind adler32 input.data with
  | none =>
      rw [processPacket_of_none client (by omega) hkind]
      exact (Retains.refl client).answers
  | some kind =>
      obtain ⟨type, sessionId⟩ := kind
      obtain ⟨header, packet, -, -, rfl, heq⟩ := processPacket_of_kind client (by omega) hkind
      rw [heq]
      cases type with
      | syn => exact processSynPacket_answers (by simpa using hsocket) hkind packet
      | rst =>
          have hreset := Retains.resetSession client input.callback input.currentMs
          exact hreset.answers.asserts _ _
      | pong =>
          unfold dispatch processPongPacket
          simp only
          split
          · exact (sendPacket_answers (by simp)).asserts _ _
          · have hreceived : Retains client ({ client with lastReceivedTime := input.now }, []) :=
              Retains.frame rfl (fun _ => rfl) rfl (by simp)
            exact List.append_nil (ClientEffect.asserts _ _) ▸ hreceived.answers.asserts _ _
      | data =>
          unfold dispatch processDataPacket
          simp only
          split
          · exact (sendPacket_answers (by simp)).asserts _ _
          · rename_i session hsession
            have hreceived : Retains client ({ client with lastReceivedTime := input.now }, []) :=
              Retains.frame rfl (fun _ => rfl) rfl (by simp)
            have hrun := @Retains.runSession { client with lastReceivedTime := input.now } session
              hsession (.packet packet client.serverAddress input.calls) input.callback
              input.currentMs
            exact (hreceived.trans hrun).answers.asserts _ _
      | ack => exact (Retains.refl client).answers
      | ping => exact (Retains.refl client).answers

/-- What a client does at an event is an answer to it. -/
theorem handle_answers (client : KCPClient) (event : ClientEvent) :
    Answers adler32 client event (client.handle adler32 event) := by
  unfold handle
  cases event with
  | connect address now =>
      simp only
      split
      · exact (Retains.refl client).answers
      · rename_i hclosed
        have hbuild := Retains.buildSession
          { client with serverAddress := address, socket := true } now
        refine ⟨fun _ hopen hsome => ?_, hbuild.current.imp_right Or.inl,
          fun _ => Or.inr ⟨address, now, rfl⟩, fun packetType sessionId hmem hack => ?_⟩
        · have hnone : client.currentId = none := by
            cases hsession : client.session with
            | none => rw [currentId, hsession]; rfl
            | some session => exact absurd (hopen (by rw [hsession]; rfl)).2 hclosed
          have hafter : (client.connect address now).1.currentId = none :=
            hbuild.current.elim id fun hsame => hsame.trans hnone
          rw [currentId, Option.map_eq_none_iff] at hafter
          rw [hafter] at hsome
          cases hsome
        · obtain ⟨hne, hne'⟩ := hbuild.sends packetType sessionId hmem
          exact absurd hack (not_or.mpr ⟨hne, hne'⟩)
  | disconnect callback currentMs => exact (Retains.disconnect client callback currentMs).answers
  | packet input => exact handleRead_answers client input
  | periodicTask now callback currentMs =>
      simp only
      split
      · exact (Retains.runPeriodicTask client now callback currentMs).answers
      · exact (Retains.refl client).answers
  | reconnect now =>
      simp only
      split
      · have hbuild := Retains.buildSession { client with reconnectTimer := false } now
        have hreconnect : Retains client (client.reconnect now) :=
          ⟨hbuild.isOpen, hbuild.current, hbuild.socket, hbuild.sends⟩
        exact hreconnect.answers
      · exact (Retains.refl client).answers
  | session task callback currentMs =>
      simp only
      split
      · exact (Retains.refl client).answers
      · rename_i session hsession
        exact (Retains.runSession hsession task callback currentMs).answers
  | setReconnectEnabled enabled =>
      have hset : Retains client ({ client with reconnectEnabled := enabled }, []) :=
        Retains.frame rfl (fun _ => rfl) rfl (by simp)
      exact hset.answers

end KCPClient

end CodeBlocks.Kcp
