import CodeBlocks.Kcp.Client.Client

/-!
# What the operations of the client change

`ProcessPacket` by the kind of the datagram, what `ResetSession` leaves, and the
effects of the operations that the packet handlers call.
-/

namespace CodeBlocks.Kcp

variable {adler32 : UInt32 → List UInt8 → UInt32}

/-- An assertion of `ProcessPacket` or of a packet handler. -/
def ClientFunction.handler : ClientFunction → Bool
  | .sendPacket => false
  | .runPeriodicTask => false
  | .disconnect => false
  | _ => true

/-- Packets and timers are harmless. Failed assertions outside of the packet handlers and null
dereferences are so unless `strict` is set. -/
def ClientEffect.harmless (strict : Bool) : ClientEffect → Bool
  | .send _ _ => true
  | .reconnectAfter _ => true
  | .assertFailed function => !strict && !function.handler
  | .nullDereference => !strict

/-- Assertions of a handler are harmless only when they hold. -/
theorem ClientEffect.asserts_harmless_iff {function : ClientFunction}
    (h : function.handler = true) (strict : Bool) (conditions : List Bool) :
    (∀ e ∈ ClientEffect.asserts function conditions, e.harmless strict = true) ↔
      conditions.all id = true := by
  unfold ClientEffect.asserts
  split
  · rename_i hall
    exact ⟨fun _ => hall, fun _ e he => by cases he⟩
  · rename_i hall
    refine ⟨fun hharmless => ?_, fun h => absurd h hall⟩
    have hfailed := hharmless _ List.mem_cons_self
    rw [harmless, h, Bool.not_true, Bool.and_false] at hfailed
    cases hfailed

namespace KCPClient

/-- `ProcessPacket` on a datagram that its caller lets through. -/
theorem processPacket_eq (client : KCPClient) {input : ClientPacket}
    (hlen : input.data.length ≤ kMaxPacketSize) :
    client.processPacket adler32 input =
      match readDatagram adler32 input.data with
      | none => (client, [])
      | some (header, packet) =>
        client.dispatch header packet input
          (KCPReceivedPacketType.ofCode header.packetType) := by
  have hasserts : ClientEffect.asserts .processPacket
      [decide (input.data.length ≤ kMaxPacketSize)] = [] := by
    simp [ClientEffect.asserts, hlen]
  rw [processPacket, readDatagram, hasserts]
  cases KCPReceivedPacket.readPublicHeader adler32 { data := input.data } with
  | mk result packet =>
      cases result with
      | error code => rfl
      | ok header => rfl

/-- A dispatched packet by its kind. -/
theorem processPacket_of_kind (client : KCPClient) {input : ClientPacket}
    (hlen : input.data.length ≤ kMaxPacketSize) {type : KCPReceivedPacketType} {sessionId : UInt32}
    (h : datagramKind adler32 input.data = some (type, sessionId)) :
    ∃ header packet, readDatagram adler32 input.data = some (header, packet) ∧
      header.packetType = type.code ∧ header.sessionId = sessionId ∧
      client.processPacket adler32 input = client.dispatch header packet input (some type) := by
  obtain ⟨header, packet, hread, htype, hid⟩ := datagramKind_eq_some adler32 h
  refine ⟨header, packet, hread, KCPReceivedPacketType.code_of_ofCode htype, hid, ?_⟩
  rw [processPacket_eq client hlen, hread]
  simp only [htype]

/-- What is of no kind changes nothing. -/
theorem processPacket_of_none (client : KCPClient) {input : ClientPacket}
    (hlen : input.data.length ≤ kMaxPacketSize) (h : datagramKind adler32 input.data = none) :
    client.processPacket adler32 input = (client, []) := by
  rw [processPacket_eq client hlen]
  cases hread : readDatagram adler32 input.data with
  | none => rfl
  | some pair =>
      obtain ⟨header, packet⟩ := pair
      simp only [datagramKind_eq_none adler32 h hread]
      rfl

section Pending

/-- `Disconnect` does not start a handshake. -/
theorem disconnectWith_pending {close : KCPClient → KCPSession → KCPClient × List ClientEffect}
    (hclose : ∀ c s, c.pendingSession = none → (close c s).1.pendingSession = none)
    {client : KCPClient} (h : client.pendingSession = none) :
    (client.disconnectWith close).1.pendingSession = none := by
  unfold disconnectWith
  split
  · rfl
  · split
    · exact h
    · rename_i session _
      have hclosed := hclose client session h
      simp only
      split
      · exact hclosed
      · exact hclosed
  · exact h

/-- Taking a connection down makes no pending session. -/
theorem connectionDown_pending {client : KCPClient} (h : client.pendingSession = none)
    (callback : CallbackRun) (currentMs : UInt32) :
    (client.connectionDown callback currentMs).1.pendingSession = none := by
  unfold connectionDown
  split
  · simp only
    split
    · exact disconnectWith_pending (fun _ _ hc => hc) h
    · exact h
  · exact h

/-- `ResetSession` leaves neither a handshake nor a session. -/
theorem resetSession_cleared (client : KCPClient) (callback : CallbackRun) (currentMs : UInt32) :
    (client.resetSession callback currentMs).1.pendingSession = none ∧
      (client.resetSession callback currentMs).1.session = none := by
  have hdrop : ∀ c : KCPClient, c.pendingSession = none →
      (c.dropSession callback currentMs).1.pendingSession = none ∧
        (c.dropSession callback currentMs).1.session = none := by
    intro c hc
    unfold dropSession
    split
    · rename_i hnone
      exact ⟨hc, hnone⟩
    · refine ⟨?_, rfl⟩
      change (closeSession false callback currentMs c _).1.pendingSession = none
      unfold closeSession
      split
      · exact hc
      · refine connectionDown_pending ?_ callback currentMs
        exact hc
  have hschedule : ∀ c : KCPClient, c.scheduleReconnect.1.pendingSession = c.pendingSession ∧
      c.scheduleReconnect.1.session = c.session := by
    intro c
    unfold scheduleReconnect
    repeat' split
    all_goals exact ⟨rfl, rfl⟩
  obtain ⟨hpending, hsession⟩ := hdrop { client with pendingSession := none } rfl
  unfold resetSession
  simp only [(hschedule _).1, (hschedule _).2]
  exact ⟨hpending, hsession⟩

end Pending

section Effects

variable {strict : Bool}

/-- Effects that are harmless one after another. -/
theorem harmless_append {xs ys : List ClientEffect}
    (hx : ∀ e ∈ xs, e.harmless strict = true) (hy : ∀ e ∈ ys, e.harmless strict = true) :
    ∀ e ∈ xs ++ ys, e.harmless strict = true :=
  List.forall_mem_append.mpr ⟨hx, hy⟩

/-- Sending is harmless where the socket is there. -/
theorem sendPacket_harmless {client : KCPClient} (h : strict = true → client.socket = true)
    (packetType : KCPReceivedPacketType) (sessionId : UInt32) :
    ∀ e ∈ client.sendPacket packetType sessionId, e.harmless strict = true := by
  unfold sendPacket
  split
  · simp [ClientEffect.harmless]
  · rename_i hsocket
    cases strict with
    | false => simp [ClientEffect.harmless]
    | true => exact absurd (h rfl) hsocket

/-- The failures of a `Disconnect` inside a callback are not those of a packet handler. -/
theorem disconnectInCallback_harmless (client : KCPClient) (currentMs : UInt32) :
    ∀ e ∈ (client.disconnectInCallback currentMs).2, e.harmless false = true := by
  have hasserts : ∀ conditions, ∀ e ∈ ClientEffect.asserts .disconnect conditions,
      e.harmless false = true := by
    intro conditions e he
    unfold ClientEffect.asserts at he
    split at he
    · cases he
    · rw [List.mem_singleton.mp he]
      rfl
  have hnull : ∀ e ∈ [ClientEffect.nullDereference], e.harmless false = true := by
    intro e he
    rw [List.mem_singleton.mp he]
    rfl
  rw [disconnectInCallback, disconnectWith]
  split
  · exact hasserts _
  · split
    · exact harmless_append (hasserts _) hnull
    · exact harmless_append (harmless_append (hasserts _) (by simp))
        (sendPacket_harmless (by simp) _ _)
  · simp

/-- A connection callback that does not disconnect has no effects on the client. -/
theorem connectionDown_harmless {client : KCPClient} {callback : CallbackRun}
    (h : strict = true → callback.disconnects = false) (currentMs : UInt32) :
    (∀ e ∈ (client.connectionDown callback currentMs).2, e.harmless strict = true) ∧
      (strict = true → (client.connectionDown callback currentMs).1.socket = client.socket) := by
  unfold connectionDown
  split
  · simp only
    cases strict with
    | true =>
        rw [h rfl]
        exact ⟨by simp, fun _ => rfl⟩
    | false =>
        refine ⟨?_, by simp⟩
        split
        · exact disconnectInCallback_harmless _ currentMs
        · simp
  · exact ⟨by simp, fun _ => rfl⟩

/-- Closing is harmless, and keeps the socket unless its callback disconnects. -/
theorem closeSession_harmless {client : KCPClient} {callback : CallbackRun}
    (h : strict = true → callback.disconnects = false) (lastFlush : Bool) (currentMs : UInt32)
    (session : KCPSession) :
    (∀ e ∈ (closeSession lastFlush callback currentMs client session).2,
        e.harmless strict = true) ∧
      (strict = true →
        (closeSession lastFlush callback currentMs client session).1.socket = client.socket) := by
  unfold closeSession
  split
  · exact ⟨by simp, fun _ => rfl⟩
  · exact connectionDown_harmless h currentMs

/-- So is resetting. -/
theorem resetSession_harmless {client : KCPClient} {callback : CallbackRun}
    (hsocket : strict = true → client.socket = true)
    (h : strict = true → callback.disconnects = false) (currentMs : UInt32) :
    ∀ e ∈ (client.resetSession callback currentMs).2, e.harmless strict = true := by
  have hdrop : ∀ c : KCPClient, (∀ e ∈ (c.dropSession callback currentMs).2,
      e.harmless strict = true) ∧
        (strict = true → (c.dropSession callback currentMs).1.socket = c.socket) := by
    intro c
    unfold dropSession
    split
    · exact ⟨by simp, fun _ => rfl⟩
    · exact closeSession_harmless h false currentMs _
  have hschedule : ∀ c : KCPClient, (strict = true → c.socket = true) →
      ∀ e ∈ c.scheduleReconnect.2, e.harmless strict = true := by
    intro c hc
    unfold scheduleReconnect
    split
    · rename_i hclosed
      cases strict with
      | false => simp [ClientEffect.harmless]
      | true => simp [hc rfl] at hclosed
    · repeat' split
      all_goals simp [ClientEffect.harmless]
  obtain ⟨hdropped, hstill⟩ := hdrop { client with pendingSession := none }
  unfold resetSession
  exact harmless_append hdropped (hschedule _ fun hs => (hstill hs).trans (hsocket hs))

/-- So is establishing a session. -/
theorem sessionUp_harmless {client : KCPClient} {input : ClientPacket}
    (hsocket : strict = true → client.socket = true)
    (h : strict = true → input.callback.disconnects = false) (session : KCPSession) :
    ∀ e ∈ (client.sessionUp session input).2, e.harmless strict = true := by
  have hup : (∀ e ∈ (client.connectionUp input.callback input.currentMs).2,
      e.harmless strict = true) ∧ (strict = true →
        (client.connectionUp input.callback input.currentMs).1.socket = client.socket) := by
    unfold connectionUp
    split
    · rename_i hdisconnects
      cases strict with
      | false => exact ⟨disconnectInCallback_harmless client input.currentMs, by simp⟩
      | true => simp [h rfl] at hdisconnects
    · exact ⟨by simp, fun _ => rfl⟩
  unfold sessionUp
  exact harmless_append hup.1 (sendPacket_harmless (fun hs => (hup.2 hs).trans (hsocket hs)) _ _)

/-- So is a task of the session. -/
theorem runSession_harmless {client : KCPClient} {callback : CallbackRun}
    (h : strict = true → callback.disconnects = false) (session : KCPSession) (task : SessionTask)
    (currentMs : UInt32) :
    ∀ e ∈ (client.runSession session task callback currentMs).2, e.harmless strict = true := by
  unfold runSession
  split
  · exact (connectionDown_harmless h currentMs).1
  · simp

end Effects

end KCPClient

end CodeBlocks.Kcp
