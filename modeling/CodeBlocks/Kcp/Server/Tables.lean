import CodeBlocks.Kcp.Server.Changes

/-!
# The tables of live and idle sessions

A session is inserted and removed by hand in six places. Its id is in the live
table exactly when it is in the idle one, so no handler meets a session without
an idle time, and an id that leaves the live table waits out its time.
-/

namespace CodeBlocks.Kcp

variable {adler32 : UInt32 → List UInt8 → UInt32}

namespace KCPServer

/-- The live and the idle table have the same keys. -/
def InStep (server : KCPServer) : Prop :=
  ∀ k, k ∈ server.sessionMap ↔ k ∈ server.idleSessionMap

/-- The server where its second loop of `RunPeriodicTask` has ended. -/
def afterExpiry (server : KCPServer) (now : Timestamp) : KCPServer :=
  (expireSessions now server.sessionMap.entries (server.retrySyns now)).1

/-- The server where the handler of an event has removed what it removes from the live table. -/
def afterRemoval (adler32 : UInt32 → List UInt8 → UInt32) (server : KCPServer) :
    ServerEvent → KCPServer
  | .periodicTask now => server.afterExpiry now
  | event => server.step adler32 event

/-- An id is live when its entry has a session. -/
theorem mem_session_iff (server : KCPServer) (k : UInt32) :
    k ∈ server.sessionMap ↔ (server.entry k).session.isSome = true :=
  AList.lookup_isSome.symm

/-- It is in the idle table when its entry has an idle time. -/
theorem mem_idle_iff (server : KCPServer) (k : UInt32) :
    k ∈ server.idleSessionMap ↔ (server.entry k).idle.isSome = true :=
  AList.lookup_isSome.symm

/-- It is in time-wait when its entry says so. -/
theorem mem_timeWait_iff (server : KCPServer) (k : UInt32) :
    k ∈ server.timeWaitSessionMap ↔ (server.entry k).timeWait.isSome = true :=
  AList.lookup_isSome.symm

/-- In a new server both tables are empty. -/
theorem inStep_empty (callbacks : SessionCallbacks) : InStep { callbacks } := by
  intro k
  simp

/-- Whether an id is in step depends on its own entry only. -/
theorem InStep.of_entry {server server' : KCPServer} {k : UInt32}
    (h : k ∈ server.sessionMap ↔ k ∈ server.idleSessionMap)
    (heq : server'.entry k = server.entry k) :
    k ∈ server'.sessionMap ↔ k ∈ server'.idleSessionMap := by
  rw [mem_session_iff, mem_idle_iff, heq, ← mem_session_iff, ← mem_idle_iff]
  exact h

/-- A session is removed from both tables at once. -/
theorem InStep.retire {server : KCPServer} (h : server.InStep) (sessionId : UInt32)
    (now : Timestamp) : (server.retire sessionId now).InStep := by
  intro k
  have hentry := entry_retire server sessionId k now
  by_cases hk : k = sessionId
  · rw [if_pos hk] at hentry
    rw [mem_session_iff, mem_idle_iff, hentry]
    exact Iff.rfl
  · rw [if_neg hk] at hentry
    exact InStep.of_entry (h k) hentry

/-- Whatever a packet changes, it changes in both tables. -/
theorem InStep.packet {server server' : KCPServer} {input : ServerPacket} (h : server.InStep)
    (hchange : PacketChange adler32 server input server') : server'.InStep := by
  cases hchange with
  | same => exact h
  | giveUp sessionId hkind => exact h
  | offerAgain pending again hpending hid => exact h
  | offer sessionId pending hkind hnone hid => exact h
  | ping sessionId hlive =>
      intro k
      rw [AList.mem_insert, ← h k]
      exact ⟨Or.inr, fun hk => hk.elim (fun heq => heq ▸ hlive) id⟩
  | establish type sessionId pending session hkind htype hnew hpending =>
      intro k
      rw [Table.mem_insertNew, Table.mem_insertNew, h k]
  | resetUnknown sessionId hkind hnew =>
      intro k
      rw [AList.mem_erase, ← h k]
      exact ⟨fun hk => ⟨fun heq => hnew (heq ▸ hk), hk⟩, And.right⟩
  | reset sessionId hkind hlive => exact h.retire sessionId input.now

/-- The second loop of `RunPeriodicTask` keeps the tables in step at every turn. -/
theorem InStep.expireSessions {server : KCPServer} (h : server.InStep) (now : Timestamp)
    (sessions : List (Σ _ : UInt32, KCPSession)) :
    (expireSessions now sessions server).1.InStep := by
  induction sessions generalizing server with
  | nil => exact h
  | cons e sessions ih =>
      unfold KCPServer.expireSessions
      apply ih
      rw [expireSession_eq]
      split
      · exact h.retire e.1 now
      · exact h

/-- The first loop of `RunPeriodicTask` does not touch the two tables. -/
theorem InStep.retrySyns {server : KCPServer} (h : server.InStep) (now : Timestamp) :
    (server.retrySyns now).InStep := h

/-- A task of a session does not touch the idle table. -/
theorem runSession_idle (server : KCPServer) (sessionId : UInt32) (task : SessionTask) :
    (server.runSession sessionId task).idleSessionMap = server.idleSessionMap := by
  unfold runSession
  split
  · rfl
  · rfl

/-- Every event keeps the two tables in step. -/
theorem InStep.step {server : KCPServer} (h : server.InStep) (event : ServerEvent) :
    (server.step adler32 event).InStep := by
  cases event with
  | packet input => exact h.packet (processPacket_change server input)
  | periodicTask now => exact (h.retrySyns now).expireSessions now server.sessionMap.entries
  | session sessionId task now =>
      intro k
      change k ∈ (server.runSession sessionId task).sessionMap ↔ _
      rw [runSession_keys, h k, ← runSession_idle server sessionId task]
      exact Iff.rfl

/-- They are in step in every state of every run. -/
theorem Reachable.inStep {server : KCPServer} (h : server.Reachable adler32) : server.InStep := by
  obtain ⟨callbacks, events, rfl⟩ := h
  suffices hrun : ∀ server : KCPServer, server.InStep →
      (events.foldl (KCPServer.step adler32) server).InStep from hrun _ (inStep_empty callbacks)
  induction events with
  | nil => exact fun _ h => h
  | cons event events ih => exact fun _ h => ih _ (h.step event)

/-- A turn of the second loop leaves the entries of all other ids alone. -/
theorem expireSessions_entry_of_notMem {server : KCPServer} (now : Timestamp)
    {sessions : List (Σ _ : UInt32, KCPSession)} (hnodup : sessions.NodupKeys) {k : UInt32}
    (hk : k ∉ sessions.keys) : (KCPServer.expireSessions now sessions server).1.entry k =
      server.entry k := by
  rw [(expireSessions_entry now sessions hnodup server).2 k, List.dlookup_eq_none.mpr hk]
  rfl

/-- Every turn of the second loop finds the idle time of its session. -/
theorem InStep.idle_at_turn {server : KCPServer} (h : server.InStep) (now : Timestamp)
    {before after : List (Σ _ : UInt32, KCPSession)} {sessionId : UInt32} {session : KCPSession}
    (hsplit : server.sessionMap.entries = before ++ ⟨sessionId, session⟩ :: after) :
    sessionId ∈ (KCPServer.expireSessions now before (server.retrySyns now)).1.idleSessionMap := by
  have hnodup : (before ++ ⟨sessionId, session⟩ :: after).NodupKeys :=
    hsplit ▸ server.sessionMap.nodupKeys
  have hlive : sessionId ∈ server.sessionMap := by
    change sessionId ∈ server.sessionMap.entries.keys
    rw [hsplit]
    simp [List.keys]
  have hnot : sessionId ∉ before.keys := by
    intro hmem
    rw [List.NodupKeys, List.keys, List.map_append, List.nodup_append] at hnodup
    exact hnodup.2.2 sessionId hmem sessionId (by simp) rfl
  have hbefore : before.NodupKeys := by
    rw [List.NodupKeys, List.keys, List.map_append, List.nodup_append] at hnodup
    exact hnodup.1
  rw [mem_idle_iff, expireSessions_entry_of_notMem now hbefore hnot, ← mem_idle_iff]
  exact (h sessionId).mp hlive

/-- An id that the periodic task removes is in time-wait. -/
theorem afterExpiry_removed {server : KCPServer} {now : Timestamp} {k : UInt32}
    (hlive : k ∈ server.sessionMap) (hgone : k ∉ (server.afterExpiry now).sessionMap) :
    k ∈ (server.afterExpiry now).timeWaitSessionMap := by
  rw [mem_session_iff] at hlive hgone
  rw [mem_timeWait_iff]
  rw [afterExpiry, (expireSessions_entry now server.sessionMap.entries
    server.sessionMap.nodupKeys (server.retrySyns now)).2 k] at hgone ⊢
  split
  · rfl
  · rename_i hkept
    rw [if_neg hkept] at hgone
    exact absurd hlive hgone

/-- So is one that a packet removes, which only an `RST` does. -/
theorem packet_removed {server server' : KCPServer} {input : ServerPacket} {k : UInt32}
    (hchange : PacketChange adler32 server input server') (hlive : k ∈ server.sessionMap)
    (hgone : k ∉ server'.sessionMap) : k ∈ server'.timeWaitSessionMap := by
  cases hchange with
  | same => exact absurd hlive hgone
  | giveUp sessionId hkind => exact absurd hlive hgone
  | offerAgain pending again hpending hid => exact absurd hlive hgone
  | offer sessionId pending hkind hnone hid => exact absurd hlive hgone
  | ping sessionId hping => exact absurd hlive hgone
  | establish type sessionId pending session hkind htype hnew hpending =>
      exact absurd (Table.mem_insertNew.mpr (Or.inr hlive)) hgone
  | resetUnknown sessionId hkind hnew => exact absurd hlive hgone
  | reset sessionId hkind hreset =>
      apply Table.mem_insertNew.mpr
      by_cases hk : k = sessionId
      · exact Or.inl hk
      · exact absurd (AList.mem_erase.mpr ⟨hk, hlive⟩) hgone

/-- An id that an event removes from the live table is in time-wait right after its removal. -/
theorem removed_waits (server : KCPServer) (event : ServerEvent) {k : UInt32}
    (hlive : k ∈ server.sessionMap) (hgone : k ∉ (server.step adler32 event).sessionMap) :
    k ∈ (server.afterRemoval adler32 event).timeWaitSessionMap := by
  cases event with
  | packet input => exact packet_removed (processPacket_change server input) hlive hgone
  | periodicTask now => exact afterExpiry_removed hlive hgone
  | session sessionId task now =>
      exact absurd ((runSession_keys server sessionId k task).mpr hlive) hgone

end KCPServer

/-- In every reachable state the live and the idle table have the same keys, so that neither the
periodic task at any turn of its second loop nor a PING packet meets a live session without an
idle time, and every id that an event removes from the live table is in time-wait then. -/
theorem reachable_inStep (server : KCPServer) (h : server.Reachable adler32) :
    (∀ k, k ∈ server.sessionMap ↔ k ∈ server.idleSessionMap) ∧
      (∀ now before sessionId session after,
        server.sessionMap.entries = before ++ ⟨sessionId, session⟩ :: after →
          (KCPServer.expireSessions now before
            (server.retrySyns now)).1.idleSessionMap.lookup sessionId ≠ none) ∧
      (∀ header : KCPPublicHeader, header.sessionId ∈ server.sessionMap →
        server.idleSessionMap.lookup header.sessionId ≠ none) ∧
      ∀ event k, k ∈ server.sessionMap → k ∉ (server.step adler32 event).sessionMap →
        k ∈ (server.afterRemoval adler32 event).timeWaitSessionMap := by
  have hstep := h.inStep
  refine ⟨hstep, ?_, ?_, ?_⟩
  · intro now before sessionId session after hsplit hnone
    exact AList.lookup_eq_none.mp hnone (hstep.idle_at_turn now hsplit)
  · intro header hlive hnone
    exact AList.lookup_eq_none.mp hnone ((hstep header.sessionId).mp hlive)
  · intro event k hlive hgone
    exact server.removed_waits event hlive hgone

/-- A client that has established session 7 and is silent from then on. -/
def silentRun : List ServerEvent :=
  [.packet { data := datagram .syn 0 [], clientAddress := ⟨"10.0.0.1:9000"⟩, now := 1,
             rand := [some 7] },
   .packet { data := datagram .ack 7 [], clientAddress := ⟨"10.0.0.1:9000"⟩, now := 2 }]

/-- Session 7 is live and idle, and in time-wait once it has been idle for too long. -/
theorem reachable_inStep_silentRun :
    let server := silentRun.foldl (KCPServer.step Zlib.adler32) {}
    7 ∈ server.sessionMap ∧ 7 ∈ server.idleSessionMap ∧
      7 ∈ (server.afterRemoval Zlib.adler32 (.periodicTask 120000002)).timeWaitSessionMap := by
  have hlive : 7 ∈ (silentRun.foldl (KCPServer.step Zlib.adler32) {}).sessionMap := by
    decide +kernel
  obtain ⟨hkeys, _, _, hremoved⟩ := reachable_inStep _ ⟨{}, silentRun, rfl⟩
  exact ⟨hlive, (hkeys 7).mp hlive,
    hremoved (.periodicTask 120000002) 7 hlive (by decide +kernel)⟩

end CodeBlocks.Kcp
