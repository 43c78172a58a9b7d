import CodeBlocks.Kcp.Server.Offers

/-!
# Time-wait

Every way out of `session_map_` leads into `time_wait_session_map_`, and only the
periodic sweep leads out of that one. New ids are chosen outside both maps, but
neither path that establishes a session asks the second map again; where no
session is established for an id that still waits there, an id that left stays
away for the whole period.
-/

namespace CodeBlocks.Kcp

variable {adler32 : UInt32 → List UInt8 → UInt32}

namespace KCPServer

/-- An id leaves `session_map_`. -/
def Removes (adler32 : UInt32 → List UInt8 → UInt32) (server : KCPServer) (event : ServerEvent)
    (sessionId : UInt32) : Prop :=
  sessionId ∈ server.sessionMap ∧ sessionId ∉ (server.step adler32 event).sessionMap

/-- The state after some events. -/
def run (adler32 : UInt32 → List UInt8 → UInt32) (server : KCPServer) (events : List ServerEvent) :
    KCPServer :=
  events.foldl (KCPServer.step adler32) server

/-- An id that leaves `session_map_` in an event of the run is not there after any later event
whose clock is less than the time-wait period ahead. -/
def Quarantines (adler32 : UInt32 → List UInt8 → UInt32) (server : KCPServer)
    (events : List ServerEvent) : Prop :=
  ∀ before event between point after sessionId,
    events = before ++ event :: (between ++ point :: after) →
    (server.run adler32 before).Removes adler32 event sessionId →
    point.now < event.now + kServerSessionTimeWaitSeconds →
    sessionId ∉ (server.run adler32 (before ++ event :: (between ++ [point]))).sessionMap

/-- No session comes up for an id that is still in `time_wait_session_map_`. -/
def LeavesWaiting (adler32 : UInt32 → List UInt8 → UInt32) (server : KCPServer)
    (event : ServerEvent) : Prop :=
  ∀ sessionId, server.Establishes adler32 event sessionId →
    sessionId ∉ server.timeWaitSessionMap

/-- No id is live and in time-wait at once. -/
def Separate (server : KCPServer) : Prop :=
  ∀ sessionId ∈ server.sessionMap, sessionId ∉ server.timeWaitSessionMap

/-- What happens to an id between two states: it stays live or not, or it is retired; and then its
waiting may be ended. -/
def StaysOrRetires (server server' : KCPServer) (now : Timestamp) (sessionId : UInt32) : Prop :=
  ∃ timeWait,
    ((sessionId ∈ server'.sessionMap ↔ sessionId ∈ server.sessionMap) ∧
        timeWait = server.timeWaitSessionMap.lookup sessionId ∨
      sessionId ∈ server.sessionMap ∧ sessionId ∉ server'.sessionMap ∧
        timeWait = some ((server.timeWaitSessionMap.lookup sessionId).getD now)) ∧
    (server'.timeWaitSessionMap.lookup sessionId = timeWait ∨
      server'.timeWaitSessionMap.lookup sessionId = timeWait.bind (stillWaiting now))

/-- The timer leaves a session or retires it. -/
theorem runPeriodicTask_staysOrRetires (server : KCPServer) (now : Timestamp)
    (sessionId : UInt32) :
    server.StaysOrRetires (server.runPeriodicTask now).1 now sessionId := by
  have hentry := server.runPeriodicTask_entry now sessionId
  by_cases hout : (server.entry sessionId).session.any (server.expires now sessionId) = true
  · rw [if_pos hout] at hentry
    obtain ⟨session, hsession, _⟩ := (Option.any_eq_true _ _).mp hout
    have hgone : (server.runPeriodicTask now).1.sessionMap.lookup sessionId = none :=
      congrArg Entry.session hentry
    exact ⟨_, Or.inr ⟨Table.mem_iff_lookup.mpr ⟨session, hsession⟩,
      AList.lookup_eq_none.mp hgone, rfl⟩, Or.inr (congrArg Entry.timeWait hentry)⟩
  · rw [if_neg hout] at hentry
    have hsame : (server.runPeriodicTask now).1.sessionMap.lookup sessionId =
        server.sessionMap.lookup sessionId := congrArg Entry.session hentry
    refine ⟨_, Or.inl ⟨?_, rfl⟩, Or.inr (congrArg Entry.timeWait hentry)⟩
    rw [← AList.lookup_isSome, ← AList.lookup_isSome, hsame]

/-- Retiring one session leaves the others. -/
theorem retire_staysOrRetires (server : KCPServer) {k : UInt32} (hlive : k ∈ server.sessionMap)
    (now : Timestamp) (sessionId : UInt32) :
    server.StaysOrRetires (server.retire k now) now sessionId := by
  by_cases hk : sessionId = k
  · subst hk
    refine ⟨_, Or.inr ⟨hlive, ?_, rfl⟩, Or.inl ?_⟩
    · exact fun hmem => (AList.mem_erase.mp hmem).1 rfl
    · change (Table.insertNew server.timeWaitSessionMap sessionId now).lookup _ = _
      rw [Table.lookup_insertNew, if_pos rfl]
  · refine ⟨_, Or.inl ⟨?_, rfl⟩, Or.inl ?_⟩
    · change sessionId ∈ server.sessionMap.erase k ↔ _
      rw [AList.mem_erase]
      exact ⟨fun h => h.2, fun h => ⟨hk, h⟩⟩
    · change (Table.insertNew server.timeWaitSessionMap k now).lookup _ = _
      rw [Table.lookup_insertNew, if_neg hk]

/-- An id that an event does not establish stays or is retired by it. -/
theorem step_staysOrRetires (server : KCPServer) (event : ServerEvent) (sessionId : UInt32)
    (hno : ¬ server.Establishes adler32 event sessionId) :
    server.StaysOrRetires (server.step adler32 event) event.now sessionId := by
  cases event with
  | periodicTask now => exact server.runPeriodicTask_staysOrRetires now sessionId
  | session k task now =>
      have htimeWait := (server.runSession_frame k task).2
      exact ⟨_, Or.inl ⟨server.runSession_keys k sessionId task, rfl⟩,
        Or.inl (congrArg (AList.lookup sessionId) htimeWait)⟩
  | packet input =>
      have hchange : PacketChange adler32 server input (server.step adler32 (.packet input)) :=
        server.processPacket_change input
      generalize server.step adler32 (.packet input) = server' at hchange ⊢
      cases hchange with
      | establish type k pending session hkind htype hnew hpending =>
          refine ⟨_, Or.inl ⟨?_, rfl⟩, Or.inl rfl⟩
          rw [Table.mem_insertNew]
          refine ⟨?_, Or.inr⟩
          rintro (rfl | hold)
          · exact absurd ⟨hnew, input, type, pending, rfl, hkind, hpending, htype⟩ hno
          · exact hold
      | reset k hkind hlive => exact server.retire_staysOrRetires hlive input.now sessionId
      | _ => exact ⟨_, Or.inl ⟨Iff.rfl, rfl⟩, Or.inl rfl⟩

/-- An id waits for the whole of its time. -/
theorem stillWaiting_of_lt {now startTime : Timestamp}
    (h : now < startTime + kServerSessionTimeWaitSeconds) :
    stillWaiting now startTime = some startTime := by
  rw [stillWaiting, if_neg (not_le.mpr (Int.sub_left_lt_of_lt_add h))]

/-- A waiting id keeps waiting until its period is over. -/
theorem step_keeps_waiting {server : KCPServer} {event : ServerEvent} {sessionId : UInt32}
    {startTime : Timestamp} (hcond : server.LeavesWaiting adler32 event)
    (hwait : server.timeWaitSessionMap.lookup sessionId = some startTime)
    (hnow : event.now < startTime + kServerSessionTimeWaitSeconds) :
    (server.step adler32 event).timeWaitSessionMap.lookup sessionId = some startTime := by
  have hno : ¬ server.Establishes adler32 event sessionId := fun hest =>
    hcond sessionId hest (Table.mem_iff_lookup.mpr ⟨startTime, hwait⟩)
  obtain ⟨timeWait, hcases, hafter⟩ := server.step_staysOrRetires event sessionId hno
  have htimeWait : timeWait = some startTime := by
    rcases hcases with ⟨_, rfl⟩ | ⟨_, _, rfl⟩
    · exact hwait
    · rw [hwait, Option.getD_some]
  rcases hafter with hafter | hafter
  · rw [hafter, htimeWait]
  · rw [hafter, htimeWait, Option.bind_some, stillWaiting_of_lt hnow]

/-- An id that leaves starts to wait. -/
theorem removes_waits {server : KCPServer} {event : ServerEvent} {sessionId : UInt32}
    (hsep : server.Separate) (h : server.Removes adler32 event sessionId) :
    (server.step adler32 event).timeWaitSessionMap.lookup sessionId = some event.now := by
  obtain ⟨hlive, hgone⟩ := h
  have hno : ¬ server.Establishes adler32 event sessionId := fun hest => hest.1 hlive
  have hnone := AList.lookup_eq_none.mpr (hsep sessionId hlive)
  obtain ⟨timeWait, hcases, hafter⟩ := server.step_staysOrRetires event sessionId hno
  have htimeWait : timeWait = some event.now := by
    rcases hcases with ⟨hiff, _⟩ | ⟨_, _, rfl⟩
    · exact absurd (hiff.mpr hlive) hgone
    · rw [hnone, Option.getD_none]
  rcases hafter with hafter | hafter
  · rw [hafter, htimeWait]
  · rw [hafter, htimeWait, Option.bind_some,
      stillWaiting_of_lt (Int.lt_add_of_pos_right _ (by decide))]

/-- Live and waiting ids stay apart. -/
theorem Separate.step {server : KCPServer} {event : ServerEvent}
    (hcond : server.LeavesWaiting adler32 event) (hsep : server.Separate) :
    (server.step adler32 event).Separate := by
  intro sessionId hmem
  by_cases hest : server.Establishes adler32 event sessionId
  · -- the id of a new session was not waiting, and coming up does not make it wait
    have hnone := hcond sessionId hest
    obtain ⟨hnew, input, type, pending, rfl, hkind, hpending, htype⟩ := hest
    obtain ⟨session, heq⟩ := step_establish hnew hkind hpending htype
    rw [heq]
    exact hnone
  · obtain ⟨timeWait, hcases, hafter⟩ := server.step_staysOrRetires event sessionId hest
    rcases hcases with ⟨hiff, rfl⟩ | ⟨_, hgone, _⟩
    · have hnone := AList.lookup_eq_none.mpr (hsep sessionId (hiff.mp hmem))
      rw [← AList.lookup_eq_none]
      rcases hafter with hafter | hafter
      · rw [hafter, hnone]
      · rw [hafter, hnone, Option.bind_none]
    · exact absurd hmem hgone

/-- Along events whose clock stays below the end of its period an id keeps waiting. -/
theorem run_keeps_waiting {server : KCPServer} {events : List ServerEvent} {sessionId : UInt32}
    {startTime : Timestamp}
    (hcond : Along (KCPServer.step adler32) (LeavesWaiting adler32) server events)
    (hwait : server.timeWaitSessionMap.lookup sessionId = some startTime)
    (hnow : ∀ event ∈ events, event.now < startTime + kServerSessionTimeWaitSeconds) :
    (server.run adler32 events).timeWaitSessionMap.lookup sessionId = some startTime := by
  induction events generalizing server with
  | nil => exact hwait
  | cons event events ih =>
      exact ih hcond.2 (step_keeps_waiting hcond.1 hwait (hnow event List.mem_cons_self))
        fun e he => hnow e (List.mem_cons_of_mem _ he)

end KCPServer

/-- In a run with a clock that does not go back, where no session comes up for an id that is still
in `time_wait_session_map_`, an id that leaves `session_map_` stays away for the whole period. -/
theorem run_quarantines (adler32 : UInt32 → List UInt8 → UInt32) (callbacks : SessionCallbacks)
    (events : List ServerEvent) (hclock : events.Pairwise fun e f => e.now ≤ f.now)
    (hcond :
      Along (KCPServer.step adler32) (KCPServer.LeavesWaiting adler32) { callbacks } events) :
    KCPServer.Quarantines adler32 { callbacks } events := by
  intro before event between point after sessionId heq hremoves hpoint
  subst heq
  rw [Along.append_iff] at hcond
  obtain ⟨hbefore, hevent, hrest⟩ := hcond
  have hsplit : between ++ point :: after = (between ++ [point]) ++ after := by simp
  rw [hsplit, Along.append_iff] at hrest
  have hempty : KCPServer.Separate { callbacks } := by
    intro sessionId hmem
    exact absurd hmem (AList.notMem_empty sessionId)
  have hsep := hbefore.invariant (fun _ _ => KCPServer.Separate.step) hempty
  have hwait := KCPServer.removes_waits hsep hremoves
  have hnow : ∀ e ∈ between ++ [point], e.now < event.now + kServerSessionTimeWaitSeconds := by
    intro e he
    have hlater := (List.pairwise_append.mp (List.pairwise_append.mp hclock).2.1.of_cons).2.2
    rcases List.mem_append.mp he with he | he
    · have hle : e.now ≤ point.now := hlater e he point List.mem_cons_self
      exact hle.trans_lt hpoint
    · rw [List.mem_singleton.mp he]
      exact hpoint
  have hstill := KCPServer.run_keeps_waiting hrest.1 hwait hnow
  have hsep' := hrest.1.invariant (fun _ _ => KCPServer.Separate.step)
    (KCPServer.Separate.step hevent hsep)
  have hrun : KCPServer.run adler32 { callbacks } (before ++ event :: (between ++ [point])) =
      ((KCPServer.run adler32 { callbacks } before).step adler32 event).run adler32
        (between ++ [point]) := by
    rw [KCPServer.run, List.foldl_append, List.foldl_cons]
    rfl
  rw [hrun]
  exact fun hmem => hsep' sessionId hmem (Table.mem_iff_lookup.mpr ⟨_, hstill⟩)

/-- A client whose session 7 is reset asks for a new one at once; the random source proposes 7
again, and then 8. -/
def reconnectRun : List ServerEvent :=
  [.packet { data := datagram .syn 0 [], clientAddress := ⟨"10.0.0.1:9000"⟩, now := 1,
             rand := [some 7] },
   .packet { data := datagram .ack 7 [], clientAddress := ⟨"10.0.0.1:9000"⟩, now := 2 },
   .packet { data := datagram .rst 7 [], clientAddress := ⟨"10.0.0.1:9000"⟩, now := 3 },
   .packet { data := datagram .syn 0 [], clientAddress := ⟨"10.0.0.1:9000"⟩, now := 4,
             rand := [some 7, some 8] }]

/-- The reset takes id 7 out of the map, and the new offer leaves it out. -/
theorem run_quarantines_reconnectRun :
    (KCPServer.run Zlib.adler32 {} (reconnectRun.take 2)).sessionMap.keys = [7] ∧
      7 ∉ (KCPServer.run Zlib.adler32 {} reconnectRun).sessionMap := by
  have hwaitless (server : KCPServer) (event : ServerEvent)
      (h : server.timeWaitSessionMap.keys = []) : server.LeavesWaiting Zlib.adler32 event := by
    intro sessionId _ hmem
    rw [AList.mem_keys, h] at hmem
    cases hmem
  have hcond : Along (KCPServer.step Zlib.adler32) (KCPServer.LeavesWaiting Zlib.adler32) {}
      reconnectRun := by
    refine ⟨hwaitless _ _ rfl, hwaitless _ _ (by decide +kernel), hwaitless _ _ (by decide +kernel),
      ?_, trivial⟩
    rintro sessionId ⟨_, input, type, pending, heq, hkind, _, htype⟩
    cases heq
    rw [(by decide +kernel : ServerPacket.kind _ _ = some (.syn, 0))] at hkind
    cases hkind
    rcases htype with ⟨htype, _⟩ | htype <;> cases htype
  have hquarantines := run_quarantines Zlib.adler32 {} reconnectRun (by decide) hcond
  exact ⟨by decide +kernel, hquarantines (reconnectRun.take 2) _ [] _ [] 7 rfl
    ⟨by decide +kernel, by decide +kernel⟩ (by decide)⟩

/-- The same client, and then a DATA packet of its old session that was delayed. -/
def lateDataRun : List ServerEvent :=
  reconnectRun ++
    [.packet { data := datagram .data 7 [1, 2], clientAddress := ⟨"10.0.0.1:9000"⟩, now := 5 }]

/-- A run in which a late DATA packet reopens a session that was reset. -/
theorem not_quarantines_lateDataRun :
    lateDataRun.Pairwise (fun e f => e.now ≤ f.now) ∧
      ¬ KCPServer.Quarantines Zlib.adler32 {} lateDataRun := by
  refine ⟨by decide, fun hquarantines => ?_⟩
  refine hquarantines (reconnectRun.take 2) _ [_] _ [] 7 rfl ⟨?_, ?_⟩ (by decide) ?_
  · decide +kernel
  · decide +kernel
  · decide +kernel

end CodeBlocks.Kcp
