import CodeBlocks.Kcp.Server.Offers

/-!
# Session ids on offer

An id is chosen once, when a SYN packet arrives, against the live and the
time-wait ids only. Ids on offer stay non-zero, distinct and apart from the live
ones as long as the random source does not hit zero or an id on offer, and no
DATA packet takes an id that is on offer to another address.
-/

namespace CodeBlocks.Kcp

variable {adler32 : UInt32 → List UInt8 → UInt32}

namespace KCPServer

/-- No id is shared: those on offer are non-zero, distinct across addresses and not live. -/
structure IdsUnshared (server : KCPServer) : Prop where
  nonzero : ∀ key pending, server.pendingSessionMap.lookup key = some pending →
    pending.sessionId ≠ 0
  distinct : ∀ key key' pending pending', server.pendingSessionMap.lookup key = some pending →
    server.pendingSessionMap.lookup key' = some pending' →
    pending.sessionId = pending'.sessionId → key = key'
  disjoint : ∀ key pending, server.pendingSessionMap.lookup key = some pending →
    pending.sessionId ∉ server.sessionMap

/-- The first value of the random source, within the tries, that is neither live nor in
time-wait. -/
def firstFree (server : KCPServer) (rand : List (Option UInt32)) : Option UInt32 :=
  (rand.take kServerMaxGenSessionIdTryTimes).reduceOption.find? fun id =>
    decide (id ∉ server.sessionMap ∧ id ∉ server.timeWaitSessionMap)

/-- An id is on offer to some address other than the given one. -/
def OnOfferElsewhere (server : KCPServer) (key : String) (sessionId : UInt32) : Prop :=
  ∃ key' pending, key' ≠ key ∧ server.pendingSessionMap.lookup key' = some pending ∧
    pending.sessionId = sessionId

/-- A SYN packet from an address without a pending session meets a random id that is non-zero and
not on offer, and a DATA packet that establishes a session does not take an id on offer to
another address. -/
structure FreshIds (adler32 : UInt32 → List UInt8 → UInt32) (server : KCPServer)
    (event : ServerEvent) : Prop where
  syn : ∀ input sessionId randId, event = .packet input →
    input.kind adler32 = some (.syn, sessionId) → server.pendingAt input = none →
    server.firstFree input.rand = some randId →
    randId ≠ 0 ∧ ¬ server.OnOfferElsewhere input.clientAddress.toIpPort randId
  data : ∀ input sessionId, event = .packet input →
    input.kind adler32 = some (.data, sessionId) → sessionId ∉ server.sessionMap →
    server.pendingAt input ≠ none →
    ¬ server.OnOfferElsewhere input.clientAddress.toIpPort sessionId

/-- Fewer offers and fewer live sessions share no id either. -/
theorem IdsUnshared.mono {server server' : KCPServer} (h : server.IdsUnshared)
    (hpending : ∀ key pending', server'.pendingSessionMap.lookup key = some pending' →
      ∃ pending, server.pendingSessionMap.lookup key = some pending ∧
        pending.sessionId = pending'.sessionId)
    (hlive : ∀ sessionId ∈ server'.sessionMap, sessionId ∈ server.sessionMap) :
    server'.IdsUnshared := by
  constructor
  · intro key pending' hp
    obtain ⟨pending, hold, hid⟩ := hpending key pending' hp
    exact hid ▸ h.nonzero key pending hold
  · intro key key' pending' pending'' hp hp' heq
    obtain ⟨pending₁, hold₁, hid₁⟩ := hpending key pending' hp
    obtain ⟨pending₂, hold₂, hid₂⟩ := hpending key' pending'' hp'
    exact h.distinct key key' pending₁ pending₂ hold₁ hold₂ ((hid₁.trans heq).trans hid₂.symm)
  · intro key pending' hp hmem
    obtain ⟨pending, hold, hid⟩ := hpending key pending' hp
    exact h.disjoint key pending hold (hid ▸ hlive _ hmem)

/-- An entry that is left after an erasure was there before, and it is another one. -/
theorem lookup_of_erase {server : KCPServer} {key key' : String} {pending : KCPPendingSession}
    (h : (server.pendingSessionMap.erase key).lookup key' = some pending) :
    key' ≠ key ∧ server.pendingSessionMap.lookup key' = some pending := by
  rw [Table.lookup_erase_eq] at h
  split at h
  · cases h
  · exact ⟨‹_›, h⟩

/-- A new offer. -/
theorem IdsUnshared.offer {server : KCPServer} (h : server.IdsUnshared) {key : String}
    {pending : KCPPendingSession} (hnone : server.pendingSessionMap.lookup key = none)
    (hlive : pending.sessionId ∉ server.sessionMap) :
    IdsUnshared { server with
        pendingSessionMap := Table.insertNew server.pendingSessionMap key pending } ↔
      pending.sessionId ≠ 0 ∧ ¬ server.OnOfferElsewhere key pending.sessionId := by
  have hlookup : ∀ key', (Table.insertNew server.pendingSessionMap key pending).lookup key' =
      if key' = key then some pending else server.pendingSessionMap.lookup key' := by
    intro key'
    rw [Table.lookup_insertNew, hnone, Option.getD_none]
  have hself :
      (Table.insertNew server.pendingSessionMap key pending).lookup key = some pending := by
    rw [hlookup, if_pos rfl]
  have hcases : ∀ key' pending',
      (Table.insertNew server.pendingSessionMap key pending).lookup key' = some pending' →
      key' = key ∧ pending' = pending ∨
        key' ≠ key ∧ server.pendingSessionMap.lookup key' = some pending' := by
    intro key' pending' hp
    rw [hlookup] at hp
    split at hp
    · exact Or.inl ⟨‹_›, (Option.some.inj hp).symm⟩
    · exact Or.inr ⟨‹_›, hp⟩
  constructor
  · intro hnew
    refine ⟨hnew.nonzero key pending hself, ?_⟩
    rintro ⟨key', pending', hne, hp', hid⟩
    refine hne (hnew.distinct key' key pending' pending ?_ hself hid)
    rw [hlookup, if_neg hne]
    exact hp'
  · rintro ⟨hzero, helse⟩
    constructor
    · intro key' pending' hp
      rcases hcases key' pending' hp with ⟨_, rfl⟩ | ⟨_, hold⟩
      · exact hzero
      · exact h.nonzero key' pending' hold
    · intro key₁ key₂ pending₁ pending₂ hp₁ hp₂ heq
      rcases hcases key₁ pending₁ hp₁ with ⟨rfl, rfl⟩ | ⟨hne₁, hold₁⟩ <;>
        rcases hcases key₂ pending₂ hp₂ with ⟨rfl, rfl⟩ | ⟨hne₂, hold₂⟩
      · rfl
      · exact absurd ⟨key₂, pending₂, hne₂, hold₂, heq.symm⟩ helse
      · exact absurd ⟨key₁, pending₁, hne₁, hold₁, heq⟩ helse
      · exact h.distinct key₁ key₂ pending₁ pending₂ hold₁ hold₂ heq
    · intro key' pending' hp
      rcases hcases key' pending' hp with ⟨_, rfl⟩ | ⟨_, hold⟩
      · exact hlive
      · exact h.disjoint key' pending' hold

/-- A session that comes up. -/
theorem IdsUnshared.establish {server : KCPServer} (h : server.IdsUnshared) (key : String)
    (sessionId : UInt32) (session : KCPSession) (now : Timestamp) :
    IdsUnshared { server with
        sessionMap := Table.insertNew server.sessionMap sessionId session
        pendingSessionMap := server.pendingSessionMap.erase key
        idleSessionMap := Table.insertNew server.idleSessionMap sessionId now } ↔
      ¬ server.OnOfferElsewhere key sessionId := by
  constructor
  · rintro hnew ⟨key', pending', hne, hp', hid⟩
    refine hnew.disjoint key' pending' ?_ (Table.mem_insertNew.mpr (Or.inl hid))
    change (server.pendingSessionMap.erase key).lookup key' = some pending'
    rw [Table.lookup_erase_eq, if_neg hne]
    exact hp'
  · intro helse
    constructor
    · intro key' pending' hp
      exact h.nonzero key' pending' (lookup_of_erase hp).2
    · intro key₁ key₂ pending₁ pending₂ hp₁ hp₂ heq
      exact h.distinct key₁ key₂ pending₁ pending₂ (lookup_of_erase hp₁).2 (lookup_of_erase hp₂).2
        heq
    · intro key' pending' hp hmem
      obtain ⟨hne, hold⟩ := lookup_of_erase hp
      rcases Table.mem_insertNew.mp hmem with hid | hlive
      · exact helse ⟨key', pending', hne, hold, hid⟩
      · exact h.disjoint key' pending' hold hlive

/-- A SYN packet from an address without a pending session is answered with an offer. -/
theorem step_offer {server : KCPServer} {input : ServerPacket} {sessionId randId : UInt32}
    (hkind : input.kind adler32 = some (.syn, sessionId)) (hnone : server.pendingAt input = none)
    (hfree : server.firstFree input.rand = some randId) :
    ∃ pending : KCPPendingSession, pending.sessionId = randId ∧
      server.step adler32 (.packet input) = { server with
        pendingSessionMap :=
          Table.insertNew server.pendingSessionMap input.clientAddress.toIpPort pending } := by
  obtain ⟨header, packet, _, _, rfl, heq⟩ := processPacket_of_kind server hkind
  have hgen : server.generateSessionId input.rand = some randId := by
    rw [generateSessionId_eq]
    exact hfree
  unfold pendingAt at hnone
  rw [step, handle, heq, dispatch, processSynPacket, hnone]
  simp only [hgen]
  exact ⟨_, rfl, rfl⟩

/-- The random value that is taken is no id of a session. -/
theorem firstFree_not_live {server : KCPServer} {rand : List (Option UInt32)} {randId : UInt32}
    (h : server.firstFree rand = some randId) : randId ∉ server.sessionMap := by
  have hfree := List.find?_some h
  exact (of_decide_eq_true hfree).1

/-- An offer that is withdrawn. -/
theorem IdsUnshared.erase {server server' : KCPServer} (h : server.IdsUnshared) {key : String}
    (hpending : server'.pendingSessionMap = server.pendingSessionMap.erase key)
    (hlive : ∀ sessionId ∈ server'.sessionMap, sessionId ∈ server.sessionMap) :
    server'.IdsUnshared := by
  refine h.mono (fun key' pending hp => ⟨pending, ?_, rfl⟩) hlive
  rw [hpending] at hp
  exact (lookup_of_erase hp).2

/-- An offer that is made again keeps its id. -/
theorem retrySyn_sessionId {now : Timestamp} {pending pending' : KCPPendingSession}
    (h : retrySyn now pending = some pending') : pending.sessionId = pending'.sessionId := by
  unfold retrySyn at h
  split at h
  · cases h
  split at h
  · cases h
    rfl
  · cases h
    rfl

/-- The periodic task makes no offer. -/
theorem IdsUnshared.periodicTask {server : KCPServer} (h : server.IdsUnshared) (now : Timestamp) :
    (server.runPeriodicTask now).1.IdsUnshared := by
  refine h.mono (fun key pending' hp => ?_) fun _ hmem => runPeriodicTask_mem hmem
  have hlookup := server.runPeriodicTask_pending now key
  rw [hp, eq_comm, Option.bind_eq_some_iff] at hlookup
  obtain ⟨pending, hold, hretry⟩ := hlookup
  exact ⟨pending, hold, retrySyn_sessionId hretry⟩

/-- A task of a session leaves the ids unshared. -/
theorem IdsUnshared.runSession {server : KCPServer} (h : server.IdsUnshared) (sessionId : UInt32)
    (task : SessionTask) : (server.runSession sessionId task).IdsUnshared := by
  refine h.mono (fun key pending hp => ⟨pending, ?_, rfl⟩)
    fun k hmem => (server.runSession_keys sessionId k task).mp hmem
  rwa [(server.runSession_frame sessionId task).1] at hp

/-- Every event that makes no offer and establishes no session leaves ids unshared. -/
theorem IdsUnshared.step_other {server : KCPServer} (h : server.IdsUnshared) {event : ServerEvent}
    (hsyn : ∀ input sessionId, event = .packet input →
      input.kind adler32 = some (.syn, sessionId) → server.pendingAt input = none →
      server.firstFree input.rand = none)
    (hno : ∀ sessionId, ¬ server.Establishes adler32 event sessionId) :
    (server.step adler32 event).IdsUnshared := by
  cases event with
  | periodicTask now => exact h.periodicTask now
  | session sessionId task now => exact h.runSession sessionId task
  | packet input =>
      have hchange : PacketChange adler32 server input (server.step adler32 (.packet input)) :=
        server.processPacket_change input
      generalize server.step adler32 (.packet input) = server' at hchange ⊢
      cases hchange with
      | same => exact h
      | giveUp => exact h.erase rfl fun _ hmem => hmem
      | offerAgain pending again hpending hid =>
          refine h.mono (fun key pending' hp => ?_) fun _ hmem => hmem
          by_cases hkey : key = input.clientAddress.toIpPort
          · subst hkey
            rw [AList.lookup_insert] at hp
            cases hp
            exact ⟨pending, hpending, hid.symm⟩
          · rw [AList.lookup_insert_ne hkey] at hp
            exact ⟨pending', hp, rfl⟩
      | offer sessionId pending hkind hnone hid =>
          have hfree := hsyn input sessionId rfl hkind hnone
          rw [generateSessionId_eq] at hid
          exact absurd (hfree.symm.trans hid) (by simp)
      | ping => exact h.mono (fun key pending' hp => ⟨pending', hp, rfl⟩) fun _ hmem => hmem
      | establish type sessionId pending session hkind htype hnew hpending =>
          exact absurd ⟨hnew, input, type, pending, rfl, hkind, hpending, htype⟩ (hno sessionId)
      | resetUnknown => exact h.erase rfl fun _ hmem => hmem
      | reset => exact h.erase rfl fun _ hmem => (AList.mem_erase.mp hmem).2

/-- What fresh ids ask of a packet that establishes a session. -/
theorem freshIds_establish_iff {server : KCPServer} (h : server.IdsUnshared)
    {input : ServerPacket} {type : KCPReceivedPacketType} {sessionId : UInt32}
    {pending : KCPPendingSession} (hnew : sessionId ∉ server.sessionMap)
    (hkind : input.kind adler32 = some (type, sessionId))
    (hpending : server.pendingAt input = some pending)
    (htype : type = .ack ∧ pending.sessionId = sessionId ∨ type = .data) :
    server.FreshIds adler32 (.packet input) ↔
      ¬ server.OnOfferElsewhere input.clientAddress.toIpPort sessionId := by
  constructor
  · intro hfresh
    rcases htype with ⟨_, hid⟩ | rfl
    · -- the id of an ACK packet is on offer to its sender, so to nobody else
      rintro ⟨key', pending', hne, hp', hid'⟩
      exact hne (h.distinct key' _ pending' pending hp' hpending (hid'.trans hid.symm))
    · exact hfresh.data input sessionId rfl hkind hnew (by rw [hpending]; simp)
  · intro helse
    constructor
    · intro input' sessionId' randId heq hkind'
      cases heq
      rw [hkind] at hkind'
      rcases htype with ⟨rfl, _⟩ | rfl <;> cases hkind'
    · intro input' sessionId' heq hkind' _ _
      cases heq
      rw [hkind] at hkind'
      cases hkind'
      exact helse

/-- What they ask of a packet that is answered with an offer. -/
theorem freshIds_offer_iff {server : KCPServer} {input : ServerPacket} {sessionId randId : UInt32}
    (hkind : input.kind adler32 = some (.syn, sessionId)) (hnone : server.pendingAt input = none)
    (hfree : server.firstFree input.rand = some randId) :
    server.FreshIds adler32 (.packet input) ↔
      randId ≠ 0 ∧ ¬ server.OnOfferElsewhere input.clientAddress.toIpPort randId := by
  constructor
  · intro hfresh
    exact hfresh.syn input sessionId randId rfl hkind hnone hfree
  · intro hfresh
    constructor
    · intro input' sessionId' randId' heq _ _ hfree'
      cases heq
      rw [hfree] at hfree'
      cases hfree'
      exact hfresh
    · intro input' sessionId' heq hkind'
      cases heq
      rw [hkind] at hkind'
      cases hkind'

/-- From a state without shared ids, a step keeps them apart exactly when it meets fresh ids. -/
theorem idsUnshared_step_iff (server : KCPServer) (event : ServerEvent) (h : server.IdsUnshared) :
    (server.step adler32 event).IdsUnshared ↔ server.FreshIds adler32 event := by
  by_cases hestablish : ∃ sessionId, server.Establishes adler32 event sessionId
  · obtain ⟨sessionId, hnew, input, type, pending, rfl, hkind, hpending, htype⟩ := hestablish
    obtain ⟨session, heq⟩ := step_establish hnew hkind hpending htype
    rw [heq, h.establish, freshIds_establish_iff h hnew hkind hpending htype]
  by_cases hsyn : ∃ input sessionId randId, event = .packet input ∧
      input.kind adler32 = some (.syn, sessionId) ∧ server.pendingAt input = none ∧
      server.firstFree input.rand = some randId
  · obtain ⟨input, sessionId, randId, rfl, hkind, hnone, hfree⟩ := hsyn
    obtain ⟨pending, rfl, heq⟩ := step_offer hkind hnone hfree
    rw [heq, h.offer hnone (firstFree_not_live hfree), freshIds_offer_iff hkind hnone hfree]
  -- no other event asks for a fresh id
  have hfresh : server.FreshIds adler32 event := by
    constructor
    · intro input sessionId randId heq hkind hnone hfree
      exact absurd ⟨input, sessionId, randId, heq, hkind, hnone, hfree⟩ hsyn
    · intro input sessionId heq hkind hnew hpending
      obtain ⟨pending, hsome⟩ := Option.ne_none_iff_exists'.mp hpending
      exact absurd ⟨sessionId, hnew, input, .data, pending, heq, hkind, hsome, Or.inr rfl⟩
        hestablish
  refine iff_of_true (h.step_other (fun input sessionId heq hkind hnone => ?_) ?_) hfresh
  · cases hfree : server.firstFree input.rand with
    | none => rfl
    | some randId => exact absurd ⟨input, sessionId, randId, heq, hkind, hnone, hfree⟩ hsyn
  · exact fun sessionId hest => hestablish ⟨sessionId, hest⟩

/-- A fresh server has no ids. -/
theorem idsUnshared_empty (callbacks : SessionCallbacks) : IdsUnshared { callbacks } :=
  ⟨by simp, by simp, by simp⟩

end KCPServer

/-- Ids are unshared in every state of a run exactly when every SYN packet that is answered with an
offer meets a random id that is non-zero and not on offer, and every DATA packet that establishes
a session carries an id that is not on offer to another address. -/
theorem run_idsUnshared_iff (adler32 : UInt32 → List UInt8 → UInt32)
    (callbacks : SessionCallbacks) (events : List ServerEvent) :
    Along (KCPServer.step adler32) (fun server event => (server.step adler32 event).IdsUnshared)
        { callbacks } events ↔
      Along (KCPServer.step adler32) (KCPServer.FreshIds adler32) { callbacks } events :=
  Along.invariant_iff KCPServer.idsUnshared_step_iff (KCPServer.idsUnshared_empty callbacks) events

/-- Two clients ask for sessions, and the random source returns the same value twice. -/
def repeatedIdRun : List ServerEvent :=
  [.packet { data := datagram .syn 0 [], clientAddress := ⟨"10.0.0.1:9000"⟩, now := 1,
             rand := [some 7] },
   .packet { data := datagram .syn 0 [], clientAddress := ⟨"10.0.0.2:9000"⟩, now := 2,
             rand := [some 7] }]

/-- A run in which a random value repeats an id that is on offer. -/
theorem not_idsUnshared_repeatedIdRun :
    ¬ Along (KCPServer.step Zlib.adler32)
      (fun server event => (server.step Zlib.adler32 event).IdsUnshared) {} repeatedIdRun := by
  rintro ⟨_, hshared, _⟩
  have hkey := hshared.distinct "10.0.0.1:9000" "10.0.0.2:9000" ⟨7, 0, 1, 1, ⟨"10.0.0.1:9000"⟩⟩
    ⟨7, 0, 2, 2, ⟨"10.0.0.2:9000"⟩⟩ (by decide +kernel) (by decide +kernel) rfl
  exact absurd hkey (by decide)

end CodeBlocks.Kcp
