import CodeBlocks.Kcp.Network.ClientEnd
import CodeBlocks.Kcp.Network.ServerEnd

/-!
# Agreement on session ids

Whatever is lost, repeated and reordered, a client is only ever in a session whose id
the server has sent to its address, and the server only ever has a session with a peer
that has acknowledged its id. When the random source does not repeat an id that was
offered before, a session has one client.
-/

namespace CodeBlocks.Kcp.KCPNetwork

variable {ι : Type} {adler32 : UInt32 → List UInt8 → UInt32} {net : KCPNetwork ι}

variable (adler32) in
/-- What holds in all reachable states. -/
structure Inv (net : KCPNetwork ι) : Prop where
  isOpen : ∀ i, (net.clients i).Open
  distinct : ∀ i j, (net.clients i).socket = true → (net.clients j).socket = true →
    net.addresses i = net.addresses j → i = j
  held : ∀ i sessionId, (net.clients i).currentId = some sessionId →
    net.Offered adler32 (net.addresses i) sessionId
  acknowledged : ∀ address sessionId, net.Acknowledged adler32 address sessionId →
    net.Offered adler32 address sessionId
  pending : ∀ key pending, net.server.pendingSessionMap.lookup key = some pending →
    key = pending.peerAddress.toIpPort ∧
      net.Offered adler32 pending.peerAddress pending.sessionId
  posted : ∀ sessionId packet address, (sessionId, packet, address) ∈ net.posted →
    net.Acknowledged adler32 address sessionId
  sessions : ∀ sessionId session, net.server.sessionMap.lookup sessionId = some session →
    session.sessionId = sessionId ∧ net.Acknowledged adler32 session.peerAddress sessionId

/-- Before the first message nothing is offered and nothing is established. -/
theorem inv_start (callbacks : SessionCallbacks) (clientCallbacks : ι → SessionCallbacks)
    (addresses : ι → InetAddress) : (start callbacks clientCallbacks addresses).Inv adler32 where
  isOpen _ := nofun
  distinct _ _ := nofun
  held _ _ := nofun
  acknowledged _ _ := fun ⟨_, _, hmem, _⟩ => absurd hmem List.not_mem_nil
  pending _ _ := nofun
  posted _ _ _ hmem := absurd hmem List.not_mem_nil
  sessions _ _ := nofun

/-- A message that was sent stays sent. -/
theorem Acknowledged.mono {net' : KCPNetwork ι}
    (hsent : ∀ datagram ∈ net.toServer, datagram ∈ net'.toServer) {address : InetAddress}
    {sessionId : UInt32} (h : net.Acknowledged adler32 address sessionId) :
    net'.Acknowledged adler32 address sessionId := by
  obtain ⟨data, type, hmem, hack⟩ := h
  exact ⟨data, type, hsent _ hmem, hack⟩

/-- An offer that was sent stays sent. -/
theorem Offered.mono {net' : KCPNetwork ι}
    (hsent : ∀ datagram ∈ net.toClients, datagram ∈ net'.toClients) {address : InetAddress}
    {sessionId : UInt32} (h : net.Offered adler32 address sessionId) :
    net'.Offered adler32 address sessionId := by
  obtain ⟨data, hmem, hkind⟩ := h
  exact ⟨data, hsent _ hmem, hkind⟩

/-- A session of a client outputs a datagram with its id. -/
theorem Inv.clientSends (h : net.Inv adler32) {i : ι} {session : KCPSession}
    (hsession : (net.clients i).session = some session) (body : List UInt8) :
    (net.clientSends adler32 i session.sessionId body).Inv adler32 := by
  have hcurrent : (net.clients i).currentId = some session.sessionId := by
    rw [KCPClient.currentId, hsession]
    rfl
  have hmono : ∀ datagram ∈ net.toServer,
      datagram ∈ (net.clientSends adler32 i session.sessionId body).toServer :=
    fun _ => List.mem_append_left _
  refine ⟨h.isOpen, h.distinct, h.held, ?_, h.pending,
    fun sessionId packet address hmem => (h.posted sessionId packet address hmem).mono hmono,
    fun sessionId session hlookup => (h.sessions sessionId session hlookup).imp_right fun hack =>
      hack.mono hmono⟩
  rintro address sessionId ⟨data, type, hmem, hkind, hack⟩
  rcases List.mem_append.mp hmem with hold | hnew
  · exact h.acknowledged address sessionId ⟨data, type, hold, hkind, hack⟩
  · obtain ⟨rfl, rfl⟩ := Prod.mk.inj (List.mem_singleton.mp hnew)
    rw [datagramKind_packetBytes] at hkind
    cases hkind
    exact h.held i _ hcurrent

/-- The server sends more, and what is new in its tables has been sent or acknowledged. -/
theorem Inv.serverHandles (h : net.Inv adler32) {event : ServerEvent}
    (hpending : ∀ key pending,
      (net.serverHandles adler32 event).server.pendingSessionMap.lookup key = some pending →
      key = pending.peerAddress.toIpPort ∧
        (net.serverHandles adler32 event).Offered adler32 pending.peerAddress pending.sessionId)
    (hposted : ∀ sessionId packet address,
      .processPacket sessionId packet address ∈ (net.server.handle adler32 event).2 →
      net.Acknowledged adler32 address sessionId)
    (hsessions : ∀ sessionId session,
      (net.serverHandles adler32 event).server.sessionMap.lookup sessionId = some session →
      session.sessionId = sessionId ∧ net.Acknowledged adler32 session.peerAddress sessionId) :
    (net.serverHandles adler32 event).Inv adler32 := by
  have hmono : ∀ datagram ∈ net.toClients,
      datagram ∈ (net.serverHandles adler32 event).toClients := fun _ => List.mem_append_left _
  refine ⟨h.isOpen, h.distinct,
    fun i sessionId hcurrent => (h.held i sessionId hcurrent).mono hmono,
    fun address sessionId hack => (h.acknowledged address sessionId hack).mono hmono, hpending, ?_,
    hsessions⟩
  intro sessionId packet address hmem
  rcases List.mem_append.mp hmem with hold | hnew
  · exact h.posted sessionId packet address hold
  · obtain ⟨effect, heffect, hpost⟩ := List.mem_filterMap.mp hnew
    cases effect with
    | processPacket sessionId' packet' address' =>
        cases hpost
        exact hposted _ _ _ heffect
    | send packetType sessionId' address' => cases hpost
    | close sessionId' => cases hpost
    | assertFailed => cases hpost

/-- What the server sends for an effect. -/
theorem offered_of_send {event : ServerEvent} {sessionId : UInt32} {address : InetAddress}
    (h : .send .syn sessionId address ∈ (net.server.handle adler32 event).2) :
    (net.serverHandles adler32 event).Offered adler32 address sessionId :=
  ⟨_, List.mem_append_right _ (List.mem_filterMap.mpr ⟨_, h, rfl⟩),
    datagramKind_packetBytes adler32 _ _ _⟩

/-- A datagram that a client sent keeps the invariant when the server handles it. -/
theorem Inv.serverPacket (h : net.Inv adler32) {input : ServerPacket}
    (hsent : (input.clientAddress, input.data) ∈ net.toServer) :
    (net.serverHandles adler32 (.packet input)).Inv adler32 := by
  have hserves : KCPServer.Serves adler32 net.server input
      (net.server.processPacket adler32 input) := KCPServer.processPacket_serves net.server input
  have hmono : ∀ datagram ∈ net.toClients,
      datagram ∈ (net.serverHandles adler32 (.packet input)).toClients :=
    fun _ => List.mem_append_left _
  have hkind : ∀ {type sessionId}, input.kind adler32 = some (type, sessionId) →
      type = .ack ∨ type = .data → net.Acknowledged adler32 input.clientAddress sessionId := by
    intro type sessionId hkind hack
    unfold ServerPacket.kind at hkind
    split at hkind
    · cases hkind
    · exact ⟨input.data, type, hsent, hkind, hack⟩
  refine h.serverHandles (fun key pending hlookup => ?_) (fun sessionId packet address hmem => ?_)
    fun sessionId session hlookup => ?_
  · rcases hserves.pending key pending hlookup with
      ⟨before, hbefore, hid, hpeer⟩ | ⟨hkey, hpeer, hsend⟩
    · obtain ⟨hkey, hoffered⟩ := h.pending key before hbefore
      rw [hid, hpeer]
      exact ⟨hkey, hoffered.mono hmono⟩
    · rw [hpeer]
      exact ⟨hkey, offered_of_send hsend⟩
  · obtain ⟨rfl, hdata⟩ := hserves.posts sessionId packet address hmem
    exact hkind hdata (Or.inr rfl)
  · rcases hserves.sessions sessionId session hlookup with hold | ⟨hid, hpeer, type, htype, hack⟩
    · exact h.sessions sessionId session hold
    · rw [hpeer]
      exact ⟨hid, hkind htype hack⟩

/-- So does a timer or a task of the server itself. -/
theorem Inv.serverInternal (h : net.Inv adler32) {event : ServerEvent}
    (hinternal : event.Internal net.posted) : (net.serverHandles adler32 event).Inv adler32 := by
  cases event with
  | packet input => exact hinternal.elim
  | periodicTask now =>
      have heffects := net.server.runPeriodicTask_effects now
      refine h.serverHandles (fun key again hlookup => ?_) (fun sessionId packet address hmem => ?_)
        fun sessionId session hlookup => h.sessions sessionId session
          (KCPServer.runPeriodicTask_sessions hlookup)
      · have hretry : (net.server.pendingSessionMap.lookup key).bind (KCPServer.retrySyn now) =
            some again := (net.server.runPeriodicTask_pending now key).symm.trans hlookup
        obtain ⟨pending, hpending, hsame⟩ := Option.bind_eq_some_iff.mp hretry
        obtain ⟨hkey, hoffered⟩ := h.pending key pending hpending
        obtain ⟨hid, hpeer⟩ := KCPServer.retrySyn_same hsame
        rw [hid, hpeer]
        exact ⟨hkey, hoffered.mono fun _ => List.mem_append_left _⟩
      · rcases heffects _ hmem with ⟨key, pending, -, heq⟩ | ⟨k, heq⟩
        · cases heq
        · cases heq
  | session sessionId task now =>
      obtain ⟨hframe, -⟩ := net.server.runSession_frame sessionId task
      refine h.serverHandles (fun key pending hlookup => ?_) (fun _ _ _ hmem => by cases hmem)
        fun k session hlookup => ?_
      · obtain ⟨hkey, hoffered⟩ := h.pending key pending (hframe ▸ hlookup)
        exact ⟨hkey, hoffered.mono fun _ => List.mem_append_left _⟩
      · change (net.server.runSession sessionId task).sessionMap.lookup k = some session at hlookup
        unfold KCPServer.runSession at hlookup
        split at hlookup
        · exact h.sessions k session hlookup
        rename_i before hbefore
        obtain ⟨hid, hack⟩ := h.sessions sessionId before hbefore
        by_cases hk : k = sessionId
        · subst hk
          rw [AList.lookup_insert] at hlookup
          cases hlookup
          obtain ⟨hsame, hpeer⟩ := SessionTask.run_peer before task
          refine ⟨hsame.trans hid, ?_⟩
          rcases hpeer with hpeer | hsource
          · rw [hpeer]
            exact hack
          · cases task with
            | packet packet address calls =>
                rw [← Option.some.inj hsource]
                exact h.posted k packet address (hinternal packet address calls rfl)
            | call userCall => cases hsource
            | update currentMs => cases hsource
        · rw [AList.lookup_insert_ne hk] at hlookup
          exact h.sessions k session hlookup

variable [DecidableEq ι]

/-- A client opens its socket at a free address. -/
theorem Inv.opens (h : net.Inv adler32) {i : ι} (hclosed : (net.clients i).socket = false)
    (address : InetAddress) : (net.opens i address).Inv adler32 := by
  have hne : ∀ j, (net.clients j).socket = true →
      (net.opens i address).addresses j = net.addresses j := by
    intro j hj
    refine Function.update_of_ne (fun heq => ?_) _ _
    rw [heq, hclosed] at hj
    cases hj
  refine ⟨h.isOpen, fun j k hj hk heq => ?_, fun j sessionId hcurrent => ?_, h.acknowledged,
    h.pending, h.posted, h.sessions⟩
  · rw [hne j hj, hne k hk] at heq
    exact h.distinct j k hj hk heq
  · have hsome : (net.clients j).session.isSome := by
      rw [← Option.isSome_map (f := KCPSession.sessionId)]
      exact Option.isSome_of_mem hcurrent
    have hoffered := h.held j sessionId hcurrent
    rw [← hne j (h.isOpen j hsome).2] at hoffered
    exact hoffered

/-- A client handles an event: a datagram for its address, a connect at an address that is free, or
one of its own. -/
theorem Inv.clientHandles (h : net.Inv adler32) {i : ι} {event : ClientEvent}
    (hsafe : .nullDereference ∉ ((net.clients i).handle adler32 event).2)
    (hsent : ∀ input, event = .packet input → (net.addresses i, input.data) ∈ net.toClients)
    (hfree : ∀ address now, event = .connect address now → ∀ j, j ≠ i →
      (net.clients j).socket = true → net.addresses j ≠ net.addresses i) :
    (net.clientHandles adler32 i event).Inv adler32 := by
  have hanswers : KCPClient.Answers adler32 (net.clients i) event
      ((net.clients i).handle adler32 event) := KCPClient.handle_answers (net.clients i) event
  unfold KCPNetwork.clientHandles
  generalize (net.clients i).handle adler32 event = result at hanswers hsafe ⊢
  obtain ⟨client, effects⟩ := result
  dsimp only at hsafe ⊢
  have hself : Function.update net.clients i client i = client := Function.update_self _ _ _
  have hother : ∀ j, j ≠ i → Function.update net.clients i client j = net.clients j :=
    fun j hj => Function.update_of_ne hj _ _
  have hheld : ∀ sessionId, client.currentId = some sessionId →
      net.Offered adler32 (net.addresses i) sessionId := by
    intro sessionId hcurrent
    rcases hanswers.current with hnone | hsame | ⟨input, sessionId', hpacket, -, hkind, hjoined⟩
    · exact absurd (hnone.symm.trans hcurrent) nofun
    · exact h.held i sessionId (hsame.symm.trans hcurrent)
    · cases hjoined.symm.trans hcurrent
      exact ⟨input.data, hsent input hpacket, hkind⟩
  have hmono : ∀ datagram ∈ net.toServer, datagram ∈ net.toServer ++
      (effects.filterMap (ClientEffect.datagram adler32)).map fun data =>
        (net.addresses i, data) := fun _ => List.mem_append_left _
  -- a client that opens its socket does so at an address of its own
  have hapart : ∀ j, j ≠ i → (net.clients j).socket = true → client.socket = true →
      net.addresses j ≠ net.addresses i := by
    intro j hj hopen hsocket heq
    rcases hanswers.socket hsocket with hold | ⟨address, now, hconnect⟩
    · exact hj (h.distinct j i hopen hold heq)
    · exact hfree address now hconnect j hj hopen heq
  constructor
  · intro j
    dsimp only
    by_cases hj : j = i
    · rw [hj, hself]
      exact hanswers.isOpen hsafe (h.isOpen i)
    · rw [hother j hj]
      exact h.isOpen j
  · intro j k hopenj hopenk heq
    dsimp only at hopenj hopenk heq
    by_cases hj : j = i
    · by_cases hk : k = i
      · rw [hj, hk]
      · rw [hj, hself] at hopenj
        rw [hother k hk] at hopenk
        exact absurd (hj ▸ heq).symm (hapart k hk hopenk hopenj)
    · rw [hother j hj] at hopenj
      by_cases hk : k = i
      · rw [hk, hself] at hopenk
        exact absurd (hk ▸ heq) (hapart j hj hopenj hopenk)
      · rw [hother k hk] at hopenk
        exact h.distinct j k hopenj hopenk heq
  · intro j sessionId hcurrent
    dsimp only at hcurrent
    by_cases hj : j = i
    · subst hj
      rw [hself] at hcurrent
      exact hheld sessionId hcurrent
    · rw [hother j hj] at hcurrent
      exact h.held j sessionId hcurrent
  · rintro address sessionId ⟨data, type, hmem, hkind, hack⟩
    rcases List.mem_append.mp hmem with hold | hnew
    · exact h.acknowledged address sessionId ⟨data, type, hold, hkind, hack⟩
    · obtain ⟨data', hdata, heq⟩ := List.mem_map.mp hnew
      obtain ⟨rfl, rfl⟩ := Prod.mk.inj heq
      obtain ⟨effect, heffect, hdatagram⟩ := List.mem_filterMap.mp hdata
      cases effect with
      | send packetType sessionId' =>
          cases hdatagram
          rw [datagramKind_packetBytes] at hkind
          cases hkind
          rcases hanswers.sends _ _ heffect hack with hcurrent | hcurrent
          · exact h.held i sessionId hcurrent
          · exact hheld sessionId hcurrent
      | reconnectAfter delay => cases hdatagram
      | assertFailed function => cases hdatagram
      | nullDereference => cases hdatagram
  · exact h.pending
  · exact fun sessionId packet address hmem => (h.posted sessionId packet address hmem).mono hmono
  · intro sessionId session hlookup
    exact (h.sessions sessionId session hlookup).imp_right fun hack => hack.mono hmono

variable {random : KCPNetwork ι → List (Option UInt32) → Prop}

/-- Every step of the network keeps the invariant. -/
theorem Inv.step (h : net.Inv adler32) {net' : KCPNetwork ι}
    (hstep : Step adler32 random net net') : net'.Inv adler32 := by
  cases hstep with
  | connect i address serverAddress now hclosed hfree =>
      refine (h.opens hclosed address).clientHandles ?_ nofun fun _ _ _ j hj hopen => ?_
      · have hclosed' : ((net.opens i address).clients i).socket = false := hclosed
        unfold KCPClient.handle
        dsimp only
        rw [hclosed', if_neg Bool.false_ne_true]
        unfold KCPClient.connect KCPClient.buildSession KCPClient.sendPacket
        dsimp only
        split
        · contradiction
        split
        · simp
        · simp
      · have hsame : (net.opens i address).addresses j = net.addresses j :=
          Function.update_of_ne hj _ _
        have hself : (net.opens i address).addresses i = address := Function.update_self _ _ _
        rw [hsame, hself]
        exact hfree j hopen
  | client i event hinternal hsafe =>
      refine h.clientHandles hsafe (fun input heq => ?_) fun _ _ heq => ?_
      · rw [heq] at hinternal
        exact hinternal.elim
      · rw [heq] at hinternal
        exact hinternal.elim
  | clientPacket i input hsent hsafe =>
      refine h.clientHandles hsafe (fun input' heq => ?_) nofun
      cases heq
      exact hsent
  | clientSends i session body hsession => exact h.clientSends hsession body
  | server event hinternal => exact h.serverInternal hinternal
  | serverPacket input hsent hrandom => exact h.serverPacket hsent
  | serverSends address sessionId body =>
      have hmono : ∀ datagram ∈ net.toClients,
          datagram ∈ (net.serverSends adler32 address sessionId body).toClients :=
        fun _ => List.mem_append_left _
      exact ⟨h.isOpen, h.distinct, fun i k hcurrent => (h.held i k hcurrent).mono hmono,
        fun a k hack => (h.acknowledged a k hack).mono hmono,
        fun key pending hlookup => (h.pending key pending hlookup).imp_right fun hoffered =>
          hoffered.mono hmono, h.posted, h.sessions⟩

/-- The invariant holds in every reachable network. -/
theorem Reachable.inv (h : net.Reachable adler32 random) : net.Inv adler32 := by
  obtain ⟨callbacks, clientCallbacks, addresses, hrun⟩ := h
  induction hrun with
  | refl => exact inv_start callbacks clientCallbacks addresses
  | tail _ hstep ih => exact ih.step hstep

/-- A client asks the server for a session, from an address. -/
def asks (net : KCPNetwork ι) (i : ι) (address : InetAddress) : KCPNetwork ι :=
  (net.opens i address).clientHandles Zlib.adler32 i (.connect ⟨"10.0.0.9:1"⟩ 1)

/-- The server gets the request and sends an id. -/
def offers (net : KCPNetwork ι) (address : InetAddress) (sessionId : UInt32) : KCPNetwork ι :=
  net.serverHandles Zlib.adler32 (.packet
    { data := packetBytes Zlib.adler32 .syn 0 [], clientAddress := address, now := 2,
      rand := [some sessionId] })

/-- The client gets the id and acknowledges it. -/
def joins (net : KCPNetwork ι) (i : ι) (sessionId : UInt32) : KCPNetwork ι :=
  net.clientHandles Zlib.adler32 i (.packet
    { data := packetBytes Zlib.adler32 .syn sessionId [], now := 3 })

/-- The server gets the acknowledgement. -/
def settles (net : KCPNetwork ι) (address : InetAddress) (sessionId : UInt32) : KCPNetwork ι :=
  net.serverHandles Zlib.adler32 (.packet
    { data := packetBytes Zlib.adler32 .ack sessionId [], clientAddress := address, now := 4 })

/-- A client comes into a session. -/
def handshake (net : KCPNetwork ι) (i : ι) (address : InetAddress) (sessionId : UInt32) :
    KCPNetwork ι :=
  (((net.asks i address).offers address sessionId).joins i sessionId).settles address sessionId

/-- A random source that gives only what was never sent. -/
def unsentIds (net : KCPNetwork ι) (rand : List (Option UInt32)) : Prop :=
  ∀ sessionId, some sessionId ∈ rand → ∀ address, ¬ net.Offered Zlib.adler32 address sessionId

/-- The four steps of a handshake. -/
theorem Reachable.handshake (h : net.Reachable Zlib.adler32 unsentIds) {i : ι}
    {address : InetAddress} {sessionId : UInt32} (hclosed : (net.clients i).socket = false)
    (hfree : ∀ j, (net.clients j).socket = true → net.addresses j ≠ address)
    (hasked : (address, packetBytes Zlib.adler32 .syn 0 []) ∈ (net.asks i address).toServer)
    (hnew : ∀ entry ∈ (net.asks i address).toClients,
      datagramKind Zlib.adler32 entry.2 ≠ some (.syn, sessionId))
    (hoffered : (((net.asks i address).offers address sessionId).addresses i,
      packetBytes Zlib.adler32 .syn sessionId []) ∈
        ((net.asks i address).offers address sessionId).toClients)
    (hsafe : .nullDereference ∉ ((((net.asks i address).offers address sessionId).clients i).handle
      Zlib.adler32
      (.packet { data := packetBytes Zlib.adler32 .syn sessionId [], now := 3 })).2)
    (hacked : (address, packetBytes Zlib.adler32 .ack sessionId []) ∈
      (((net.asks i address).offers address sessionId).joins i sessionId).toServer) :
    (net.handshake i address sessionId).Reachable Zlib.adler32 unsentIds := by
  obtain ⟨callbacks, clientCallbacks, addresses, hrun⟩ := h
  have hasks : Step Zlib.adler32 unsentIds net (net.asks i address) :=
    .connect i address ⟨"10.0.0.9:1"⟩ 1 hclosed hfree
  have hunsent : unsentIds (net.asks i address) [some sessionId] := by
    intro k hk a
    rw [Option.some.inj (List.mem_singleton.mp hk)]
    rintro ⟨data, hmem, hkind⟩
    exact hnew _ hmem hkind
  have hoffers : Step Zlib.adler32 unsentIds (net.asks i address)
      ((net.asks i address).offers address sessionId) :=
    .serverPacket _ hasked hunsent
  have hjoins : Step Zlib.adler32 unsentIds ((net.asks i address).offers address sessionId)
      (((net.asks i address).offers address sessionId).joins i sessionId) :=
    .clientPacket i _ hoffered hsafe
  have hsettles : Step Zlib.adler32 unsentIds
      (((net.asks i address).offers address sessionId).joins i sessionId)
      ((((net.asks i address).offers address sessionId).joins i sessionId).settles address
        sessionId) :=
    .serverPacket _ hacked fun _ hrand => absurd hrand List.not_mem_nil
  exact ⟨callbacks, clientCallbacks, addresses,
    .tail (.tail (.tail (.tail hrun hasks) hoffers) hjoins) hsettles⟩

/-- The address of a client. -/
def sampleAddress : InetAddress := ⟨"10.0.0.1:7"⟩

/-- Two clients, with no datagram sent. -/
def newNetwork : KCPNetwork Bool := start {} (fun _ => {}) fun _ => ⟨""⟩

/-- The first client has come into session 7. -/
def joinedNetwork : KCPNetwork Bool := newNetwork.handshake false sampleAddress 7

/-- The second one has come into session 8. -/
def sampleNetwork : KCPNetwork Bool := joinedNetwork.handshake true ⟨"10.0.0.2:7"⟩ 8

/-- The network with the first client in its session comes about by steps. -/
theorem joinedNetwork_reachable : joinedNetwork.Reachable Zlib.adler32 unsentIds := by
  have hstart : newNetwork.Reachable Zlib.adler32 unsentIds := ⟨{}, _, _, .refl⟩
  exact hstart.handshake (by decide +kernel) (by decide +kernel) (by decide +kernel)
    (by decide +kernel) (by decide +kernel) (by decide +kernel) (by decide +kernel)

/-- So does the network with both clients in theirs. -/
theorem sampleNetwork_reachable : sampleNetwork.Reachable Zlib.adler32 unsentIds :=
  joinedNetwork_reachable.handshake (by decide +kernel) (by decide +kernel) (by decide +kernel)
    (by decide +kernel) (by decide +kernel) (by decide +kernel) (by decide +kernel)

/-- The first client and the server are in session 7, and the second client is in session 8. -/
theorem sampleNetwork_sessions :
    ((sampleNetwork.clients false).session.map KCPSession.sessionId = some 7) ∧
      ((sampleNetwork.server.sessionMap.lookup 7).map KCPSession.peerAddress =
        some sampleAddress) ∧
      ((sampleNetwork.clients true).session.map KCPSession.sessionId = some 8) := by
  decide +kernel

/-- A client is only in a session whose id the server has sent to its address. The server has a
session only under its own id, and with a peer that this id was sent to and that has acknowledged
it. -/
theorem session_agreement (h : net.Reachable adler32 random) :
    (∀ i session, (net.clients i).session = some session →
      net.Offered adler32 (net.addresses i) session.sessionId) ∧
    ∀ sessionId session, net.server.sessionMap.lookup sessionId = some session →
      session.sessionId = sessionId ∧ net.Acknowledged adler32 session.peerAddress sessionId ∧
        net.Offered adler32 session.peerAddress sessionId := by
  have hinv := h.inv
  refine ⟨fun i session hsession => hinv.held i session.sessionId ?_,
    fun sessionId session hlookup => ?_⟩
  · rw [KCPClient.currentId, hsession]
    rfl
  · obtain ⟨hid, hack⟩ := hinv.sessions sessionId session hlookup
    exact ⟨hid, hack, hinv.acknowledged _ _ hack⟩

/-- There the first client was offered session 7, and the server has its acknowledgement. -/
theorem session_agreement_sample :
    sampleNetwork.Offered Zlib.adler32 sampleAddress 7 ∧
      ∃ session, sampleNetwork.server.sessionMap.lookup 7 = some session ∧
        sampleNetwork.Acknowledged Zlib.adler32 session.peerAddress 7 := by
  obtain ⟨session, hsession, hid⟩ := Option.map_eq_some_iff.mp sampleNetwork_sessions.1
  obtain ⟨session', hlookup, -⟩ := Option.map_eq_some_iff.mp sampleNetwork_sessions.2.1
  obtain ⟨hclient, hserver⟩ := session_agreement sampleNetwork_reachable
  exact ⟨hid ▸ hclient false session hsession, session', hlookup, (hserver 7 session' hlookup).2.1⟩

variable (adler32) in
/-- No id is sent to two addresses. -/
def Single (net : KCPNetwork ι) : Prop :=
  ∀ a b sessionId, net.Offered adler32 a sessionId → net.Offered adler32 b sessionId → a = b

omit [DecidableEq ι] in
/-- The ids that were not sent before all go to one address, and nobody has got them yet. -/
theorem Single.of_new (h : net.Single adler32) {net' : KCPNetwork ι} (address : InetAddress)
    (hnew : ∀ a sessionId, net'.Offered adler32 a sessionId → net.Offered adler32 a sessionId ∨
      a = address ∧ ∀ b, ¬ net.Offered adler32 b sessionId) : net'.Single adler32 := by
  intro a b sessionId ha hb
  rcases hnew a sessionId ha with holda | ⟨hnewa, hnobody⟩
  · rcases hnew b sessionId hb with holdb | ⟨-, hnobody⟩
    · exact h a b sessionId holda holdb
    · exact absurd holda (hnobody a)
  · rcases hnew b sessionId hb with holdb | ⟨hnewb, -⟩
    · exact absurd holdb (hnobody b)
    · rw [hnewa, hnewb]

omit [DecidableEq ι] in
/-- What the server has sent after an event. -/
theorem offered_serverHandles {event : ServerEvent} {a : InetAddress} {sessionId : UInt32}
    (h : (net.serverHandles adler32 event).Offered adler32 a sessionId) :
    net.Offered adler32 a sessionId ∨
      .send .syn sessionId a ∈ (net.server.handle adler32 event).2 := by
  obtain ⟨data, hmem, hkind⟩ := h
  rcases List.mem_append.mp hmem with hold | hnew
  · exact Or.inl ⟨data, hold, hkind⟩
  · obtain ⟨effect, heffect, hdatagram⟩ := List.mem_filterMap.mp hnew
    cases effect with
    | send packetType sessionId' address =>
        cases hdatagram
        rw [datagramKind_packetBytes] at hkind
        cases hkind
        exact Or.inr heffect
    | processPacket sessionId' packet address => cases hdatagram
    | close sessionId' => cases hdatagram
    | assertFailed => cases hdatagram

variable (adler32) in
/-- The random source of the server does not lead it to an id that was sent before. -/
def Unrepeated (random : KCPNetwork ι → List (Option UInt32) → Prop) : Prop :=
  ∀ net rand sessionId, random net rand → net.server.generateSessionId rand = some sessionId →
    ∀ address, ¬ net.Offered adler32 address sessionId

/-- Under fresh random values no step makes two sessions share an id. -/
theorem Single.step (h : net.Single adler32) (hinv : net.Inv adler32)
    (hrandom : Unrepeated adler32 random) {net' : KCPNetwork ι}
    (hstep : Step adler32 random net net') : net'.Single adler32 := by
  cases hstep with
  | connect i address serverAddress now hclosed hfree => exact h
  | client i event hinternal hsafe => exact h
  | clientPacket i input hsent hsafe => exact h
  | clientSends i session body hsession => exact h
  | server event hinternal =>
      refine h.of_new ⟨""⟩ fun a sessionId hoffered => Or.inl ?_
      refine (offered_serverHandles hoffered).elim id fun hsend => ?_
      cases event with
      | packet input => exact hinternal.elim
      | periodicTask now =>
          rcases net.server.runPeriodicTask_effects now _ hsend with ⟨key, pending, hpending, heq⟩ |
            ⟨k, heq⟩
          · cases heq
            exact (hinv.pending key pending hpending).2
          · cases heq
      | session k task now => cases hsend
  | serverPacket input hsent hdraw =>
      refine h.of_new input.clientAddress fun a sessionId hoffered => ?_
      refine (offered_serverHandles hoffered).elim Or.inl fun hsend => ?_
      obtain ⟨rfl, ⟨pending, hpending, rfl⟩ | hid⟩ :=
        (net.server.processPacket_serves input).sends sessionId a hsend
      · obtain ⟨hkey, hoffered⟩ := hinv.pending _ pending hpending
        have hpeer : input.clientAddress = pending.peerAddress := by
          cases hclient : input.clientAddress
          cases hpeer : pending.peerAddress
          rw [hclient, hpeer] at hkey
          exact congrArg InetAddress.mk hkey
        rw [hpeer]
        exact Or.inl hoffered
      · exact Or.inr ⟨rfl, hrandom net input.rand sessionId hdraw hid⟩
  | serverSends address k body =>
      refine h.of_new ⟨""⟩ fun a sessionId ⟨data, hmem, hkind⟩ => Or.inl ?_
      rcases List.mem_append.mp hmem with hold | hnew
      · exact ⟨data, hold, hkind⟩
      · obtain ⟨rfl, rfl⟩ := Prod.mk.inj (List.mem_singleton.mp hnew)
        rw [datagramKind_packetBytes] at hkind
        cases hkind

/-- When the random source does not repeat an id, no two clients are in sessions with the same id,
and a session of the server has the client as its peer that is in it, if there is one. -/
theorem session_single (hrandom : Unrepeated adler32 random) (h : net.Reachable adler32 random)
    {i : ι} {session : KCPSession} (hi : (net.clients i).session = some session) :
    (∀ j session', (net.clients j).session = some session' →
      session'.sessionId = session.sessionId → j = i) ∧
    ∀ session', net.server.sessionMap.lookup session.sessionId = some session' →
      session'.peerAddress = net.addresses i := by
  have hinv := h.inv
  have hsingle : net.Single adler32 := by
    obtain ⟨callbacks, clientCallbacks, addresses, hrun⟩ := h
    clear hi hinv
    induction hrun with
    | refl => exact fun a b k ⟨data, hmem, hkind⟩ => absurd hmem List.not_mem_nil
    | tail hbefore hstep ih =>
        exact ih.step (Reachable.inv ⟨callbacks, clientCallbacks, addresses, hbefore⟩) hrandom hstep
  have hheld : ∀ j session', (net.clients j).session = some session' →
      net.Offered adler32 (net.addresses j) session'.sessionId ∧
        (net.clients j).socket = true := by
    intro j session' hj
    refine ⟨hinv.held j _ ?_, (hinv.isOpen j (by rw [hj]; rfl)).2⟩
    rw [KCPClient.currentId, hj]
    rfl
  obtain ⟨hoffered, hopen⟩ := hheld i session hi
  refine ⟨fun j session' hj hid => ?_, fun session' hlookup => ?_⟩
  · obtain ⟨hoffered', hopen'⟩ := hheld j session' hj
    rw [hid] at hoffered'
    exact hinv.distinct j i hopen' hopen (hsingle _ _ _ hoffered' hoffered)
  · obtain ⟨-, hack⟩ := hinv.sessions _ session' hlookup
    exact hsingle _ _ _ (hinv.acknowledged _ _ hack) hoffered

omit [DecidableEq ι] in
/-- What was never sent is not sent again. -/
theorem unsentIds_unrepeated : Unrepeated Zlib.adler32 (@unsentIds ι) := by
  intro net rand sessionId hrandom hid
  rw [KCPServer.generateSessionId_eq] at hid
  refine hrandom sessionId ?_
  have hmem := List.mem_of_find?_eq_some hid
  exact List.mem_of_mem_take (List.reduceOption_mem_iff.mp hmem)

/-- The two clients are in different sessions, and the peer of session 7 is the first one. -/
theorem session_single_sample : ∃ first second session,
    (sampleNetwork.clients false).session = some first ∧
      (sampleNetwork.clients true).session = some second ∧
      first.sessionId ≠ second.sessionId ∧
      sampleNetwork.server.sessionMap.lookup 7 = some session ∧
      session.peerAddress = sampleNetwork.addresses false := by
  obtain ⟨first, hfirst, hid⟩ := Option.map_eq_some_iff.mp sampleNetwork_sessions.1
  obtain ⟨session, hlookup, -⟩ := Option.map_eq_some_iff.mp sampleNetwork_sessions.2.1
  obtain ⟨second, hsecond, -⟩ := Option.map_eq_some_iff.mp sampleNetwork_sessions.2.2
  have hsingle := session_single unsentIds_unrepeated sampleNetwork_reachable hfirst
  refine ⟨first, second, session, hfirst, hsecond, fun heq => ?_, hlookup, ?_⟩
  · have hsame := hsingle.1 true second hsecond heq.symm
    exact absurd hsame (by decide)
  · exact hsingle.2 session (hid.symm ▸ hlookup)

end CodeBlocks.Kcp.KCPNetwork
