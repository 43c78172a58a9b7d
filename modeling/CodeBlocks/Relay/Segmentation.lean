import CodeBlocks.Relay.Ledger

/-!
# Segmentation of the relay's input

One client and what the relay makes of the bytes that it sends, however they are
cut into reads and whenever its host name is resolved and its target connected.
Until the request is complete everything that has arrived waits in the input
buffer and is deciphered anew by every read; from then on only what is new.
-/

namespace CodeBlocks.Relay

/-- What one `read` can bring at most. -/
abbrev maxRead : Nat := 0x7ffff000

/-- A read is shorter than the sign bit of an `int`. -/
theorem maxRead_lt : maxRead < 2 ^ 31 := by decide

/-- An event of a client that sends bytes, of the resolver or of a target that is connected. -/
def RelayEvent.FromClient (name : String) : RelayEvent → Prop
  | .read other bytes _ => other = name ∧ bytes ≠ [] ∧ bytes.length ≤ maxRead
  | .answer _ _ => True
  | .targetUp _ => True
  | _ => False

/-- The bytes that an event brings. -/
def RelayEvent.bytes : RelayEvent → List UInt8
  | .read _ bytes _ => bytes
  | _ => []

/-- Everything that the client has sent. -/
def received (events : List RelayEvent) : List UInt8 := events.flatMap RelayEvent.bytes

/-- What the client has written: the deciphered stream behind the initialization vector. -/
def plaintext (cipher : StreamCipher) (stream : List UInt8) : List UInt8 :=
  (cipher.update (cipher.init (stream.take cipher.ivLength)) (stream.drop cipher.ivLength)).2

/-- The decryptor after the stream. -/
def decryptorAfter (cipher : StreamCipher) (stream : List UInt8) : cipher.State :=
  (cipher.update (cipher.init (stream.take cipher.ivLength)) (stream.drop cipher.ivLength)).1

variable {cipher : StreamCipher}

/-- Bytes that follow the initialization vector are decrypted on from the state reached. -/
theorem plaintext_append (hcipher : cipher.IsStream) {stream : List UInt8}
    (hlen : cipher.ivLength ≤ stream.length) (bytes : List UInt8) :
    plaintext cipher (stream ++ bytes) =
      plaintext cipher stream ++ (cipher.update (decryptorAfter cipher stream) bytes).2 := by
  unfold plaintext decryptorAfter
  rw [List.take_append_of_le_length hlen, List.drop_append_of_le_length hlen, hcipher.append]

/-- And the state moves on with them. -/
theorem decryptorAfter_append (hcipher : cipher.IsStream) {stream : List UInt8}
    (hlen : cipher.ivLength ≤ stream.length) (bytes : List UInt8) :
    decryptorAfter cipher (stream ++ bytes) =
      (cipher.update (decryptorAfter cipher stream) bytes).1 := by
  unfold decryptorAfter
  rw [List.take_append_of_le_length hlen, List.drop_append_of_le_length hlen, hcipher.append]

/-- Before the initialization vector is complete there is no plaintext. -/
theorem plaintext_of_short (hcipher : cipher.IsStream) {stream : List UInt8}
    (hlen : stream.length ≤ cipher.ivLength) : plaintext cipher stream = [] := by
  unfold plaintext
  rw [List.drop_eq_nil_of_le hlen]
  exact List.eq_nil_of_length_eq_zero (hcipher.length _ [])

/-- A complete request lies behind the initialization vector. -/
theorem ivLength_le_of_request (hcipher : cipher.IsStream) {stream : List UInt8}
    {request : Request} (h : requestOf (plaintext cipher stream) = some request) :
    cipher.ivLength ≤ stream.length := by
  by_contra hlen
  rw [plaintext_of_short hcipher (by omega)] at h
  cases h

/-- `Decrypt` on a length that a C `int` holds. -/
theorem decrypt_eq (hcipher : cipher.IsStream) (m : ServerConnMeta cipher.State)
    {data : List UInt8} (hlen : data.length < 2 ^ 31) :
    m.decrypt data = (decide (data ≠ []),
      { m with
        decryptor := (cipher.update m.decryptor data).1
        buf := m.buf ++ (cipher.update m.decryptor data).2 }) := by
  unfold ServerConnMeta.decrypt
  rw [staticCastInt_eq hlen]
  simp only [Int.toNat_natCast, List.take_length, hcipher.length, le_refl, decide_true,
    Bool.and_true]
  cases data <;> simp

/-- A length that a C `int` does not hold fails the assertion of `Decrypt`. -/
theorem decrypt_of_large (m : ServerConnMeta cipher.State) {data : List UInt8}
    (hlow : 2 ^ 31 ≤ data.length) (hhigh : data.length < 2 ^ 32) : (m.decrypt data).1 = false := by
  have hneg : staticCastInt data.length < 0 := by
    unfold staticCastInt
    rw [Int32.toInt_ofNat', show Int32.size = 2 ^ 32 from rfl, Int.bmod_def]
    omega
  have hassert : decide (staticCastInt data.length > 0) = false := decide_eq_false (by omega)
  unfold ServerConnMeta.decrypt
  simp only [hassert, Bool.false_and]

/-- What the requests asked for, in the order in which they were complete. -/
def requestsOf (effects : List RelayEffect) : List (List UInt8 × UInt16) :=
  effects.filterMap fun
    | .parsed _ hostname port => some (hostname, port)
    | _ => none

/-- The requests are made one after another. -/
@[simp] theorem requestsOf_append (effects more : List RelayEffect) :
    requestsOf (effects ++ more) = requestsOf effects ++ requestsOf more := List.filterMap_append

namespace TCPRelayServer

/-- The request is not complete, and everything that has arrived waits. -/
structure Waiting (server : TCPRelayServer cipher) (name : String) (stream : List UInt8) :
    Prop where
  conns : server.conns.lookup name = some { inputBuffer := stream }
  size : stream.length < cipher.ivLength + 2 ^ 31
  request : requestOf (plaintext cipher stream) = none
  metas : server.metas = []
  localMetaList : server.localMetaList.lookup name = none
  queries : server.queries = []
  tunnels : server.tunnels = []
  requests : requestsOf server.effects = []
  asserts : .assertFailed ∉ server.effects

/-- How far the tunnel of a complete request is, and where the bytes behind the request are. -/
inductive Carried (server : TCPRelayServer cipher) (name : String) (rest buf : List UInt8) :
    Option Nat → Prop
  | asked (hostname : List UInt8) (hqueries : server.queries = [⟨hostname, 0⟩])
      (htunnels : server.tunnels = []) (hbuf : buf = rest) : Carried server name rest buf none
  | connecting (addr : UInt32 × UInt16) (hqueries : server.queries = [])
      (htunnels : server.tunnels =
        [{ serverConnMeta := 0, serverConn := name, serverAddr := addr }])
      (hbuf : buf = rest) : Carried server name rest buf none
  | connected (addr : UInt32 × UInt16) (hqueries : server.queries = [])
      (htunnels : server.tunnels =
        [{ serverConnMeta := 0, serverConn := name, serverAddr := addr,
           target := .connected, forwarded := rest }])
      (hbuf : buf = []) : Carried server name rest buf (some 0)

/-- The request is complete. -/
structure Relaying (server : TCPRelayServer cipher) (name : String) (stream : List UInt8)
    (request : Request) : Prop where
  complete : requestOf (plaintext cipher stream) = some request
  localMetaList : server.localMetaList.lookup name = some 0
  requests : requestsOf server.effects = [(request.hostname, request.port)]
  asserts : .assertFailed ∉ server.effects
  carried : ∃ m context, server.metas = [m] ∧ m.conn = name ∧
    m.decryptor = decryptorAfter cipher stream ∧
    server.conns.lookup name = some { context := context } ∧
    server.Carried name request.rest m.buf context

/-- What the relay has made of a stream. -/
def Follows (server : TCPRelayServer cipher) (name : String) (stream : List UInt8) : Prop :=
  server.Waiting name stream ∨ ∃ request, server.Relaying name stream request

/-- A read that finds the request incomplete does not end with the initialization vector, and what
waits behind it has a length that a C `int` holds. -/
def ReadsClear (server : TCPRelayServer cipher) : RelayEvent → Prop
  | .read name bytes _ => ∀ conn, server.conns.lookup name = some conn →
    name ∉ server.localMetaList →
      (conn.inputBuffer ++ bytes).length ≠ cipher.ivLength ∧
        (conn.inputBuffer ++ bytes).length < cipher.ivLength + 2 ^ 31
  | _ => True

variable {server : TCPRelayServer cipher}

/-- Resolving a name takes no effect back. -/
theorem resolve_effects (hostname : List UInt8) (connMeta : Nat)
    (answer : Option (Option Hostent)) :
    server.effects ⊆ (server.resolve hostname connMeta answer).effects := by
  unfold resolve
  cases answer with
  | none => exact List.Subset.refl _
  | some result =>
      dsimp only
      rw [onQueryResult_eq]
      unfold resolveCallback
      split
      · exact List.subset_append_left _ _
      · exact List.Subset.trans (List.subset_append_left _ _) (List.subset_append_left _ _)

/-- Neither does an assertion. -/
theorem assert_effects (server : TCPRelayServer cipher) (condition : Bool) :
    server.effects ⊆ (server.assert condition).effects := by
  unfold assert
  split
  · exact List.Subset.refl _
  · exact List.subset_append_left _ _

/-- A first read fails the assertions of `Decrypt` for good. -/
theorem onFirstData_effects (name : String) {conn : Connection}
    (answer : Option (Option Hostent))
    (hlen : cipher.ivLength ≤ conn.inputBuffer.length) :
    (server.assert (ServerConnMeta.decrypt
      { conn := name, iv := conn.inputBuffer.take cipher.ivLength,
        decryptor := cipher.init (conn.inputBuffer.take cipher.ivLength) }
      (conn.inputBuffer.drop cipher.ivLength)).1).effects ⊆
    (server.onFirstData name conn answer).effects := by
  unfold onFirstData
  rw [if_neg (by omega)]
  dsimp only
  generalize ServerConnMeta.decrypt _ _ = first
  split
  · refine List.Subset.trans ?_ (resolve_effects _ _ answer)
    exact List.subset_append_left _ _
  · exact List.Subset.refl _

/-- Neither do bytes that arrive. -/
theorem onServerMessage_effects (server : TCPRelayServer cipher) (name : String)
    (conn : Connection) (answer : Option (Option Hostent)) :
    server.effects ⊆ (server.onServerMessage name conn answer).effects := by
  unfold onServerMessage
  split
  · by_cases hlen : cipher.ivLength ≤ conn.inputBuffer.length
    · exact List.Subset.trans (server.assert_effects _) (onFirstData_effects name answer hlen)
    · unfold onFirstData
      rw [if_pos (by omega)]
      exact List.Subset.refl _
  · unfold onMoreData
    split
    · exact List.Subset.refl _
    · rename_i m hm
      have hassert := server.assert_effects (m.decrypt conn.inputBuffer).1
      dsimp only
      split
      · exact hassert
      · exact hassert

/-- Setting the context of a connection has no effect outside. -/
theorem setContext_effects (name : String) (context : Option Nat) :
    (server.setContext name context).effects = server.effects := by
  unfold setContext
  split <;> rfl

/-- What has happened stays. -/
theorem step_effects (event : RelayEvent) : server.effects ⊆ (server.step event).effects := by
  cases event with
  | up name =>
      simp only [step]
      split
      · exact List.Subset.refl _
      · exact List.Subset.refl _
  | down name =>
      simp only [step]
      split
      · exact List.Subset.refl _
      split
      · unfold onServerDown
        split
        · dsimp only
          split
          · exact List.Subset.refl _
          · exact List.subset_append_left _ _
        · exact List.Subset.refl _
      · exact List.Subset.refl _
  | read name bytes answer =>
      simp only [step]
      split
      · exact List.Subset.refl _
      rename_i conn hconn
      split
      · generalize { conn with inputBuffer := conn.inputBuffer ++ bytes } = longer
        exact (server.setConn name longer).onServerMessage_effects name longer answer
      · exact List.Subset.refl _
  | answer query result =>
      simp only [step]
      split
      · exact List.Subset.refl _
      · rw [onQueryResult_eq]
        unfold resolveCallback
        split
        · exact List.subset_append_left _ _
        · exact List.Subset.trans (List.subset_append_left _ _) (List.subset_append_left _ _)
  | targetUp t =>
      simp only [step]
      split
      · exact List.Subset.refl _
      split
      · unfold onClientUp
        dsimp only
        split
        · rw [setContext_effects]
          exact List.Subset.refl _
        · rw [setContext_effects]
          exact List.Subset.refl _
      · exact List.Subset.refl _
  | targetDown t =>
      simp only [step]
      split
      · exact List.Subset.refl _
      split
      · unfold onClientDown log
        rw [setContext_effects]
        exact List.subset_append_left _ _
      · exact List.Subset.refl _

/-- A read of a connection that has made no request. -/
theorem Waiting.step_read {name : String} {stream : List UInt8} (h : server.Waiting name stream)
    {bytes : List UInt8} (hbytes : bytes ≠ []) (answer : Option (Option Hostent)) :
    server.step (.read name bytes answer) =
      (server.setConn name { inputBuffer := stream ++ bytes }).onFirstData name
        { inputBuffer := stream ++ bytes } answer := by
  simp only [step, h.conns]
  rw [if_pos ⟨trivial, hbytes⟩, onServerMessage]
  have hmeta : (server.setConn name { inputBuffer := stream ++ bytes }).localMetaList.lookup name =
      none := h.localMetaList
  rw [hmeta]

/-- A read that is too short for the initialization vector changes only the buffer. -/
theorem Waiting.wait {name : String} {stream : List UInt8} (h : server.Waiting name stream)
    {longer : List UInt8} (hsize : longer.length < cipher.ivLength + 2 ^ 31)
    (hrequest : requestOf (plaintext cipher longer) = none) :
    (server.setConn name { inputBuffer := longer }).Waiting name longer :=
  ⟨AList.lookup_insert _, hsize, hrequest, h.metas, h.localMetaList, h.queries, h.tunnels,
    h.requests, h.asserts⟩

@[simp] theorem assert_true (server : TCPRelayServer cipher) : server.assert true = server := rfl

/-- A request that is complete is resolved, and its metadata kept. -/
theorem Waiting.relaying {name : String} {stream longer : List UInt8} {request : Request}
    {m : ServerConnMeta cipher.State} (h : server.Waiting name stream)
    (hrequest : requestOf (plaintext cipher longer) = some request)
    (hconn : (m.withRequest request).conn = name)
    (hdecryptor : (m.withRequest request).decryptor = decryptorAfter cipher longer)
    (answer : Option (Option Hostent)) :
    ((server.setConn name { inputBuffer := longer }).onRequest name { inputBuffer := longer }
      (m.withRequest request) answer).Relaying name longer request := by
  cases answer with
  | none =>
      have hresolve : (server.setConn name { inputBuffer := longer }).onRequest name
          { inputBuffer := longer } (m.withRequest request) none =
          { server with
            conns := AList.insert name {} (AList.insert name { inputBuffer := longer } server.conns)
            metas := [m.withRequest request]
            localMetaList := AList.insert name 0 server.localMetaList
            queries := [⟨cStr request.hostname, 0⟩]
            effects := server.effects ++ [.parsed name request.hostname request.port] } := by
        simp only [onRequest, setConn, log, resolve, h.metas, h.queries]
        rfl
      rw [hresolve]
      refine ⟨hrequest, AList.lookup_insert _, ?_, ?_, m.withRequest request, none, rfl, hconn,
        hdecryptor, AList.lookup_insert _, ?_⟩
      · rw [requestsOf_append, h.requests]
        rfl
      · simp [h.asserts]
      · exact .asked _ rfl h.tunnels rfl
  | some result =>
      have hresolve : (server.setConn name { inputBuffer := longer }).onRequest name
          { inputBuffer := longer } (m.withRequest request) (some result) =
          { server with
            conns := AList.insert name {} (AList.insert name { inputBuffer := longer } server.conns)
            metas := [m.withRequest request]
            localMetaList := AList.insert name 0 server.localMetaList
            tunnels := [{ serverConnMeta := 0, serverConn := name,
                          serverAddr := (addressOf result, request.port) }]
            localTunnelList := AList.insert name 0 server.localTunnelList
            effects := server.effects ++ [.parsed name request.hostname request.port,
              .answered (cStr request.hostname) result,
              .connect name (addressOf result) request.port] } := by
        simp only [onRequest, setConn, log, resolve, h.metas, onQueryResult_eq, resolveCallback,
          List.nil_append, List.length_nil, List.getElem?_cons_zero, hconn]
        simp [h.tunnels, ServerConnMeta.withRequest]
      rw [hresolve]
      refine ⟨hrequest, AList.lookup_insert _, ?_, ?_, m.withRequest request, none, rfl, hconn,
        hdecryptor, AList.lookup_insert _, ?_⟩
      · rw [requestsOf_append, h.requests]
        rfl
      · simp [h.asserts]
      · exact .connecting _ h.queries rfl rfl

/-- A first read that is clear: the request is still incomplete, or it is resolved. -/
theorem Waiting.read (hcipher : cipher.IsStream) {name : String} {stream : List UInt8}
    (h : server.Waiting name stream) {bytes : List UInt8} (hbytes : bytes ≠ [])
    (answer : Option (Option Hostent)) (hclear : (stream ++ bytes).length ≠ cipher.ivLength ∧
      (stream ++ bytes).length < cipher.ivLength + 2 ^ 31) :
    (server.step (.read name bytes answer)).Follows name (stream ++ bytes) := by
  rw [h.step_read hbytes]
  generalize stream ++ bytes = longer at hclear
  obtain ⟨hne, hsize⟩ := hclear
  by_cases hshort : longer.length < cipher.ivLength
  · rw [onFirstData, if_pos hshort]
    refine Or.inl (h.wait hsize ?_)
    rw [plaintext_of_short hcipher (Nat.le_of_lt hshort)]
    rfl
  have hdata : (longer.drop cipher.ivLength).length < 2 ^ 31 := by
    rw [List.length_drop]
    omega
  have hnonempty : longer.drop cipher.ivLength ≠ [] := by
    rw [← List.length_pos_iff, List.length_drop]
    omega
  rw [onFirstData, if_neg hshort]
  dsimp only
  rw [decrypt_eq hcipher _ hdata, decide_eq_true hnonempty]
  generalize hfirst : ({
    conn := name
    iv := longer.take cipher.ivLength
    decryptor := _
    buf := _ } : ServerConnMeta cipher.State) = m
  have hstate : m.state = .reqAddrType := by rw [← hfirst]
  have hbuf : m.buf = plaintext cipher longer := by
    rw [← hfirst]
    rfl
  have hspec := ServerConnMeta.parseRequest_spec hstate
  rw [hbuf] at hspec
  cases hrequest : requestOf (plaintext cipher longer) with
  | none =>
      simp only [hrequest] at hspec
      simp only [hspec]
      exact Or.inl (h.wait hsize hrequest)
  | some request =>
      simp only [hrequest] at hspec
      simp only [hspec]
      have hconn : (m.withRequest request).conn = name := by
        rw [← hfirst]
        rfl
      have hdecryptor : (m.withRequest request).decryptor = decryptorAfter cipher longer := by
        rw [← hfirst]
        rfl
      exact Or.inr ⟨request, h.relaying hrequest hconn hdecryptor answer⟩

/-- A first read that ends with the initialization vector, or finds too much, fails an assertion. -/
theorem Waiting.read_fails (hcipher : cipher.IsStream) {name : String} {stream : List UInt8}
    (h : server.Waiting name stream) {bytes : List UInt8} (hbytes : bytes ≠ [])
    (hmax : bytes.length ≤ maxRead) (answer : Option (Option Hostent))
    (hunclear : ¬ ((stream ++ bytes).length ≠ cipher.ivLength ∧
      (stream ++ bytes).length < cipher.ivLength + 2 ^ 31)) :
    .assertFailed ∈ (server.step (.read name bytes answer)).effects := by
  have hsize : (stream ++ bytes).length < cipher.ivLength + 2 ^ 32 := by
    have hstream := h.size
    have hread := maxRead_lt
    rw [List.length_append]
    omega
  rw [h.step_read hbytes]
  generalize stream ++ bytes = longer at hunclear hsize
  have hlen : cipher.ivLength ≤ longer.length := by omega
  apply onFirstData_effects name answer hlen
  have hdata : (longer.drop cipher.ivLength).length = longer.length - cipher.ivLength :=
    List.length_drop
  have hfails : (({
      conn := name
      iv := longer.take cipher.ivLength
      decryptor := cipher.init (longer.take cipher.ivLength) } :
        ServerConnMeta cipher.State).decrypt (longer.drop cipher.ivLength)).1 = false := by
    by_cases heq : longer.length = cipher.ivLength
    · have hnil : longer.drop cipher.ivLength = [] := List.drop_eq_nil_of_le (by omega)
      rw [hnil, decrypt_eq hcipher _ (by decide)]
      rfl
    · exact decrypt_of_large _ (by omega) (by omega)
  dsimp only
  rw [hfails]
  exact List.mem_append_right _ (List.mem_singleton.mpr rfl)

/-- A read of a connection whose request is complete: what is new is deciphered, and sent on or
kept for the target. -/
theorem Relaying.read (hcipher : cipher.IsStream) {name : String} {stream : List UInt8}
    {request : Request} (h : server.Relaying name stream request) {bytes : List UInt8}
    (hbytes : bytes ≠ []) (hmax : bytes.length ≤ maxRead) (answer : Option (Option Hostent)) :
    (server.step (.read name bytes answer)).Relaying name (stream ++ bytes)
      { request with
        rest := request.rest ++ (cipher.update (decryptorAfter cipher stream) bytes).2 } := by
  obtain ⟨m, context, hmetas, hconn, hdecryptor, hlookup, hcarried⟩ := h.carried
  have hlen := ivLength_le_of_request hcipher h.complete
  have hcomplete : requestOf (plaintext cipher (stream ++ bytes)) = some { request with
      rest := request.rest ++ (cipher.update (decryptorAfter cipher stream) bytes).2 } := by
    rw [plaintext_append hcipher hlen]
    exact requestOf_append h.complete _
  have hsize : bytes.length < 2 ^ 31 := Nat.lt_of_le_of_lt hmax maxRead_lt
  have hmeta : (server.setConn name { inputBuffer := bytes, context := context
      }).localMetaList.lookup name = some 0 := h.localMetaList
  simp only [step, hlookup, List.nil_append]
  rw [if_pos ⟨trivial, hbytes⟩, onServerMessage, hmeta]
  dsimp only
  have hget : (server.setConn name { inputBuffer := bytes, context := context }).metas[0]? =
      some m := by
    change server.metas[0]? = some m
    rw [hmetas, List.getElem?_cons_zero]
  rw [onMoreData, hget]
  simp only [decrypt_eq hcipher m hsize, decide_eq_true hbytes, assert_true]
  generalize hnext : ({ m with
    decryptor := (cipher.update m.decryptor bytes).1
    buf := m.buf ++ (cipher.update m.decryptor bytes).2 } : ServerConnMeta cipher.State) = next
  have hname : next.conn = name := by
    rw [← hnext]
    exact hconn
  have hafter : next.decryptor = decryptorAfter cipher (stream ++ bytes) := by
    rw [← hnext, decryptorAfter_append hcipher hlen, ← hdecryptor]
  have hbuffer : next.buf = m.buf ++ (cipher.update (decryptorAfter cipher stream) bytes).2 := by
    rw [← hnext, ← hdecryptor]
  have hset : ∀ m', server.metas.set 0 m' = [m'] := by
    intro m'
    rw [hmetas]
    rfl
  cases hcarried with
  | asked hostname hqueries htunnels hbuf =>
      exact ⟨hcomplete, h.localMetaList, h.requests, h.asserts, next, none, hset next, hname,
        hafter, AList.lookup_insert _, .asked hostname hqueries htunnels (by rw [hbuffer, hbuf])⟩
  | connecting addr hqueries htunnels hbuf =>
      exact ⟨hcomplete, h.localMetaList, h.requests, h.asserts, next, none, hset next, hname,
        hafter, AList.lookup_insert _, .connecting addr hqueries htunnels (by rw [hbuffer, hbuf])⟩
  | connected addr hqueries htunnels hbuf =>
      have htunnel : server.tunnels[0]? = some
          { serverConnMeta := 0, serverConn := name, serverAddr := addr, target := .connected,
            forwarded := request.rest } := by
        rw [htunnels]
        rfl
      subst hnext
      simp only [setConn, Option.bind_some, htunnel]
      refine ⟨hcomplete, h.localMetaList, h.requests, h.asserts, _, some 0, hset _, hname, hafter,
        AList.lookup_insert _, .connected addr hqueries ?_ rfl⟩
      rw [htunnels, hbuf, hdecryptor]
      rfl

/-- An answer to the query of the client opens its tunnel. -/
theorem Relaying.answer {name : String} {stream : List UInt8} {request : Request}
    (h : server.Relaying name stream request) (query : Nat) (result : Option Hostent) :
    (server.step (.answer query result)).Relaying name stream request := by
  obtain ⟨m, context, hmetas, hconn, hdecryptor, hlookup, hcarried⟩ := h.carried
  cases hcarried with
  | asked hostname hqueries htunnels hbuf =>
      simp only [step, hqueries]
      cases query with
      | zero =>
          simp only [List.getElem?_cons_zero, onQueryResult_eq, resolveCallback, log, hmetas]
          refine ⟨h.complete, h.localMetaList, ?_, ?_, m, none, rfl, hconn, hdecryptor, hlookup,
            .connecting (addressOf result, m.dstPort) rfl ?_ hbuf⟩
          · simp [requestsOf_append, h.requests]
            rfl
          · simp [h.asserts]
          · simp [htunnels, hconn]
      | succ query => exact h
  | connecting addr hqueries htunnels hbuf =>
      simp only [step, hqueries]
      exact h
  | connected addr hqueries htunnels hbuf =>
      simp only [step, hqueries]
      exact h

/-- When the target is connected, what was kept for it is sent. -/
theorem Relaying.targetUp {name : String} {stream : List UInt8} {request : Request}
    (h : server.Relaying name stream request) (t : Nat) :
    (server.step (.targetUp t)).Relaying name stream request := by
  obtain ⟨m, context, hmetas, hconn, hdecryptor, hlookup, hcarried⟩ := h.carried
  cases hcarried with
  | asked hostname hqueries htunnels hbuf =>
      simp only [step, htunnels]
      exact h
  | connecting addr hqueries htunnels hbuf =>
      simp only [step, htunnels]
      cases t with
      | zero =>
          simp only [List.getElem?_cons_zero, ite_true, onClientUp, setContext, hlookup, setConn,
            hmetas]
          refine ⟨h.complete, h.localMetaList, h.requests, h.asserts, { m with buf := [] }, some 0,
            rfl, hconn, hdecryptor, AList.lookup_insert _, .connected addr hqueries ?_ rfl⟩
          rw [htunnels, hbuf]
          rfl
      | succ t => exact h
  | connected addr hqueries htunnels hbuf =>
      simp only [step, htunnels]
      cases t with
      | zero => exact h
      | succ t => exact h

/-- The relay follows the client through every event that is clear. -/
theorem Follows.step (hcipher : cipher.IsStream) {name : String} {stream : List UInt8}
    (h : server.Follows name stream) {event : RelayEvent} (hevent : event.FromClient name)
    (hclear : server.ReadsClear event) :
    (server.step event).Follows name (stream ++ event.bytes) := by
  cases event with
  | read other bytes answer =>
      obtain ⟨rfl, hbytes, hmax⟩ := hevent
      rcases h with hwaiting | ⟨request, hrelaying⟩
      · have hnone := AList.lookup_eq_none.mp hwaiting.localMetaList
        exact hwaiting.read hcipher hbytes answer (hclear _ hwaiting.conns hnone)
      · exact Or.inr ⟨_, hrelaying.read hcipher hbytes hmax answer⟩
  | answer query result =>
      simp only [RelayEvent.bytes, List.append_nil]
      rcases h with hwaiting | ⟨request, hrelaying⟩
      · have hstep : server.step (.answer query result) = server := by
          simp [TCPRelayServer.step, hwaiting.queries]
        rw [hstep]
        exact Or.inl hwaiting
      · exact Or.inr ⟨request, hrelaying.answer query result⟩
  | targetUp t =>
      simp only [RelayEvent.bytes, List.append_nil]
      rcases h with hwaiting | ⟨request, hrelaying⟩
      · have hstep : server.step (.targetUp t) = server := by
          simp [TCPRelayServer.step, hwaiting.tunnels]
        rw [hstep]
        exact Or.inl hwaiting
      · exact Or.inr ⟨request, hrelaying.targetUp t⟩
  | up other => cases hevent
  | down other => cases hevent
  | targetDown t => cases hevent

/-- An event that is not clear fails an assertion. -/
theorem Follows.step_fails (hcipher : cipher.IsStream) {name : String} {stream : List UInt8}
    (h : server.Follows name stream) {event : RelayEvent} (hevent : event.FromClient name)
    (hunclear : ¬ server.ReadsClear event) : .assertFailed ∈ (server.step event).effects := by
  cases event with
  | read other bytes answer =>
      obtain ⟨rfl, hbytes, hmax⟩ := hevent
      rcases h with hwaiting | ⟨request, hrelaying⟩
      · apply hwaiting.read_fails hcipher hbytes hmax answer
        intro hclear
        apply hunclear
        intro conn hconn _
        rw [hwaiting.conns, Option.some.injEq] at hconn
        rwa [← hconn]
      · have hmem := Table.mem_iff_lookup.mpr ⟨0, hrelaying.localMetaList⟩
        exact absurd (fun _ _ hnone => absurd hmem hnone) hunclear
  | answer query result => exact absurd trivial hunclear
  | targetUp t => exact absurd trivial hunclear
  | up other => cases hevent
  | down other => cases hevent
  | targetDown t => cases hevent

/-- A connection that follows its stream has failed no assertion. -/
theorem Follows.asserts {name : String} {stream : List UInt8} (h : server.Follows name stream) :
    .assertFailed ∉ server.effects := by
  rcases h with hwaiting | ⟨request, hrelaying⟩
  · exact hwaiting.asserts
  · exact hrelaying.asserts

/-- A run takes no effect back. -/
theorem run_effects (events : List RelayEvent) :
    server.effects ⊆ (events.foldl TCPRelayServer.step server).effects := by
  induction events generalizing server with
  | nil => exact List.Subset.refl _
  | cons event events ih => exact List.Subset.trans (step_effects event) ih

/-- The relay follows the client through a run whose reads are clear. -/
theorem Follows.run (hcipher : cipher.IsStream) {name : String} {stream : List UInt8}
    (h : server.Follows name stream) {events : List RelayEvent}
    (hevents : ∀ event ∈ events, event.FromClient name)
    (hclear : Along TCPRelayServer.step ReadsClear server events) :
    (events.foldl TCPRelayServer.step server).Follows name (stream ++ received events) := by
  induction events generalizing server stream with
  | nil => simpa [received] using h
  | cons event events ih =>
      have hstep := h.step hcipher (hevents event List.mem_cons_self) hclear.1
      have hrest := ih hstep (fun e he => hevents e (List.mem_cons_of_mem _ he)) hclear.2
      simpa [received] using hrest

/-- A run that fails no assertion has only clear reads. -/
theorem Follows.clear (hcipher : cipher.IsStream) {name : String} {stream : List UInt8}
    (h : server.Follows name stream) {events : List RelayEvent}
    (hevents : ∀ event ∈ events, event.FromClient name)
    (hasserts : .assertFailed ∉ (events.foldl TCPRelayServer.step server).effects) :
    Along TCPRelayServer.step ReadsClear server events := by
  induction events generalizing server stream with
  | nil => trivial
  | cons event events ih =>
      have hevent := hevents event List.mem_cons_self
      have hclear : server.ReadsClear event := by
        by_contra hunclear
        exact hasserts (run_effects events (h.step_fails hcipher hevent hunclear))
      exact ⟨hclear, ih (h.step hcipher hevent hclear)
        (fun e he => hevents e (List.mem_cons_of_mem _ he)) hasserts⟩

/-- A target that is connected has been sent everything behind the request. -/
theorem Relaying.forwarded {name : String} {stream : List UInt8} {request : Request}
    (h : server.Relaying name stream request) {tunnel : Tunnel} (htunnel : tunnel ∈ server.tunnels)
    (hconnected : tunnel.target = .connected) : tunnel.forwarded = request.rest := by
  obtain ⟨m, context, -, -, -, -, hcarried⟩ := h.carried
  cases hcarried with
  | asked hostname hqueries htunnels hbuf =>
      rw [htunnels] at htunnel
      cases htunnel
  | connecting addr hqueries htunnels hbuf =>
      rw [htunnels, List.mem_singleton] at htunnel
      rw [htunnel] at hconnected
      cases hconnected
  | connected addr hqueries htunnels hbuf =>
      rw [htunnels, List.mem_singleton] at htunnel
      rw [htunnel]

end TCPRelayServer

end CodeBlocks.Relay
