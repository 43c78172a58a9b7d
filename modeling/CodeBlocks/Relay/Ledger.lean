import CodeBlocks.Relay.Server

/-!
# The ledger of the relay

What the relay is for, without its buffers: which connections are up, what their
requests asked for, which queries are open, and where the tunnels lead. An event
of the server makes one entry in the ledger, and most events make none.
-/

namespace CodeBlocks.Relay

/-- What a request asked for, and the connection it came from. -/
structure Asked where
  conn : String
  hostname : List UInt8
  port : UInt16
  deriving DecidableEq, Repr

/-- A tunnel: whose request it serves and where it leads. -/
structure Route where
  connMeta : Nat
  conn : String
  addr : UInt32 × UInt16
  deriving DecidableEq, Repr

/-- The state of the relay without its buffers. `status` tells of a name whether its connection is
up, was up, or was never seen. -/
structure Ledger where
  status : String → Option Bool
  asked : List Asked
  metaOf : Table String Nat
  routes : List Route
  routeOf : Table String Nat
  queries : List QueryData
  notes : List RelayEffect

/-- An event as the ledger sees it. -/
inductive Entry where
  | up (name : String)
  | down (name : String)
  | request (name : String) (request : Request) (answer : Option (Option Hostent))
  | answer (query : Nat) (result : Option Hostent)
  | idle

/-- The address that is passed on as the outcome of a query. -/
def addressOf : Option Hostent → UInt32
  | none => 0
  | some hostent => hostent.hAddr

namespace Ledger

/-- A query is answered. -/
def answer (ledger : Ledger) (data : QueryData) (result : Option Hostent) : Ledger :=
  match ledger.asked[data.connMeta]? with
  | none => { ledger with notes := ledger.notes ++ [.answered data.hostname result] }
  | some asked =>
    { ledger with
      routes := ledger.routes ++ [⟨data.connMeta, asked.conn, (addressOf result, asked.port)⟩]
      routeOf := AList.insert asked.conn ledger.routes.length ledger.routeOf
      notes := ledger.notes ++
        [.answered data.hostname result, .connect asked.conn (addressOf result) asked.port] }

/-- An answer does not depend on the metadata that is kept. -/
theorem answer_metaOf (ledger : Ledger) (data : QueryData) (result : Option Hostent)
    (metaOf : Table String Nat) :
    { ledger.answer data result with metaOf := metaOf } =
      { ledger with metaOf := metaOf }.answer data result := by
  unfold answer
  dsimp only
  split <;> rfl

/-- A request is written down. -/
def note (ledger : Ledger) (asked : Asked) : Ledger :=
  { ledger with
    asked := ledger.asked ++ [asked]
    metaOf := AList.insert asked.conn ledger.asked.length ledger.metaOf
    notes := ledger.notes ++ [.parsed asked.conn asked.hostname asked.port] }

/-- A request is complete, and its host name is looked up. -/
def request (ledger : Ledger) (name : String) (request : Request)
    (answer : Option (Option Hostent)) : Ledger :=
  let query : QueryData := { hostname := cStr request.hostname, connMeta := ledger.asked.length }
  let ledger := ledger.note ⟨name, request.hostname, request.port⟩
  match answer with
  | none => { ledger with queries := ledger.queries ++ [query] }
  | some result => ledger.answer query result

/-- A connection is closed. -/
def down (ledger : Ledger) (name : String) : Ledger :=
  let ledger := { ledger with status := Function.update ledger.status name (some false) }
  if name ∈ ledger.metaOf then
    let ledger := { ledger with metaOf := ledger.metaOf.erase name }
    match ledger.routeOf.lookup name with
    | none => ledger
    | some route =>
      { ledger with
        routeOf := ledger.routeOf.erase name
        notes := ledger.notes ++ [.disconnect route] }
  else ledger

/-- The ledger after an entry. -/
def post (ledger : Ledger) : Entry → Ledger
  | .up name =>
    if ledger.status name = none then
      { ledger with status := Function.update ledger.status name (some true) }
    else ledger
  | .down name => if ledger.status name = some true then ledger.down name else ledger
  | .request name request answer => ledger.request name request answer
  | .answer query result =>
    match ledger.queries[query]? with
    | none => ledger
    | some data => { ledger with queries := ledger.queries.eraseIdx query }.answer data result
  | .idle => ledger

end Ledger

/-- The effects that are noted in the ledger. -/
def RelayEffect.isNote : RelayEffect → Bool
  | .shutdown _ => false
  | .assertFailed => false
  | _ => true

variable {cipher : StreamCipher}

/-- What a request asked for, as its metadata has it. -/
def ServerConnMeta.asked (m : ServerConnMeta cipher.State) : Asked :=
  ⟨m.conn, m.dstHostname, m.dstPort⟩

/-- Where a tunnel leads. -/
def Tunnel.route (tunnel : Tunnel) : Route :=
  ⟨tunnel.serverConnMeta, tunnel.serverConn, tunnel.serverAddr⟩

/-- What a new decryptor makes of the bytes that have arrived. -/
def decipher (cipher : StreamCipher) (received : List UInt8) : List UInt8 :=
  let data := received.drop cipher.ivLength
  (cipher.update (cipher.init (received.take cipher.ivLength))
    (data.take (staticCastInt data.length).toNat)).2

namespace TCPRelayServer

variable (server : TCPRelayServer cipher)

/-- The ledger of a thread. -/
def ledger : Ledger where
  status name := (server.conns.lookup name).map Connection.connected
  asked := server.metas.map ServerConnMeta.asked
  metaOf := server.localMetaList
  routes := server.tunnels.map Tunnel.route
  routeOf := server.localTunnelList
  queries := server.queries
  notes := server.effects.filter RelayEffect.isNote

/-- The request that a read completes. -/
def completed (name : String) (bytes : List UInt8) : Option Request :=
  match server.conns.lookup name with
  | none => none
  | some conn =>
    let received := conn.inputBuffer ++ bytes
    if (conn.connected ∧ bytes ≠ []) ∧ name ∉ server.localMetaList ∧
        cipher.ivLength ≤ received.length then
      requestOf (decipher cipher received)
    else none

/-- The entry that an event makes. -/
def entry : RelayEvent → Entry
  | .up name => .up name
  | .down name => .down name
  | .read name bytes answer =>
    match server.completed name bytes with
    | none => .idle
    | some request => .request name request answer
  | .answer query result => .answer query result
  | .targetUp _ => .idle
  | .targetDown _ => .idle

/-- An effect that is no note leaves the ledger alone. -/
theorem ledger_log_of_quiet {effect : RelayEffect} (heffect : effect.isNote = false) :
    (server.log effect).ledger = server.ledger := by
  simp [ledger, log, heffect]

/-- A failed assertion is not noted. -/
@[simp] theorem ledger_assert (condition : Bool) :
    (server.assert condition).ledger = server.ledger := by
  unfold assert
  split
  · rfl
  · exact ledger_log_of_quiet server rfl

/-- A note goes behind all others. -/
theorem ledger_log {effect : RelayEffect} (heffect : effect.isNote = true) :
    (server.log effect).ledger =
      { server.ledger with notes := server.ledger.notes ++ [effect] } := by
  simp [ledger, log, heffect]

/-- Of a connection the ledger keeps whether it is up. -/
theorem ledger_setConn (name : String) (conn : Connection) :
    (server.setConn name conn).ledger =
      { server.ledger with
        status := Function.update server.ledger.status name (some conn.connected) } := by
  have hstatus : (server.setConn name conn).ledger.status =
      Function.update server.ledger.status name (some conn.connected) := by
    ext1 other
    by_cases hother : other = name
    · rw [hother, Function.update_self]
      simp only [ledger, setConn, AList.lookup_insert, Option.map_some]
    · rw [Function.update_of_ne hother]
      simp only [ledger, setConn, AList.lookup_insert_ne hother]
  rw [← hstatus]
  rfl

/-- A connection that goes on. -/
theorem ledger_setConn_of_connected {name : String} {old conn : Connection}
    (hold : server.conns.lookup name = some old) (hconn : conn.connected = old.connected) :
    (server.setConn name conn).ledger = server.ledger := by
  have hsame : some conn.connected = server.ledger.status name := by
    simp only [ledger, hold, Option.map_some, hconn]
  rw [ledger_setConn, hsame, Function.update_eq_self]

/-- Metadata and tunnels may change what the ledger does not keep. -/
theorem map_set_of_eq {α β : Type} {f : α → β} {xs : List α} {i : Nat} {x y : α}
    (hx : xs[i]? = some x) (hf : f y = f x) : (xs.set i y).map f = xs.map f := by
  obtain ⟨hi, rfl⟩ := List.getElem?_eq_some_iff.mp hx
  have hlen : i < (xs.map f).length := by rwa [List.length_map]
  have hmap : f xs[i] = (xs.map f)[i] := (List.getElem_map f).symm
  rw [List.map_set, hf, hmap, List.set_getElem_self]

/-- Metadata that asks for the same, and tunnels that lead to the same places. -/
theorem ledger_update {metas : List (ServerConnMeta cipher.State)} {tunnels : List Tunnel}
    (hmetas : metas.map ServerConnMeta.asked = server.metas.map ServerConnMeta.asked)
    (htunnels : tunnels.map Tunnel.route = server.tunnels.map Tunnel.route) :
    { server with metas := metas, tunnels := tunnels }.ledger = server.ledger := by
  simp only [ledger, hmetas, htunnels]

/-- Assertions do not change the metadata. -/
@[simp] theorem assert_metas (condition : Bool) :
    (server.assert condition).metas = server.metas := by
  unfold assert
  split <;> rfl

/-- Nor do they change the connections. -/
@[simp] theorem assert_conns (condition : Bool) :
    (server.assert condition).conns = server.conns := by
  unfold assert
  split <;> rfl

/-- Both outcomes of a query call back, a failed one with the address zero. -/
theorem onQueryResult_eq (data : QueryData) (result : Option Hostent) :
    server.onQueryResult data result =
      (server.log (.answered data.hostname result)).resolveCallback data.connMeta
        (addressOf result) := by
  cases result <;> rfl

/-- The answer to a query makes the entry of an answer. -/
theorem ledger_onQueryResult (data : QueryData) (result : Option Hostent) :
    (server.onQueryResult data result).ledger = server.ledger.answer data result := by
  rw [onQueryResult_eq]
  unfold resolveCallback Ledger.answer
  simp only [ledger, log, List.getElem?_map]
  cases server.metas[data.connMeta]? with
  | none => simp [RelayEffect.isNote]
  | some m => simp [RelayEffect.isNote, Tunnel.route, ServerConnMeta.asked]

/-- A client that goes away takes its metadata along, and ends its tunnel if there is one. -/
theorem ledger_onServerDown {name : String} :
    (server.onServerDown name).ledger =
      if name ∈ server.ledger.metaOf then
        match server.ledger.routeOf.lookup name with
        | none => { server.ledger with metaOf := server.ledger.metaOf.erase name }
        | some route =>
          { server.ledger with
            metaOf := server.ledger.metaOf.erase name
            routeOf := server.ledger.routeOf.erase name
            notes := server.ledger.notes ++ [.disconnect route] }
      else server.ledger := by
  have hroute : server.ledger.routeOf.lookup name = server.localTunnelList.lookup name := rfl
  by_cases hmem : name ∈ server.localMetaList
  · rw [onServerDown, if_pos hmem, if_pos (show name ∈ server.ledger.metaOf from hmem), hroute]
    dsimp only
    cases server.localTunnelList.lookup name with
    | none => rfl
    | some route => simp [ledger, log, RelayEffect.isNote]
  · rw [onServerDown, if_neg hmem, if_neg (show name ∉ server.ledger.metaOf from hmem)]

/-- Data behind a request moves between buffers, which the ledger does not see. -/
theorem ledger_onMoreData {name : String} {old conn : Connection} (connMeta : Nat)
    (hold : server.conns.lookup name = some old) (hconn : conn.connected = old.connected) :
    (server.onMoreData name conn connMeta).ledger = server.ledger := by
  unfold onMoreData
  split
  · rfl
  · rename_i m hm
    generalize hs : (server.assert (m.decrypt conn.inputBuffer).1).setConn name
      { conn with inputBuffer := [] } = s
    have hmetas : s.metas[connMeta]? = some m := by
      rw [← hs, ← hm]
      exact congrArg (·[connMeta]?) (assert_metas server _)
    have hlookup : (server.assert (m.decrypt conn.inputBuffer).1).conns.lookup name =
        some old := by
      rwa [assert_conns]
    have hempty : ({ conn with inputBuffer := [] } : Connection).connected = old.connected := hconn
    have hledger : s.ledger = server.ledger := by
      rw [← hs, ledger_setConn_of_connected _ hlookup hempty, ledger_assert]
    simp only [hs]
    split
    · rw [← hledger]
      exact ledger_update s (map_set_of_eq hmetas rfl) rfl
    · rename_i tunnel htunnel
      obtain ⟨t, hcontext, ht⟩ := Option.bind_eq_some_iff.mp htunnel
      rw [← hledger, hcontext]
      exact ledger_update s (map_set_of_eq hmetas rfl) (map_set_of_eq ht rfl)

/-- Looking a host name up does not touch the connections or the table of their metadata. -/
theorem resolve_frame (hostname : List UInt8) (connMeta : Nat)
    (answer : Option (Option Hostent)) :
    (server.resolve hostname connMeta answer).conns = server.conns ∧
      (server.resolve hostname connMeta answer).localMetaList = server.localMetaList := by
  unfold resolve
  cases answer with
  | none => exact ⟨rfl, rfl⟩
  | some result =>
      dsimp only
      rw [onQueryResult_eq]
      unfold resolveCallback
      split <;> exact ⟨rfl, rfl⟩

/-- A complete request is noted, its host is looked up and its metadata kept. -/
theorem ledger_resolve (m : ServerConnMeta cipher.State) (answer : Option (Option Hostent))
    (request : Request) (hhost : m.dstHostname = request.hostname)
    (hport : m.dstPort = request.port) :
    { (({ server with metas := server.metas ++ [m] }.log
        (.parsed m.conn m.dstHostname m.dstPort)).resolve m.dstHostname server.metas.length
          answer).ledger with
      metaOf := AList.insert m.conn server.metas.length server.localMetaList } =
      server.ledger.request m.conn request answer := by
  unfold resolve Ledger.request Ledger.note
  cases answer with
  | none => simp [ledger, log, RelayEffect.isNote, ServerConnMeta.asked, hhost, hport]
  | some result =>
      dsimp only
      rw [ledger_onQueryResult, Ledger.answer_metaOf, ledger_log _ rfl]
      simp [ledger, ServerConnMeta.asked, hhost, hport]

/-- A request that is complete makes the entry of a request. -/
theorem ledger_onRequest {name : String} {old conn : Connection} {m : ServerConnMeta cipher.State}
    {request : Request} (answer : Option (Option Hostent))
    (hold : server.conns.lookup name = some old) (hconn : conn.connected = old.connected)
    (hname : m.conn = name) (hhost : m.dstHostname = request.hostname)
    (hport : m.dstPort = request.port) :
    (server.onRequest name conn m answer).ledger = server.ledger.request name request answer := by
  subst hname
  rw [← ledger_resolve server m answer request hhost hport, onRequest]
  generalize hasked : { server with metas := server.metas ++ [m] }.log
    (.parsed m.conn m.dstHostname m.dstPort) = asked
  obtain ⟨hconns, hmetas⟩ := asked.resolve_frame m.dstHostname server.metas.length answer
  have hlookup : (asked.resolve m.dstHostname server.metas.length answer).conns.lookup m.conn =
      some old := by
    rw [hconns, ← hasked]
    exact hold
  have hempty : ({ conn with inputBuffer := [] } : Connection).connected = old.connected := hconn
  rw [← ledger_setConn_of_connected _ hlookup hempty]
  change Ledger.mk _ _ (AList.insert m.conn _ (asked.resolve _ _ _).localMetaList) _ _ _ _ = _
  rw [hmetas, ← hasked]
  rfl

/-- A read of a connection without metadata: an entry is made when its request is complete. -/
theorem ledger_onFirstData {name : String} {old conn : Connection}
    (answer : Option (Option Hostent)) (hold : server.conns.lookup name = some old)
    (hconn : conn.connected = old.connected) :
    (server.onFirstData name conn answer).ledger =
      if conn.inputBuffer.length < cipher.ivLength then server.ledger
      else match requestOf (decipher cipher conn.inputBuffer) with
        | none => server.ledger
        | some request => server.ledger.request name request answer := by
  by_cases hshort : conn.inputBuffer.length < cipher.ivLength
  · rw [onFirstData, if_pos hshort, if_pos hshort]
  · rw [onFirstData, if_neg hshort, if_neg hshort]
    dsimp only
    generalize hfirst : ServerConnMeta.decrypt _ _ = first
    have hbuf : first.2.buf = decipher cipher conn.inputBuffer := by
      rw [← hfirst]
      rfl
    have hstate : first.2.state = .reqAddrType := by rw [← hfirst]; rfl
    have hspec := ServerConnMeta.parseRequest_spec hstate
    rw [hbuf] at hspec
    cases hrequest : requestOf (decipher cipher conn.inputBuffer) with
    | none =>
        simp only [hrequest] at hspec
        simp only [hspec]
        exact ledger_assert server _
    | some request =>
        simp only [hrequest] at hspec
        have hlookup : (server.assert first.1).conns.lookup name = some old := by
          rwa [assert_conns]
        have hname : (first.2.withRequest request).conn = name := by rw [← hfirst]; rfl
        simp only [hspec, ite_true]
        rw [ledger_onRequest _ answer hlookup hconn hname rfl rfl, ledger_assert]

/-- A read makes an entry when it completes a request, and none otherwise. -/
theorem ledger_read (name : String) (bytes : List UInt8) (answer : Option (Option Hostent)) :
    (server.step (.read name bytes answer)).ledger =
      match server.completed name bytes with
      | none => server.ledger
      | some request => server.ledger.request name request answer := by
  simp only [step, completed]
  cases hold : server.conns.lookup name with
  | none => rfl
  | some old =>
      dsimp only
      by_cases hread : old.connected = true ∧ bytes ≠ []
      · rw [if_pos hread]
        generalize hconn : { old with inputBuffer := old.inputBuffer ++ bytes } = conn
        have hconnected : conn.connected = old.connected := by rw [← hconn]
        have hreceived : old.inputBuffer ++ bytes = conn.inputBuffer := by rw [← hconn]
        have hledger := ledger_setConn_of_connected server hold hconnected
        have hlookup : (server.setConn name conn).conns.lookup name = some conn :=
          AList.lookup_insert _
        rw [hreceived, onServerMessage]
        cases hmeta : (server.setConn name conn).localMetaList.lookup name with
        | none =>
            have hnone : name ∉ server.localMetaList := AList.lookup_eq_none.mp hmeta
            dsimp only
            rw [ledger_onFirstData _ answer hlookup rfl, hledger]
            by_cases hshort : conn.inputBuffer.length < cipher.ivLength
            · rw [if_pos hshort, if_neg (by omega)]
            · rw [if_neg hshort, if_pos ⟨hread, hnone, by omega⟩]
        | some connMeta =>
            have hsome : name ∈ server.localMetaList :=
              Table.mem_iff_lookup.mpr ⟨connMeta, hmeta⟩
            dsimp only
            rw [ledger_onMoreData _ connMeta hlookup rfl, hledger, if_neg fun h => h.2.1 hsome]
      · rw [if_neg hread, if_neg fun h => hread h.1]

/-- The tunnel of a connection is kept in the tunnels, not with the connection. -/
theorem ledger_setContext (name : String) (context : Option Nat) :
    (server.setContext name context).ledger = server.ledger := by
  unfold setContext
  cases hold : server.conns.lookup name with
  | none => rfl
  | some old =>
      have hcontext : ({ old with context := context } : Connection).connected = old.connected :=
        rfl
      exact ledger_setConn_of_connected server hold hcontext

/-- The context of a connection is not part of the metadata or the tunnels. -/
theorem setContext_frame (name : String) (context : Option Nat) :
    (server.setContext name context).metas = server.metas ∧
      (server.setContext name context).tunnels = server.tunnels := by
  unfold setContext
  split <;> exact ⟨rfl, rfl⟩

/-- A target that is connected gets what has waited for it, which the ledger does not see. -/
theorem ledger_onClientUp {t : Nat} {tunnel : Tunnel} (ht : server.tunnels[t]? = some tunnel) :
    (server.onClientUp t tunnel).ledger = server.ledger := by
  unfold onClientUp
  obtain ⟨-, htunnels⟩ := server.setContext_frame tunnel.serverConn (some t)
  have hledger := server.ledger_setContext tunnel.serverConn (some t)
  generalize server.setContext tunnel.serverConn (some t) = s at htunnels hledger ⊢
  rw [← htunnels] at ht
  rw [← hledger]
  dsimp only
  split
  · exact ledger_update s rfl (map_set_of_eq ht rfl)
  · rename_i m hm
    exact ledger_update s (map_set_of_eq hm rfl) (map_set_of_eq ht rfl)

/-- A target that goes away shuts its client down, which is no note. -/
theorem ledger_onClientDown {t : Nat} {tunnel : Tunnel} (ht : server.tunnels[t]? = some tunnel) :
    (server.onClientDown t tunnel).ledger = server.ledger := by
  have hclosed := ledger_update server rfl
    (map_set_of_eq ht (show { tunnel with target := .closed }.route = tunnel.route from rfl))
  unfold onClientDown
  rw [ledger_log_of_quiet _ rfl, ledger_setContext, hclosed]

/-- The ledger follows the server: every event makes its entry, and nothing else changes. -/
theorem ledger_step (event : RelayEvent) :
    (server.step event).ledger = server.ledger.post (server.entry event) := by
  cases event with
  | up name =>
      have hstatus : server.ledger.status name = none ↔ name ∉ server.conns := by
        rw [← AList.lookup_eq_none]
        exact Option.map_eq_none_iff
      simp only [step, entry, Ledger.post]
      by_cases hmem : name ∈ server.conns
      · rw [if_pos hmem]
        exact (if_neg fun h => hstatus.mp h hmem).symm
      · rw [if_neg hmem, ledger_setConn]
        exact (if_pos (hstatus.mpr hmem)).symm
  | down name =>
      simp only [step, entry, Ledger.post]
      have hstatus : server.ledger.status name =
        (server.conns.lookup name).map Connection.connected := rfl
      rw [hstatus]
      cases hconn : server.conns.lookup name with
      | none => rfl
      | some conn =>
          cases hup : conn.connected with
          | false => simp [hup]
          | true =>
              simp only [hup, Option.map_some, ite_true]
              rw [ledger_onServerDown, ledger_setConn]
              rfl
  | read name bytes answer =>
      rw [ledger_read]
      simp only [entry]
      cases server.completed name bytes <;> rfl
  | answer query result =>
      simp only [step, entry, Ledger.post]
      have hqueries : server.ledger.queries = server.queries := rfl
      rw [hqueries]
      cases server.queries[query]? with
      | none => rfl
      | some data => exact ledger_onQueryResult _ data result
  | targetUp t =>
      simp only [step, entry, Ledger.post]
      cases ht : server.tunnels[t]? with
      | none => rfl
      | some tunnel =>
          dsimp only
          split
          · exact server.ledger_onClientUp ht
          · rfl
  | targetDown t =>
      simp only [step, entry, Ledger.post]
      cases ht : server.tunnels[t]? with
      | none => rfl
      | some tunnel =>
          dsimp only
          split
          · exact server.ledger_onClientDown ht
          · rfl

end TCPRelayServer

end CodeBlocks.Relay
