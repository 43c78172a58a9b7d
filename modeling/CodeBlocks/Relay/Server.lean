import CodeBlocks.Core.Run
import CodeBlocks.Core.Table
import CodeBlocks.Relay.Request

/-!
# The relay server

One thread of `TCPRelayServer`: its connections, the two tables that are keyed by
connection names, the queries that the resolver has in flight, and the tunnels.
Metadata and tunnels are shared by pointers in the source; here they are kept in
a list each, and a pointer is a position in it. Names of connections are never
used twice. The cipher is a parameter, and its initialization inside of an
assertion takes place. A failed assertion is an effect, after which the code runs
on.
-/

namespace CodeBlocks.Relay

/-- `TcpConnection` of a client; `context` points to the tunnel whose connection it holds. -/
structure Connection where
  connected : Bool := true
  inputBuffer : List UInt8 := []
  context : Option Nat := none
  deriving DecidableEq, Repr

/-- The connection of a tunnel to its target. -/
inductive TargetState where
  | connecting
  | connected
  | closed
  deriving DecidableEq, Repr

/-- `Tunnel`, with the bytes that were handed to the connection to its target. -/
structure Tunnel where
  serverConnMeta : Nat
  serverConn : String
  serverAddr : UInt32 × UInt16
  target : TargetState := .connecting
  forwarded : List UInt8 := []
  deriving DecidableEq, Repr

/-- `hostent`, of which the first address is read. -/
structure Hostent where
  hAddr : UInt32
  deriving DecidableEq, Repr

/-- A query of the resolver: the name that was asked for, and the metadata that is bound in its
callback. -/
structure QueryData where
  hostname : List UInt8
  connMeta : Nat
  deriving DecidableEq, Repr

/-- What the relay does and learns, in order. `parsed` records what the request of a connection
asks for, and `answered` the outcome of a query. -/
inductive RelayEffect where
  | parsed (conn : String) (hostname : List UInt8) (port : UInt16)
  | answered (hostname : List UInt8) (result : Option Hostent)
  | connect (conn : String) (ip : UInt32) (port : UInt16)
  | disconnect (tunnel : Nat)
  | shutdown (conn : String)
  | assertFailed
  deriving DecidableEq, Repr

/-- One thread of `TCPRelayServer`. -/
structure TCPRelayServer (cipher : StreamCipher) where
  conns : Table String Connection := ∅
  metas : List (ServerConnMeta cipher.State) := []
  localMetaList : Table String Nat := ∅
  tunnels : List Tunnel := []
  localTunnelList : Table String Nat := ∅
  queries : List QueryData := []
  effects : List RelayEffect := []

/-- What a C function reads of a string: the bytes before the first zero. -/
def cStr (bytes : List UInt8) : List UInt8 := bytes.takeWhile (· ≠ 0)

variable {cipher : StreamCipher}

/-- `ServerConnMeta::Decrypt`, in both forms, and whether the assertions on the way hold: those of
`Decrypt` and `Update` on the length of the input, and those of `DoCrypt` on the sizes. -/
def ServerConnMeta.decrypt (connMeta : ServerConnMeta cipher.State) (data : List UInt8) :
    Bool × ServerConnMeta cipher.State :=
  let len := staticCastInt data.length
  let (decryptor, plain) := cipher.update connMeta.decryptor (data.take len.toNat)
  (decide (len > 0) && decide (plain.length ≤ len.toNat),
    { connMeta with decryptor := decryptor, buf := connMeta.buf ++ plain })

namespace TCPRelayServer

/-- One more effect. -/
def log (server : TCPRelayServer cipher) (effect : RelayEffect) : TCPRelayServer cipher :=
  { server with effects := server.effects ++ [effect] }

/-- The effect of some assertions. -/
def assert (server : TCPRelayServer cipher) (condition : Bool) : TCPRelayServer cipher :=
  if condition then server else server.log .assertFailed

/-- Another state of a connection. -/
def setConn (server : TCPRelayServer cipher) (name : String) (conn : Connection) :
    TCPRelayServer cipher :=
  { server with conns := AList.insert name conn server.conns }

/-- `resolveCallback`. -/
def resolveCallback (server : TCPRelayServer cipher) (connMeta : Nat) (ip : UInt32) :
    TCPRelayServer cipher :=
  match server.metas[connMeta]? with
  | none => server
  | some m =>
    let tunnel : Tunnel :=
      { serverConnMeta := connMeta, serverConn := m.conn, serverAddr := (ip, m.dstPort) }
    { server with
      tunnels := server.tunnels ++ [tunnel]
      localTunnelList := AList.insert m.conn server.tunnels.length server.localTunnelList
      effects := server.effects ++ [.connect m.conn ip m.dstPort] }

/-- `Resolver::onQueryResult`. The address is zero unless there is a result. -/
def onQueryResult (server : TCPRelayServer cipher) (query : QueryData)
    (result : Option Hostent) : TCPRelayServer cipher :=
  let ip := match result with
    | none => 0
    | some hostent => hostent.hAddr
  (server.log (.answered query.hostname result)).resolveCallback query.connMeta ip

/-- `Resolver::resolve`, which returns true. The answer may come before it returns. -/
def resolve (server : TCPRelayServer cipher) (hostname : List UInt8) (connMeta : Nat)
    (answer : Option (Option Hostent)) : TCPRelayServer cipher :=
  let query : QueryData := { hostname := cStr hostname, connMeta }
  match answer with
  | none => { server with queries := server.queries ++ [query] }
  | some result => server.onQueryResult query result

/-- `onServerMessage` for a connection whose request is complete. -/
def onMoreData (server : TCPRelayServer cipher) (name : String) (conn : Connection)
    (connMeta : Nat) : TCPRelayServer cipher :=
  match server.metas[connMeta]? with
  | none => server
  | some m =>
    let (asserted, m) := m.decrypt conn.inputBuffer
    let server := (server.assert asserted).setConn name { conn with inputBuffer := [] }
    match conn.context.bind (server.tunnels[·]?) with
    | none => { server with metas := server.metas.set connMeta m }
    | some tunnel =>
      -- `send` empties the buffer
      { server with
        metas := server.metas.set connMeta { m with buf := [] }
        tunnels := server.tunnels.set (conn.context.getD 0)
          { tunnel with forwarded := tunnel.forwarded ++ m.buf } }

/-- What `onServerMessage` does when `ParseRequest` has found a request. -/
def onRequest (server : TCPRelayServer cipher) (name : String) (conn : Connection)
    (m : ServerConnMeta cipher.State) (answer : Option (Option Hostent)) :
    TCPRelayServer cipher :=
  let connMeta := server.metas.length
  let server := { server with metas := server.metas ++ [m] }.log
    (.parsed name m.dstHostname m.dstPort)
  let server := server.resolve m.dstHostname connMeta answer
  let server := server.setConn name { conn with inputBuffer := [] }
  { server with localMetaList := AList.insert name connMeta server.localMetaList }

/-- `onServerMessage` for a connection whose request is not complete: everything that has arrived
is deciphered and parsed from its beginning. -/
def onFirstData (server : TCPRelayServer cipher) (name : String) (conn : Connection)
    (answer : Option (Option Hostent)) : TCPRelayServer cipher :=
  if conn.inputBuffer.length < cipher.ivLength then server
  else
    let iv := conn.inputBuffer.take cipher.ivLength
    let m : ServerConnMeta cipher.State := { conn := name, iv := iv, decryptor := cipher.init iv }
    let (asserted, m) := m.decrypt (conn.inputBuffer.drop cipher.ivLength)
    let server := server.assert asserted
    let (complete, m) := m.parseRequest
    if complete then server.onRequest name conn m answer else server

/-- `onServerMessage`. -/
def onServerMessage (server : TCPRelayServer cipher) (name : String) (conn : Connection)
    (answer : Option (Option Hostent)) : TCPRelayServer cipher :=
  match server.localMetaList.lookup name with
  | none => server.onFirstData name conn answer
  | some connMeta => server.onMoreData name conn connMeta

/-- `onServerConnection` for a connection that went down. -/
def onServerDown (server : TCPRelayServer cipher) (name : String) : TCPRelayServer cipher :=
  if name ∈ server.localMetaList then
    let server := { server with localMetaList := server.localMetaList.erase name }
    match server.localTunnelList.lookup name with
    | none => server
    | some tunnel =>
      { server.log (.disconnect tunnel) with
        localTunnelList := server.localTunnelList.erase name }
  else server

/-- Another context of the connection of a tunnel. -/
def setContext (server : TCPRelayServer cipher) (name : String) (context : Option Nat) :
    TCPRelayServer cipher :=
  match server.conns.lookup name with
  | none => server
  | some conn => server.setConn name { conn with context := context }

/-- `Tunnel::onClientConnection` for a connection that came up: what has been deciphered by then
is sent. -/
def onClientUp (server : TCPRelayServer cipher) (t : Nat) (tunnel : Tunnel) :
    TCPRelayServer cipher :=
  let server := server.setContext tunnel.serverConn (some t)
  match server.metas[tunnel.serverConnMeta]? with
  | none => { server with tunnels := server.tunnels.set t { tunnel with target := .connected } }
  | some m =>
    { server with
      metas := server.metas.set tunnel.serverConnMeta { m with buf := [] }
      tunnels := server.tunnels.set t
        { tunnel with target := .connected, forwarded := tunnel.forwarded ++ m.buf } }

/-- `Tunnel::onClientConnection` for a connection that went down, with `teardown`. -/
def onClientDown (server : TCPRelayServer cipher) (t : Nat) (tunnel : Tunnel) :
    TCPRelayServer cipher :=
  ({ server with tunnels := server.tunnels.set t { tunnel with target := .closed } }.setContext
    tunnel.serverConn none).log (.shutdown tunnel.serverConn)

end TCPRelayServer

/-- Everything that can happen in the thread. A read of a connection comes with the answer that
the resolver gives before `resolve` returns, if it does; the other answers and the events of the
targets name a query and a tunnel by their positions. -/
inductive RelayEvent where
  | up (name : String)
  | down (name : String)
  | read (name : String) (bytes : List UInt8) (answer : Option (Option Hostent))
  | answer (query : Nat) (result : Option Hostent)
  | targetUp (tunnel : Nat)
  | targetDown (tunnel : Nat)
  deriving DecidableEq, Repr

/-- The thread after an event. -/
def TCPRelayServer.step (server : TCPRelayServer cipher) : RelayEvent → TCPRelayServer cipher
  | .up name => if name ∈ server.conns then server else server.setConn name {}
  | .down name =>
    match server.conns.lookup name with
    | none => server
    | some conn =>
      if conn.connected then
        (server.setConn name { conn with connected := false }).onServerDown name
      else server
  | .read name bytes answer =>
    match server.conns.lookup name with
    | none => server
    | some conn =>
      if conn.connected ∧ bytes ≠ [] then
        let conn := { conn with inputBuffer := conn.inputBuffer ++ bytes }
        (server.setConn name conn).onServerMessage name conn answer
      else server
  | .answer query result =>
    match server.queries[query]? with
    | none => server
    | some data =>
      { server with queries := server.queries.eraseIdx query }.onQueryResult data result
  | .targetUp t =>
    match server.tunnels[t]? with
    | none => server
    | some tunnel => if tunnel.target = .connecting then server.onClientUp t tunnel else server
  | .targetDown t =>
    match server.tunnels[t]? with
    | none => server
    | some tunnel => if tunnel.target = .connected then server.onClientDown t tunnel else server

/-- The cipher of the relay's defaults, `aes-256-cfb` with the password `aes256cfb`, on the first
sixteen bytes behind `sampleIv`. -/
def sampleCipher : StreamCipher :=
  keystreamCipher 16 [221, 51, 209, 168, 18, 93, 168, 230, 55, 111, 142, 78, 11, 174, 13, 60]

def sampleIv : List UInt8 := [1, 2, 3, 4, 5, 6, 7, 8, 9, 10, 11, 12, 13, 14, 15, 16]

/-- The request for port 80 of the host `a` and the bytes of `hello`, under `sampleCipher`. -/
def sampleBytes : List UInt8 := [222, 50, 176, 168, 66, 53, 205, 138, 91, 0]

example : requestOf (sampleCipher.update (sampleCipher.init sampleIv) sampleBytes).2 =
    some ⟨[97], 80, [104, 101, 108, 108, 111]⟩ := by decide

end CodeBlocks.Relay
