import CodeBlocks.Kcp.Client.Changes
import CodeBlocks.Kcp.Server.Changes
import CodeBlocks.Kcp.Session.Peers

/-!
# Clients and a server over UDP

One server and any number of clients. A datagram that was sent may arrive at any
later time, any number of times or never. A client has a new address with every
socket, which is not the address of another open socket but may be one that was used
before. The tasks that the server posts to the loops of its sessions run there in any
order. A process that follows a null pointer takes no further step.
-/

namespace CodeBlocks.Kcp

variable {ι : Type} [DecidableEq ι] (adler32 : UInt32 → List UInt8 → UInt32)

/-- The bytes of a packet with a body behind its header. -/
def packetBytes (packetType : KCPReceivedPacketType) (sessionId : UInt32) (body : List UInt8) :
    List UInt8 :=
  match KCPPendingSendPacket.writePublicHeader adler32
    (List.replicate kPublicHeaderLength 0 ++ body) packetType.code sessionId with
  | .ok data => data
  | .error _ => []

/-- A datagram is read as it was written. -/
theorem datagramKind_packetBytes (packetType : KCPReceivedPacketType) (sessionId : UInt32)
    (body : List UInt8) :
    datagramKind adler32 (packetBytes adler32 packetType sessionId body) =
      some (packetType, sessionId) := by
  have hlen : kPublicHeaderLength ≤
      (List.replicate kPublicHeaderLength (0 : UInt8) ++ body).length := by
    simp
  obtain ⟨written, header, packet, hwrite, -, hread, htype, hid, -⟩ :=
    readPublicHeader_writePublicHeader adler32 hlen packetType.code sessionId
  rw [packetBytes, hwrite, datagramKind, readDatagram, hread, Option.bind_some]
  dsimp only
  rw [htype, KCPReceivedPacketType.ofCode_code, hid]
  rfl

/-- The state of all processes and everything that was sent so far. -/
structure KCPNetwork (ι : Type) where
  server : KCPServer
  clients : ι → KCPClient
  addresses : ι → InetAddress
  toServer : List (InetAddress × List UInt8) := []
  toClients : List (InetAddress × List UInt8) := []
  posted : List (UInt32 × KCPReceivedPacket × InetAddress) := []

/-- The datagram that an effect of a client sends. -/
def ClientEffect.datagram : ClientEffect → Option (List UInt8)
  | .send packetType sessionId => some (packetBytes adler32 packetType sessionId [])
  | _ => none

/-- The datagram that an effect of the server sends, with its destination. -/
def ServerEffect.datagram : ServerEffect → Option (InetAddress × List UInt8)
  | .send packetType sessionId address =>
    some (address, packetBytes adler32 packetType sessionId [])
  | _ => none

/-- The packet that an effect of the server posts to a session. -/
def ServerEffect.post : ServerEffect → Option (UInt32 × KCPReceivedPacket × InetAddress)
  | .processPacket sessionId packet address => some (sessionId, packet, address)
  | _ => none

/-- What happens in a client on its own: no connect, and no datagram. -/
def ClientEvent.Internal : ClientEvent → Prop
  | .connect _ _ => False
  | .packet _ => False
  | .session task _ _ => task.source = none
  | _ => True

/-- What happens in the server on its own: a timer, or a task that a session was given. -/
def ServerEvent.Internal (posted : List (UInt32 × KCPReceivedPacket × InetAddress)) :
    ServerEvent → Prop
  | .packet _ => False
  | .periodicTask _ => True
  | .session sessionId task _ => ∀ packet address calls, task = .packet packet address calls →
    (sessionId, packet, address) ∈ posted

namespace KCPNetwork

/-- A client handles an event. -/
def clientHandles (net : KCPNetwork ι) (i : ι) (event : ClientEvent) : KCPNetwork ι :=
  let (client, effects) := (net.clients i).handle adler32 event
  { net with
    clients := Function.update net.clients i client
    toServer := net.toServer ++
      (effects.filterMap (ClientEffect.datagram adler32)).map fun data => (net.addresses i, data) }

/-- The server handles an event. -/
def serverHandles (net : KCPNetwork ι) (event : ServerEvent) : KCPNetwork ι :=
  let (server, effects) := net.server.handle adler32 event
  { net with
    server
    toClients := net.toClients ++ effects.filterMap (ServerEffect.datagram adler32)
    posted := net.posted ++ effects.filterMap ServerEffect.post }

/-- A client opens a socket that has an address. -/
def opens (net : KCPNetwork ι) (i : ι) (address : InetAddress) : KCPNetwork ι :=
  { net with addresses := Function.update net.addresses i address }

/-- A session of a client outputs a datagram. -/
def clientSends (net : KCPNetwork ι) (i : ι) (sessionId : UInt32) (body : List UInt8) :
    KCPNetwork ι :=
  { net with toServer :=
    net.toServer ++ [(net.addresses i, packetBytes adler32 .data sessionId body)] }

/-- A session of the server outputs a datagram. -/
def serverSends (net : KCPNetwork ι) (address : InetAddress) (sessionId : UInt32)
    (body : List UInt8) : KCPNetwork ι :=
  { net with toClients := net.toClients ++ [(address, packetBytes adler32 .data sessionId body)] }

/-- The next states. `random` tells what the random source of the server may return in a state. A
session may output any datagram with its id at any time. -/
inductive Step (random : KCPNetwork ι → List (Option UInt32) → Prop) (net : KCPNetwork ι) :
    KCPNetwork ι → Prop
  | connect (i : ι) (address serverAddress : InetAddress) (now : Timestamp)
      (hclosed : (net.clients i).socket = false)
      (hfree : ∀ j, (net.clients j).socket = true → net.addresses j ≠ address) :
      Step random net ((net.opens i address).clientHandles adler32 i (.connect serverAddress now))
  | client (i : ι) (event : ClientEvent) (hinternal : event.Internal)
      (hsafe : .nullDereference ∉ ((net.clients i).handle adler32 event).2) :
      Step random net (net.clientHandles adler32 i event)
  | clientPacket (i : ι) (input : ClientPacket)
      (hsent : (net.addresses i, input.data) ∈ net.toClients)
      (hsafe : .nullDereference ∉ ((net.clients i).handle adler32 (.packet input)).2) :
      Step random net (net.clientHandles adler32 i (.packet input))
  | clientSends (i : ι) (session : KCPSession) (body : List UInt8)
      (hsession : (net.clients i).session = some session) :
      Step random net (net.clientSends adler32 i session.sessionId body)
  | server (event : ServerEvent) (hinternal : event.Internal net.posted) :
      Step random net (net.serverHandles adler32 event)
  | serverPacket (input : ServerPacket)
      (hsent : (input.clientAddress, input.data) ∈ net.toServer)
      (hrandom : random net input.rand) :
      Step random net (net.serverHandles adler32 (.packet input))
  | serverSends (address : InetAddress) (sessionId : UInt32) (body : List UInt8) :
      Step random net (net.serverSends adler32 address sessionId body)

/-- Nothing has happened yet. -/
def start (callbacks : SessionCallbacks) (clientCallbacks : ι → SessionCallbacks)
    (addresses : ι → InetAddress) : KCPNetwork ι where
  server := { callbacks }
  clients i := { callbacks := clientCallbacks i }
  addresses

/-- The states of a run. -/
def Reachable (random : KCPNetwork ι → List (Option UInt32) → Prop) (net : KCPNetwork ι) : Prop :=
  ∃ callbacks clientCallbacks addresses,
    Relation.ReflTransGen (Step adler32 random) (start callbacks clientCallbacks addresses) net

/-- The server has sent an id to an address. -/
def Offered (net : KCPNetwork ι) (address : InetAddress) (sessionId : UInt32) : Prop :=
  ∃ data, (address, data) ∈ net.toClients ∧ datagramKind adler32 data = some (.syn, sessionId)

/-- An id was acknowledged from an address, by an ACK packet or by data. -/
def Acknowledged (net : KCPNetwork ι) (address : InetAddress) (sessionId : UInt32) : Prop :=
  ∃ data type, (address, data) ∈ net.toServer ∧
    datagramKind adler32 data = some (type, sessionId) ∧ (type = .ack ∨ type = .data)

end KCPNetwork

end CodeBlocks.Kcp
