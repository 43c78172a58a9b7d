import CodeBlocks.Ai2048.Codec

/-!
# Clients and a server over TCP

`AI2048Client` and `AI2048Server` with their codecs and dispatchers: any number of
connections, each with the bytes that are on their way in both directions, and the
table of the server, which is keyed by the address of the name of a connection. A
read takes any number of the bytes that are on their way. One thread of the server
runs all its connections.
-/

namespace CodeBlocks.Ai2048

open ProtobufCodec

/-- The states of a `TcpConnection`. -/
inductive TcpState where
  | connecting
  | connected
  | disconnecting
  | disconnected
  deriving DecidableEq, Repr

/-- One end of a connection. -/
structure Endpoint where
  state : TcpState := .connecting
  inputBuffer : List UInt8 := []
  deriving DecidableEq, Repr

namespace Endpoint

/-- `shutdown`. -/
def shutdown (endpoint : Endpoint) : Endpoint :=
  if endpoint.state = .connected then { endpoint with state := .disconnecting } else endpoint

/-- An end that is up reads, also after it was shut down. -/
def Reads (endpoint : Endpoint) : Prop :=
  endpoint.state = .connected ∨ endpoint.state = .disconnecting

instance (endpoint : Endpoint) : Decidable endpoint.Reads :=
  inferInstanceAs (Decidable (_ ∨ _))

end Endpoint

/-- A connection: the game of its client, its ends, and the bytes on their way. `crashed` tells
whether the server has followed a null pointer in its table. -/
structure Conn where
  dummy : AI2048
  client : Endpoint := {}
  server : Endpoint := {}
  toServer : List UInt8 := []
  toClient : List UInt8 := []
  effects : List GameEffect := []
  crashed : Bool := false

/-- All clients and the server. The table holds pointers, which may be null. -/
structure Network (ι : Type) where
  conns : ι → Conn
  aiMap : Table ι (Option AI2048) := ∅
  gTotalNumWiner : Nat := 0

/-- What there is of one connection. -/
@[ext] structure Link where
  conn : Conn
  entry : Option (Option AI2048)

/-- The number of a type of move in `ai_2048.proto`. -/
def MoveType.number : MoveType → Int
  | .up => 0
  | .right => 1
  | .down => 2
  | .left => 3

/-- The direction that the client takes a number for. -/
def dirOfNumber (type : Int) : Direction :=
  if type = MoveType.number .up then .up
  else if type = MoveType.number .right then .right
  else if type = MoveType.number .down then .down
  else .left

namespace Network

variable {ι : Type} [DecidableEq ι] {δ μ : Type} [DecidableEq δ]

/-- Another state of a connection. -/
def modify (net : Network ι) (i : ι) (f : Conn → Conn) : Network ι :=
  { net with conns := Function.update net.conns i (f (net.conns i)) }

def log (net : Network ι) (i : ι) (effect : GameEffect) : Network ι :=
  net.modify i fun conn => { conn with effects := conn.effects ++ [effect] }

/-- `conn->shutdown()` at the server. -/
def shutdownServer (net : Network ι) (i : ι) : Network ι :=
  net.modify i fun conn => { conn with server := conn.server.shutdown }

/-- `conn->shutdown()` at a client. -/
def shutdownClient (net : Network ι) (i : ι) : Network ι :=
  net.modify i fun conn => { conn with client := conn.client.shutdown }

variable (wire : WireFormat) (others : Protobuf δ μ)
  (adler32 : UInt32 → List UInt8 → UInt32)

/-- `codec_.send` at a client. A connection that was shut down sends nothing. -/
def sendToServer (net : Network ι) (i : ι) (message : Message μ) : Network ι :=
  net.modify i fun conn =>
    if conn.client.state = .connected then
      { conn with
        toServer := conn.toServer ++ fillEmptyBuffer (aiProtobuf wire others) adler32 message }
    else conn

/-- `codec_.send` at the server. -/
def sendToClient (net : Network ι) (i : ι) (message : Message μ) : Network ι :=
  net.modify i fun conn =>
    if conn.server.state = .connected then
      { conn with
        toClient := conn.toClient ++ fillEmptyBuffer (aiProtobuf wire others) adler32 message }
    else conn

/-- `AI2048Client::SendTileDataToServer`. -/
def sendTileDataToServer (net : Network ι) (i : ι) (isOver : Bool) : Network ι :=
  let tiles := (net.conns i).dummy.tiles
  let (isOver, net) :=
    if isWin tiles then (true, { net with gTotalNumWiner := net.gTotalNumWiner + 1 })
    else (isOver, net)
  let tile : CSAI2048Tile :=
    { data := (List.finRange 16).map (getAllTiles tiles), isOver := isOver }
  (net.sendToServer wire others adler32 i (.csai2048Tile tile)).log i (.sent tiles isOver)

/-- `AI2048Client::OnSCAI2048Move`. -/
def onSCAI2048Move (net : Network ι) (i : ι) (message : SCAI2048Move) (randPos randVal : Nat) :
    Network ι :=
  let dummy := (net.conns i).dummy
  let result := tryMove dummy.tiles (dirOfNumber message.type)
  let dummy := { dummy with tiles := addRandTile result.2 randPos randVal }
  (net.modify i fun conn => { conn with dummy := dummy }).sendTileDataToServer wire others adler32 i
    (!result.1)

/-- What `OnCSAI2048Tile` does with the grid of a game that goes on. -/
def answer (net : Network ι) (i : ι) (ai : AI2048) (message : CSAI2048Tile) (iterations : Nat) :
    Network ι :=
  let grid := fun pos : Fin 16 => message.data.getD pos 0
  let filled : AI2048 := { ai with tiles := addComputerMove ai.tiles grid }
  let best := filled.getPlayerBestMove iterations
  let result := tryMove best.2.tiles best.1
  let type := if result.1 then MoveType.ofBestMove best.1 else .up
  let ai : AI2048 := { best.2 with tiles := result.2 }
  let net := { net with aiMap := AList.insert i (some ai) net.aiMap }
  (net.log i (.filled filled.tiles)).sendToClient wire others adler32 i
    (.scai2048Move { type := type.number })

/-- `AI2048Server::OnCSAI2048Tile`. The subscript makes an entry if there is none. -/
def onCSAI2048Tile (net : Network ι) (i : ι) (message : CSAI2048Tile) (iterations : Nat) :
    Network ι :=
  let net := { net with aiMap := net.aiMap.insertNew i none }
  if message.isOver ∨ message.data.length ≠ 16 then (net.shutdownServer i).log i .shutdown
  else
    match (net.aiMap.lookup i).join with
    | none => net.modify i fun conn => { conn with crashed := true }
    | some ai => net.answer wire others adler32 i ai message iterations

/-- The dispatcher of the server, for a connection. The oracle gives the number of deepening
iterations, less one, for each message of a read. -/
def serverDispatcher (i : ι) (more : Nat → Nat) :
    ProtobufDispatcher (Descriptor δ) (Message μ) (Network ι × Nat) :=
  (({ defaultCallback := fun state _ => (state.1.shutdownServer i, state.2 + 1) } :
      ProtobufDispatcher (Descriptor δ) (Message μ) (Network ι × Nat)).registerMessageCallback
    .csai2048Tile fun state message =>
      match message with
      | .csai2048Tile tile =>
        (state.1.onCSAI2048Tile wire others adler32 i tile (more state.2 + 1), state.2 + 1)
      | _ => state).registerMessageCallback
    .scai2048Move fun state message =>
      match message with
      | .scai2048Move _ => (state.1.shutdownServer i, state.2 + 1)
      | _ => state

/-- The dispatcher of a client. The oracle gives the two random numbers for each message of a
read. -/
def clientDispatcher (i : ι) (random : Nat → Nat × Nat) :
    ProtobufDispatcher (Descriptor δ) (Message μ) (Network ι × Nat) :=
  (({ defaultCallback := fun state _ => (state.1, state.2 + 1) } :
      ProtobufDispatcher (Descriptor δ) (Message μ) (Network ι × Nat)).registerMessageCallback
    .csai2048Tile fun state message =>
      match message with
      | .csai2048Tile _ => (state.1, state.2 + 1)
      | _ => state).registerMessageCallback
    .scai2048Move fun state message =>
      match message with
      | .scai2048Move move =>
        (state.1.onSCAI2048Move wire others adler32 i move (random state.2).1 (random state.2).2,
          state.2 + 1)
      | _ => state

/-- A read at the server of at most `n` bytes, with `defaultErrorCallback`. -/
def serverRead (net : Network ι) (i : ι) (n : Nat) (more : Nat → Nat) : Network ι :=
  let conn := net.conns i
  let taken := net.modify i fun conn => { conn with toServer := conn.toServer.drop n }
  let (state, buf) := ProtobufCodec.read (aiProtobuf wire others) adler32
    ((serverDispatcher wire others adler32 i more).onProtobufMessage (aiProtobuf wire others))
    (fun state _ => (state.1.shutdownServer i, state.2))
    ((taken, 0), conn.server.inputBuffer) (conn.toServer.take n)
  state.1.modify i fun conn => { conn with server := { conn.server with inputBuffer := buf } }

/-- A read at a client of at most `n` bytes. -/
def clientRead (net : Network ι) (i : ι) (n : Nat) (random : Nat → Nat × Nat) : Network ι :=
  let conn := net.conns i
  let taken := net.modify i fun conn => { conn with toClient := conn.toClient.drop n }
  let (state, buf) := ProtobufCodec.read (aiProtobuf wire others) adler32
    ((clientDispatcher wire others adler32 i random).onProtobufMessage (aiProtobuf wire others))
    (fun state _ => (state.1.shutdownClient i, state.2))
    ((taken, 0), conn.client.inputBuffer) (conn.toClient.take n)
  state.1.modify i fun conn => { conn with client := { conn.client with inputBuffer := buf } }

end Network

/-- Everything that can happen. The ends of a connection come up and go down one by one. `foreign`
are bytes that do not come from an `AI2048Client`. -/
inductive NetEvent (ι : Type) where
  | serverUp (i : ι)
  | clientUp (i : ι)
  | serverRead (i : ι) (n : Nat) (more : Nat → Nat)
  | clientRead (i : ι) (n : Nat) (random : Nat → Nat × Nat)
  | serverDown (i : ι)
  | clientDown (i : ι)
  | foreign (i : ι) (bytes : List UInt8)

/-- The connection of an event. -/
def NetEvent.conn {ι : Type} : NetEvent ι → ι
  | .serverUp i => i
  | .clientUp i => i
  | .serverRead i _ _ => i
  | .clientRead i _ _ => i
  | .serverDown i => i
  | .clientDown i => i
  | .foreign i _ => i

namespace Network

variable {ι : Type} [DecidableEq ι] {δ μ : Type} [DecidableEq δ]
  (wire : WireFormat) (others : Protobuf δ μ) (adler32 : UInt32 → List UInt8 → UInt32)

/-- The network after an event. -/
def step (net : Network ι) : NetEvent ι → Network ι
  | .serverUp i =>
    if (net.conns i).server.state = .connecting then
      { net with aiMap := AList.insert i (some {}) net.aiMap }.modify i fun conn =>
        { conn with server := { conn.server with state := .connected } }
    else net
  | .clientUp i =>
    if (net.conns i).client.state = .connecting then
      (net.modify i fun conn =>
        { conn with client := { conn.client with state := .connected } }).sendTileDataToServer
          wire others adler32 i false
    else net
  | .serverRead i n more =>
    if (net.conns i).server.Reads then net.serverRead wire others adler32 i n more else net
  | .clientRead i n random =>
    if (net.conns i).client.Reads then net.clientRead wire others adler32 i n random else net
  | .serverDown i =>
    if (net.conns i).server.Reads then
      { net with aiMap := net.aiMap.erase i }.modify i fun conn =>
        { conn with server := { conn.server with state := .disconnected } }
    else net
  | .clientDown i =>
    if (net.conns i).client.Reads then
      net.modify i fun conn =>
        { conn with client := { conn.client with state := .disconnected } }
    else net
  | .foreign i bytes => net.modify i fun conn => { conn with toServer := conn.toServer ++ bytes }

/-- The network after some events. -/
def run (net : Network ι) (events : List (NetEvent ι)) : Network ι :=
  events.foldl (step wire others adler32) net

/-- The clients with their first two tiles, before any connection. -/
def init (random : ι → Nat × Nat × Nat × Nat) : Network ι where
  conns i :=
    { dummy := (Game.init (random i).1 (random i).2.1 (random i).2.2.1 (random i).2.2.2).dummy }

/-- A connection in the network. -/
def link (net : Network ι) (i : ι) : Link := ⟨net.conns i, net.aiMap.lookup i⟩

end Network

namespace Network

variable {ι : Type} [DecidableEq ι] {δ μ : Type} {wire : WireFormat} {others : Protobuf δ μ}
  {adler32 : UInt32 → List UInt8 → UInt32}

/-- A client sends its board; a board that has won counts and is final. -/
theorem sendTileDataToServer_eq (net : Network ι) (i : ι) (isOver : Bool) :
    net.sendTileDataToServer wire others adler32 i isOver =
      if isWin (net.conns i).dummy.tiles then
        (sendToServer wire others adler32
          { net with gTotalNumWiner := net.gTotalNumWiner + 1 } i (.csai2048Tile
            ⟨(List.finRange 16).map (getAllTiles (net.conns i).dummy.tiles), true⟩)).log i
          (.sent (net.conns i).dummy.tiles true)
      else
        (net.sendToServer wire others adler32 i (.csai2048Tile
          ⟨(List.finRange 16).map (getAllTiles (net.conns i).dummy.tiles), isOver⟩)).log i
          (.sent (net.conns i).dummy.tiles isOver) := by
  unfold sendTileDataToServer
  dsimp only
  by_cases hwin : isWin (net.conns i).dummy.tiles = true
  · simp only [if_pos hwin]
  · simp only [if_neg hwin]

/-- A change of the network that reads and writes one connection only. -/
structure Local (i : ι) (f : Network ι → Network ι) : Prop where
  other : ∀ net j, j ≠ i → (f net).link j = net.link j
  own : ∀ net net', net.link i = net'.link i → (f net).link i = (f net').link i

namespace Local

variable {i : ι} {f g : Network ι → Network ι}

/-- No change at all. -/
theorem same : Local i fun net : Network ι => net := ⟨fun _ _ _ => rfl, fun _ _ h => h⟩

/-- One local change after another. -/
theorem comp (hg : Local i g) (hf : Local i f) : Local i fun net => g (f net) where
  other net j hj := (hg.other _ j hj).trans (hf.other net j hj)
  own net net' h := hg.own _ _ (hf.own net net' h)

/-- What is done may depend on the state of the connection. -/
theorem depend {h : Link → Network ι → Network ι} (hf : ∀ net, f net = h (net.link i) net)
    (hh : ∀ link, Local i (h link)) : Local i f where
  other net j hj := by
    rw [hf]
    exact (hh _).other net j hj
  own net net' hlink := by
    rw [hf, hf, hlink]
    exact (hh _).own net net' hlink

/-- A change of the connection itself. -/
theorem modify (change : Conn → Conn) : Local i fun net => net.modify i change where
  other net j hj := Link.ext (Function.update_of_ne hj _ _) rfl
  own net net' h := by
    rw [link, link, Link.mk.injEq] at h
    apply Link.ext
    · change Function.update _ i _ i = Function.update _ i _ i
      rw [Function.update_self, Function.update_self, h.1]
    · exact h.2

/-- A change of the table under the key of the connection. -/
theorem table (change : Table ι (Option AI2048) → Table ι (Option AI2048))
    (hother : ∀ t j, j ≠ i → (change t).lookup j = AList.lookup j t)
    (hown : ∀ t t', AList.lookup i t = AList.lookup i t' →
      (change t).lookup i = (change t').lookup i) :
    Local i fun net => { net with aiMap := change net.aiMap } where
  other net j hj := Link.ext rfl (hother _ j hj)
  own net net' h := by
    rw [link, link, Link.mk.injEq] at h
    exact Link.ext h.1 (hown _ _ h.2)

/-- A new entry for the connection. -/
theorem insert (value : Option AI2048) :
    Local i fun net => { net with aiMap := AList.insert i value net.aiMap } :=
  table _ (fun _ _ hj => AList.lookup_insert_ne hj) fun t t' _ => by
    rw [AList.lookup_insert, AList.lookup_insert]

/-- An entry for the connection unless it has one. -/
theorem insertNew (value : Option AI2048) :
    Local i fun net => { net with aiMap := net.aiMap.insertNew i value } :=
  table (fun t => t.insertNew i value)
    (fun _ _ hj => by rw [Table.lookup_insertNew, if_neg hj]) fun t t' h => by
    rw [Table.lookup_insertNew, Table.lookup_insertNew, h]

/-- The entry of the connection goes. -/
theorem erase : Local i fun net => { net with aiMap := net.aiMap.erase i } :=
  table _ (fun _ _ hj => AList.lookup_erase_ne hj) fun t t' _ => by
    rw [AList.lookup_erase, AList.lookup_erase]

/-- The counter of the winners belongs to no connection. -/
theorem count (change : Nat → Nat) :
    Local i fun net => { net with gTotalNumWiner := change net.gTotalNumWiner } :=
  ⟨fun _ _ _ => rfl, fun _ _ h => h⟩

/-- A board that the client sends. -/
theorem sendTileDataToServer (isOver : Bool) :
    Local i fun net => net.sendTileDataToServer wire others adler32 i isOver := by
  refine depend (h := fun link net =>
    if isWin link.conn.dummy.tiles then
      (Network.sendToServer wire others adler32
        { net with gTotalNumWiner := net.gTotalNumWiner + 1 } i (.csai2048Tile
          ⟨(List.finRange 16).map (getAllTiles link.conn.dummy.tiles), true⟩)).log i
        (.sent link.conn.dummy.tiles true)
    else
      (net.sendToServer wire others adler32 i (.csai2048Tile
        ⟨(List.finRange 16).map (getAllTiles link.conn.dummy.tiles), isOver⟩)).log i
        (.sent link.conn.dummy.tiles isOver))
    (fun net => sendTileDataToServer_eq net i isOver) fun link => ?_
  split
  · exact (modify _).comp ((modify _).comp (count _))
  · exact (modify _).comp (modify _)

/-- A move that the client makes. -/
theorem onSCAI2048Move (message : SCAI2048Move) (randPos randVal : Nat) :
    Local i fun net => net.onSCAI2048Move wire others adler32 i message randPos randVal :=
  depend (h := fun link net =>
    let result := tryMove link.conn.dummy.tiles (dirOfNumber message.type)
    (net.modify i fun conn =>
      { conn with dummy := { link.conn.dummy with tiles := addRandTile result.2 randPos randVal } }
      ).sendTileDataToServer wire others adler32 i (!result.1)) (fun _ => rfl)
    fun _ => (sendTileDataToServer _).comp (modify _)

/-- A record. -/
theorem log (effect : GameEffect) : Local i fun net => net.log i effect := modify _

/-- A move that is sent. -/
theorem sendToClient (message : Message μ) :
    Local i fun net => net.sendToClient wire others adler32 i message := modify _

/-- The server's move for a grid. -/
theorem answer (ai : AI2048) (message : CSAI2048Tile) (iterations : Nat) :
    Local i fun net => net.answer wire others adler32 i ai message iterations :=
  (sendToClient _).comp ((log _).comp (insert _))

/-- A grid that the server gets, with the lookup of its entry. -/
theorem onCSAI2048Tile (message : CSAI2048Tile) (iterations : Nat) :
    Local i fun net => net.onCSAI2048Tile wire others adler32 i message iterations := by
  have hplay : Local i fun net : Network ι =>
      if message.isOver ∨ message.data.length ≠ 16 then (net.shutdownServer i).log i .shutdown
      else
        match (net.aiMap.lookup i).join with
        | none => net.modify i fun conn => { conn with crashed := true }
        | some ai => net.answer wire others adler32 i ai message iterations := by
    split
    · exact (modify _).comp (modify _)
    · refine depend (h := fun link net =>
        match link.entry.join with
        | none => net.modify i fun conn => { conn with crashed := true }
        | some ai => net.answer wire others adler32 i ai message iterations)
        (fun _ => rfl) fun link => ?_
      cases link.entry.join with
      | none => exact modify _
      | some ai => exact answer ai message iterations
  exact hplay.comp (insertNew none)

/-- A read of a connection whose callbacks work on that connection. -/
theorem read (handle : Nat → Message μ → Network ι → Network ι)
    {callback : Network ι × Nat → Message μ → Network ι × Nat} {refuse : Network ι → Network ι}
    (hcallback : ∀ state message,
      callback state message = (handle state.2 message state.1, state.2 + 1))
    (hhandle : ∀ k message, Local i (handle k message)) (hrefuse : Local i refuse)
    (buffer data : List UInt8) :
    Local i fun net => (ProtobufCodec.read (aiProtobuf wire others) adler32 callback
      (fun state _ => (refuse state.1, state.2)) ((net, 0), buffer) data).1.1 where
  other net j hj := by
    rw [read_eq_serve]
    refine Framing.serve_invariant (P := fun s : Network ι × Nat => s.1.link j = net.link j)
      ?_ ?_ rfl _ _
    · intro s message h
      rw [hcallback]
      exact ((hhandle _ _).other _ j hj).trans h
    · exact fun s error h => (hrefuse.other _ j hj).trans h
  own net net' h := by
    rw [read_eq_serve]
    refine (Framing.serve_rel (s := (net, 0)) (t := (net', 0))
      (R := fun s t : Network ι × Nat => s.1.link i = t.1.link i ∧ s.2 = t.2)
      ?_ ?_ ⟨h, rfl⟩ _ _).1
    · intro s t message h
      rw [hcallback, hcallback, h.2]
      exact ⟨(hhandle _ _).own _ _ h.1, rfl⟩
    · exact fun s t error h => ⟨hrefuse.own _ _ h.1, h.2⟩

end Local

variable [DecidableEq δ]

/-- What the server makes of a message. -/
theorem serverDispatch (i : ι) (more : Nat → Nat) (state : Network ι × Nat) (message : Message μ) :
    (serverDispatcher wire others adler32 i more).onProtobufMessage (aiProtobuf wire others) state
        message =
      (match message with
        | .csai2048Tile tile =>
          state.1.onCSAI2048Tile wire others adler32 i tile (more state.2 + 1)
        | _ => state.1.shutdownServer i, state.2 + 1) := by
  simp only [serverDispatcher, ProtobufDispatcher.onProtobufMessage,
    ProtobufDispatcher.registerMessageCallback, aiProtobuf]
  cases message with
  | csai2048Tile tile =>
      dsimp only
      rw [AList.lookup_insert_ne (by simp), AList.lookup_insert]
  | scai2048Move move =>
      dsimp only
      rw [AList.lookup_insert]
  | other message =>
      dsimp only
      rw [AList.lookup_insert_ne (by simp), AList.lookup_insert_ne (by simp), AList.lookup_empty]

/-- What a client makes of a message. -/
theorem clientDispatch (i : ι) (random : Nat → Nat × Nat) (state : Network ι × Nat)
    (message : Message μ) :
    (clientDispatcher wire others adler32 i random).onProtobufMessage (aiProtobuf wire others) state
        message =
      (match message with
        | .scai2048Move move => state.1.onSCAI2048Move wire others adler32 i move
            (random state.2).1 (random state.2).2
        | _ => state.1, state.2 + 1) := by
  simp only [clientDispatcher, ProtobufDispatcher.onProtobufMessage,
    ProtobufDispatcher.registerMessageCallback, aiProtobuf]
  cases message with
  | csai2048Tile tile =>
      dsimp only
      rw [AList.lookup_insert_ne (by simp), AList.lookup_insert]
  | scai2048Move move =>
      dsimp only
      rw [AList.lookup_insert]
  | other message =>
      dsimp only
      rw [AList.lookup_insert_ne (by simp), AList.lookup_insert_ne (by simp), AList.lookup_empty]

/-- A read of the server as a read of the codec with its callbacks. -/
theorem serverRead_eq (net : Network ι) (i : ι) (n : Nat) (more : Nat → Nat) :
    net.serverRead wire others adler32 i n more =
      (ProtobufCodec.read (aiProtobuf wire others) adler32
        ((serverDispatcher wire others adler32 i more).onProtobufMessage (aiProtobuf wire others))
        (fun state _ => (state.1.shutdownServer i, state.2))
        ((net.modify i fun conn => { conn with toServer := conn.toServer.drop n }, 0),
          (net.conns i).server.inputBuffer) ((net.conns i).toServer.take n)).1.1.modify i
        fun conn => { conn with server := { conn.server with
          inputBuffer := ((framing (aiProtobuf wire others) adler32).decode
            ((net.conns i).server.inputBuffer ++ (net.conns i).toServer.take n)).rest } } := by
  unfold serverRead
  rw [read_eq_serve]
  rfl

/-- A read of the client as a read of the codec with its callbacks. -/
theorem clientRead_eq (net : Network ι) (i : ι) (n : Nat) (random : Nat → Nat × Nat) :
    net.clientRead wire others adler32 i n random =
      (ProtobufCodec.read (aiProtobuf wire others) adler32
        ((clientDispatcher wire others adler32 i random).onProtobufMessage (aiProtobuf wire others))
        (fun state _ => (state.1.shutdownClient i, state.2))
        ((net.modify i fun conn => { conn with toClient := conn.toClient.drop n }, 0),
          (net.conns i).client.inputBuffer) ((net.conns i).toClient.take n)).1.1.modify i
        fun conn => { conn with client := { conn.client with
          inputBuffer := ((framing (aiProtobuf wire others) adler32).decode
            ((net.conns i).client.inputBuffer ++ (net.conns i).toClient.take n)).rest } } := by
  unfold clientRead
  rw [read_eq_serve]
  rfl

namespace Local

variable {i : ι}

/-- A read of the server, whatever the bytes are. -/
theorem serverRead (n : Nat) (more : Nat → Nat) :
    Local i fun net => net.serverRead wire others adler32 i n more := by
  refine depend (h := fun link net => (ProtobufCodec.read (aiProtobuf wire others) adler32
    ((serverDispatcher wire others adler32 i more).onProtobufMessage (aiProtobuf wire others))
    (fun state _ => (state.1.shutdownServer i, state.2))
    ((net.modify i fun conn => { conn with toServer := conn.toServer.drop n }, 0),
      link.conn.server.inputBuffer) (link.conn.toServer.take n)).1.1.modify i
    fun conn => { conn with server := { conn.server with
      inputBuffer := ((framing (aiProtobuf wire others) adler32).decode
        (link.conn.server.inputBuffer ++ link.conn.toServer.take n)).rest } })
    (fun net => serverRead_eq net i n more) fun link => ?_
  refine (modify _).comp (Local.comp (read (fun k message net =>
    match message with
    | .csai2048Tile tile => net.onCSAI2048Tile wire others adler32 i tile (more k + 1)
    | _ => net.shutdownServer i) (serverDispatch i more) ?_ (modify _) _ _) (modify _))
  intro k message
  cases message with
  | csai2048Tile tile => exact onCSAI2048Tile tile _
  | scai2048Move move => exact modify _
  | other message => exact modify _

/-- A read of the client, whatever the bytes are. -/
theorem clientRead (n : Nat) (random : Nat → Nat × Nat) :
    Local i fun net => net.clientRead wire others adler32 i n random := by
  refine depend (h := fun link net => (ProtobufCodec.read (aiProtobuf wire others) adler32
    ((clientDispatcher wire others adler32 i random).onProtobufMessage (aiProtobuf wire others))
    (fun state _ => (state.1.shutdownClient i, state.2))
    ((net.modify i fun conn => { conn with toClient := conn.toClient.drop n }, 0),
      link.conn.client.inputBuffer) (link.conn.toClient.take n)).1.1.modify i
    fun conn => { conn with client := { conn.client with
      inputBuffer := ((framing (aiProtobuf wire others) adler32).decode
        (link.conn.client.inputBuffer ++ link.conn.toClient.take n)).rest } })
    (fun net => clientRead_eq net i n random) fun link => ?_
  refine (modify _).comp (Local.comp (read (fun k message net =>
    match message with
    | .scai2048Move move =>
      net.onSCAI2048Move wire others adler32 i move (random k).1 (random k).2
    | _ => net) (clientDispatch i random) ?_ (modify _) _ _) (modify _))
  intro k message
  cases message with
  | csai2048Tile tile => exact same
  | scai2048Move move => exact onSCAI2048Move move _ _
  | other message => exact same

/-- What is done only in some states of the connection. -/
theorem guard (cond : Link → Prop) [DecidablePred cond] {f : Network ι → Network ι}
    (hf : Local i f) : Local i fun net => if cond (net.link i) then f net else net :=
  depend (h := fun link net => if cond link then f net else net) (fun _ => rfl) fun link => by
    by_cases hcond : cond link
    · simp only [if_pos hcond]
      exact hf
    · simp only [if_neg hcond]
      exact same

variable (wire others adler32) in
/-- An event concerns its connection only. -/
theorem step (event : NetEvent ι) :
    Local event.conn fun net => net.step wire others adler32 event := by
  cases event with
  | serverUp i =>
      exact guard (fun link => link.conn.server.state = .connecting)
        ((modify _).comp (insert _))
  | clientUp i =>
      exact guard (fun link => link.conn.client.state = .connecting)
        ((sendTileDataToServer _).comp (modify _))
  | serverRead i n more =>
      exact guard (fun link => link.conn.server.Reads) (serverRead n more)
  | clientRead i n random =>
      exact guard (fun link => link.conn.client.Reads) (clientRead n random)
  | serverDown i =>
      exact guard (fun link => link.conn.server.Reads) ((modify _).comp erase)
  | clientDown i => exact guard (fun link => link.conn.client.Reads) (modify _)
  | foreign i bytes => exact modify fun conn => { conn with toServer := conn.toServer ++ bytes }

end Local

/-- What happens on a connection, and the game that the server keeps for it, depend on nothing but
the events of the connection, whatever bytes and however many connections there are besides. -/
theorem run_link (net : Network ι) (events : List (NetEvent ι)) (i : ι) :
    (net.run wire others adler32 events).link i =
      (net.run wire others adler32 (events.filter (·.conn = i))).link i := by
  have hown : ∀ (events : List (NetEvent ι)) (net net' : Network ι), net.link i = net'.link i →
      (∀ event ∈ events, event.conn = i) →
      (net.run wire others adler32 events).link i =
        (net'.run wire others adler32 events).link i := by
    intro events
    induction events with
    | nil => exact fun net net' h _ => h
    | cons event events ih =>
        intro net net' h hconn
        have hevent := hconn event List.mem_cons_self
        have hstep := (Local.step wire others adler32 event).own net net' (by rw [hevent]; exact h)
        rw [hevent] at hstep
        exact ih _ _ hstep fun other hmem => hconn other (List.mem_cons_of_mem _ hmem)
  induction events generalizing net with
  | nil => rfl
  | cons event events ih =>
      by_cases hevent : event.conn = i
      · rw [List.filter_cons_of_pos (by simpa using hevent)]
        exact ih _
      · have hother := (Local.step wire others adler32 event).other net i fun heq => hevent heq.symm
        rw [List.filter_cons_of_neg (by simpa using hevent)]
        refine (ih _).trans (hown _ _ _ hother fun event hmem => ?_)
        simpa using (List.mem_filter.mp hmem).2

end Network

end CodeBlocks.Ai2048
