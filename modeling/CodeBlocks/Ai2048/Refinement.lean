import CodeBlocks.Ai2048.Network
import Mathlib.Algebra.Order.BigOperators.Group.List

/-!
# Connections as games

Every connection between an `AI2048Client` and the server is a game between the two:
the bytes in its buffers and on their way are the messages of the game, however TCP
cuts them, and each read is a number of moves. What holds of every game holds of
every connection, whatever the other connections carry.
-/

namespace CodeBlocks.Ai2048

open ProtobufCodec

variable {δ μ : Type} (wire : WireFormat) (others : Protobuf δ μ)
  (adler32 : UInt32 → List UInt8 → UInt32)

/-- What is sent of a board. -/
def tileFrame (tile : CSAI2048Tile) : List UInt8 :=
  fillEmptyBuffer (aiProtobuf wire others) adler32 (.csai2048Tile tile)

/-- What is sent of a move. -/
def moveFrame (type : MoveType) : List UInt8 :=
  fillEmptyBuffer (aiProtobuf wire others) adler32 (.scai2048Move { type := type.number })

/-- A message with the sixteen numbers of a board. -/
structure CSAI2048Tile.Board (tile : CSAI2048Tile) : Prop where
  length : tile.data.length = 16
  data : ∀ value ∈ tile.data, IsInt32 value

/-- A game in which every board fits into its messages. -/
structure Game.Sized (game : Game) : Prop where
  bound : ∀ q, game.dummy.tiles q ≤ 11
  toServer : ∀ tile ∈ game.toServer, tile.Board

variable {wire others adler32}

/-- A board fits into a message, and its message into a frame. -/
theorem CSAI2048Tile.Board.fits (hwire : wire.Lawful) {tile : CSAI2048Tile} (h : tile.Board) :
    tile.Fits wire ∧ (tile.serialize wire).length ≤ 200 := by
  have hsize : tile.dataCachedByteSize wire ≤ 160 := by
    have hle := List.sum_le_card_nsmul (tile.data.map wire.int32Size) 10 (by
      intro size hmem
      obtain ⟨value, -, rfl⟩ := List.mem_map.mp hmem
      exact hwire.int32Size_le value)
    rw [List.length_map, h.length] at hle
    exact hle
  have hfits : tile.Fits wire := ⟨h.data, by omega⟩
  refine ⟨hfits, ?_⟩
  have hsizeLen := hwire.int32Size_le (tile.dataCachedByteSize wire)
  rw [length_serialize hwire hfits, byteSize]
  split <;> split <;> omega

/-- The frame of a message with a short name and little data. -/
theorem length_fillEmptyBuffer_le {message : Message μ}
    (hname : ((aiProtobuf wire others).getTypeName message).length ≤ 100)
    (hdata : ((aiProtobuf wire others).serialize message).length ≤ 200) :
    (fillEmptyBuffer (aiProtobuf wire others) adler32 message).length ≤
      kHeaderLen + kMaxMessageLen := by
  obtain ⟨hheader, -, hmax⟩ := lens
  simp only [fillEmptyBuffer, List.length_append, Bytes.length_put32be, List.length_singleton]
  omega

/-- What is sent of a board is a frame that is read as the board. -/
theorem tileFrame_isFrame (hwire : wire.Lawful) {tile : CSAI2048Tile} (h : tile.Board) :
    (framing (aiProtobuf wire others) adler32).IsFrame (tileFrame wire others adler32 tile)
      (.csai2048Tile tile) := by
  obtain ⟨hfits, hlen⟩ := h.fits hwire
  refine isFrame_iff.mpr ((transmits_tile hwire others hfits).isTransport
    (length_fillEmptyBuffer_le ?_ hlen))
  change (nameBytes "aiproto.CSAI2048Tile").length ≤ 100
  decide

/-- What is sent of a move is a frame that is read as the move. -/
theorem moveFrame_isFrame (hwire : wire.Lawful) (type : MoveType) :
    (framing (aiProtobuf wire others) adler32).IsFrame (moveFrame wire others adler32 type)
      (.scai2048Move { type := type.number }) := by
  have hint : IsInt32 type.number := by cases type <;> exact ⟨by decide, by decide⟩
  refine isFrame_iff.mpr ((transmits_move hwire others hint).isTransport
    (length_fillEmptyBuffer_le ?_ ?_))
  · change (nameBytes "aiproto.SCAI2048Move").length ≤ 100
    decide
  · have hsize := hwire.enumSize_le type.number
    change (SCAI2048Move.serialize wire ⟨type.number⟩).length ≤ 200
    rw [@SCAI2048Move.length_serialize wire hwire ⟨type.number⟩ hint]
    change (if type.number ≠ 0 then 1 + wire.enumSize type.number else 0) ≤ 200
    split <;> omega

namespace Game

variable {game : Game}

/-- The numbers of a board that is played are 32-bit numbers. -/
theorem board_grid {tiles : Tiles} (h : ∀ q, tiles q ≤ 11) (isOver : Bool) :
    CSAI2048Tile.Board ⟨(List.finRange 16).map (getAllTiles tiles), isOver⟩ := by
  refine ⟨by simp, fun value hmem => ?_⟩
  obtain ⟨q, -, rfl⟩ := List.mem_map.mp hmem
  have hpow : (1 <<< tiles q : Nat) ≤ 2 ^ 11 := by
    rw [Nat.one_shiftLeft]
    exact Nat.pow_le_pow_right (by decide) (h q)
  unfold getAllTiles IsInt32
  generalize (1 <<< tiles q : Nat) = tile at hpow ⊢
  split <;> omega

/-- Sending a board does not change it. -/
theorem Sized.send (h : game.Sized) (isOver : Bool) : (game.sendTileDataToServer isOver).Sized where
  bound := h.bound
  toServer := by
    intro tile hmem
    rcases List.mem_append.mp hmem with hold | hnew
    · exact h.toServer tile hold
    · rw [List.mem_singleton.mp hnew]
      exact board_grid h.bound _

/-- Every event of the game keeps its boards small. -/
theorem Sized.step (h : game.Sized) (hinv : game.Inv) (event : GameEvent) :
    (game.step event).Sized := by
  cases event with
  | connect =>
      simp only [Game.step]
      cases game.ai with
      | none => exact @Sized.send { game with ai := some {} } ⟨h.bound, h.toServer⟩ false
      | some ai => exact h
  | grid more =>
      simp only [Game.step]
      split
      · rename_i ai message toServer hai hserver
        have htail : ∀ tile ∈ toServer, tile.Board := fun tile hmem =>
          h.toServer tile (by rw [hserver]; exact List.mem_cons_of_mem _ hmem)
        unfold onCSAI2048Tile
        split
        · exact ⟨h.bound, htail⟩
        · exact ⟨h.bound, htail⟩
      · exact h
  | move randPos randVal =>
      simp only [Game.step]
      cases hclient : game.toClient with
      | nil => exact h
      | cons type toClient =>
          obtain ⟨hrunning⟩ : Nonempty (Running game.dummy.tiles) := by
            cases hinv.stage with
            | moving ai type hai hserver hone hsent hrunning => exact ⟨hrunning⟩
            | idle hai hserver hnone => rw [hnone] at hclient; cases hclient
            | sending ai hai hserver hnone => rw [hnone] at hclient; cases hclient
            | ending ai data hai hserver hnone => rw [hnone] at hclient; cases hclient
            | ended ai hai hserver hnone => rw [hnone] at hclient; cases hclient
          have hle : ∀ q, (tryMove game.dummy.tiles type.dir).2 q ≤ 11 :=
            tryMove_le hrunning.bound type.dir
          obtain ⟨-, hbound, -⟩ := addRandTile_spec hle (by decide) randPos randVal
          refine @Sized.send { game with toClient := toClient, dummy := { game.dummy with
            tiles := addRandTile (tryMove game.dummy.tiles type.dir).2 randPos randVal } }
            ⟨hbound, h.toServer⟩ _

/-- The first board is small. -/
theorem sized_init (randPos randVal randPos' randVal' : Nat) :
    (init randPos randVal randPos' randVal').Sized := by
  have hempty : ∀ q, (fun _ => 0 : Tiles) q ≤ 11 := fun _ => Nat.zero_le 11
  obtain ⟨-, hfirst, -⟩ := addRandTile_spec hempty (by decide) randPos randVal
  obtain ⟨-, hbound, -⟩ := addRandTile_spec hfirst (by decide) randPos' randVal'
  exact ⟨hbound, fun tile hmem => absurd hmem List.not_mem_nil⟩

/-- There is at most one message on its way. -/
theorem Inv.of_tile (h : game.Inv) {tile : CSAI2048Tile} {toServer : List CSAI2048Tile}
    (hgame : game.toServer = tile :: toServer) :
    ∃ ai, game.ai = some ai ∧ toServer = [] ∧ game.toClient = [] := by
  cases h.stage with
  | sending ai hai hserver hclient =>
      rw [hserver, List.cons.injEq] at hgame
      exact ⟨ai, hai, hgame.2.symm, hclient⟩
  | ending ai data hai hserver hclient =>
      rw [hserver, List.cons.injEq] at hgame
      exact ⟨ai, hai, hgame.2.symm, hclient⟩
  | idle hai hserver => rw [hserver] at hgame; cases hgame
  | moving ai type hai hserver => rw [hserver] at hgame; cases hgame
  | ended ai hai hserver => rw [hserver] at hgame; cases hgame

/-- A grid that the server has got is no longer on its way. -/
theorem toServer_grid {ai : AI2048} {tile : CSAI2048Tile} {toServer : List CSAI2048Tile}
    (hai : game.ai = some ai) (hgame : game.toServer = tile :: toServer) (more : Nat) :
    (game.step (.grid more)).toServer = toServer := by
  simp only [Game.step, hai, hgame, onCSAI2048Tile]
  split <;> rfl

/-- A move that the client has got is no longer on its way. -/
theorem toClient_move {type : MoveType} {toClient : List MoveType}
    (hgame : game.toClient = type :: toClient) (randPos randVal : Nat) :
    (game.step (.move randPos randVal)).toClient = toClient := by
  simp only [Game.step, hgame]
  rfl

/-- A whole game keeps the invariant and the sizes. -/
theorem Inv.run (hinv : game.Inv) (hsized : game.Sized) (events : List GameEvent) :
    (events.foldl Game.step game).Inv ∧ (events.foldl Game.step game).Sized := by
  induction events generalizing game with
  | nil => exact ⟨hinv, hsized⟩
  | cons event events ih => exact ih (hinv.step event) (hsized.step hinv event)

end Game

/-- The pointer in the table for a connection whose end at the server is in some state. -/
def entryOf (state : TcpState) (ai : Option AI2048) : Option (Option AI2048) :=
  match state with
  | .connecting => none
  | .connected => some (some (ai.getD {}))
  | .disconnecting => some (some (ai.getD {}))
  | .disconnected => none

variable (wire others adler32) in
/-- A connection is in the state of a game. The bytes that an end has read are given apart from its
input buffer, which is behind while they are worked off. -/
structure Link.Tracks (link : Link) (game : Game) (atServer atClient : List UInt8) : Prop where
  dummy : link.conn.dummy = game.dummy
  effects : link.conn.effects = game.effects
  crashed : link.conn.crashed = false
  idle : link.conn.client.state = .connecting ↔ game.ai = none
  client : link.conn.client.state ≠ .disconnecting
  entry : link.entry = entryOf link.conn.server.state game.ai
  early : link.conn.server.state = .connecting → game.ai.getD {} = {}
  closing : link.conn.server.state = .disconnecting →
    game.ai ≠ none ∧ game.toServer = [] ∧ game.toClient = []
  toServer : atServer ++ link.conn.toServer = game.toServer.flatMap (tileFrame wire others adler32)
  toClient : atClient ++ link.conn.toClient = game.toClient.flatMap (moveFrame wire others adler32)

variable (wire others adler32) in
/-- A connection between two events is in the state of a game. -/
def Link.Plays (link : Link) (game : Game) : Prop :=
  link.Tracks wire others adler32 game link.conn.server.inputBuffer link.conn.client.inputBuffer

namespace Network

variable {ι : Type} [DecidableEq ι] {net : Network ι} {i : ι} {game : Game}
  {atServer atClient : List UInt8}

@[simp] theorem conns_modify (net : Network ι) (i : ι) (change : Conn → Conn) :
    (net.modify i change).conns i = change (net.conns i) := Function.update_self _ _ _

/-- A change of a connection, seen as a link. -/
theorem link_modify (net : Network ι) (i : ι) (change : Conn → Conn) :
    (net.modify i change).link i = ⟨change (net.conns i), net.aiMap.lookup i⟩ :=
  Link.ext (Function.update_self _ _ _) rfl

/-- A client that is connected sends its board. -/
theorem link_sendTileDataToServer (hup : (net.conns i).client.state = .connected)
    (isOver : Bool) :
    (net.sendTileDataToServer wire others adler32 i isOver).link i =
      ⟨{ net.conns i with
          toServer := (net.conns i).toServer ++ tileFrame wire others adler32
            ⟨(List.finRange 16).map (getAllTiles (net.conns i).dummy.tiles),
              if isWin (net.conns i).dummy.tiles then true else isOver⟩
          effects := (net.conns i).effects ++ [.sent (net.conns i).dummy.tiles
            (if isWin (net.conns i).dummy.tiles then true else isOver)] },
        net.aiMap.lookup i⟩ := by
  rw [sendTileDataToServer_eq]
  split
  · rw [log, link_modify]
    simp only [sendToServer, modify, Function.update_self, if_pos hup]
    rfl
  · rw [log, link_modify]
    simp only [sendToServer, modify, Function.update_self, if_pos hup]
    rfl

/-- A server that is connected answers a grid. -/
theorem link_answer (hup : (net.conns i).server.state = .connected) (ai : AI2048)
    (message : CSAI2048Tile) (iterations : Nat) :
    let filled : AI2048 :=
      { ai with tiles := addComputerMove ai.tiles fun pos => message.data.getD pos 0 }
    let best := filled.getPlayerBestMove iterations
    let result := tryMove best.2.tiles best.1
    (net.answer wire others adler32 i ai message iterations).link i =
      ⟨{ net.conns i with
          toClient := (net.conns i).toClient ++ moveFrame wire others adler32
            (if result.1 then MoveType.ofBestMove best.1 else .up)
          effects := (net.conns i).effects ++ [.filled filled.tiles] },
        some (some { best.2 with tiles := result.2 })⟩ := by
  intro filled best result
  refine Link.ext ?_ (AList.lookup_insert _)
  change (((net.log i _).sendToClient wire others adler32 i _).conns i) = _
  simp only [log, sendToClient, modify, Function.update_self, if_pos hup]
  rfl

/-- The server leaves the end of the client alone. -/
theorem client_onCSAI2048Tile (message : CSAI2048Tile) (iterations : Nat) :
    ((net.onCSAI2048Tile wire others adler32 i message iterations).conns i).client =
      (net.conns i).client := by
  unfold onCSAI2048Tile
  dsimp only
  split
  · rw [log, conns_modify, shutdownServer, conns_modify]
  · split
    · rw [conns_modify]
    · rw [answer, sendToClient, conns_modify, log, conns_modify]
      split <;> rfl

/-- The client leaves the end of the server alone. -/
theorem server_onSCAI2048Move (message : SCAI2048Move) (randPos randVal : Nat) :
    ((net.onSCAI2048Move wire others adler32 i message randPos randVal).conns i).server =
      (net.conns i).server := by
  rw [onSCAI2048Move, sendTileDataToServer_eq]
  split
  · rw [log, conns_modify, sendToServer, conns_modify, conns_modify]
    split <;> rfl
  · rw [log, conns_modify, sendToServer, conns_modify, conns_modify]
    split <;> rfl

end Network

namespace Link.Tracks

variable {ι : Type} [DecidableEq ι] {net : Network ι} {i : ι} {game : Game}
  {atServer atClient : List UInt8}

/-- The client sends its board in the connection as in the game. -/
theorem send (h : (net.link i).Tracks wire others adler32 game atServer atClient)
    (hup : (net.conns i).client.state = .connected)
    (hopen : (net.conns i).server.state ≠ .disconnecting) (isOver : Bool) :
    ((net.sendTileDataToServer wire others adler32 i isOver).link i).Tracks wire others adler32
      (game.sendTileDataToServer isOver) atServer atClient := by
  rw [Network.link_sendTileDataToServer hup]
  have hdummy : (net.conns i).dummy = game.dummy := h.dummy
  have heffects : (net.conns i).effects = game.effects := h.effects
  have hbytes : atServer ++ (net.conns i).toServer =
      game.toServer.flatMap (tileFrame wire others adler32) := h.toServer
  refine ⟨hdummy, ?_, h.crashed, h.idle, h.client, h.entry, h.early,
    fun hclosing => absurd hclosing hopen, ?_, h.toClient⟩
  · rw [Game.sendTileDataToServer, hdummy, heffects]
  · rw [Game.sendTileDataToServer, hdummy, List.flatMap_append, List.flatMap_singleton,
      ← List.append_assoc, hbytes]

/-- The number of a move names its direction. -/
theorem dirOfNumber_number (type : MoveType) : dirOfNumber type.number = type.dir := by
  cases type <;> rfl

/-- A move that the client gets is a move of the game. -/
theorem move {type : MoveType} {toClient : List MoveType}
    (h : (net.link i).Tracks wire others adler32 game atServer
      (moveFrame wire others adler32 type ++ atClient))
    (hgame : game.toClient = type :: toClient) (hup : (net.conns i).client.state = .connected)
    (randPos randVal : Nat) :
    ((net.onSCAI2048Move wire others adler32 i { type := type.number } randPos randVal).link
      i).Tracks wire others adler32 (game.step (.move randPos randVal)) atServer atClient := by
  have hopen : (net.conns i).server.state ≠ .disconnecting := by
    intro hclosing
    have hnil := (h.closing hclosing).2.2
    rw [hgame] at hnil
    cases hnil
  have hdummy : (net.conns i).dummy = game.dummy := h.dummy
  have hbytes := h.toClient
  rw [hgame, List.flatMap_cons, List.append_assoc, List.append_cancel_left_eq] at hbytes
  simp only [Game.step, hgame, Game.onSCAI2048Move, Network.onSCAI2048Move, dirOfNumber_number,
    hdummy]
  apply send
  · rw [Network.link_modify]
    exact ⟨rfl, h.effects, h.crashed, h.idle, h.client, h.entry, h.early,
      fun hclosing => absurd hclosing hopen, h.toServer, hbytes⟩
  · rw [Network.conns_modify]
    exact hup
  · rw [Network.conns_modify]
    exact hopen

/-- A client that is up stays up when it gets a move. -/
theorem client_onSCAI2048Move (hup : (net.conns i).client.state = .connected)
    (message : SCAI2048Move) (randPos randVal : Nat) :
    ((net.onSCAI2048Move wire others adler32 i message randPos randVal).conns i).client.state =
      .connected := by
  have hsame (dummy : AI2048) :
      ((net.modify i fun conn => { conn with dummy := dummy }).conns i).client.state =
        .connected := by
    rw [Network.conns_modify]
    exact hup
  exact (congrArg (·.conn.client.state)
    (Network.link_sendTileDataToServer (hsame _) _)).trans (hsame _)

/-- The moves of a read are moves of the game. -/
theorem moves [DecidableEq δ] (random : Nat → Nat × Nat) {pending later : List MoveType} (k : Nat)
    (h : (net.link i).Tracks wire others adler32 game atServer
      (pending.flatMap (moveFrame wire others adler32) ++ atClient))
    (hgame : game.toClient = pending ++ later) (hup : (net.conns i).client.state = .connected) :
    ∃ events : List GameEvent,
      (((pending.map fun type => Message.scai2048Move { type := type.number }).foldl
        ((Network.clientDispatcher wire others adler32 i random).onProtobufMessage
          (aiProtobuf wire others)) (net, k)).1.link i).Tracks wire others adler32
        (events.foldl Game.step game) atServer atClient := by
  induction pending generalizing net game k with
  | nil => exact ⟨[], h⟩
  | cons type pending ih =>
      rw [List.map_cons, List.foldl_cons, Network.clientDispatch]
      rw [List.flatMap_cons, List.append_assoc] at h
      have hstep := h.move hgame hup (random k).1 (random k).2
      obtain ⟨events, hevents⟩ := ih (k + 1) hstep
        (Game.toClient_move hgame _ _) (client_onSCAI2048Move hup _ _ _)
      exact ⟨.move (random k).1 (random k).2 :: events, hevents⟩

/-- A board that the server gets is one of the game. -/
theorem tile {tile : CSAI2048Tile} {toServer : List CSAI2048Tile}
    (h : (net.link i).Tracks wire others adler32 game
      (tileFrame wire others adler32 tile ++ atServer) atClient)
    (hinv : game.Inv) (hgame : game.toServer = tile :: toServer)
    (hup : (net.conns i).server.Reads) (more : Nat) :
    ((net.onCSAI2048Tile wire others adler32 i tile (more + 1)).link i).Tracks wire others adler32
        (game.step (.grid more)) atServer atClient ∧
      ((net.onCSAI2048Tile wire others adler32 i tile (more + 1)).conns i).server.Reads := by
  obtain ⟨ai, hai, rfl, hclient⟩ := hinv.of_tile hgame
  have hstate : (net.conns i).server.state = .connected := by
    refine hup.resolve_right fun hclosing => ?_
    have hnil := (h.closing hclosing).2.1
    rw [hgame] at hnil
    cases hnil
  have hentry : net.aiMap.lookup i = some (some ai) := by
    have hentry : net.aiMap.lookup i = entryOf (net.conns i).server.state game.ai := h.entry
    rw [hentry, hstate, hai]
    rfl
  have hbytes := h.toServer
  rw [hgame, List.flatMap_cons, List.append_assoc, List.append_cancel_left_eq] at hbytes
  have heffects : (net.conns i).effects = game.effects := h.effects
  have htable : (net.aiMap.insertNew i none).lookup i = some (some ai) := by
    rw [Table.lookup_insertNew, if_pos rfl, hentry]
    rfl
  simp only [Game.step, hai, hgame, Game.onCSAI2048Tile, Network.onCSAI2048Tile, htable,
    Option.join_some]
  by_cases hover : tile.isOver = true ∨ tile.data.length ≠ 16
  · rw [if_pos hover, if_pos hover]
    have hlink : (({ net with aiMap := net.aiMap.insertNew i none }.shutdownServer i).log i
        .shutdown).link i =
        ⟨{ net.conns i with
            server := { (net.conns i).server with state := .disconnecting }
            effects := (net.conns i).effects ++ [.shutdown] }, some (some ai)⟩ := by
      rw [Network.log, Network.link_modify, Network.shutdownServer, Network.conns_modify,
        Endpoint.shutdown, if_pos hstate]
      exact Link.ext rfl htable
    refine ⟨?_, Or.inr (congrArg (·.conn.server.state) hlink)⟩
    rw [hlink]
    refine ⟨h.dummy, ?_, h.crashed, ?_, h.client, rfl, fun hearly => ?_,
      fun _ => ⟨Option.some_ne_none ai, rfl, hclient⟩, hbytes, h.toClient⟩
    · rw [heffects]
    · rw [← hai]
      exact h.idle
    · cases hearly
  · rw [if_neg hover, if_neg hover]
    have hlink := @Network.link_answer δ μ wire others adler32 ι _
      { net with aiMap := net.aiMap.insertNew i none } i hstate ai tile (more + 1)
    have hdown : (net.conns i).server.state ≠ .disconnecting := by
      rw [hstate]
      exact fun hclosing => by cases hclosing
    have hmoves : atClient ++ (net.conns i).toClient =
        game.toClient.flatMap (moveFrame wire others adler32) := h.toClient
    refine ⟨?_, Or.inl ((congrArg (·.conn.server.state) hlink).trans hstate)⟩
    rw [hlink]
    refine ⟨h.dummy, ?_, h.crashed, ?_, h.client, ?_, ?_, ?_, hbytes, ?_⟩
    · rw [heffects]
    · have hidle : (net.conns i).client.state = .connecting ↔ game.ai = none := h.idle
      rw [hai] at hidle
      exact hidle.trans (iff_of_false (Option.some_ne_none ai) (Option.some_ne_none _))
    · change _ = entryOf (net.conns i).server.state _
      rw [hstate]
      rfl
    · intro hearly
      change (net.conns i).server.state = .connecting at hearly
      rw [hstate] at hearly
      cases hearly
    · exact fun hclosing => absurd hclosing hdown
    · rw [List.flatMap_append, List.flatMap_singleton, ← hmoves, List.append_assoc]

/-- The boards of a read are those of the game. -/
theorem tiles [DecidableEq δ] (more : Nat → Nat) {pending later : List CSAI2048Tile} (k : Nat)
    (h : (net.link i).Tracks wire others adler32 game
      (pending.flatMap (tileFrame wire others adler32) ++ atServer) atClient)
    (hinv : game.Inv) (hgame : game.toServer = pending ++ later)
    (hup : (net.conns i).server.Reads) :
    ∃ events : List GameEvent,
      (((pending.map Message.csai2048Tile).foldl
        ((Network.serverDispatcher wire others adler32 i more).onProtobufMessage
          (aiProtobuf wire others)) (net, k)).1.link i).Tracks wire others adler32
        (events.foldl Game.step game) atServer atClient := by
  induction pending generalizing net game k with
  | nil => exact ⟨[], h⟩
  | cons tile pending ih =>
      obtain ⟨ai, hai, -⟩ := hinv.of_tile hgame
      rw [List.map_cons, List.foldl_cons, Network.serverDispatch]
      rw [List.flatMap_cons, List.append_assoc] at h
      obtain ⟨hstep, hreads⟩ := h.tile hinv hgame hup (more k)
      obtain ⟨events, hevents⟩ := ih (k + 1) hstep (hinv.step _)
        (Game.toServer_grid hai hgame _) hreads
      exact ⟨.grid (more k) :: events, hevents⟩

end Link.Tracks

namespace Link.Plays

variable {ι : Type} [DecidableEq ι] {net : Network ι} {i : ι} {game : Game}

/-- A read of the server is some grids of the game. -/
theorem serverRead [DecidableEq δ] (hwire : wire.Lawful)
    (h : (net.link i).Plays wire others adler32 game) (hinv : game.Inv) (hsized : game.Sized)
    (hup : (net.conns i).server.Reads) (n : Nat) (more : Nat → Nat) :
    ∃ events : List GameEvent, ((net.serverRead wire others adler32 i n more).link i).Plays wire
      others adler32 (events.foldl Game.step game) := by
  have hstream : ((net.conns i).server.inputBuffer ++ (net.conns i).toServer.take n) ++
      (net.conns i).toServer.drop n = game.toServer.flatMap (tileFrame wire others adler32) := by
    rw [List.append_assoc, List.take_append_drop]
    exact h.toServer
  obtain ⟨pending, later, rest, hgame, hdecode, hrest⟩ :=
    (framing (aiProtobuf wire others) adler32).decode_written Message.csai2048Tile
      (fun tile hmem => tileFrame_isFrame hwire (hsized.toServer tile hmem)) hstream
  have htaken : ((net.modify i fun conn =>
      { conn with toServer := conn.toServer.drop n }).link i).Tracks wire others adler32 game
      (pending.flatMap (tileFrame wire others adler32) ++ rest)
      (net.conns i).client.inputBuffer := by
    rw [Network.link_modify]
    refine ⟨h.dummy, h.effects, h.crashed, h.idle, h.client, h.entry, h.early, h.closing, ?_,
      h.toClient⟩
    rw [List.append_assoc, hrest, hgame, List.flatMap_append]
  obtain ⟨events, hevents⟩ :=
    htaken.tiles more 0 hinv hgame (by rw [Network.conns_modify]; exact hup)
  refine ⟨events, ?_⟩
  rw [Network.serverRead_eq, read_eq_serve, Framing.serve]
  dsimp only
  rw [hdecode]
  dsimp only [Option.elim]
  generalize hafter : List.foldl _ _ _ = after at hevents ⊢
  have hclient : (after.1.conns i).client = (net.conns i).client := by
    rw [← hafter]
    refine List.foldlRecOn (motive := fun state : Network ι × Nat =>
      (state.1.conns i).client = (net.conns i).client) _ _ ?_ fun state hstate message _ => ?_
    · rw [Network.conns_modify]
    · rw [Network.serverDispatch]
      cases message with
      | csai2048Tile tile => exact (Network.client_onCSAI2048Tile tile _).trans hstate
      | scai2048Move move => rw [Network.shutdownServer, Network.conns_modify]; exact hstate
      | other message => rw [Network.shutdownServer, Network.conns_modify]; exact hstate
  rw [Plays, Network.link_modify]
  dsimp only
  rw [congrArg Endpoint.inputBuffer hclient]
  exact ⟨hevents.dummy, hevents.effects, hevents.crashed, hevents.idle, hevents.client,
    hevents.entry, hevents.early, hevents.closing, hevents.toServer, hevents.toClient⟩

/-- A read of the client is some moves of the game. -/
theorem clientRead [DecidableEq δ] (hwire : wire.Lawful)
    (h : (net.link i).Plays wire others adler32 game) (hup : (net.conns i).client.Reads) (n : Nat)
    (random : Nat → Nat × Nat) :
    ∃ events : List GameEvent, ((net.clientRead wire others adler32 i n random).link i).Plays wire
      others adler32 (events.foldl Game.step game) := by
  have hstate : (net.conns i).client.state = .connected := hup.resolve_right h.client
  have hstream : ((net.conns i).client.inputBuffer ++ (net.conns i).toClient.take n) ++
      (net.conns i).toClient.drop n = game.toClient.flatMap (moveFrame wire others adler32) := by
    rw [List.append_assoc, List.take_append_drop]
    exact h.toClient
  obtain ⟨pending, later, rest, hgame, hdecode, hrest⟩ :=
    (framing (aiProtobuf wire others) adler32).decode_written
      (fun type : MoveType => Message.scai2048Move { type := type.number })
      (fun type _ => moveFrame_isFrame hwire type) hstream
  have htaken : ((net.modify i fun conn =>
      { conn with toClient := conn.toClient.drop n }).link i).Tracks wire others adler32 game
      (net.conns i).server.inputBuffer
      (pending.flatMap (moveFrame wire others adler32) ++ rest) := by
    rw [Network.link_modify]
    refine ⟨h.dummy, h.effects, h.crashed, h.idle, h.client, h.entry, h.early, h.closing,
      h.toServer, ?_⟩
    rw [List.append_assoc, hrest, hgame, List.flatMap_append]
  obtain ⟨events, hevents⟩ :=
    htaken.moves random 0 hgame (by rw [Network.conns_modify]; exact hstate)
  refine ⟨events, ?_⟩
  rw [Network.clientRead_eq, read_eq_serve, Framing.serve]
  dsimp only
  rw [hdecode]
  dsimp only [Option.elim]
  generalize hafter : List.foldl _ _ _ = after at hevents ⊢
  have hserver : (after.1.conns i).server = (net.conns i).server := by
    rw [← hafter]
    refine List.foldlRecOn (motive := fun state : Network ι × Nat =>
      (state.1.conns i).server = (net.conns i).server) _ _ ?_ fun state hstate message _ => ?_
    · rw [Network.conns_modify]
    · rw [Network.clientDispatch]
      cases message with
      | csai2048Tile tile => exact hstate
      | scai2048Move move => exact (Network.server_onSCAI2048Move move _ _).trans hstate
      | other message => exact hstate
  rw [Plays, Network.link_modify]
  dsimp only
  rw [congrArg Endpoint.inputBuffer hserver]
  exact ⟨hevents.dummy, hevents.effects, hevents.crashed, hevents.idle, hevents.client,
    hevents.entry, hevents.early, hevents.closing, hevents.toServer, hevents.toClient⟩

/-- A connection that comes up at the client is the `connect` of its game. -/
theorem clientUp (h : (net.link i).Plays wire others adler32 game)
    (hstate : (net.conns i).client.state = .connecting) :
    (((net.modify i fun conn =>
      { conn with client := { conn.client with state := .connected } }).sendTileDataToServer
        wire others adler32 i false).link i).Plays wire others adler32 (game.step .connect) := by
  have hnone : game.ai = none := h.idle.mp hstate
  have hopen : (net.conns i).server.state ≠ .disconnecting := fun hclosing =>
    (h.closing hclosing).1 hnone
  have htracks : ((net.modify i fun conn =>
      { conn with client := { conn.client with state := .connected } }).link i).Tracks wire others
        adler32 { game with ai := some {} } (net.conns i).server.inputBuffer
        (net.conns i).client.inputBuffer := by
    have hentry := h.entry
    rw [Network.link_modify]
    rw [hnone] at hentry
    exact ⟨h.dummy, h.effects, h.crashed, Iff.intro nofun nofun, nofun, hentry, fun _ => rfl,
      fun hclosing => absurd hclosing hopen, h.toServer, h.toClient⟩
  have hsend := htracks.send (by rw [Network.conns_modify])
    (by rw [Network.conns_modify]; exact hopen) false
  simp only [Game.step, hnone]
  rw [Plays]
  rw [Network.link_sendTileDataToServer (by rw [Network.conns_modify])] at hsend ⊢
  rw [Network.conns_modify] at hsend ⊢
  exact hsend

/-- Every event of a connection whose bytes come from an `AI2048Client` is a number of events of
its game. -/
theorem step [DecidableEq δ] (hwire : wire.Lawful)
    (h : (net.link i).Plays wire others adler32 game) (hinv : game.Inv) (hsized : game.Sized)
    {event : NetEvent ι} (hevent : event.conn = i) (hforeign : ∀ bytes, event ≠ .foreign i bytes) :
    ∃ events : List GameEvent, ((net.step wire others adler32 event).link i).Plays wire
      others adler32 (events.foldl Game.step game) := by
  cases event with
  | serverUp j =>
      obtain rfl : j = i := hevent
      refine ⟨[], ?_⟩
      simp only [Network.step]
      split
      · rename_i hstate
        rw [Network.link_modify, List.foldl_nil]
        refine ⟨h.dummy, h.effects, h.crashed, h.idle, h.client, ?_, nofun, nofun, h.toServer,
          h.toClient⟩
        change AList.lookup j (AList.insert j (some {}) net.aiMap) = some (some (game.ai.getD {}))
        rw [h.early hstate, AList.lookup_insert]
      · exact h
  | clientUp j =>
      obtain rfl : j = i := hevent
      simp only [Network.step]
      split
      · rename_i hstate
        exact ⟨[.connect], h.clientUp hstate⟩
      · exact ⟨[], h⟩
  | serverRead j n more =>
      obtain rfl : j = i := hevent
      simp only [Network.step]
      split
      · rename_i hup
        exact h.serverRead hwire hinv hsized hup n more
      · exact ⟨[], h⟩
  | clientRead j n random =>
      obtain rfl : j = i := hevent
      simp only [Network.step]
      split
      · rename_i hup
        exact h.clientRead hwire hup n random
      · exact ⟨[], h⟩
  | serverDown j =>
      obtain rfl : j = i := hevent
      refine ⟨[], ?_⟩
      simp only [Network.step]
      split
      · rw [Network.link_modify, List.foldl_nil]
        exact ⟨h.dummy, h.effects, h.crashed, h.idle, h.client, AList.lookup_erase j net.aiMap,
          nofun, nofun, h.toServer, h.toClient⟩
      · exact h
  | clientDown j =>
      obtain rfl : j = i := hevent
      refine ⟨[], ?_⟩
      simp only [Network.step]
      split
      · rename_i hup
        rw [Network.link_modify, List.foldl_nil]
        refine ⟨h.dummy, h.effects, h.crashed, ?_, nofun, h.entry, h.early, h.closing, h.toServer,
          h.toClient⟩
        have hstarted : game.ai ≠ none := fun hnone => by
          have hstate : (net.conns j).client.state = .connecting := h.idle.mpr hnone
          rw [Endpoint.Reads, hstate] at hup
          simp at hup
        exact Iff.intro nofun fun hnone => absurd hnone hstarted
      · exact h
  | foreign j bytes =>
      obtain rfl : j = i := hevent
      exact absurd rfl (hforeign bytes)

end Link.Plays

namespace Network

variable {ι : Type} [DecidableEq ι] [DecidableEq δ]

variable (others adler32) in
/-- Every run of the network is a run of the game on each connection that carries only the bytes of
an `AI2048Client`. -/
theorem run_plays (hwire : wire.Lawful) (random : ι → Nat × Nat × Nat × Nat)
    (events : List (NetEvent ι)) {i : ι} (hforeign : ∀ bytes, NetEvent.foreign i bytes ∉ events) :
    ∃ gameEvents : List GameEvent,
      (((init random).run wire others adler32 events).link i).Plays wire others adler32
        (gameEvents.foldl Game.step
          (Game.init (random i).1 (random i).2.1 (random i).2.2.1 (random i).2.2.2)) := by
  induction events using List.reverseRecOn with
  | nil =>
      exact ⟨[], ⟨rfl, rfl, rfl, Iff.intro (fun _ => rfl) fun _ => rfl, nofun, rfl, fun _ => rfl,
        nofun, rfl, rfl⟩⟩
  | append_singleton events event ih =>
      obtain ⟨before, hbefore⟩ := ih fun bytes hmem =>
        hforeign bytes (List.mem_append_left _ hmem)
      rw [run, List.foldl_append]
      by_cases hevent : event.conn = i
      · obtain ⟨hinv, hsized⟩ := (Game.inv_init _ _ _ _).run (Game.sized_init _ _ _ _) before
        obtain ⟨more, hmore⟩ := hbefore.step hwire hinv hsized hevent fun bytes heq =>
          hforeign bytes (List.mem_append_right _ (List.mem_singleton.mpr heq.symm))
        exact ⟨before ++ more, by rw [List.foldl_append]; exact hmore⟩
      · refine ⟨before, ?_⟩
        have hother := (Local.step wire others adler32 event).other
          ((init random).run wire others adler32 events) i fun heq => hevent heq.symm
        exact hother ▸ hbefore

variable (others adler32) in
/-- Whatever happens on the network, however its streams are cut, and whatever the other
connections carry, the state of a connection between an `AI2048Client` and the server is that of a
game in which the two boards are in step: what it has sent and played, the entry of the server, and
the bytes in its buffers and on their way are those of the messages of the game. -/
theorem run_inStep (hwire : wire.Lawful) (random : ι → Nat × Nat × Nat × Nat)
    (events : List (NetEvent ι)) (i : ι) (hforeign : ∀ bytes, NetEvent.foreign i bytes ∉ events) :
    ∃ gameEvents : List GameEvent, ∃ game : Game,
      game = gameEvents.foldl Game.step
        (Game.init (random i).1 (random i).2.1 (random i).2.2.1 (random i).2.2.2) ∧
      (((init random).run wire others adler32 events).link i).Plays wire others adler32 game ∧
      game.InStep := by
  obtain ⟨gameEvents, hplays⟩ := run_plays others adler32 hwire random events hforeign
  obtain ⟨hinv, -⟩ := (Game.inv_init _ _ _ _).run (Game.sized_init _ _ _ _) gameEvents
  exact ⟨gameEvents, _, rfl, hplays, hinv.inStep⟩

/-- A board that arrives in two pieces, its answer, and foreign bytes on another connection. -/
def sampleEvents : List (NetEvent Bool) :=
  [.serverUp true, .clientUp true, .clientUp false, .foreign false [1, 2],
    .serverRead true 7 fun _ => 0, .serverRead true 100 fun _ => 1,
    .clientRead true 100 fun _ => (5, 6)]

/-- A connection plays a game that is in step, beside one that carries foreign bytes. -/
theorem run_inStep_sampleEvents :
    ∃ gameEvents : List GameEvent, ∃ game : Game,
      game = gameEvents.foldl Game.step (Game.init 1 2 3 4) ∧
      (((init fun _ => (1, 2, 3, 4)).run varintFormat noOthers Kcp.Zlib.adler32
        sampleEvents).link true).Plays varintFormat noOthers Kcp.Zlib.adler32 game ∧
      game.InStep :=
  run_inStep noOthers Kcp.Zlib.adler32 varintFormat_lawful (fun _ => (1, 2, 3, 4)) sampleEvents true
    fun bytes => by simp [sampleEvents]

end Network

end CodeBlocks.Ai2048
