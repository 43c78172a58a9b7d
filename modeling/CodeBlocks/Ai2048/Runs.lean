import CodeBlocks.Ai2048.Refinement
import Mathlib.Algebra.BigOperators.Group.Finset.Piecewise

/-!
# The table of the server and the counter of the clients

Over whole runs of the network: the table has an entry for exactly the connections
whose end at the server is up, and it never holds a null pointer; the counter of the
clients is the number of the boards that have won.
-/

namespace CodeBlocks.Ai2048

open ProtobufCodec

/-- The entry of a connection belongs to the state of its end at the server. -/
structure Link.Safe (link : Link) : Prop where
  crashed : link.conn.crashed = false
  up : link.conn.server.Reads → ∃ ai, link.entry = some (some ai)
  down : ¬ link.conn.server.Reads → link.entry = none

variable {ι : Type} [DecidableEq ι] {δ μ : Type} {wire : WireFormat} {others : Protobuf δ μ}
  {adler32 : UInt32 → List UInt8 → UInt32}

/-- An end that is shut down still reads. -/
theorem Endpoint.reads_shutdown {endpoint : Endpoint} :
    endpoint.shutdown.Reads ↔ endpoint.Reads := by
  unfold shutdown
  split
  · rename_i hstate
    exact Iff.intro (fun _ => Or.inl hstate) fun _ => Or.inr rfl
  · exact Iff.rfl

/-- An end that is down does not read. -/
theorem Endpoint.not_reads_disconnected {buffer : List UInt8} :
    ¬ (⟨.disconnected, buffer⟩ : Endpoint).Reads := by
  simp [Reads]

namespace Network

variable [DecidableEq δ] {net : Network ι} {i : ι} {P : Network ι → Prop}

/-- What the parts of a read at the server keep holds after the read. -/
theorem serverRead_keeps (h : P net)
    (htile : ∀ net message iterations, P net →
      P (net.onCSAI2048Tile wire others adler32 i message iterations))
    (hshutdown : ∀ net, P net → P (net.shutdownServer i))
    (htake : ∀ net n, P net →
      P (net.modify i fun conn => { conn with toServer := conn.toServer.drop n }))
    (hbuffer : ∀ net buffer, P net →
      P (net.modify i fun conn =>
        { conn with server := { conn.server with inputBuffer := buffer } }))
    (n : Nat) (more : Nat → Nat) : P (net.serverRead wire others adler32 i n more) := by
  rw [serverRead_eq, read_eq_serve]
  refine hbuffer _ _ (Framing.serve_invariant (P := fun state : Network ι × Nat => P state.1)
    ?_ (fun state error hstate => hshutdown _ hstate) (htake net n h) _ _)
  intro state message hstate
  rw [serverDispatch]
  cases message with
  | csai2048Tile tile => exact htile _ _ _ hstate
  | scai2048Move move => exact hshutdown _ hstate
  | other message => exact hshutdown _ hstate

/-- What the parts of a read at a client keep holds after the read. -/
theorem clientRead_keeps (h : P net)
    (hmove : ∀ net message randPos randVal, P net →
      P (net.onSCAI2048Move wire others adler32 i message randPos randVal))
    (hshutdown : ∀ net, P net → P (net.shutdownClient i))
    (htake : ∀ net n, P net →
      P (net.modify i fun conn => { conn with toClient := conn.toClient.drop n }))
    (hbuffer : ∀ net buffer, P net →
      P (net.modify i fun conn =>
        { conn with client := { conn.client with inputBuffer := buffer } }))
    (n : Nat) (random : Nat → Nat × Nat) :
    P (net.clientRead wire others adler32 i n random) := by
  rw [clientRead_eq, read_eq_serve]
  refine hbuffer _ _ (Framing.serve_invariant (P := fun state : Network ι × Nat => P state.1)
    ?_ (fun state error hstate => hshutdown _ hstate) (htake net n h) _ _)
  intro state message hstate
  rw [clientDispatch]
  cases message with
  | csai2048Tile tile => exact hstate
  | scai2048Move move => exact hmove _ _ _ _ hstate
  | other message => exact hstate

end Network

namespace Link.Safe

variable {net : Network ι} {i : ι}

/-- A shutdown of the server's end leaves its entry in place. -/
theorem shutdownServer (h : (net.link i).Safe) : ((net.shutdownServer i).link i).Safe := by
  rw [Network.shutdownServer, Network.link_modify]
  exact ⟨h.crashed, fun hup => h.up (Endpoint.reads_shutdown.mp hup),
    fun hdown => h.down fun hup => hdown (Endpoint.reads_shutdown.mpr hup)⟩

/-- A record does not touch the entry. -/
theorem log (h : (net.link i).Safe) (effect : GameEffect) : ((net.log i effect).link i).Safe := by
  rw [Network.log, Network.link_modify]
  exact ⟨h.crashed, h.up, h.down⟩

/-- What is sent does not touch the entry. -/
theorem sendToClient (h : (net.link i).Safe) (message : Message μ) :
    ((net.sendToClient wire others adler32 i message).link i).Safe := by
  rw [Network.sendToClient, Network.link_modify]
  split
  · exact ⟨h.crashed, h.up, h.down⟩
  · exact h

/-- Nor does a board that the client sends. -/
theorem sendTileDataToServer (h : (net.link i).Safe) (isOver : Bool) :
    ((net.sendTileDataToServer wire others adler32 i isOver).link i).Safe := by
  rw [Network.sendTileDataToServer_eq]
  split
  · refine log ?_ _
    rw [Network.sendToServer, Network.link_modify]
    split
    · exact ⟨h.crashed, h.up, h.down⟩
    · exact h
  · refine log ?_ _
    rw [Network.sendToServer, Network.link_modify]
    split
    · exact ⟨h.crashed, h.up, h.down⟩
    · exact h

/-- The pointer for a connection that is up is there, whatever the message says. -/
theorem onCSAI2048Tile (h : (net.link i).Safe) (hup : (net.conns i).server.Reads)
    (message : CSAI2048Tile) (iterations : Nat) :
    ((net.onCSAI2048Tile wire others adler32 i message iterations).link i).Safe := by
  obtain ⟨ai, hai⟩ := h.up hup
  have htable : (net.aiMap.insertNew i none).lookup i = some (some ai) := by
    rw [Table.lookup_insertNew, if_pos rfl]
    exact congrArg (fun entry : Option (Option AI2048) => some (entry.getD none)) hai
  have hnew : (({ net with aiMap := net.aiMap.insertNew i none } : Network ι).link i).Safe :=
    ⟨h.crashed, fun _ => ⟨ai, htable⟩, fun hdown => absurd hup hdown⟩
  unfold Network.onCSAI2048Tile
  dsimp only
  split
  · exact hnew.shutdownServer.log _
  · rw [htable]
    refine sendToClient (log ?_ _) _
    exact ⟨h.crashed, fun _ => ⟨_, AList.lookup_insert _⟩, fun hdown => absurd hup hdown⟩

/-- A grid does not take the server's end down. -/
theorem reads_onCSAI2048Tile (message : CSAI2048Tile) (iterations : Nat) :
    ((net.onCSAI2048Tile wire others adler32 i message iterations).conns i).server.Reads ↔
      (net.conns i).server.Reads := by
  unfold Network.onCSAI2048Tile
  dsimp only
  split
  · rw [Network.log, Network.conns_modify, Network.shutdownServer, Network.conns_modify]
    exact Endpoint.reads_shutdown
  · split
    · rw [Network.conns_modify]
    · rw [Network.answer, Network.sendToClient, Network.conns_modify, Network.log,
        Network.conns_modify]
      split <;> exact Iff.rfl

/-- A move is made at the client only. -/
theorem onSCAI2048Move (h : (net.link i).Safe) (message : SCAI2048Move) (randPos randVal : Nat) :
    ((net.onSCAI2048Move wire others adler32 i message randPos randVal).link i).Safe := by
  refine sendTileDataToServer ?_ _
  rw [Network.link_modify]
  exact ⟨h.crashed, h.up, h.down⟩

/-- A change that leaves the end at the server as it is. -/
theorem modify (h : (net.link i).Safe) (change : Conn → Conn)
    (hcrashed : (change (net.conns i)).crashed = (net.conns i).crashed)
    (hstate : (change (net.conns i)).server.state = (net.conns i).server.state) :
    ((net.modify i change).link i).Safe := by
  have hreads : (change (net.conns i)).server.Reads ↔ (net.conns i).server.Reads := by
    rw [Endpoint.Reads, hstate]
    rfl
  rw [Network.link_modify]
  exact ⟨hcrashed.trans h.crashed, fun hup => h.up (hreads.mp hup),
    fun hdown => h.down fun hup => hdown (hreads.mpr hup)⟩

/-- A read of the server that is up keeps the entry safe, whatever the bytes are. -/
theorem serverRead [DecidableEq δ] (h : (net.link i).Safe) (hup : (net.conns i).server.Reads)
    (n : Nat) (more : Nat → Nat) :
    ((net.serverRead wire others adler32 i n more).link i).Safe := by
  refine (Network.serverRead_keeps
    (P := fun net => (net.link i).Safe ∧ (net.conns i).server.Reads) ⟨h, hup⟩ ?_ ?_ ?_ ?_ n more).1
  · exact fun net message iterations hnet =>
      ⟨hnet.1.onCSAI2048Tile hnet.2 message iterations,
        (reads_onCSAI2048Tile message iterations).mpr hnet.2⟩
  · intro net hnet
    refine ⟨hnet.1.shutdownServer, ?_⟩
    rw [Network.shutdownServer, Network.conns_modify]
    exact Endpoint.reads_shutdown.mpr hnet.2
  · exact fun net n hnet => ⟨hnet.1.modify _ rfl rfl, by rw [Network.conns_modify]; exact hnet.2⟩
  · exact fun net buffer hnet =>
      ⟨hnet.1.modify _ rfl rfl, by rw [Network.conns_modify]; exact hnet.2⟩

/-- A read of the client happens at the other end. -/
theorem clientRead [DecidableEq δ] (h : (net.link i).Safe) (n : Nat) (random : Nat → Nat × Nat) :
    ((net.clientRead wire others adler32 i n random).link i).Safe :=
  Network.clientRead_keeps (P := fun net => (net.link i).Safe) h
    (fun _ message randPos randVal hnet => hnet.onSCAI2048Move message randPos randVal)
    (fun _ hnet => hnet.modify _ rfl rfl) (fun _ _ hnet => hnet.modify _ rfl rfl)
    (fun _ _ hnet => hnet.modify _ rfl rfl) n random

/-- Every event keeps every connection safe. -/
theorem step [DecidableEq δ] (h : (net.link i).Safe) (event : NetEvent ι) :
    ((net.step wire others adler32 event).link i).Safe := by
  by_cases hevent : event.conn = i
  · cases event with
    | serverUp j =>
        obtain rfl : j = i := hevent
        simp only [Network.step]
        split
        · rw [Network.link_modify]
          exact ⟨h.crashed, fun _ => ⟨_, AList.lookup_insert _⟩,
            fun hdown => absurd (Or.inl rfl) hdown⟩
        · exact h
    | clientUp j =>
        obtain rfl : j = i := hevent
        simp only [Network.step]
        split
        · exact sendTileDataToServer (h.modify _ rfl rfl) false
        · exact h
    | serverRead j n more =>
        obtain rfl : j = i := hevent
        simp only [Network.step]
        split
        · rename_i hup
          exact h.serverRead hup n more
        · exact h
    | clientRead j n random =>
        obtain rfl : j = i := hevent
        simp only [Network.step]
        split
        · exact h.clientRead n random
        · exact h
    | serverDown j =>
        obtain rfl : j = i := hevent
        simp only [Network.step]
        split
        · rw [Network.link_modify]
          exact ⟨h.crashed, fun hup => absurd hup Endpoint.not_reads_disconnected,
            fun _ => AList.lookup_erase j net.aiMap⟩
        · exact h
    | clientDown j =>
        obtain rfl : j = i := hevent
        simp only [Network.step]
        split
        · exact h.modify _ rfl rfl
        · exact h
    | foreign j bytes =>
        obtain rfl : j = i := hevent
        exact h.modify (fun conn => { conn with toServer := conn.toServer ++ bytes }) rfl rfl
  · rw [(Network.Local.step wire others adler32 event).other net i fun heq => hevent heq.symm]
    exact h

end Link.Safe

/-- The server never follows a null pointer, and its table has an entry for exactly the connections
that are up, whatever bytes arrive and in whatever order the connections come and go. -/
theorem Network.run_safe [DecidableEq δ] (wire : WireFormat) (others : Protobuf δ μ)
    (adler32 : UInt32 → List UInt8 → UInt32) (random : ι → Nat × Nat × Nat × Nat)
    (events : List (NetEvent ι)) (i : ι) :
    (((Network.init random).run wire others adler32 events).link i).Safe := by
  induction events using List.reverseRecOn with
  | nil => exact ⟨rfl, fun hup => hup.elim nofun nofun, fun _ => rfl⟩
  | append_singleton events event ih =>
      rw [run, List.foldl_append]
      exact ih.step event

/-- The number of the boards that a client has sent as won. -/
def winsOf (effects : List GameEffect) : Nat :=
  effects.countP fun
    | .sent tiles _ => isWin tiles
    | _ => false

@[simp] theorem winsOf_append (effects more : List GameEffect) :
    winsOf (effects ++ more) = winsOf effects + winsOf more := List.countP_append

/-- A board counts when it is won. -/
theorem winsOf_sent (tiles : Tiles) (isOver : Bool) :
    winsOf [.sent tiles isOver] = (isWin tiles).toNat := by
  rw [winsOf, List.countP_singleton]
  exact (Bool.cond_eq_ite (isWin tiles) 1 0).symm

/-- The counter has been incremented for every board that was sent as won. -/
def Network.Counted [Fintype ι] (net : Network ι) : Prop :=
  net.gTotalNumWiner = Finset.univ.sum fun i => winsOf (net.conns i).effects

namespace Network.Counted

variable [Fintype ι] {net : Network ι}

/-- A change of one connection. -/
theorem modify (h : net.Counted) (i : ι) (change : Conn → Conn)
    (hwins : winsOf (change (net.conns i)).effects = winsOf (net.conns i).effects) :
    (net.modify i change).Counted := by
  refine h.trans (Finset.sum_congr rfl fun j _ => ?_)
  by_cases hj : j = i
  · rw [hj, conns_modify, hwins]
  · exact congrArg (fun conn : Conn => winsOf conn.effects) (Function.update_of_ne hj _ _).symm

/-- A record that is no win is not counted. -/
theorem log (h : net.Counted) (i : ι) {effect : GameEffect} (hwins : winsOf [effect] = 0) :
    (net.log i effect).Counted :=
  h.modify i _ (by rw [winsOf_append, hwins, Nat.add_zero])

/-- What is sent is not counted by itself. -/
theorem sendToServer (h : net.Counted) (i : ι) (message : Message μ) :
    (net.sendToServer wire others adler32 i message).Counted :=
  h.modify i _ (by split <;> rfl)

/-- Nor is a move. -/
theorem sendToClient (h : net.Counted) (i : ι) (message : Message μ) :
    (net.sendToClient wire others adler32 i message).Counted :=
  h.modify i _ (by split <;> rfl)

/-- A board that has won is counted when it is sent. -/
theorem log_win (h : net.Counted) (i : ι) {tiles : Tiles} (hwin : isWin tiles = true)
    (isOver : Bool) :
    (({ net with gTotalNumWiner := net.gTotalNumWiner + 1 } : Network ι).log i
      (.sent tiles isOver)).Counted := by
  have hother : ∀ j ∈ Finset.univ.erase i,
      winsOf ((net.log i (.sent tiles isOver)).conns j).effects = winsOf (net.conns j).effects :=
    fun j hj => congrArg (fun conn : Conn => winsOf conn.effects)
      (Function.update_of_ne (Finset.ne_of_mem_erase hj) _ _)
  have hown : winsOf ((net.log i (.sent tiles isOver)).conns i).effects =
      winsOf (net.conns i).effects + 1 := by
    rw [Network.log, conns_modify, winsOf_append, winsOf_sent, hwin]
    rfl
  calc net.gTotalNumWiner + 1
      = (Finset.univ.sum fun j => winsOf (net.conns j).effects) + 1 := by rw [h]
    _ = (winsOf (net.conns i).effects + 1) +
          (Finset.univ.erase i).sum fun j => winsOf (net.conns j).effects := by
        rw [← Finset.add_sum_erase _ _ (Finset.mem_univ i)]
        omega
    _ = Finset.univ.sum fun j => winsOf ((net.log i (.sent tiles isOver)).conns j).effects := by
        rw [← Finset.sum_congr rfl hother, ← hown]
        exact Finset.add_sum_erase _ (fun j =>
          winsOf ((net.log i (.sent tiles isOver)).conns j).effects) (Finset.mem_univ i)

/-- A board that is sent as won is counted once, at both places. -/
theorem sendTileDataToServer (h : net.Counted) (i : ι) (isOver : Bool) :
    (net.sendTileDataToServer wire others adler32 i isOver).Counted := by
  rw [sendTileDataToServer_eq]
  by_cases hwin : isWin (net.conns i).dummy.tiles = true
  · rw [if_pos hwin]
    exact (h.sendToServer i _).log_win i hwin true
  · rw [if_neg hwin]
    exact (h.sendToServer i _).log i (by rw [winsOf_sent, Bool.eq_false_iff.mpr hwin]; rfl)

/-- So is the board behind a move. -/
theorem onSCAI2048Move (h : net.Counted) (i : ι) (message : SCAI2048Move) (randPos randVal : Nat) :
    (net.onSCAI2048Move wire others adler32 i message randPos randVal).Counted :=
  (h.modify i _ rfl).sendTileDataToServer i _

/-- The server counts nothing. -/
theorem onCSAI2048Tile (h : net.Counted) (i : ι) (message : CSAI2048Tile) (iterations : Nat) :
    (net.onCSAI2048Tile wire others adler32 i message iterations).Counted := by
  have hnew : ({ net with aiMap := net.aiMap.insertNew i none } : Network ι).Counted := h
  unfold Network.onCSAI2048Tile
  dsimp only
  split
  · exact (hnew.modify i _ rfl).log i rfl
  · split
    · exact hnew.modify i _ rfl
    · refine (log ?_ i rfl).sendToClient i _
      exact h

/-- Every event keeps the counter that of the boards sent as won. -/
theorem step [DecidableEq δ] (h : net.Counted) (event : NetEvent ι) :
    (net.step wire others adler32 event).Counted := by
  cases event with
  | serverUp i =>
      simp only [Network.step]
      split
      · have hnew : Counted { net with aiMap := AList.insert i (some {}) net.aiMap } := h
        exact hnew.modify i _ rfl
      · exact h
  | clientUp i =>
      simp only [Network.step]
      split
      · exact (h.modify i _ rfl).sendTileDataToServer i false
      · exact h
  | serverRead i n more =>
      simp only [Network.step]
      split
      · exact serverRead_keeps h (fun _ message iterations hnet =>
          hnet.onCSAI2048Tile i message iterations) (fun _ hnet => hnet.modify i _ rfl)
          (fun _ _ hnet => hnet.modify i _ rfl) (fun _ _ hnet => hnet.modify i _ rfl) n more
      · exact h
  | clientRead i n random =>
      simp only [Network.step]
      split
      · exact clientRead_keeps h (fun _ message randPos randVal hnet =>
          hnet.onSCAI2048Move i message randPos randVal) (fun _ hnet => hnet.modify i _ rfl)
          (fun _ _ hnet => hnet.modify i _ rfl) (fun _ _ hnet => hnet.modify i _ rfl) n random
      · exact h
  | serverDown i =>
      simp only [Network.step]
      split
      · have hold : Counted { net with aiMap := net.aiMap.erase i } := h
        exact hold.modify i _ rfl
      · exact h
  | clientDown i =>
      simp only [Network.step]
      split
      · exact h.modify i _ rfl
      · exact h
  | foreign i bytes => exact h.modify i _ rfl

end Network.Counted

namespace Game

variable {game : Game}

/-- In the game a board that is sent is a win when it is won. -/
theorem winsOf_sendTileDataToServer (isOver : Bool) :
    winsOf (game.sendTileDataToServer isOver).effects =
      winsOf game.effects + (isWin game.dummy.tiles).toNat := by
  rw [sendTileDataToServer, winsOf_append, winsOf_sent]

/-- A client has sent one board as won if it has won, and none otherwise. -/
theorem Inv.winsOf_step (h : game.Inv)
    (hwins : winsOf game.effects = (isWin game.dummy.tiles).toNat)
    (event : GameEvent) :
    winsOf (game.step event).effects = (isWin (game.step event).dummy.tiles).toNat := by
  cases event with
  | connect =>
      simp only [Game.step]
      cases h.stage with
      | idle hai hserver hclient heffects hrunning =>
          rw [hai]
          dsimp only
          rw [winsOf_sendTileDataToServer, heffects]
          exact Nat.zero_add _
      | sending ai hai => rw [hai]; exact hwins
      | moving ai type hai => rw [hai]; exact hwins
      | ending ai data hai => rw [hai]; exact hwins
      | ended ai hai => rw [hai]; exact hwins
  | grid more =>
      simp only [Game.step]
      split
      · rw [onCSAI2048Tile]
        split
        · rw [winsOf_append]
          exact hwins
        · rw [winsOf_append]
          exact hwins
      · exact hwins
  | move randPos randVal =>
      simp only [Game.step]
      cases h.stage with
      | moving ai type hai hserver hclient hsent hrunning =>
          rw [hclient]
          dsimp only
          rw [onSCAI2048Move, winsOf_sendTileDataToServer]
          dsimp only
          rw [hwins, hrunning.isWin]
          exact Nat.zero_add _
      | idle hai hserver hclient => rw [hclient]; exact hwins
      | sending ai hai hserver hclient => rw [hclient]; exact hwins
      | ending ai data hai hserver hclient => rw [hclient]; exact hwins
      | ended ai hai hserver hclient => rw [hclient]; exact hwins

/-- A client that has won sends nothing more, so it is counted once in a whole game. -/
theorem winsOf_run (hinv : game.Inv)
    (hwins : winsOf game.effects = (isWin game.dummy.tiles).toNat)
    (events : List GameEvent) :
    winsOf (events.foldl Game.step game).effects =
      (isWin (events.foldl Game.step game).dummy.tiles).toNat := by
  induction events generalizing game with
  | nil => exact hwins
  | cons event events ih => exact ih (hinv.step event) (hinv.winsOf_step hwins event)

/-- Before the first board is sent nobody has won. -/
theorem winsOf_init (randPos randVal randPos' randVal' : Nat) :
    winsOf (init randPos randVal randPos' randVal').effects =
      (isWin (init randPos randVal randPos' randVal').dummy.tiles).toNat := by
  cases (inv_init randPos randVal randPos' randVal').stage with
  | idle hai hserver hclient heffects hrunning =>
      rw [hrunning.isWin]
      rfl
  | sending ai hai => cases hai
  | moving ai type hai => cases hai
  | ending ai data hai => cases hai
  | ended ai hai => cases hai

end Game

/-- When no connection carries foreign bytes, the counter is the number of the clients that have
won: none is counted twice, and none is left out, however the streams are cut. -/
theorem Network.gTotalNumWiner_run [DecidableEq δ] [Fintype ι] (hwire : wire.Lawful)
    (others : Protobuf δ μ) (adler32 : UInt32 → List UInt8 → UInt32)
    (random : ι → Nat × Nat × Nat × Nat) (events : List (NetEvent ι))
    (hforeign : ∀ i bytes, NetEvent.foreign i bytes ∉ events) :
    ((init random).run wire others adler32 events).gTotalNumWiner =
      (Finset.univ.filter fun i =>
        isWin (((init random).run wire others adler32 events).conns i).dummy.tiles).card := by
  have hcounted : ((init random).run wire others adler32 events).Counted := by
    clear hforeign
    induction events using List.reverseRecOn with
    | nil => exact (Finset.sum_const_zero (s := Finset.univ)).symm
    | append_singleton events event ih =>
        rw [run, List.foldl_append]
        exact ih.step event
  rw [hcounted, Finset.card_filter]
  refine Finset.sum_congr rfl fun i _ => ?_
  obtain ⟨gameEvents, hplays⟩ := run_plays others adler32 hwire random events (hforeign i)
  have hinv := Game.inv_init (random i).1 (random i).2.1 (random i).2.2.1 (random i).2.2.2
  have hwins := Game.winsOf_run hinv (Game.winsOf_init _ _ _ _) gameEvents
  rw [← hplays.effects, ← hplays.dummy] at hwins
  exact hwins.trans (Bool.cond_eq_ite _ 1 0)

/-- Two clients, one of which is answered. -/
theorem Network.gTotalNumWiner_run_answered :
    ((init fun _ : Bool => (1, 2, 3, 4)).run varintFormat noOthers Kcp.Zlib.adler32
        [.serverUp true, .clientUp true, .clientUp false, .serverRead true 100 fun _ => 0,
          .clientRead true 100 fun _ => (5, 6)]).gTotalNumWiner =
      (Finset.univ.filter fun i => isWin (((init fun _ : Bool => (1, 2, 3, 4)).run varintFormat
        noOthers Kcp.Zlib.adler32
        [.serverUp true, .clientUp true, .clientUp false, .serverRead true 100 fun _ => 0,
          .clientRead true 100 fun _ => (5, 6)]).conns i).dummy.tiles).card :=
  gTotalNumWiner_run varintFormat_lawful noOthers Kcp.Zlib.adler32 (fun _ => (1, 2, 3, 4)) _
    fun i bytes => by simp

end CodeBlocks.Ai2048
