import CodeBlocks.Ai2048.Search

/-!
# A game over the network

`AI2048Client` and the entry of its connection in `AI2048Server`, with an ordered
lossless channel each way. The server keeps a board of its own, which takes from
the grids of the client only the tiles that it does not have.
-/

namespace CodeBlocks.Ai2048

/-- `aiproto::MoveType`. -/
inductive MoveType where
  | up
  | right
  | down
  | left
  deriving DecidableEq, Repr

/-- The type under which the server sends a move. -/
def MoveType.ofBestMove : Direction → MoveType
  | .up => .up
  | .right => .right
  | .down => .down
  | .left => .left

/-- The move that the client makes of a type. -/
def MoveType.dir : MoveType → Direction
  | .up => .up
  | .right => .right
  | .down => .down
  | .left => .left

theorem MoveType.dir_ofBestMove (dir : Direction) : (ofBestMove dir).dir = dir := by
  cases dir <;> rfl

/-- `aiproto::CSAI2048Tile`. -/
structure CSAI2048Tile where
  data : List Int
  isOver : Bool
  deriving DecidableEq, Repr

/-- What happens in a game: the client sends its board, the server has filled its own one up with
a grid, or shuts the connection down. -/
inductive GameEffect where
  | sent (tiles : Tiles) (isOver : Bool)
  | filled (tiles : Tiles)
  | shutdown

/-- A client, the board that the server keeps for its connection, and the channels. -/
structure Game where
  dummy : AI2048
  ai : Option AI2048 := none
  toServer : List CSAI2048Tile := []
  toClient : List MoveType := []
  effects : List GameEffect := []

namespace Game

/-- `SendTileDataToServer`. -/
def sendTileDataToServer (game : Game) (isOver : Bool) : Game :=
  let isOver := if isWin game.dummy.tiles then true else isOver
  let tile : CSAI2048Tile :=
    { data := (List.finRange 16).map (getAllTiles game.dummy.tiles), isOver := isOver }
  { game with
    toServer := game.toServer ++ [tile]
    effects := game.effects ++ [.sent game.dummy.tiles isOver] }

/-- `OnSCAI2048Move`. -/
def onSCAI2048Move (game : Game) (type : MoveType) (randPos randVal : Nat) : Game :=
  let result := tryMove game.dummy.tiles type.dir
  { game with
    dummy := { game.dummy with tiles := addRandTile result.2 randPos randVal }
    }.sendTileDataToServer (!result.1)

/-- `OnCSAI2048Tile`, for a connection with an entry. -/
def onCSAI2048Tile (game : Game) (ai : AI2048) (message : CSAI2048Tile) (iterations : Nat) : Game :=
  if message.isOver ∨ message.data.length ≠ 16 then
    { game with effects := game.effects ++ [.shutdown] }
  else
    let grid := fun pos : Fin 16 => message.data.getD pos 0
    let filled : AI2048 := { ai with tiles := addComputerMove ai.tiles grid }
    let best := filled.getPlayerBestMove iterations
    let result := tryMove best.2.tiles best.1
    let type := if result.1 then MoveType.ofBestMove best.1 else .up
    { game with
      ai := some { best.2 with tiles := result.2 }
      toClient := game.toClient ++ [type]
      effects := game.effects ++ [.filled filled.tiles] }

end Game

/-- Everything that can happen: the connection comes up, the server gets a grid and has time for
one iteration and some more, or the client gets a move and draws two random numbers. -/
inductive GameEvent where
  | connect
  | grid (more : Nat)
  | move (randPos randVal : Nat)

/-- The game after an event. -/
def Game.step (game : Game) : GameEvent → Game
  | .connect =>
    match game.ai with
    | some _ => game
    | none => { game with ai := some {} }.sendTileDataToServer false
  | .grid more =>
    match game.ai, game.toServer with
    | some ai, message :: toServer =>
      { game with toServer := toServer }.onCSAI2048Tile ai message (more + 1)
    | _, _ => game
  | .move randPos randVal =>
    match game.toClient with
    | type :: toClient => { game with toClient := toClient }.onSCAI2048Move type randPos randVal
    | [] => game

/-- `InitDummy`, with the random numbers that it draws. -/
def Game.init (randPos randVal randPos' randVal' : Nat) : Game where
  dummy := { tiles := addRandTile (addRandTile (fun _ => 0) randPos randVal) randPos' randVal' }

/-- The boards that the client has sent as not final. -/
def sentOf (effects : List GameEffect) : List Tiles :=
  effects.filterMap fun
    | .sent tiles false => some tiles
    | _ => none

/-- The boards of the server after it has filled them up. -/
def filledOf (effects : List GameEffect) : List Tiles :=
  effects.filterMap fun
    | .filled tiles => some tiles
    | _ => none

/-- The boards of the server were those of the client, one by one; a move on its way to the client
is legal if there is one at all; and the client reports the end only when it has won or can not
move. -/
structure Game.InStep (game : Game) : Prop where
  filled : filledOf game.effects <+: sentOf game.effects
  legal : ∀ type ∈ game.toClient, (∃ dir, Legal game.dummy.tiles dir) →
    Legal game.dummy.tiles type.dir
  ended : ∀ tiles, .sent tiles true ∈ game.effects →
    isWin tiles = true ∨ ∀ dir, ¬ Legal tiles dir

theorem lg2Loop_two_pow {fuel t : Nat} (h : t ≤ fuel) (k : Nat) :
    lg2Loop fuel (2 ^ t) k = k + t := by
  induction fuel generalizing t k with
  | zero =>
      obtain rfl : t = 0 := Nat.le_zero.mp h
      rfl
  | succ fuel ih =>
      cases t with
      | zero => simp [lg2Loop]
      | succ t =>
          have hgt : 2 ^ (t + 1) > 1 := Nat.one_lt_two_pow (Nat.succ_ne_zero t)
          have hhalf : 2 ^ (t + 1) >>> 1 = 2 ^ t := by
            rw [Nat.shiftRight_one, Nat.pow_succ, Nat.mul_div_cancel _ Nat.two_pos]
          rw [lg2Loop, if_pos hgt, hhalf, ih (by omega)]
          omega

/-- `lg2` inverts the encoding of the tiles. -/
theorem lg2_shiftLeft {t : Nat} (h : t ≤ 64) : lg2 (1 <<< t) = t := by
  rw [Nat.one_shiftLeft, lg2, lg2Loop_two_pow h, Nat.zero_add]

/-- A board that has no tile but those of another one takes all the others from its grid. -/
theorem addComputerMove_getAllTiles {tiles target : Tiles}
    (hpart : ∀ q, tiles q = 0 ∨ tiles q = target q) (hbound : ∀ q, target q ≤ 64) :
    addComputerMove tiles (getAllTiles target) = target := by
  ext q
  unfold addComputerMove getAllTiles
  by_cases htarget : target q > 0
  · have hpos : (((1 <<< target q : Nat) : Int)) > 0 := by
      rw [Nat.one_shiftLeft]
      positivity
    simp only [htarget, ite_true, hpos, and_true, Int.toNat_natCast, lg2_shiftLeft (hbound q)]
    rcases hpart q with hzero | hsame
    · rw [if_pos hzero]
    · rw [if_neg (by omega), hsame]
  · simp only [htarget, ite_false, gt_iff_lt, lt_self_iff_false, and_false]
    rcases hpart q with hzero | hsame
    · omega
    · exact hsame

/-- `AddRandTile` fills an empty cell, or there is none. -/
theorem addRandTile_cases (tiles : Tiles) (randPos randVal : Nat) :
    ((∀ q, tiles q ≠ 0) ∧ addRandTile tiles randPos randVal = tiles) ∨
      ∃ pos val, tiles pos = 0 ∧ 0 < val ∧ val ≤ 2 ∧
        addRandTile tiles randPos randVal = Function.update tiles pos val := by
  unfold addRandTile
  have hmem : ∀ q, q ∈ getAllEmptyPos tiles ↔ tiles q = 0 := by
    intro q
    simp [getAllEmptyPos]
  split
  · rename_i hnone
    refine Or.inl ⟨fun q hq => ?_, rfl⟩
    have hlt := Nat.mod_lt randPos (List.length_pos_of_mem ((hmem q).mpr hq))
    rw [List.getElem?_eq_none_iff] at hnone
    omega
  · rename_i pos hpos
    refine Or.inr ⟨pos, _, (hmem pos).mp (List.mem_of_getElem? hpos), ?_, ?_, rfl⟩
    · split <;> omega
    · split <;> omega

/-- A board of a game that goes on: it has a tile, and none is as high as the one that wins. -/
structure Running (tiles : Tiles) : Prop where
  tile : ∃ q, tiles q ≠ 0
  bound : ∀ q, tiles q ≤ 10

theorem isWin_iff {tiles : Tiles} : isWin tiles = true ↔ ∃ q, tiles q = 11 := by
  simp [isWin]

theorem Running.isWin {tiles : Tiles} (h : Running tiles) : isWin tiles = false := by
  rw [Bool.eq_false_iff, Ne, isWin_iff]
  rintro ⟨q, hq⟩
  have hbound := h.bound q
  omega

/-- A random tile keeps the tiles there are and is a low one. -/
theorem addRandTile_spec {tiles : Tiles} {bound : Nat} (hbound : ∀ q, tiles q ≤ bound)
    (hlow : 2 ≤ bound) (randPos randVal : Nat) :
    (∃ q, addRandTile tiles randPos randVal q ≠ 0) ∧
      (∀ q, addRandTile tiles randPos randVal q ≤ bound) ∧
      ∀ q, tiles q = 0 ∨ tiles q = addRandTile tiles randPos randVal q := by
  rcases addRandTile_cases tiles randPos randVal with
    ⟨hfull, hsame⟩ | ⟨pos, val, hzero, hval, hle, hnew⟩
  · rw [hsame]
    exact ⟨⟨0, hfull 0⟩, hbound, fun _ => Or.inr rfl⟩
  · rw [hnew]
    refine ⟨⟨pos, ?_⟩, fun q => ?_, fun q => ?_⟩
    · rw [Function.update_self]
      omega
    · by_cases hq : q = pos
      · rw [hq, Function.update_self]
        omega
      · rw [Function.update_of_ne hq]
        exact hbound q
    · by_cases hq : q = pos
      · rw [hq]
        exact Or.inl hzero
      · rw [Function.update_of_ne hq]
        exact Or.inr rfl

/-- The stages of a game between two events. -/
inductive Game.Stage (game : Game) : Prop
  | idle (hai : game.ai = none) (hserver : game.toServer = []) (hclient : game.toClient = [])
      (heffects : game.effects = []) (hrunning : Running game.dummy.tiles)
  | sending (ai : AI2048) (hai : game.ai = some ai)
      (hserver : game.toServer =
        [⟨(List.finRange 16).map (getAllTiles game.dummy.tiles), false⟩])
      (hclient : game.toClient = [])
      (hsent : sentOf game.effects = filledOf game.effects ++ [game.dummy.tiles])
      (hrunning : Running game.dummy.tiles)
      (hpart : ∀ q, ai.tiles q = 0 ∨ ai.tiles q = game.dummy.tiles q)
  | moving (ai : AI2048) (type : MoveType) (hai : game.ai = some ai) (hserver : game.toServer = [])
      (hclient : game.toClient = [type]) (hsent : sentOf game.effects = filledOf game.effects)
      (hrunning : Running game.dummy.tiles)
      (hmove : ai.tiles = (tryMove game.dummy.tiles type.dir).2)
      (hlegal : (∃ dir, Legal game.dummy.tiles dir) → Legal game.dummy.tiles type.dir)
  | ending (ai : AI2048) (data : List Int) (hai : game.ai = some ai)
      (hserver : game.toServer = [⟨data, true⟩]) (hclient : game.toClient = [])
      (hsent : sentOf game.effects = filledOf game.effects)
  | ended (ai : AI2048) (hai : game.ai = some ai) (hserver : game.toServer = [])
      (hclient : game.toClient = []) (hsent : sentOf game.effects = filledOf game.effects)

/-- What every run keeps. -/
structure Game.Inv (game : Game) : Prop where
  stage : game.Stage
  ended : ∀ tiles, .sent tiles true ∈ game.effects →
    isWin tiles = true ∨ ∀ dir, ¬ Legal tiles dir

namespace Game

variable {game : Game}

@[simp] theorem sentOf_append (effects more : List GameEffect) :
    sentOf (effects ++ more) = sentOf effects ++ sentOf more := List.filterMap_append

@[simp] theorem filledOf_append (effects more : List GameEffect) :
    filledOf (effects ++ more) = filledOf effects ++ filledOf more := List.filterMap_append

/-- A game under the invariant is in step. -/
theorem Inv.inStep (h : game.Inv) : game.InStep := by
  refine ⟨?_, ?_, h.ended⟩
  · cases h.stage with
    | idle hai hserver hclient heffects => rw [heffects]; exact List.prefix_rfl
    | sending ai hai hserver hclient hsent => rw [hsent]; exact List.prefix_append _ _
    | moving ai type hai hserver hclient hsent => rw [hsent]
    | ending ai data hai hserver hclient hsent => rw [hsent]
    | ended ai hai hserver hclient hsent => rw [hsent]
  · intro type htype
    cases h.stage with
    | moving ai only hai hserver hclient hsent hrunning hmove hlegal =>
        rw [hclient, List.mem_singleton] at htype
        rw [htype]
        exact hlegal
    | idle hai hserver hclient => rw [hclient] at htype; cases htype
    | sending ai hai hserver hclient => rw [hclient] at htype; cases htype
    | ending ai data hai hserver hclient => rw [hclient] at htype; cases htype
    | ended ai hai hserver hclient => rw [hclient] at htype; cases htype

/-- The client sends its board, as the end of the game or as one to move on. -/
theorem inv_send {ai : AI2048} {isOver : Bool} (hai : game.ai = some ai)
    (hserver : game.toServer = []) (hclient : game.toClient = [])
    (hsent : sentOf game.effects = filledOf game.effects)
    (htile : ∃ q, game.dummy.tiles q ≠ 0) (hbound : ∀ q, game.dummy.tiles q ≤ 11)
    (hpart : ∀ q, ai.tiles q = 0 ∨ ai.tiles q = game.dummy.tiles q)
    (hblocked : isOver = true → ∀ dir, ¬ Legal game.dummy.tiles dir)
    (hover : ∀ tiles, .sent tiles true ∈ game.effects →
      isWin tiles = true ∨ ∀ dir, ¬ Legal tiles dir) :
    (game.sendTileDataToServer isOver).Inv := by
  unfold sendTileDataToServer
  dsimp only
  generalize hreport : (if isWin game.dummy.tiles = true then true else isOver) = report
  have hreason : report = true → isWin game.dummy.tiles = true ∨
      ∀ dir, ¬ Legal game.dummy.tiles dir := by
    intro htrue
    rw [htrue] at hreport
    split at hreport
    · rename_i hwin
      exact Or.inl hwin
    · exact Or.inr (hblocked hreport)
  constructor
  · cases report with
    | true =>
        refine .ending ai _ hai (by rw [hserver]; rfl) hclient ?_
        rw [sentOf_append, filledOf_append, hsent]
        rfl
    | false =>
        have hwin : ¬ isWin game.dummy.tiles = true := by
          intro hwin
          rw [if_pos hwin] at hreport
          cases hreport
        refine .sending ai hai (by rw [hserver]; rfl) hclient ?_ ⟨htile, fun q => ?_⟩ hpart
        · rw [sentOf_append, filledOf_append, hsent, List.append_assoc]
          rfl
        · have hle := hbound q
          have hne : game.dummy.tiles q ≠ 11 := fun heq => hwin (isWin_iff.mpr ⟨q, heq⟩)
          exact Nat.le_of_lt_succ (Nat.lt_of_le_of_ne hle hne)
  · intro tiles hmem
    rcases List.mem_append.mp hmem with hold | hnew
    · exact hover tiles hold
    · rw [List.mem_singleton, GameEffect.sent.injEq] at hnew
      rw [hnew.1]
      exact hreason hnew.2.symm

/-- When the client can not move, its board is full and stays as it is. -/
theorem addRandTile_of_blocked {tiles : Tiles} (htile : ∃ q, tiles q ≠ 0)
    (hblocked : ∀ dir, ¬ Legal tiles dir) (randPos randVal : Nat) :
    addRandTile tiles randPos randVal = tiles := by
  obtain ⟨pos, hpos⟩ := htile
  rcases addRandTile_cases tiles randPos randVal with ⟨-, hsame⟩ | ⟨empty, val, hzero, -⟩
  · exact hsame
  · exact absurd hzero (full_of_blocked hblocked hpos empty)

/-- A connection keeps the invariant. -/
theorem Inv.connect (h : game.Inv) : (game.step .connect).Inv := by
  simp only [step]
  cases h.stage with
  | idle hai hserver hclient heffects hrunning =>
      rw [hai]
      refine inv_send rfl hserver hclient ?_ hrunning.tile ?_ (fun _ => Or.inl rfl) ?_ h.ended
      · rw [heffects]
        rfl
      · exact fun q => Nat.le_succ_of_le (hrunning.bound q)
      · intro hfalse
        cases hfalse
  | sending ai hai => rw [hai]; exact h
  | moving ai type hai => rw [hai]; exact h
  | ending ai data hai => rw [hai]; exact h
  | ended ai hai => rw [hai]; exact h

/-- The client makes the move that the server has made, and draws a tile. -/
theorem Inv.move (h : game.Inv) (randPos randVal : Nat) :
    (game.step (.move randPos randVal)).Inv := by
  simp only [step]
  cases h.stage with
  | moving ai type hai hserver hclient hsent hrunning hmove hlegal =>
      rw [hclient]
      have hle := tryMove_le hrunning.bound type.dir
      obtain ⟨htile, hbound, hpart⟩ := addRandTile_spec hle (by decide) randPos randVal
      refine inv_send hai hserver rfl hsent htile hbound ?_ ?_ h.ended
      · rw [hmove]
        exact hpart
      · intro hover
        have hnot : ¬ Legal game.dummy.tiles type.dir := by
          intro hyes
          rw [Legal] at hyes
          simp [hyes] at hover
        have hblocked : ∀ dir, ¬ Legal game.dummy.tiles dir :=
          fun dir hdir => hnot (hlegal ⟨dir, hdir⟩)
        dsimp only
        rw [tryMove_of_not_legal hnot, addRandTile_of_blocked hrunning.tile hblocked]
        exact hblocked
  | idle hai hserver hclient => rw [hclient]; exact h
  | sending ai hai hserver hclient => rw [hclient]; exact h
  | ending ai data hai hserver hclient => rw [hclient]; exact h
  | ended ai hai hserver hclient => rw [hclient]; exact h

/-- A message holds the grid of the board that it was made of. -/
theorem getD_map_finRange (grid : Fin 16 → Int) :
    (fun pos : Fin 16 => ((List.finRange 16).map grid).getD pos 0) = grid := by
  ext pos
  have hlen : (pos : Nat) < ((List.finRange 16).map grid).length := by simp
  rw [List.getD_eq_getElem?_getD, List.getElem?_eq_getElem hlen, List.getElem_map,
    List.getElem_finRange]
  rfl

/-- The move that the server sends is the one it has made: a legal one if there is any, and none at
all otherwise. -/
theorem serverMove {ai : AI2048} (hrunning : Running ai.tiles) (more : Nat) :
    let best := ai.getPlayerBestMove (more + 1)
    let result := tryMove best.2.tiles best.1
    let type := if result.1 then MoveType.ofBestMove best.1 else .up
    result.2 = (tryMove ai.tiles type.dir).2 ∧
      ((∃ dir, Legal ai.tiles dir) → Legal ai.tiles type.dir) := by
  intro best result type
  have htiles : best.2.tiles = ai.tiles := ai.getPlayerBestMove_tiles hrunning.isWin (more + 1)
  have hresult : result = tryMove ai.tiles best.1 := by
    change tryMove best.2.tiles best.1 = _
    rw [htiles]
  by_cases hbest : Legal ai.tiles best.1
  · have htype : type.dir = best.1 := by
      change (if result.1 = true then MoveType.ofBestMove best.1 else .up).dir = best.1
      have htrue : (tryMove ai.tiles best.1).1 = true := hbest
      rw [hresult, if_pos htrue, MoveType.dir_ofBestMove]
    rw [htype, hresult]
    exact ⟨rfl, fun _ => hbest⟩
  · have hblocked : ∀ dir, ¬ Legal ai.tiles dir := by
      intro dir hdir
      apply hbest
      apply AI2048.getPlayerBestMove_legal hrunning.isWin _ ⟨dir, hdir⟩ (Nat.succ_pos more)
      intro q
      have hbound := hrunning.bound q
      omega
    rw [hresult, tryMove_of_not_legal hbest, tryMove_of_not_legal (hblocked _)]
    exact ⟨rfl, fun ⟨dir, hdir⟩ => absurd hdir (hblocked dir)⟩

/-- The server fills its board up, and sends a move that it has made. -/
theorem Inv.grid (h : game.Inv) (more : Nat) : (game.step (.grid more)).Inv := by
  simp only [step]
  cases h.stage with
  | sending ai hai hserver hclient hsent hrunning hpart =>
      rw [hai, hserver]
      have hfilled : addComputerMove ai.tiles (getAllTiles game.dummy.tiles) = game.dummy.tiles :=
        addComputerMove_getAllTiles hpart fun q => (hrunning.bound q).trans (by decide)
      have hrest : ¬ (false = true ∨
          ((List.finRange 16).map (getAllTiles game.dummy.tiles)).length ≠ 16) := by
        simp
      obtain ⟨hmove, hlegal⟩ := @serverMove { ai with tiles := game.dummy.tiles } hrunning more
      dsimp only
      rw [onCSAI2048Tile, if_neg hrest]
      simp only [getD_map_finRange, hfilled]
      refine ⟨.moving _ _ rfl rfl (by rw [hclient]; rfl) ?_ hrunning hmove hlegal, ?_⟩
      · rw [sentOf_append, filledOf_append, hsent]
        exact List.append_nil _
      · intro tiles hmem
        apply h.ended
        simpa using hmem
  | ending ai data hai hserver hclient hsent =>
      rw [hai, hserver]
      dsimp only
      rw [onCSAI2048Tile, if_pos (Or.inl rfl)]
      refine ⟨.ended ai rfl rfl hclient ?_, fun tiles hmem => h.ended tiles (by simpa using hmem)⟩
      rw [sentOf_append, filledOf_append, hsent]
      rfl
  | idle hai hserver => rw [hai]; exact h
  | moving ai type hai hserver => rw [hai, hserver]; exact h
  | ended ai hai hserver => rw [hai, hserver]; exact h

/-- So does every event. -/
theorem Inv.step (h : game.Inv) (event : GameEvent) : (game.step event).Inv := by
  cases event with
  | connect => exact h.connect
  | grid more => exact h.grid more
  | move randPos randVal => exact h.move randPos randVal

/-- The first board meets it. -/
theorem inv_init (randPos randVal randPos' randVal' : Nat) :
    (init randPos randVal randPos' randVal').Inv := by
  have hempty : ∀ q, (fun _ => 0 : Tiles) q ≤ 10 := fun _ => Nat.zero_le 10
  obtain ⟨-, hfirst, -⟩ := addRandTile_spec hempty (by decide) randPos randVal
  obtain ⟨htile, hbound, -⟩ := addRandTile_spec hfirst (by decide) randPos' randVal'
  exact ⟨.idle rfl rfl rfl rfl ⟨htile, hbound⟩, fun tiles hmem => absurd hmem List.not_mem_nil⟩

end Game

/-- In every run of a client against its server, the boards of the two are equal whenever the
server has filled its own one up, the moves of the server are legal if there are any, and the
client reports the end only when it has won or can not move. Scores are exact rationals: at a tie
the doubles of the source can choose another of the legal moves. Nothing here depends on which one
is chosen, only on all scores lying above the sentinel of the search. -/
theorem game_inStep (randPos randVal randPos' randVal' : Nat) (events : List GameEvent) :
    (events.foldl Game.step (Game.init randPos randVal randPos' randVal')).InStep := by
  have hrun : ∀ {game : Game}, game.Inv → (events.foldl Game.step game).Inv := by
    induction events with
    | nil => exact id
    | cons event events ih => exact fun h => ih (h.step event)
  exact (hrun (Game.inv_init randPos randVal randPos' randVal')).inStep

end CodeBlocks.Ai2048
