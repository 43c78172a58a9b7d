import Mathlib.Data.Fin.Basic
import Mathlib.Data.Fintype.Pi
import Mathlib.Logic.Function.Basic

/-!
# The board of 2048

Tiles are exponents: an empty cell is zero, and the tile `2 ^ t` is `t`. A move
goes over the cells from the edge it pushes towards, in place; every tile slides
over the empty cells in front of it, or merges with the tile behind them once.
-/

namespace CodeBlocks.Ai2048

/-- `kUp`, `kRight`, `kDown` and `kLeft`. -/
inductive Direction where
  | up
  | right
  | down
  | left
  deriving DecidableEq, Repr

/-- The loop `for (int dir = 0; dir < 4; ++dir)`. -/
def directions : List Direction := [.up, .right, .down, .left]

theorem mem_directions (dir : Direction) : dir ∈ directions := by
  cases dir <;> decide

def Direction.index : Direction → Nat
  | .up => 0
  | .right => 1
  | .down => 2
  | .left => 3

/-- `dir_pos`. -/
def dirPosTable : List (List Int) :=
  [[-1, 1, 4, -1],
   [-1, 2, 5, 0],
   [-1, 3, 6, 1],
   [-1, -1, 7, 2],
   [0, 5, 8, -1],
   [1, 6, 9, 4],
   [2, 7, 10, 5],
   [3, -1, 11, 6],
   [4, 9, 12, -1],
   [5, 10, 13, 8],
   [6, 11, 14, 9],
   [7, -1, 15, 10],
   [8, 13, -1, -1],
   [9, 14, -1, 12],
   [10, 15, -1, 13],
   [11, -1, -1, 14]]

/-- The cell with an index. -/
def cell (index : Nat) : Fin 16 := Fin.ofNat 16 index

/-- A position that `IsValid` accepts. -/
def validPos (pos : Int) : Option (Fin 16) :=
  if h : 0 ≤ pos ∧ pos ≤ 15 then some ⟨pos.toNat, by omega⟩ else none

/-- The neighbour of a cell in a direction, if there is one. -/
def dirPos (pos : Fin 16) (dir : Direction) : Option (Fin 16) :=
  validPos ((dirPosTable.getD pos []).getD dir.index (-1))

/-- `tiles_`, less its unused end. -/
abbrev Tiles := Fin 16 → Nat

/-- The loop of `GetTargetPos`. A line has four cells, so it ends within the first argument. -/
def getTargetPosLoop (tiles : Tiles) (dir : Direction) : Nat → Fin 16 → Fin 16 × Option (Fin 16)
  | 0, pos => (pos, none)
  | fuel + 1, pos =>
    match dirPos pos dir with
    | none => (pos, none)
    | some next =>
      if tiles next = 0 then getTargetPosLoop tiles dir fuel next else (pos, some next)

/-- `GetTargetPos`: the last empty cell in front of a tile, or its own, and the tile behind. -/
def getTargetPos (tiles : Tiles) (pos : Fin 16) (dir : Direction) : Fin 16 × Option (Fin 16) :=
  getTargetPosLoop tiles dir 4 pos

/-- The variables of `TryMove`. -/
structure MoveState where
  tiles : Tiles
  merged : Fin 16 → Bool
  canMove : Bool

namespace MoveState

/-- A tile merges with an equal one. -/
def merge (st : MoveState) (pos target : Fin 16) : MoveState where
  tiles := Function.update (Function.update st.tiles target (st.tiles target + 1)) pos 0
  merged := Function.update st.merged target true
  canMove := true

/-- A tile goes to an empty cell. -/
def shift (st : MoveState) (pos target : Fin 16) : MoveState where
  tiles := Function.update (Function.update st.tiles target (st.tiles pos)) pos 0
  merged := st.merged
  canMove := true

/-- A tile stops in front of what is behind the empty cells. -/
def slide (st : MoveState) (pos target : Fin 16) : MoveState :=
  if pos ≠ target then st.shift pos target else st

/-- The body of the loops of `TryMove`. -/
def step (dir : Direction) (st : MoveState) (pos : Fin 16) : MoveState :=
  if st.tiles pos > 0 then
    match getTargetPos st.tiles pos dir with
    | (targetPos, none) => st.slide pos targetPos
    | (targetPos, some target) =>
      if st.tiles target = st.tiles pos ∧ st.merged target = false then st.merge pos target
      else st.slide pos targetPos
  else st

end MoveState

/-- `pos_list`, of which the second row is the reverse. -/
def posList : Bool → List Nat
  | false => [0, 1, 2, 3]
  | true => [3, 2, 1, 0]

/-- The order in which `TryMove` goes over the cells. -/
def movePositions (dir : Direction) : List (Fin 16) :=
  (posList (decide (dir = .down))).flatMap fun x =>
    (posList (decide (dir = .right))).map fun y => cell (x * 4 + y)

/-- `TryMove`: whether a tile moves, and the tiles afterwards. -/
def tryMove (tiles : Tiles) (dir : Direction) : Bool × Tiles :=
  let st := (movePositions dir).foldl (MoveState.step dir)
    { tiles := tiles, merged := fun _ => false, canMove := false }
  (st.canMove, st.tiles)

/-- `GetAllEmptyPos`. -/
def getAllEmptyPos (tiles : Tiles) : List (Fin 16) :=
  (List.finRange 16).filter fun pos => tiles pos = 0

/-- `AddRandTile`; the two arguments are the results of `rand`. -/
def addRandTile (tiles : Tiles) (randPos randVal : Nat) : Tiles :=
  match (getAllEmptyPos tiles)[randPos % (getAllEmptyPos tiles).length]? with
  | none => tiles
  | some pos => Function.update tiles pos (if randVal % 2 ≠ 0 then 1 else 2)

/-- The loop of `lg2`. The first argument bounds the turns. -/
def lg2Loop : Nat → Nat → Nat → Nat
  | 0, _, k => k
  | fuel + 1, n, k => if n > 1 then lg2Loop fuel (n >>> 1) (k + 1) else k

/-- `lg2` of a `size_t`. -/
def lg2 (n : Nat) : Nat := lg2Loop 64 n 0

/-- `GetAllTiles`. -/
def getAllTiles (tiles : Tiles) : Fin 16 → Int :=
  fun pos => if tiles pos > 0 then ((1 <<< tiles pos : Nat) : Int) else 0

/-- `AddComputerMove`: the empty cells take the tiles of a grid. -/
def addComputerMove (tiles : Tiles) (grid : Fin 16 → Int) : Tiles :=
  fun pos => if tiles pos = 0 ∧ grid pos > 0 then lg2 (grid pos).toNat else tiles pos

/-- `IsWin`. -/
def isWin (tiles : Tiles) : Bool := (List.finRange 16).any fun pos => tiles pos == 11

/-- A direction in which a tile can move. -/
def Legal (tiles : Tiles) (dir : Direction) : Prop := (tryMove tiles dir).1 = true

instance (tiles : Tiles) (dir : Direction) : Decidable (Legal tiles dir) :=
  inferInstanceAs (Decidable (_ = _))

end CodeBlocks.Ai2048
