import Mathlib.Algebra.Order.Field.Rat
import Mathlib.Tactic.Linarith
import CodeBlocks.Ai2048.Moves

/-!
# Evaluation of a board

The terms of `EvalAll` and the count of lands. Weights and scores are exact
rationals here. An evaluation never comes near the sentinel of the search, as
long as no tile is far above the highest of the game.
-/

namespace CodeBlocks.Ai2048

/-- What one tile and the next one to its right, or below it, take off the smoothness. -/
def roughness (tiles : Tiles) (pos : Fin 16) (dir : Direction) : Int :=
  match (getTargetPos tiles pos dir).2 with
  | none => 0
  | some target => if tiles target > 0 then |(tiles pos : Int) - tiles target| else 0

/-- `EvalSmoothnessValue`. -/
def evalSmoothnessValue (tiles : Tiles) : Int :=
  (List.finRange 16).foldl (fun smoothVal pos =>
    if tiles pos > 0 then
      [Direction.right, .down].foldl (fun smoothVal dir => smoothVal - roughness tiles pos dir)
        smoothVal
    else smoothVal) 0

/-- The tile at a position of a line. -/
def tileAt (tiles : Tiles) (pos : Nat) : Int := tiles (cell pos)

/-- The inner loop of `WORK`, over empty cells. The first argument bounds the turns. -/
def skipEmpty (tiles : Tiles) (last add : Nat) : Nat → Nat → Nat
  | 0, next => next
  | fuel + 1, next =>
    if next ≤ last ∧ tileAt tiles next = 0 then skipEmpty tiles last add fuel (next + add)
    else next

/-- The outer loop of `WORK` for one line. The first argument bounds the turns. -/
def workLine (tiles : Tiles) (last add : Nat) : Nat → Nat → Nat → Int × Int → Int × Int
  | 0, _, _, vals => vals
  | fuel + 1, curr, next, (val1, val2) =>
    if next ≤ last then
      let next := skipEmpty tiles last add 4 next
      let next := if next > last then last else next
      let vals :=
        if tileAt tiles curr > tileAt tiles next then
          (val1 + (tileAt tiles next - tileAt tiles curr), val2)
        else (val1, val2 + (tileAt tiles curr - tileAt tiles next))
      workLine tiles last add fuel next (next + add) vals
    else (val1, val2)

/-- `WORK`. -/
def work (tiles : Tiles) (ids : List (Nat × Nat)) (add : Nat) : Int × Int :=
  ids.foldl (fun vals id => workLine tiles id.2 add 4 id.1 (id.1 + add) vals) (0, 0)

/-- `EvalMonotonicityValue`. -/
def evalMonotonicityValue (tiles : Tiles) : Int :=
  let rows := work tiles [(0, 3), (4, 7), (8, 11), (12, 15)] 1
  let columns := work tiles [(0, 12), (1, 13), (2, 14), (3, 15)] 4
  max rows.1 rows.2 + max columns.1 columns.2

/-- `GetEmptyPosNum`. -/
def getEmptyPosNum (tiles : Tiles) : Nat := (List.finRange 16).countP fun pos => tiles pos = 0

/-- `GetMaxValue`. -/
def getMaxValue (tiles : Tiles) : Nat :=
  (List.finRange 16).tail.foldl (fun maxVal pos => if maxVal < tiles pos then tiles pos else maxVal)
    (tiles (cell 0))

/-- `EvalAll`. -/
def evalAll (tiles : Tiles) : Rat :=
  1 / 10 * evalSmoothnessValue tiles + 1 * evalMonotonicityValue tiles +
    27 / 10 * lg2 (getEmptyPosNum tiles) + 1 * getMaxValue tiles

/-- `Mark`. The first argument bounds the depth: every call that goes on marks one more cell. -/
def mark (tiles : Tiles) : Nat → Option (Fin 16) → Nat → (Fin 16 → Bool) → Fin 16 → Bool
  | 0, _, _, marked => marked
  | _ + 1, none, _, marked => marked
  | fuel + 1, some pos, val, marked =>
    if tiles pos = val ∧ marked pos = false then
      directions.foldl (fun marked dir => mark tiles fuel (dirPos pos dir) val marked)
        (Function.update marked pos true)
    else marked

/-- The body of the loop of `GetLandNum`. -/
def landStep (tiles : Tiles) (state : Nat × (Fin 16 → Bool)) (pos : Fin 16) :
    Nat × (Fin 16 → Bool) :=
  if tiles pos ≠ 0 ∧ state.2 pos = false then
    (state.1 + 1, mark tiles 17 (some pos) (tiles pos) state.2)
  else state

/-- `GetLandNum`. -/
def getLandNum (tiles : Tiles) : Nat :=
  ((List.finRange 16).foldl (landStep tiles) (0, fun _ => false)).1

variable {tiles : Tiles} {bound : Nat}

/-- Two tiles differ by no more than the higher one. -/
theorem roughness_le (h : ∀ q, tiles q ≤ bound) (pos : Fin 16) (dir : Direction) :
    roughness tiles pos dir ≤ bound := by
  unfold roughness
  split
  · exact Int.natCast_nonneg bound
  · rename_i target htarget
    split
    · have hpos := h pos
      have htile := h target
      rw [abs_le]
      omega
    · exact Int.natCast_nonneg bound

theorem evalSmoothnessValue_ge (h : ∀ q, tiles q ≤ bound) :
    -(32 * bound : Int) ≤ evalSmoothnessValue tiles := by
  have hfold : ∀ (positions : List (Fin 16)) (val : Int),
      val - 2 * bound * positions.length ≤ positions.foldl (fun smoothVal pos =>
        if tiles pos > 0 then
          [Direction.right, .down].foldl (fun smoothVal dir => smoothVal - roughness tiles pos dir)
            smoothVal
        else smoothVal) val := by
    intro positions
    induction positions with
    | nil => simp
    | cons pos positions ih =>
        intro val
        rw [List.foldl_cons, List.length_cons]
        refine le_trans ?_ (ih _)
        have hright := roughness_le h pos .right
        have hdown := roughness_le h pos .down
        split
        · simp only [List.foldl_cons, List.foldl_nil]
          push_cast
          linarith
        · push_cast
          linarith [Int.natCast_nonneg bound]
  have hall := hfold (List.finRange 16) 0
  rw [List.length_finRange] at hall
  unfold evalSmoothnessValue
  push_cast at hall
  linarith

theorem tileAt_nonneg (pos : Nat) : 0 ≤ tileAt tiles pos := Int.natCast_nonneg _

theorem tileAt_le (h : ∀ q, tiles q ≤ bound) (pos : Nat) : tileAt tiles pos ≤ bound :=
  Int.ofNat_le.mpr (h _)

/-- A turn of `WORK` lowers one of the two values, by no more than the highest tile. -/
theorem workLine_ge (h : ∀ q, tiles q ≤ bound) (last add fuel curr next : Nat)
    (vals : Int × Int) :
    vals.1 + vals.2 - bound * fuel ≤
      (workLine tiles last add fuel curr next vals).1 +
        (workLine tiles last add fuel curr next vals).2 := by
  induction fuel generalizing curr next vals with
  | zero => simp [workLine]
  | succ fuel ih =>
      obtain ⟨val1, val2⟩ := vals
      have hfuel : (0 : Int) ≤ bound * fuel := by positivity
      unfold workLine
      split
      · dsimp only
        generalize (if skipEmpty tiles last add 4 next > last then last
          else skipEmpty tiles last add 4 next) = stop
        refine le_trans ?_ (ih _ _ _)
        have hcurr := tileAt_le h curr
        have hstop := tileAt_le h stop
        have hcurr' := @tileAt_nonneg tiles curr
        have hstop' := @tileAt_nonneg tiles stop
        push_cast
        split
        · dsimp only
          linarith
        · dsimp only
          linarith
      · push_cast
        linarith [Int.natCast_nonneg bound]

theorem work_ge (h : ∀ q, tiles q ≤ bound) (ids : List (Nat × Nat)) (add : Nat) :
    -(4 * bound * ids.length : Int) ≤ (work tiles ids add).1 + (work tiles ids add).2 := by
  have hfold : ∀ (ids : List (Nat × Nat)) (vals : Int × Int),
      vals.1 + vals.2 - 4 * bound * ids.length ≤
        (ids.foldl (fun vals id => workLine tiles id.2 add 4 id.1 (id.1 + add) vals) vals).1 +
          (ids.foldl (fun vals id => workLine tiles id.2 add 4 id.1 (id.1 + add) vals) vals).2 := by
    intro ids
    induction ids with
    | nil => simp
    | cons id ids ih =>
        intro vals
        have hline := workLine_ge h id.2 add 4 id.1 (id.1 + add) vals
        rw [List.foldl_cons, List.length_cons]
        refine le_trans ?_ (ih _)
        push_cast at hline ⊢
        linarith
  have hall := hfold ids (0, 0)
  unfold work
  linarith

/-- The higher one of two values is at least half of their sum. -/
theorem evalMonotonicityValue_ge (h : ∀ q, tiles q ≤ bound) :
    -(16 * bound : Int) ≤ evalMonotonicityValue tiles := by
  have hrows := work_ge h [(0, 3), (4, 7), (8, 11), (12, 15)] 1
  have hcolumns := work_ge h [(0, 12), (1, 13), (2, 14), (3, 15)] 4
  unfold evalMonotonicityValue
  simp only [List.length_cons, List.length_nil] at hrows hcolumns ⊢
  push_cast at hrows hcolumns
  omega

/-- An evaluation stays above the sentinel of the search. -/
theorem evalAll_gt (h : ∀ q, tiles q ≤ bound) (hbound : bound ≤ 50) : -1000 < evalAll tiles := by
  have hsmooth : -(32 * bound : Rat) ≤ evalSmoothnessValue tiles := by
    exact_mod_cast evalSmoothnessValue_ge h
  have hmono : -(16 * bound : Rat) ≤ evalMonotonicityValue tiles := by
    exact_mod_cast evalMonotonicityValue_ge h
  have hempty : (0 : Rat) ≤ lg2 (getEmptyPosNum tiles) := Nat.cast_nonneg _
  have hmax : (0 : Rat) ≤ getMaxValue tiles := Nat.cast_nonneg _
  have hcast : (bound : Rat) ≤ 50 := by exact_mod_cast hbound
  unfold evalAll
  linarith

end CodeBlocks.Ai2048
