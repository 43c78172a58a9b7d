import Mathlib.Algebra.BigOperators.Fin
import Mathlib.Tactic.IntervalCases
import Mathlib.Tactic.Ring
import CodeBlocks.Ai2048.Eval
import CodeBlocks.Ai2048.Slide

/-!
# What a new tile does to the smoothness

`EvalSmoothnessValue` sums over the eight lines what every tile and the next one
differ by. A new tile changes the sum of its own row and column only, by what it
differs from the tiles it sees there.
-/

namespace CodeBlocks.Ai2048

/-- The difference of two tiles, if both are there. -/
def gap (a b : Nat) : Int := if a = 0 ∨ b = 0 then 0 else |(a : Int) - b|

/-- The tile that a cell sees in a direction. -/
def seen (tiles : Tiles) (pos : Fin 16) (dir : Direction) : Nat :=
  (getTargetPos tiles pos dir).2.elim 0 tiles

/-- The last tile of a line in front of a place. -/
def ahead (line : Nat → Nat) : Nat → Nat
  | 0 => 0
  | i + 1 => if line i = 0 then ahead line i else line i

/-- The first tile of a line of four behind a place. -/
def behind (line : Nat → Nat) (i : Nat) : Nat := ahead (fun j => line (3 - j)) (3 - i)

/-- What the tiles of a line differ by. -/
def lineRoughness (line : Nat → Nat) : Int := ∑ i : Fin 4, gap (line i) (ahead line i)

/-- What a new tile adds to a line, by the tiles in front of it and behind it. -/
def bump (val a b : Nat) : Int := gap val a + gap b val - gap b a

@[simp] theorem gap_zero_left (b : Nat) : gap 0 b = 0 := by simp [gap]

@[simp] theorem gap_zero_right (a : Nat) : gap a 0 = 0 := by simp [gap]

variable {tiles : Tiles}

/-- What a tile sees in a direction is what stands ahead of it in its line. -/
theorem seen_lineCell (dir : Direction) {k i : Nat} (hk : k < 4) (hi : i < 4) :
    seen tiles (lineCell dir k i) dir = ahead (fun j => tiles (lineCell dir k j)) i := by
  have hloop : ∀ i < 4, ∀ fuel, i < fuel →
      (getTargetPosLoop tiles dir fuel (lineCell dir k i)).2.elim 0 tiles =
        ahead (fun j => tiles (lineCell dir k j)) i := by
    intro i
    induction i with
    | zero =>
        intro hi fuel hfuel
        obtain ⟨fuel, rfl⟩ : ∃ more, fuel = more + 1 := ⟨fuel - 1, by omega⟩
        rw [getTargetPosLoop, dirPos_lineCell dir hk hi]
        rfl
    | succ i ih =>
        intro hi fuel hfuel
        obtain ⟨fuel, rfl⟩ : ∃ more, fuel = more + 1 := ⟨fuel - 1, by omega⟩
        rw [getTargetPosLoop, dirPos_lineCell dir hk hi]
        simp only [cellBefore, ahead]
        split
        · exact ih (by omega) fuel (by omega)
        · rfl
  exact hloop i hi 4 hi

/-- The roughness of a tile is its gap to the tile it sees, if it sees one. -/
theorem roughness_eq (pos : Fin 16) (dir : Direction) (hpos : tiles pos ≠ 0) :
    roughness tiles pos dir = gap (tiles pos) (seen tiles pos dir) := by
  unfold roughness seen
  cases (getTargetPos tiles pos dir).2 with
  | none => simp
  | some target =>
      by_cases htarget : tiles target = 0
      · simp [htarget]
      · simp [gap, hpos, htarget, Nat.pos_of_ne_zero htarget]

/-- The smoothness sums the gaps to the right and below. -/
theorem evalSmoothnessValue_eq (tiles : Tiles) : evalSmoothnessValue tiles =
    -∑ p, (gap (tiles p) (seen tiles p .right) + gap (tiles p) (seen tiles p .down)) := by
  have hfold : ∀ (cells : List (Fin 16)) (val : Int), cells.foldl (fun smoothVal pos =>
      if tiles pos > 0 then
        [Direction.right, .down].foldl (fun smoothVal dir => smoothVal - roughness tiles pos dir)
          smoothVal
      else smoothVal) val = val - (cells.map fun p =>
        gap (tiles p) (seen tiles p .right) + gap (tiles p) (seen tiles p .down)).sum := by
    intro cells
    induction cells with
    | nil => simp
    | cons pos cells ih =>
        intro val
        rw [List.foldl_cons, ih, List.map_cons, List.sum_cons]
        split
        · rename_i hpos
          simp only [List.foldl_cons, List.foldl_nil, roughness_eq pos _ (Nat.ne_of_gt hpos)]
          ring
        · rename_i hpos
          simp [Nat.eq_zero_of_not_pos hpos]
  rw [evalSmoothnessValue, hfold, Fin.sum_univ_def, zero_sub]

/-- The four lines of a direction cover the board once. -/
theorem lineCell_bijective (dir : Direction) :
    Function.Bijective fun place : Fin 4 × Fin 4 => lineCell dir place.1 place.2 := by
  cases dir <;> decide

/-- A sum over the board goes line by line. -/
theorem sum_lineCell {M : Type*} [AddCommMonoid M] (dir : Direction) (f : Fin 16 → M) :
    ∑ p, f p = ∑ k : Fin 4, ∑ i : Fin 4, f (lineCell dir k i) := by
  rw [← Fintype.sum_prod_type']
  exact ((lineCell_bijective dir).sum_comp f).symm

/-- A line of a board, from the edge. -/
def lineAt (tiles : Tiles) (dir : Direction) (k : Nat) : Nat → Nat :=
  fun j => tiles (lineCell dir k j)

/-- The smoothness line by line, over the rows and the columns. -/
theorem neg_evalSmoothnessValue (tiles : Tiles) : -evalSmoothnessValue tiles =
    ∑ k : Fin 4, lineRoughness (lineAt tiles .right k) +
      ∑ k : Fin 4, lineRoughness (lineAt tiles .down k) := by
  have hlines : ∀ dir, ∑ p, gap (tiles p) (seen tiles p dir) =
      ∑ k : Fin 4, lineRoughness (lineAt tiles dir k) := by
    intro dir
    rw [sum_lineCell dir]
    refine Finset.sum_congr rfl fun k _ => Finset.sum_congr rfl fun i _ => ?_
    rw [seen_lineCell dir k.isLt i.isLt]
    rfl
  rw [evalSmoothnessValue_eq, neg_neg, Finset.sum_add_distrib, hlines, hlines]

/-- A new tile in a line of four. -/
theorem lineRoughness_update {line : Nat → Nat} {i : Nat} (hi : i < 4) (hline : line i = 0)
    {val : Nat} (hval : val ≠ 0) :
    lineRoughness (Function.update line i val) =
      lineRoughness line + bump val (ahead line i) (behind line i) := by
  -- a line of four cells: by which of the other three are empty
  simp only [lineRoughness, Fin.sum_univ_four, behind, bump]
  interval_cases i <;> by_cases h0 : line 0 = 0 <;> by_cases h1 : line 1 = 0 <;>
    by_cases h2 : line 2 = 0 <;> by_cases h3 : line 3 = 0 <;>
    simp_all [ahead] <;> omega

/-- What stands ahead of a place depends on the places before it. -/
theorem ahead_congr {line line' : Nat → Nat} {i : Nat} (h : ∀ j < i, line j = line' j) :
    ahead line i = ahead line' i := by
  induction i with
  | zero => rfl
  | succ i ih =>
      rw [ahead, ahead, h i (Nat.lt_succ_self i), ih fun j hj => h j (Nat.lt_succ_of_lt hj)]

/-- The roughness of a line depends on its four tiles. -/
theorem lineRoughness_congr {line line' : Nat → Nat} (h : ∀ j < 4, line j = line' j) :
    lineRoughness line = lineRoughness line' := by
  refine Finset.sum_congr rfl fun i _ => ?_
  rw [h i i.isLt, ahead_congr fun j hj => h j (hj.trans i.isLt)]

def Direction.opposite : Direction → Direction
  | .up => .down
  | .right => .left
  | .down => .up
  | .left => .right

/-- In the opposite direction a line is run through from its other end. -/
theorem lineCell_opposite (dir : Direction) {k j : Nat} (hj : j < 4) :
    lineCell dir.opposite k j = lineCell dir k (3 - j) := by
  have hback : 3 - (3 - j) = j := by omega
  cases dir <;> simp [lineCell, Direction.opposite, hback]

/-- Looking in the opposite direction a tile sees what stands behind it. -/
theorem seen_opposite (dir : Direction) {k i : Nat} (hk : k < 4) (hi : i < 4) :
    seen tiles (lineCell dir k i) dir.opposite = behind (lineAt tiles dir k) i := by
  have hcell : lineCell dir k i = lineCell dir.opposite k (3 - i) := by
    rw [lineCell_opposite dir (by omega)]
    congr 1
    omega
  rw [hcell, seen_lineCell _ hk (by omega)]
  refine ahead_congr fun j hj => ?_
  rw [lineCell_opposite dir (by omega)]
  rfl

variable {pos : Fin 16} {val : Nat} (hpos : tiles pos = 0) (hval : val ≠ 0)
include hpos hval

/-- A new tile changes its own line. -/
theorem sum_lineRoughness_update (dir : Direction) :
    ∑ k : Fin 4, lineRoughness (lineAt (Function.update tiles pos val) dir k) =
      ∑ k : Fin 4, lineRoughness (lineAt tiles dir k) +
        bump val (seen tiles pos dir) (seen tiles pos dir.opposite) := by
  obtain ⟨⟨k, i⟩, rfl⟩ := (lineCell_bijective dir).2 pos
  simp only at hpos ⊢
  rw [seen_lineCell dir k.isLt i.isLt, seen_opposite dir k.isLt i.isLt]
  have hline : ∀ k' : Fin 4, lineRoughness (lineAt (Function.update tiles (lineCell dir k i) val)
      dir k') = lineRoughness (lineAt tiles dir k') + if k' = k then
        bump val (ahead (lineAt tiles dir k) i) (behind (lineAt tiles dir k) i) else 0 := by
    intro k'
    split
    · rename_i hk
      rw [hk, ← lineRoughness_update i.isLt hpos hval]
      refine lineRoughness_congr fun j hj => ?_
      simp only [lineAt, Function.update_apply, lineCell_inj dir k.isLt hj k.isLt i.isLt, true_and]
    · rename_i hk
      rw [add_zero]
      refine lineRoughness_congr fun j hj => ?_
      simp only [lineAt, Function.update_apply, lineCell_inj dir k'.isLt hj k.isLt i.isLt]
      rw [if_neg fun h => hk (Fin.ext h.1)]
  simp only [hline, Finset.sum_add_distrib, Finset.sum_ite_eq', Finset.mem_univ, if_true]
  rfl

/-- A new tile adds what it differs from the tiles it sees. -/
theorem evalSmoothnessValue_update :
    -evalSmoothnessValue (Function.update tiles pos val) = -evalSmoothnessValue tiles +
      (bump val (seen tiles pos .right) (seen tiles pos .left) +
        bump val (seen tiles pos .down) (seen tiles pos .up)) := by
  rw [neg_evalSmoothnessValue, neg_evalSmoothnessValue, sum_lineRoughness_update hpos hval,
    sum_lineRoughness_update hpos hval]
  simp only [Direction.opposite]
  ring

end CodeBlocks.Ai2048
