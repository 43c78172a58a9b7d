import Mathlib.Tactic.DeriveFintype
import CodeBlocks.Ai2048.LandCount
import CodeBlocks.Ai2048.Monotonicity
import CodeBlocks.Ai2048.Views

/-!
# The symmetries of the board

A symmetry of the square moves lines to lines, forwards or backwards, and cells
with a common side to such cells. The terms of an evaluation, and the count of
lands, are sums over lines that can be read from both ends, or do not depend on
the order of the cells.
-/

namespace CodeBlocks.Ai2048

/-- A symmetry of the square: a reflection in the diagonal or none, and then the rows and the
columns in their order or in the opposite one. -/
structure Symmetry where
  swapped : Bool
  rowsReversed : Bool
  columnsReversed : Bool
  deriving DecidableEq, Fintype, Repr

namespace Symmetry

/-- Where the cell of a row and a column has its tile from. -/
def place (g : Symmetry) (p : Fin 4 × Fin 4) : Fin 4 × Fin 4 :=
  let (r, c) := if g.swapped then p.swap else p
  (if g.rowsReversed then r.rev else r, if g.columnsReversed then c.rev else c)

/-- Where a cell has its tile from. -/
def cell (g : Symmetry) (pos : Fin 16) : Fin 16 :=
  gridCell (g.place (Fin.ofNat 4 (pos / 4), Fin.ofNat 4 (pos % 4)))

/-- The transformed board. -/
def apply (g : Symmetry) (tiles : Tiles) : Tiles := tiles ∘ g.cell

-- the identity and the reflections, the half turn and the two quarter turns
example : Fintype.card Symmetry = 8 ∧ Function.Injective cell := by decide

/-- A symmetry moves every cell to another place. -/
theorem cell_bijective (g : Symmetry) : Function.Bijective g.cell := by
  revert g
  decide

/-- Neighbours stay neighbours. -/
theorem sideAdjacent_cell (g : Symmetry) :
    ∀ p q, SideAdjacent (g.cell p) (g.cell q) ↔ SideAdjacent p q := by
  revert g
  decide

/-- The direction that a direction of the transformed board is one of. -/
def direction (g : Symmetry) (dir : Direction) : Direction :=
  let dir := if g.swapped then dir.swap else dir
  match dir with
  | .left | .right => if g.columnsReversed then dir.opposite else dir
  | .up | .down => if g.rowsReversed then dir.opposite else dir

/-- The line that a line of the transformed board is one of. -/
def line (g : Symmetry) (dir : Direction) (k : Fin 4) : Fin 4 :=
  match g.direction dir with
  | .left | .right => if g.rowsReversed then k.rev else k
  | .up | .down => if g.columnsReversed then k.rev else k

/-- A symmetry takes a line to a line, read from the edge it takes the edge to. -/
theorem cell_lineCell (g : Symmetry) (dir : Direction) (k : Fin 4) {j : Nat} (hj : j < 4) :
    g.cell (lineCell dir k j) = lineCell (g.direction dir) (g.line dir k) j := by
  have hall : ∀ (g : Symmetry) (k j : Fin 4),
      g.cell (lineCell dir k j) = lineCell (g.direction dir) (g.line dir k) j := by
    cases dir <;> decide
  exact hall g k ⟨j, hj⟩

/-- The lines of a direction go to different lines. -/
theorem line_bijective (g : Symmetry) (dir : Direction) : Function.Bijective (g.line dir) := by
  revert g
  cases dir <;> decide

/-- A symmetry moves lines to lines. -/
theorem lineAt_apply (g : Symmetry) (tiles : Tiles) (dir : Direction) (k : Fin 4) {j : Nat}
    (hj : j < 4) :
    lineAt (g.apply tiles) dir k j = lineAt tiles (g.direction dir) (g.line dir k) j :=
  congrArg tiles (g.cell_lineCell dir k hj)

/-- A sum over the lines of a board that looks at their four cells only. -/
theorem sum_lineAt_apply (g : Symmetry) (tiles : Tiles) (dir : Direction) {f : (Nat → Nat) → Int}
    (hf : ∀ {line line' : Nat → Nat}, (∀ j < 4, line j = line' j) → f line = f line') :
    ∑ k : Fin 4, f (lineAt (g.apply tiles) dir k) =
      ∑ k : Fin 4, f (lineAt tiles (g.direction dir) k) := by
  rw [← (g.line_bijective dir).sum_comp fun k : Fin 4 => f (lineAt tiles (g.direction dir) k)]
  exact Finset.sum_congr rfl fun k _ => hf fun j hj => g.lineAt_apply tiles dir k hj

/-- Opposite directions stay opposite. -/
theorem direction_opposite (g : Symmetry) (dir : Direction) :
    g.direction dir.opposite = (g.direction dir).opposite := by
  revert g
  cases dir <;> decide

/-- The lines of the transformed board across and along are those of the board, or the other
way round. -/
theorem direction_axes (g : Symmetry) :
    g.direction .left ∈ [Direction.left, Direction.left.opposite] ∧
        g.direction .up ∈ [Direction.up, Direction.up.opposite] ∨
      g.direction .left ∈ [Direction.up, Direction.up.opposite] ∧
        g.direction .up ∈ [Direction.left, Direction.left.opposite] := by
  revert g
  decide

/-- A value for the rows and one for the columns, each the same from both ends. -/
theorem sum_axes (g : Symmetry) {f : Direction → Int} (hf : ∀ dir, f dir.opposite = f dir) :
    f (g.direction .left) + f (g.direction .up) = f .left + f .up := by
  have hends (dir dir' : Direction) (h : dir ∈ [dir', dir'.opposite]) : f dir = f dir' := by
    rw [List.mem_pair] at h
    rcases h with rfl | rfl
    · rfl
    · exact hf dir'
  rcases g.direction_axes with ⟨hleft, hup⟩ | ⟨hleft, hup⟩
  · rw [hends _ _ hleft, hends _ _ hup]
  · rw [hends _ _ hleft, hends _ _ hup, add_comm]

end Symmetry

variable (g : Symmetry) (tiles : Tiles)

/-- The gap of two tiles does not depend on their order. -/
theorem gap_comm (a b : Nat) : gap a b = gap b a := by
  rw [gap, gap, abs_sub_comm]
  simp only [or_comm]

/-- The tiles of a line differ by the same, read from either end. -/
theorem lineRoughness_reverse (line : Nat → Nat) :
    lineRoughness (fun j => line (3 - j)) = lineRoughness line := by
  simp only [lineRoughness, Fin.sum_univ_four]
  -- by which of the four cells are empty
  by_cases h0 : line 0 = 0 <;> by_cases h1 : line 1 = 0 <;> by_cases h2 : line 2 = 0 <;>
    by_cases h3 : line 3 = 0 <;> simp [ahead, h0, h1, h2, h3, gap_comm, add_comm, add_assoc]

/-- A line is as rough from its one end as from the other. -/
theorem sum_lineRoughness_opposite (dir : Direction) :
    ∑ k : Fin 4, lineRoughness (lineAt tiles dir.opposite k) =
      ∑ k : Fin 4, lineRoughness (lineAt tiles dir k) := by
  refine Finset.sum_congr rfl fun k _ => ?_
  rw [← lineRoughness_reverse (lineAt tiles dir k)]
  exact lineRoughness_congr fun j hj => congrArg tiles (lineCell_opposite dir hj)

/-- The smoothness by the rows and columns, read from the left and from above. -/
theorem neg_evalSmoothnessValue_axes : -evalSmoothnessValue tiles =
    ∑ k : Fin 4, lineRoughness (lineAt tiles .left k) +
      ∑ k : Fin 4, lineRoughness (lineAt tiles .up k) := by
  rw [neg_evalSmoothnessValue, ← sum_lineRoughness_opposite tiles .left,
    ← sum_lineRoughness_opposite tiles .up]
  rfl

/-- The smoothness is the same after a symmetry. -/
theorem evalSmoothnessValue_apply :
    evalSmoothnessValue (g.apply tiles) = evalSmoothnessValue tiles := by
  rw [← neg_inj, neg_evalSmoothnessValue_axes, neg_evalSmoothnessValue_axes,
    g.sum_lineAt_apply tiles _ lineRoughness_congr, g.sum_lineAt_apply tiles _ lineRoughness_congr]
  exact @Symmetry.sum_axes g (fun dir => ∑ k : Fin 4, lineRoughness (lineAt tiles dir k))
    (sum_lineRoughness_opposite tiles)

/-- A symmetry only exchanges the edges from which the lines are read. -/
theorem lineFalls_apply (dir : Direction) :
    lineFalls (g.apply tiles) dir = lineFalls tiles (g.direction dir) := by
  refine @Symmetry.sum_lineAt_apply g tiles dir (fun line => falls (stops fun j => line j)) ?_
  intro line line' h
  exact congrArg falls (stops_congr fun j hj => congrArg Nat.cast (h j hj))

/-- The monotonicity is the same after a symmetry. -/
theorem evalMonotonicityValue_apply :
    evalMonotonicityValue (g.apply tiles) = evalMonotonicityValue tiles := by
  let f : Direction → Int := fun dir =>
    max (-lineFalls tiles dir) (-lineFalls tiles dir.opposite)
  have hf (dir : Direction) : f dir.opposite = f dir := by
    have hback : dir.opposite.opposite = dir := by cases dir <;> rfl
    simp only [f, hback, max_comm]
  have haxes := g.sum_axes hf
  simp only [f, ← g.direction_opposite, ← lineFalls_apply] at haxes
  rw [evalMonotonicityValue_eq, evalMonotonicityValue_eq]
  exact haxes

/-- The highest value is the least bound of the tiles. -/
theorem getMaxValue_le_iff (bound : Nat) : getMaxValue tiles ≤ bound ↔ ∀ p, tiles p ≤ bound := by
  have hfold : ∀ (cells : List (Fin 16)) (val : Nat),
      cells.foldl (fun maxVal pos => if maxVal < tiles pos then tiles pos else maxVal) val ≤ bound ↔
        val ≤ bound ∧ ∀ p ∈ cells, tiles p ≤ bound := by
    intro cells
    induction cells with
    | nil => simp
    | cons pos cells ih =>
        intro val
        rw [List.foldl_cons, ih, List.forall_mem_cons, ← and_assoc]
        refine and_congr_left' ?_
        split <;> omega
  have hcells : ∀ p, p = cell 0 ∨ p ∈ (List.finRange 16).tail := by decide
  rw [getMaxValue, hfold]
  constructor
  · rintro ⟨hfirst, hrest⟩ p
    rcases hcells p with rfl | hp
    · exact hfirst
    · exact hrest p hp
  · intro h
    exact ⟨h _, fun p _ => h p⟩

/-- So is the highest value. -/
theorem getMaxValue_apply : getMaxValue (g.apply tiles) = getMaxValue tiles := by
  refine eq_of_forall_ge_iff fun bound => ?_
  rw [getMaxValue_le_iff, getMaxValue_le_iff]
  exact (@Function.Surjective.forall _ _ g.cell g.cell_bijective.surjective
    fun p => tiles p ≤ bound).symm

/-- The number of empty cells counts them. -/
theorem getEmptyPosNum_eq :
    getEmptyPosNum tiles = (Finset.univ.filter fun pos => tiles pos = 0).card :=
  List.countP_eq_length_filter

/-- So is the number of empty cells. -/
theorem getEmptyPosNum_apply : getEmptyPosNum (g.apply tiles) = getEmptyPosNum tiles := by
  rw [getEmptyPosNum_eq, getEmptyPosNum_eq]
  refine Finset.card_bijective g.cell g.cell_bijective fun pos => ?_
  simp only [Finset.mem_filter, Finset.mem_univ, true_and]
  exact Iff.rfl

/-- The tiles of the transformed board have their neighbours from the board. -/
noncomputable def graphIso : tileGraph (g.apply tiles) ≃g tileGraph tiles where
  toEquiv := (Equiv.ofBijective g.cell g.cell_bijective).subtypeEquiv fun _ => Iff.rfl
  map_rel_iff' := and_congr_left' (g.sideAdjacent_cell _ _)

/-- And the number of lands, which are components. -/
theorem getLandNum_apply : getLandNum (g.apply tiles) = getLandNum tiles := by
  rw [getLandNum_eq_card, getLandNum_eq_card]
  exact Nat.card_congr (graphIso g tiles).connectedComponentEquiv

/-- No symmetry of the square changes a term of the evaluation or the number of lands. -/
theorem evaluation_symmetric :
    evalSmoothnessValue (g.apply tiles) = evalSmoothnessValue tiles ∧
      evalMonotonicityValue (g.apply tiles) = evalMonotonicityValue tiles ∧
      getMaxValue (g.apply tiles) = getMaxValue tiles ∧
      getEmptyPosNum (g.apply tiles) = getEmptyPosNum tiles ∧
      getLandNum (g.apply tiles) = getLandNum tiles :=
  ⟨evalSmoothnessValue_apply g tiles, evalMonotonicityValue_apply g tiles,
    getMaxValue_apply g tiles, getEmptyPosNum_apply g tiles, getLandNum_apply g tiles⟩

end CodeBlocks.Ai2048
