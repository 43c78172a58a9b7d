import CodeBlocks.Ai2048.Lands
import CodeBlocks.Ai2048.Smoothness
import CodeBlocks.Ai2048.Search

/-!
# What a placement is worth

The score of a placement in `GetCandidateSet`, against that of the board before
it. It depends on the tiles that the cell sees, and on whether these are all
twos, or all higher, or both. A cell that sees one kind only prefers one of the
two tiles.
-/

namespace CodeBlocks.Ai2048

theorem gap_of_ne {a b : Nat} (ha : a ≠ 0) (hb : b ≠ 0) :
    gap a b = ((a - b + (b - a) : Nat) : Int) := by
  rw [gap, if_neg (not_or.mpr ⟨ha, hb⟩)]
  rcases abs_cases ((a : Int) - b) with h | h <;> omega

/-- Between tiles that are all ones. -/
theorem bump_ones {a b : Nat} (ha : a ≤ 1) (hb : b ≤ 1) :
    bump 1 a b = 0 ∧ bump 2 a b = a + b := by
  have hall : ∀ a ≤ 1, ∀ b ≤ 1, bump 1 a b = 0 ∧ bump 2 a b = ((a + b : Nat) : Int) := by
    decide
  exact hall a ha b hb

/-- Between nothing. -/
@[simp] theorem bump_zero (val : Nat) : bump val 0 0 = 0 := by simp [bump]

/-- Between tiles that are all higher. -/
theorem bump_highs {a b : Nat} (ha : a ≠ 1) (hb : b ≠ 1) :
    0 ≤ bump 1 a b ∧ bump 2 a b ≤ bump 1 a b ∧
      (a ≠ 0 ∨ b ≠ 0 → 1 ≤ bump 1 a b ∧ bump 2 a b + 1 ≤ bump 1 a b) := by
  by_cases ha0 : a = 0
  · by_cases hb0 : b = 0
    · simp [ha0, hb0]
    · rw [ha0, bump, bump, gap_of_ne hb0 one_ne_zero, gap_of_ne hb0 two_ne_zero]
      simp only [gap_zero_right]
      omega
  · by_cases hb0 : b = 0
    · rw [hb0, bump, bump, gap_of_ne one_ne_zero ha0, gap_of_ne two_ne_zero ha0]
      simp only [gap_zero_left]
      omega
    · rw [bump, bump, gap_of_ne hb0 one_ne_zero, gap_of_ne hb0 two_ne_zero,
        gap_of_ne one_ne_zero ha0, gap_of_ne two_ne_zero ha0, gap_of_ne hb0 ha0]
      omega

/-- Between a one and a higher tile. -/
theorem bump_mixed {a b : Nat} (hhigh : ¬ (a ≤ 1 ∧ b ≤ 1)) (hone : ¬ (a ≠ 1 ∧ b ≠ 1)) :
    bump 1 a b = 0 ∧ bump 2 a b = 0 := by
  have ha : a ≠ 0 := by omega
  have hb : b ≠ 0 := by omega
  rw [bump, bump, gap_of_ne hb one_ne_zero, gap_of_ne hb two_ne_zero, gap_of_ne one_ne_zero ha,
    gap_of_ne two_ne_zero ha, gap_of_ne hb ha]
  omega

/-- The score of the board that `GetCandidateSet` starts from. -/
def boardScore (tiles : Tiles) : Int := -evalSmoothnessValue tiles + getLandNum tiles

/-- What a new tile differs from the tiles it sees. -/
def roughBy (tiles : Tiles) (pos : Fin 16) (val : Nat) : Int :=
  bump val (seen tiles pos .right) (seen tiles pos .left) +
    bump val (seen tiles pos .down) (seen tiles pos .up)

variable {tiles : Tiles} {pos : Fin 16} (hpos : tiles pos = 0)

/-- A tile next to a cell is one that the cell sees. -/
theorem exists_seen_of_neighbour {q : Fin 16} (hq : some q ∈ neighbours pos) (htile : tiles q ≠ 0) :
    ∃ dir, seen tiles pos dir = tiles q := by
  obtain ⟨dir, -, hdir⟩ := List.mem_map.mp hq
  refine ⟨dir, ?_⟩
  simp [seen, getTargetPos, getTargetPosLoop, hdir, htile]

section Score

variable {val : Nat} (hval : val ≠ 0)
include hpos hval

theorem candidateScore_le :
    candidateScore tiles pos val ≤ boardScore tiles + roughBy tiles pos val + 1 := by
  have hsmooth := evalSmoothnessValue_update hpos hval
  have hland := getLandNum_update_le hpos hval
  simp only [candidateScore, boardScore, roughBy]
  omega

theorem candidateScore_le_of_touches {q : Fin 16} (hq : some q ∈ neighbours pos)
    (htile : tiles q = val) :
    candidateScore tiles pos val ≤ boardScore tiles + roughBy tiles pos val := by
  have hsmooth := evalSmoothnessValue_update hpos hval
  have hland := getLandNum_update_le_of_touches hpos hval hq htile
  simp only [candidateScore, boardScore, roughBy]
  omega

theorem candidateScore_of_unseen (h : ∀ dir, seen tiles pos dir ≠ val) :
    candidateScore tiles pos val = boardScore tiles + roughBy tiles pos val + 1 := by
  have hsmooth := evalSmoothnessValue_update hpos hval
  have hland : getLandNum (Function.update tiles pos val) = getLandNum tiles + 1 := by
    apply getLandNum_update_of_apart hpos hval
    intro q hq htile
    obtain ⟨dir, hdir⟩ := exists_seen_of_neighbour hq (htile ▸ hval)
    exact h dir (hdir.trans htile)
  simp only [candidateScore, boardScore, roughBy]
  omega

end Score

/-- The cell sees no higher tile, or no one. -/
def Uniform (tiles : Tiles) (pos : Fin 16) : Prop :=
  (∀ dir, seen tiles pos dir ≤ 1) ∨ ∀ dir, seen tiles pos dir ≠ 1

theorem forall_direction {P : Direction → Prop} :
    (∀ dir, P dir) ↔ (P .right ∧ P .left) ∧ P .down ∧ P .up := by
  refine ⟨fun h => ⟨⟨h _, h _⟩, h _, h _⟩, fun h dir => ?_⟩
  cases dir with
  | up => exact h.2.2
  | right => exact h.1.1
  | down => exact h.2.1
  | left => exact h.1.2

/-- The cell sees a tile of its row. -/
def SeesRow (tiles : Tiles) (pos : Fin 16) : Prop :=
  seen tiles pos .right ≠ 0 ∨ seen tiles pos .left ≠ 0

/-- The cell sees a tile of its column. -/
def SeesColumn (tiles : Tiles) (pos : Fin 16) : Prop :=
  seen tiles pos .down ≠ 0 ∨ seen tiles pos .up ≠ 0

include hpos

/-- A cell that sees tiles of one kind prefers one of the two tiles, and is then worth more than a
land of its own. -/
theorem uniform_scores (huniform : Uniform tiles pos)
    (hsees : SeesRow tiles pos ∨ SeesColumn tiles pos) :
    candidateScore tiles pos 1 ≠ candidateScore tiles pos 2 ∧
      (boardScore tiles + 2 ≤ candidateScore tiles pos 1 ∨
        boardScore tiles + 2 ≤ candidateScore tiles pos 2) := by
  have hone := candidateScore_le hpos one_ne_zero
  have htwo := candidateScore_le hpos two_ne_zero
  rcases huniform with hones | hhighs
  · -- a two is rough against every one, and joins none
    have hscore := candidateScore_of_unseen hpos two_ne_zero
      (fun dir h => absurd (h ▸ hones dir) (by decide))
    have hrow := bump_ones (hones .right) (hones .left)
    have hcolumn := bump_ones (hones .down) (hones .up)
    simp only [SeesRow, SeesColumn] at hsees
    simp only [roughBy, hrow, hcolumn] at hone hscore
    omega
  · have hscore := candidateScore_of_unseen hpos one_ne_zero hhighs
    have hrow := bump_highs (hhighs .right) (hhighs .left)
    have hcolumn := bump_highs (hhighs .down) (hhighs .up)
    simp only [SeesRow, SeesColumn] at hsees
    simp only [roughBy] at htwo hscore
    omega

omit hpos in
/-- A cell that sees one line at most, and both kinds if any, is as rough with one of the two tiles
as without. -/
theorem roughBy_of_mixed {val : Nat} (hval : val = 1 ∨ val = 2)
    (hline : ¬ SeesRow tiles pos ∨ ¬ SeesColumn tiles pos)
    (hmixed : ¬ (Uniform tiles pos ∧ (SeesRow tiles pos ∨ SeesColumn tiles pos))) :
    roughBy tiles pos val = 0 := by
  simp only [Uniform, forall_direction, SeesRow, SeesColumn] at hline hmixed
  -- one line is empty, and the other one holds tiles of both kinds or none
  have hother : ∀ a b : Nat, ¬ (((a ≤ 1 ∧ b ≤ 1) ∨ (a ≠ 1 ∧ b ≠ 1)) ∧ (a ≠ 0 ∨ b ≠ 0)) →
      bump val a b = 0 := by
    intro a b hab
    by_cases hzero : a = 0 ∧ b = 0
    · rw [hzero.1, hzero.2, bump_zero]
    · have hbumps := @bump_mixed a b (by omega) (by omega)
      rcases hval with rfl | rfl
      · exact hbumps.1
      · exact hbumps.2
  unfold roughBy
  rcases hline with hrow | hcolumn
  · have hright : seen tiles pos .right = 0 := by omega
    have hleft : seen tiles pos .left = 0 := by omega
    rw [hright, hleft, bump_zero, zero_add]
    exact hother _ _ (by omega)
  · have hdown : seen tiles pos .down = 0 := by omega
    have hup : seen tiles pos .up = 0 := by omega
    rw [hdown, hup, bump_zero, add_zero]
    exact hother _ _ (by omega)

/-- Such a cell is worth a land of its own. -/
theorem candidateScore_le_of_mixed {val : Nat} (hval : val = 1 ∨ val = 2)
    (hline : ¬ SeesRow tiles pos ∨ ¬ SeesColumn tiles pos)
    (hmixed : ¬ (Uniform tiles pos ∧ (SeesRow tiles pos ∨ SeesColumn tiles pos))) :
    candidateScore tiles pos val ≤ boardScore tiles + 1 := by
  have hle := @candidateScore_le tiles pos hpos val (by omega)
  rw [roughBy_of_mixed hval hline hmixed] at hle
  omega

end CodeBlocks.Ai2048
