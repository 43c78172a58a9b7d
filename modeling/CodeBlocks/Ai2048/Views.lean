import CodeBlocks.Core.Grid
import CodeBlocks.Ai2048.Placements

/-!
# What the cells of a board see

A cell sees a tile of its row, or of its column, exactly when there is one. On a
board with few tiles whose rows and columns all have one, many cells see tiles
of one kind only; on a board with few tiles where no cell does, the tiles are in
the corners.
-/

namespace CodeBlocks.Ai2048

/-- The cell of a row and a column. -/
def gridCell (place : Fin 4 × Fin 4) : Fin 16 := lineCell .left place.1 place.2

/-- Every cell has one row and one column. -/
theorem gridCell_bijective : Function.Bijective gridCell := lineCell_bijective .left

variable {line : Nat → Nat}

/-- What stands ahead is a tile of the line. -/
theorem ahead_mem {i : Nat} (h : ahead line i ≠ 0) : ∃ j < i, line j = ahead line i := by
  induction i with
  | zero => exact absurd rfl h
  | succ i ih =>
      rw [ahead] at h ⊢
      split at h
      · rename_i hline
        rw [if_pos hline]
        obtain ⟨j, hj, heq⟩ := ih h
        exact ⟨j, Nat.lt_succ_of_lt hj, heq⟩
      · rename_i hline
        rw [if_neg hline]
        exact ⟨i, Nat.lt_succ_self i, rfl⟩

/-- Behind a tile something stands ahead. -/
theorem ahead_ne_zero {i j : Nat} (hj : j < i) (hline : line j ≠ 0) : ahead line i ≠ 0 := by
  induction i with
  | zero => exact absurd hj (Nat.not_lt_zero j)
  | succ i ih =>
      rw [ahead]
      split
      · rename_i hzero
        have hne : j ≠ i := fun heq => hline (heq ▸ hzero)
        exact ih (by omega)
      · assumption

/-- What stands behind is a tile of the line. -/
theorem behind_mem {i : Nat} (h : behind line i ≠ 0) :
    ∃ j, i < j ∧ j < 4 ∧ line j = behind line i := by
  obtain ⟨j, hj, heq⟩ := ahead_mem h
  exact ⟨3 - j, by omega, by omega, heq⟩

/-- In front of a tile something stands behind. -/
theorem behind_ne_zero {i j : Nat} (hij : i < j) (hj : j < 4) (hline : line j ≠ 0) :
    behind line i ≠ 0 := by
  refine @ahead_ne_zero (fun j => line (3 - j)) (3 - i) (3 - j) (by omega) ?_
  have hback : 3 - (3 - j) = j := by omega
  rwa [hback]

/-- The second place sees the first one. -/
theorem ahead_one : ahead line 1 = line 0 := by
  rw [ahead]
  split
  · rename_i hzero
    exact hzero.symm
  · rfl

/-- Across an empty cell. -/
theorem behind_one (h : line 2 = 0) : behind line 1 = line 3 := by
  have hcross : behind line 1 = ahead (fun j => line (3 - j)) 1 := if_pos h
  rw [hcross, ahead_one]

variable {tiles : Tiles} {r c : Fin 4}

/-- To the left a cell sees what stands ahead of it in its row. -/
theorem seen_left : seen tiles (gridCell (r, c)) .left = ahead (lineAt tiles .left r) c :=
  seen_lineCell .left r.isLt c.isLt

/-- To the right it sees what stands behind it there. -/
theorem seen_right : seen tiles (gridCell (r, c)) .right = behind (lineAt tiles .left r) c :=
  seen_opposite .left r.isLt c.isLt

/-- Upwards it sees what stands ahead of it in its column. -/
theorem seen_up : seen tiles (gridCell (r, c)) .up = ahead (lineAt tiles .up c) r :=
  seen_lineCell .up c.isLt r.isLt

/-- Downwards it sees what stands behind it there. -/
theorem seen_down : seen tiles (gridCell (r, c)) .down = behind (lineAt tiles .up c) r :=
  seen_opposite .up c.isLt r.isLt

/-- The board with its rows as columns. -/
def transpose (tiles : Tiles) : Tiles := fun pos => tiles (lineCell .up (pos / 4) (pos % 4))

@[simp] theorem transpose_gridCell (tiles : Tiles) (r c : Fin 4) :
    transpose tiles (gridCell (r, c)) = tiles (gridCell (c, r)) := by
  have hcell : ∀ r c : Fin 4, lineCell .up ((gridCell (r, c)).val / 4) ((gridCell (r, c)).val % 4) =
      gridCell (c, r) := by
    decide
  exact congrArg tiles (hcell r c)

/-- A direction across the diagonal. -/
def Direction.swap : Direction → Direction
  | .up => .left
  | .right => .down
  | .down => .right
  | .left => .up

/-- The rows of the transposed board are the columns. -/
theorem lineAt_transpose (tiles : Tiles) (k : Fin 4) {j : Nat} (hj : j < 4) :
    lineAt (transpose tiles) .left k j = lineAt tiles .up k j ∧
      lineAt (transpose tiles) .up k j = lineAt tiles .left k j :=
  ⟨transpose_gridCell tiles k ⟨j, hj⟩, transpose_gridCell tiles ⟨j, hj⟩ k⟩

/-- A cell of the transposed board sees across the diagonal. -/
theorem seen_transpose (tiles : Tiles) (r c : Fin 4) (dir : Direction) :
    seen (transpose tiles) (gridCell (r, c)) dir = seen tiles (gridCell (c, r)) dir.swap := by
  have hback : ∀ {i j : Nat}, j < 3 - i → 3 - j < 4 := by omega
  cases dir with
  | left =>
      rw [seen_left, Direction.swap, seen_up]
      exact ahead_congr fun j hj => (lineAt_transpose tiles r (hj.trans c.isLt)).1
  | right =>
      rw [seen_right, Direction.swap, seen_down]
      exact ahead_congr fun j hj => (lineAt_transpose tiles r (hback hj)).1
  | up =>
      rw [seen_up, Direction.swap, seen_left]
      exact ahead_congr fun j hj => (lineAt_transpose tiles c (hj.trans r.isLt)).2
  | down =>
      rw [seen_down, Direction.swap, seen_right]
      exact ahead_congr fun j hj => (lineAt_transpose tiles c (hback hj)).2

/-- To see a tile in the row becomes to see one in the column. -/
theorem seesRow_transpose : SeesRow (transpose tiles) (gridCell (r, c)) ↔
    SeesColumn tiles (gridCell (c, r)) := by
  simp only [SeesRow, SeesColumn, seen_transpose, Direction.swap]

/-- And the other way round. -/
theorem seesColumn_transpose : SeesColumn (transpose tiles) (gridCell (r, c)) ↔
    SeesRow tiles (gridCell (c, r)) := by
  simp only [SeesRow, SeesColumn, seen_transpose, Direction.swap]

/-- Seeing one kind only does not depend on which axis is which. -/
theorem uniform_transpose : Uniform (transpose tiles) (gridCell (r, c)) ↔
    Uniform tiles (gridCell (c, r)) := by
  simp only [Uniform, forall_direction, seen_transpose, Direction.swap]
  tauto

/-- What a cell sees in its row is a tile there. -/
theorem seen_row {dir : Direction} (hdir : dir = .left ∨ dir = .right)
    (h : seen tiles (gridCell (r, c)) dir ≠ 0) :
    ∃ c', tiles (gridCell (r, c')) = seen tiles (gridCell (r, c)) dir := by
  rcases hdir with rfl | rfl
  · rw [seen_left] at h ⊢
    obtain ⟨j, hj, heq⟩ := ahead_mem h
    exact ⟨⟨j, hj.trans c.isLt⟩, heq⟩
  · rw [seen_right] at h ⊢
    obtain ⟨j, -, hj, heq⟩ := behind_mem h
    exact ⟨⟨j, hj⟩, heq⟩

/-- What a cell sees in its column is a tile there. -/
theorem seen_column {dir : Direction} (hdir : dir = .up ∨ dir = .down)
    (h : seen tiles (gridCell (r, c)) dir ≠ 0) :
    ∃ r', tiles (gridCell (r', c)) = seen tiles (gridCell (r, c)) dir := by
  have hswap : seen (transpose tiles) (gridCell (c, r)) dir.swap =
      seen tiles (gridCell (r, c)) dir := by
    rw [seen_transpose]
    cases dir <;> rfl
  rw [← hswap] at h ⊢
  simp only [← transpose_gridCell tiles c]
  refine seen_row ?_ h
  rcases hdir with rfl | rfl
  · exact Or.inl rfl
  · exact Or.inr rfl

/-- What holds of the tiles of a row and a column holds of everything that their cell sees. -/
theorem forall_seen {P : Nat → Prop} (hzero : P 0)
    (hrow : ∀ c', tiles (gridCell (r, c')) ≠ 0 → P (tiles (gridCell (r, c'))))
    (hcolumn : ∀ r', tiles (gridCell (r', c)) ≠ 0 → P (tiles (gridCell (r', c)))) :
    ∀ dir, P (seen tiles (gridCell (r, c)) dir) := by
  intro dir
  by_cases hseen : seen tiles (gridCell (r, c)) dir = 0
  · rwa [hseen]
  have hside : (dir = .left ∨ dir = .right) ∨ dir = .up ∨ dir = .down := by
    cases dir <;> simp
  rcases hside with hdir | hdir
  · obtain ⟨c', heq⟩ := seen_row hdir hseen
    rw [← heq] at hseen ⊢
    exact hrow c' hseen
  · obtain ⟨r', heq⟩ := seen_column hdir hseen
    rw [← heq] at hseen ⊢
    exact hcolumn r' hseen

/-- An empty cell sees a tile in its row when there is one. -/
theorem seesRow_iff (hpos : tiles (gridCell (r, c)) = 0) :
    SeesRow tiles (gridCell (r, c)) ↔ ∃ c', tiles (gridCell (r, c')) ≠ 0 := by
  constructor
  · rintro (h | h)
    · obtain ⟨c', heq⟩ := seen_row (Or.inr rfl) h
      exact ⟨c', heq ▸ h⟩
    · obtain ⟨c', heq⟩ := seen_row (Or.inl rfl) h
      exact ⟨c', heq ▸ h⟩
  · rintro ⟨c', hc'⟩
    rcases Nat.lt_trichotomy c' c with hlt | heq | hgt
    · right
      rw [seen_left]
      exact ahead_ne_zero hlt hc'
    · rw [Fin.ext heq] at hc'
      exact absurd hpos hc'
    · left
      rw [seen_right]
      exact behind_ne_zero hgt c'.isLt hc'

/-- An empty cell sees a tile in its column when there is one. -/
theorem seesColumn_iff (hpos : tiles (gridCell (r, c)) = 0) :
    SeesColumn tiles (gridCell (r, c)) ↔ ∃ r', tiles (gridCell (r', c)) ≠ 0 := by
  rw [← seesRow_transpose, seesRow_iff ((transpose_gridCell tiles c r).trans hpos)]
  simp only [transpose_gridCell]

/-- The places of the tiles. -/
def filled (tiles : Tiles) : Finset (Fin 4 × Fin 4) :=
  Finset.univ.filter fun place => tiles (gridCell place) ≠ 0

/-- The places of the tiles are those that are not empty. -/
theorem mem_filled {place : Fin 4 × Fin 4} :
    place ∈ filled tiles ↔ tiles (gridCell place) ≠ 0 := by
  simp [filled]

/-- A row with a one. -/
def rowColour (tiles : Tiles) (r : Fin 4) : Bool := decide (∃ c, tiles (gridCell (r, c)) = 1)

/-- A column with a one. -/
def columnColour (tiles : Tiles) (c : Fin 4) : Bool := decide (∃ r, tiles (gridCell (r, c)) = 1)

/-- The number of tiles of a line. -/
def lineCard (tiles : Tiles) (side : Fin 4 × Fin 4 → Fin 4) (i : Fin 4) : Nat :=
  ((filled tiles).filter fun p => side p = i).card

/-- Two tiles of a line count for two. -/
theorem two_le_lineCard {side : Fin 4 × Fin 4 → Fin 4} {p q : Fin 4 × Fin 4}
    (hp : tiles (gridCell p) ≠ 0) (hq : tiles (gridCell q) ≠ 0) (hne : p ≠ q)
    (hside : side q = side p) : 2 ≤ lineCard tiles side (side p) := by
  refine Finset.one_lt_card.mpr ⟨p, ?_, q, ?_, hne⟩
  · exact Finset.mem_filter.mpr ⟨mem_filled.mpr hp, rfl⟩
  · exact Finset.mem_filter.mpr ⟨mem_filled.mpr hq, hside⟩

/-- Few tiles do not make three lines of two. -/
theorem lineCard_lt_two {side : Fin 4 × Fin 4 → Fin 4} (hcard : (filled tiles).card ≤ 5)
    (hfirst : 2 ≤ lineCard tiles side 0) (hlast : 2 ≤ lineCard tiles side 3) {i : Fin 4}
    (hi : i = 1 ∨ i = 2) : lineCard tiles side i < 2 := by
  have hsum : (filled tiles).card = ∑ i, lineCard tiles side i :=
    Finset.card_eq_sum_card_fiberwise fun p _ => Finset.mem_univ _
  rw [Fin.sum_univ_four] at hsum
  rcases hi with rfl | rfl
  · omega
  · omega

/-- A single line has one tile. -/
theorem single_unique {side : Fin 4 × Fin 4 → Fin 4} {i : Fin 4}
    (h : i ∈ Grid.single (filled tiles) side) {p q : Fin 4 × Fin 4}
    (hp : tiles (gridCell p) ≠ 0) (hq : tiles (gridCell q) ≠ 0) (hpi : side p = i)
    (hqi : side q = i) : p = q := by
  have hone := (Finset.mem_filter.mp h).2
  apply Finset.card_le_one.mp hone.le
  · exact Finset.mem_filter.mpr ⟨mem_filled.mpr hp, hpi⟩
  · exact Finset.mem_filter.mpr ⟨mem_filled.mpr hq, hqi⟩

/-- A tile of a single row and a single column colours both. -/
theorem colours_eq {p : Fin 4 × Fin 4} (hp : p ∈ filled tiles)
    (hr : p.1 ∈ Grid.single (filled tiles) Prod.fst)
    (hc : p.2 ∈ Grid.single (filled tiles) Prod.snd) :
    rowColour tiles p.1 = columnColour tiles p.2 := by
  rw [mem_filled] at hp
  have hrow : (∃ c, tiles (gridCell (p.1, c)) = 1) ↔ tiles (gridCell p) = 1 := by
    refine ⟨fun ⟨c, h⟩ => ?_, fun h => ⟨p.2, h⟩⟩
    rwa [single_unique hr hp (q := (p.1, c)) (by rw [h]; decide) rfl rfl]
  have hcolumn : (∃ r, tiles (gridCell (r, p.2)) = 1) ↔ tiles (gridCell p) = 1 := by
    refine ⟨fun ⟨r, h⟩ => ?_, fun h => ⟨p.1, h⟩⟩
    rwa [single_unique hc hp (q := (r, p.2)) (by rw [h]; decide) rfl rfl]
  simp only [rowColour, columnColour, hrow, hcolumn]

/-- A cell on a single row and a single column of one colour sees tiles of one kind. -/
theorem uniform_of_alike
    (h : (r, c) ∈ Grid.alike (filled tiles) (rowColour tiles) (columnColour tiles)) :
    tiles (gridCell (r, c)) = 0 ∧ Uniform tiles (gridCell (r, c)) := by
  obtain ⟨hsingle, hempty, hcolour⟩ := Finset.mem_filter.mp h
  obtain ⟨hr, hc⟩ := Finset.mem_product.mp hsingle
  refine ⟨by simpa [mem_filled] using hempty, ?_⟩
  cases hrow : rowColour tiles r with
  | true =>
      left
      obtain ⟨c₁, hone⟩ := of_decide_eq_true hrow
      obtain ⟨r₁, hone'⟩ := of_decide_eq_true (hcolour.symm.trans hrow)
      apply forall_seen (P := fun val => val ≤ 1) (Nat.zero_le 1)
      · intro c' hc'
        have heq := @single_unique _ _ _ hr (r, c') (r, c₁) hc' (by rw [hone]; decide) rfl rfl
        rw [heq, hone]
      · intro r' hr'
        have heq := @single_unique _ _ _ hc (r', c) (r₁, c) hr' (by rw [hone']; decide) rfl rfl
        rw [heq, hone']
  | false =>
      right
      apply forall_seen (P := fun val => val ≠ 1) Nat.zero_ne_one
      · exact fun c' _ hone => of_decide_eq_false hrow ⟨c', hone⟩
      · exact fun r' _ hone => of_decide_eq_false (hcolour.symm.trans hrow) ⟨r', hone⟩

/-- A board with few tiles, one in every row and every column. -/
theorem le_card_alike_filled (hrows : ∀ r, ∃ c, tiles (gridCell (r, c)) ≠ 0)
    (hcolumns : ∀ c, ∃ r, tiles (gridCell (r, c)) ≠ 0) (hcard : (filled tiles).card ≤ 5) :
    12 ≤ 2 * (filled tiles).card +
      (Grid.alike (filled tiles) (rowColour tiles) (columnColour tiles)).card := by
  apply Grid.le_card_alike _ _ hcard fun p hp hr hc => colours_eq hp hr hc
  · intro r
    obtain ⟨c, hc⟩ := hrows r
    exact ⟨(r, c), mem_filled.mpr hc, rfl⟩
  · intro c
    obtain ⟨r, hr⟩ := hcolumns c
    exact ⟨(r, c), mem_filled.mpr hr, rfl⟩

/-- No cell sees tiles of one kind only. -/
def Mixed (tiles : Tiles) : Prop :=
  ∀ pos, tiles pos = 0 → SeesRow tiles pos ∨ SeesColumn tiles pos → ¬ Uniform tiles pos

/-- The transposed board is mixed as well. -/
theorem Mixed.transpose (h : Mixed tiles) : Mixed (transpose tiles) := by
  intro pos hpos hsees
  obtain ⟨⟨r, c⟩, rfl⟩ := gridCell_bijective.surjective pos
  rw [transpose_gridCell] at hpos
  rw [seesRow_transpose, seesColumn_transpose] at hsees
  rw [uniform_transpose]
  exact h _ hpos hsees.symm

/-- It has as many tiles. -/
theorem card_filled_transpose (tiles : Tiles) :
    (filled (transpose tiles)).card = (filled tiles).card := by
  apply Finset.card_equiv (Equiv.prodComm (Fin 4) (Fin 4))
  rintro ⟨r, c⟩
  simp [mem_filled]

section Mixed

variable (hmixed : Mixed tiles)
include hmixed

/-- Where a row is empty, its cells are between tiles of both kinds. -/
theorem Mixed.row (hrow : ∀ c, tiles (gridCell (r, c)) = 0)
    (hcolumn : ∃ r', tiles (gridCell (r', c)) ≠ 0) :
    (∃ r₁ < r, tiles (gridCell (r₁, c)) ≠ 0) ∧ (∃ r₂ > r, tiles (gridCell (r₂, c)) ≠ 0) ∧
      (seen tiles (gridCell (r, c)) .up = 1 ↔ seen tiles (gridCell (r, c)) .down ≠ 1) := by
  have hsees := (seesColumn_iff (hrow c)).mpr hcolumn
  have hblind : ¬ SeesRow tiles (gridCell (r, c)) := by
    rw [seesRow_iff (hrow c)]
    exact fun ⟨c', hc'⟩ => hc' (hrow c')
  have hboth := hmixed _ (hrow c) (Or.inr hsees)
  simp only [Uniform, forall_direction] at hboth
  simp only [SeesRow, SeesColumn] at hblind hsees
  have hup : seen tiles (gridCell (r, c)) .up ≠ 0 := by omega
  have hdown : seen tiles (gridCell (r, c)) .down ≠ 0 := by omega
  refine ⟨?_, ?_, by omega⟩
  · rw [seen_up] at hup
    obtain ⟨j, hj, heq⟩ := ahead_mem hup
    exact ⟨⟨j, hj.trans r.isLt⟩, hj, fun hzero => hup (heq ▸ hzero)⟩
  · rw [seen_down] at hdown
    obtain ⟨j, hij, hj, heq⟩ := behind_mem hdown
    exact ⟨⟨j, hj⟩, hij, fun hzero => hdown (heq ▸ hzero)⟩

/-- Where a column is empty, its cells are between tiles of both kinds. -/
theorem Mixed.column (hcolumn : ∀ r, tiles (gridCell (r, c)) = 0)
    (hrow : ∃ c', tiles (gridCell (r, c')) ≠ 0) :
    (∃ c₁ < c, tiles (gridCell (r, c₁)) ≠ 0) ∧ (∃ c₂ > c, tiles (gridCell (r, c₂)) ≠ 0) ∧
      (seen tiles (gridCell (r, c)) .left = 1 ↔ seen tiles (gridCell (r, c)) .right ≠ 1) := by
  have hswapped := @Mixed.row _ c r hmixed.transpose
  simp only [transpose_gridCell, seen_transpose, Direction.swap] at hswapped
  exact hswapped hcolumn hrow

/-- In a mixed board the first and the last row have a tile. -/
theorem Mixed.outer_rows (htile : ∃ p, tiles (gridCell p) ≠ 0) (hr : r = 0 ∨ r = 3) :
    ∃ c, tiles (gridCell (r, c)) ≠ 0 := by
  by_contra hnone
  push Not at hnone
  obtain ⟨⟨r', c'⟩, hp⟩ := htile
  obtain ⟨⟨r₁, hr₁, -⟩, ⟨r₂, hr₂, -⟩, -⟩ := hmixed.row hnone ⟨r', hp⟩
  omega

/-- And so have the first and the last column. -/
theorem Mixed.outer_columns (htile : ∃ p, tiles (gridCell p) ≠ 0) (hc : c = 0 ∨ c = 3) :
    ∃ r, tiles (gridCell (r, c)) ≠ 0 := by
  have hswapped := @Mixed.outer_rows _ c hmixed.transpose
  simp only [Prod.exists, transpose_gridCell] at hswapped htile
  exact hswapped (exists_comm.mp htile) hc

/-- An empty row leaves two columns with tiles. -/
theorem Mixed.inner_columns (hcard : (filled tiles).card ≤ 5)
    (htile : ∃ p, tiles (gridCell p) ≠ 0) {r₀ : Fin 4} (hrow : ∀ c, tiles (gridCell (r₀, c)) = 0)
    (hc : c = 1 ∨ c = 2) : ∀ r, tiles (gridCell (r, c)) = 0 := by
  have htwo : ∀ c, (∃ r, tiles (gridCell (r, c)) ≠ 0) → 2 ≤ lineCard tiles Prod.snd c := by
    intro c hcolumn
    obtain ⟨⟨r₁, hr₁, h₁⟩, ⟨r₂, hr₂, h₂⟩, -⟩ := hmixed.row hrow hcolumn
    refine two_le_lineCard h₁ h₂ (fun heq => ?_) rfl
    have hsame : r₁ = r₂ := congrArg Prod.fst heq
    omega
  by_contra hfull
  push Not at hfull
  have hfirst := htwo 0 (hmixed.outer_columns htile (Or.inl rfl))
  have hlast := htwo 3 (hmixed.outer_columns htile (Or.inr rfl))
  exact absurd (htwo c hfull) (not_le.mpr (lineCard_lt_two hcard hfirst hlast hc))

/-- An empty column leaves two rows with tiles. -/
theorem Mixed.inner_rows (hcard : (filled tiles).card ≤ 5)
    (htile : ∃ p, tiles (gridCell p) ≠ 0) {c₀ : Fin 4}
    (hcolumn : ∀ r, tiles (gridCell (r, c₀)) = 0) (hr : r = 1 ∨ r = 2) :
    ∀ c, tiles (gridCell (r, c)) = 0 := by
  have hswapped := @Mixed.inner_columns _ r hmixed.transpose
  simp only [card_filled_transpose, Prod.exists, transpose_gridCell] at hswapped htile
  exact hswapped hcard (exists_comm.mp htile) hcolumn hr

/-- Some line is empty, so that the inner rows and columns are. -/
theorem Mixed.inner (hcard : (filled tiles).card ≤ 5) (htile : ∃ p, tiles (gridCell p) ≠ 0) :
    (∀ r c, r = 1 ∨ r = 2 → tiles (gridCell (r, c)) = 0) ∧
      ∀ r c, c = 1 ∨ c = 2 → tiles (gridCell (r, c)) = 0 := by
  have hempty : (∃ r, ∀ c, tiles (gridCell (r, c)) = 0) ∨
      ∃ c, ∀ r, tiles (gridCell (r, c)) = 0 := by
    by_contra hfull
    push Not at hfull
    have hmany := le_card_alike_filled hfull.1 hfull.2 hcard
    have hpos : 0 < (Grid.alike (filled tiles) (rowColour tiles) (columnColour tiles)).card := by
      omega
    obtain ⟨⟨r, c⟩, hp⟩ := Finset.card_pos.mp hpos
    obtain ⟨hzero, huniform⟩ := uniform_of_alike hp
    exact hmixed _ hzero (Or.inl ((seesRow_iff hzero).mpr (hfull.1 r))) huniform
  rcases hempty with ⟨r₀, hrow⟩ | ⟨c₀, hcolumn⟩
  · have hcolumns : ∀ r c, c = 1 ∨ c = 2 → tiles (gridCell (r, c)) = 0 :=
      fun r c hc => hmixed.inner_columns hcard htile hrow hc r
    exact ⟨fun r c hr => hmixed.inner_rows hcard htile (fun r => hcolumns r 1 (Or.inl rfl)) hr c,
      hcolumns⟩
  · have hrows : ∀ r c, r = 1 ∨ r = 2 → tiles (gridCell (r, c)) = 0 :=
      fun r c hr => hmixed.inner_rows hcard htile hcolumn hr c
    exact ⟨hrows, fun r c hc =>
      hmixed.inner_columns hcard htile (fun c => hrows 1 c (Or.inl rfl)) hc r⟩

/-- The tiles are in the corners, of both kinds in turns. -/
theorem Mixed.corners (hcard : (filled tiles).card ≤ 5) (htile : ∃ p, tiles (gridCell p) ≠ 0) :
    (∀ r, r = 0 ∨ r = 3 → tiles (gridCell (r, 0)) ≠ 0 ∧ tiles (gridCell (r, 3)) ≠ 0 ∧
      (tiles (gridCell (r, 0)) = 1 ↔ tiles (gridCell (r, 3)) ≠ 1)) ∧
      (tiles (gridCell (0, 0)) = 1 ↔ tiles (gridCell (3, 0)) ≠ 1) := by
  obtain ⟨hrows, hcolumns⟩ := hmixed.inner hcard htile
  constructor
  · intro r hr
    obtain ⟨⟨c₁, hc₁, h₁⟩, ⟨c₂, hc₂, h₂⟩, hkinds⟩ := hmixed.column
      (fun r => hcolumns r 1 (Or.inl rfl)) (hmixed.outer_rows htile hr)
    have hleft : seen tiles (gridCell (r, 1)) .left = tiles (gridCell (r, 0)) :=
      seen_left.trans ahead_one
    have hright : seen tiles (gridCell (r, 1)) .right = tiles (gridCell (r, 3)) :=
      seen_right.trans (behind_one (hcolumns r 2 (Or.inr rfl)))
    rw [hleft, hright] at hkinds
    have hfirst : c₁ = 0 := by omega
    have hlast : c₂ = 3 := by
      have hinner : c₂ ≠ 2 := fun heq => h₂ (heq ▸ hcolumns r 2 (Or.inr rfl))
      omega
    exact ⟨hfirst ▸ h₁, hlast ▸ h₂, hkinds⟩
  · obtain ⟨-, -, hkinds⟩ := hmixed.row (fun c => hrows 1 c (Or.inl rfl))
      (hmixed.outer_columns htile (Or.inl rfl))
    have hup : seen tiles (gridCell (1, 0)) .up = tiles (gridCell (0, 0)) :=
      seen_up.trans ahead_one
    have hdown : seen tiles (gridCell (1, 0)) .down = tiles (gridCell (3, 0)) :=
      seen_down.trans (behind_one (hrows 2 0 (Or.inr rfl)))
    rwa [hup, hdown] at hkinds

end Mixed

end CodeBlocks.Ai2048
