import CodeBlocks.Ai2048.Views
import CodeBlocks.Ai2048.Slide

/-!
# The candidates of the computer

`GetCandidateSet` keeps every placement with the best score in arrays of twenty.
The count of the best placements is a sum over the cells. Where some cell sees
tiles of one kind, only the tiles that add to the roughness are the best, and a
cell with an empty line has one at most. Otherwise the tiles are in the corners.
The function itself is also embedded with its writes, to the board and to the
arrays.
-/

namespace CodeBlocks.Ai2048

theorem arrayMax_spec {xs : List Int} (h : xs ≠ []) :
    arrayMax xs ∈ xs ∧ ∀ x ∈ xs, x ≤ arrayMax xs := by
  rw [← List.max?_eq_some_iff]
  obtain ⟨x, xs, rfl⟩ := List.exists_cons_of_ne_nil h
  have hmax : (fun maxVal val : Int => if maxVal < val then val else maxVal) = max := by
    ext maxVal val
    rw [max_def]
    split_ifs <;> omega
  rw [List.max?_cons', arrayMax, hmax]

theorem mem_getAllEmptyPos {tiles : Tiles} {pos : Fin 16} :
    pos ∈ getAllEmptyPos tiles ↔ tiles pos = 0 := by
  simp [getAllEmptyPos]

/-- The best score of `GetCandidateSet`. -/
def maxScore (tiles : Tiles) : Int :=
  max (arrayMax ((getAllEmptyPos tiles).map fun pos => candidateScore tiles pos 1))
    (arrayMax ((getAllEmptyPos tiles).map fun pos => candidateScore tiles pos 2))

/-- The cells where a tile has the best score. -/
def bestPositions (tiles : Tiles) (val : Nat) : List (Fin 16) :=
  (getAllEmptyPos tiles).filter fun pos => candidateScore tiles pos val = maxScore tiles

/-- The candidates are the best cells for a 2 and those for a 4. -/
theorem getCandidateSet_eq (tiles : Tiles) :
    getCandidateSet tiles = ((bestPositions tiles 1).map fun pos => (pos, 1)) ++
      (bestPositions tiles 2).map fun pos => (pos, 2) := by
  simp only [getCandidateSet, List.flatMap_cons, List.flatMap_nil, List.append_nil]
  rfl

/-- The best cells are the empty ones whose score is the largest. -/
theorem mem_bestPositions {tiles : Tiles} {val : Nat} {pos : Fin 16} :
    pos ∈ bestPositions tiles val ↔
      tiles pos = 0 ∧ candidateScore tiles pos val = maxScore tiles := by
  simp [bestPositions, mem_getAllEmptyPos]

theorem candidateScore_le_maxScore {tiles : Tiles} {pos : Fin 16} (hpos : tiles pos = 0) {val : Nat}
    (hval : val = 1 ∨ val = 2) : candidateScore tiles pos val ≤ maxScore tiles := by
  have hmem := mem_getAllEmptyPos.mpr hpos
  have hle : ∀ val, candidateScore tiles pos val ≤
      arrayMax ((getAllEmptyPos tiles).map fun pos => candidateScore tiles pos val) := by
    intro val
    have hscore := List.mem_map_of_mem (f := fun pos => candidateScore tiles pos val) hmem
    exact (arrayMax_spec (List.ne_nil_of_mem hscore)).2 _ hscore
  rcases hval with rfl | rfl
  · exact (hle 1).trans (le_max_left _ _)
  · exact (hle 2).trans (le_max_right _ _)

/-- The best score is one of the scores. -/
theorem getCandidateSet_ne_nil {tiles : Tiles} (hempty : ∃ pos, tiles pos = 0) :
    getCandidateSet tiles ≠ [] := by
  have hscore : ∀ val, ∃ pos, tiles pos = 0 ∧ candidateScore tiles pos val =
      arrayMax ((getAllEmptyPos tiles).map fun pos => candidateScore tiles pos val) := by
    intro val
    obtain ⟨pos, hpos⟩ := hempty
    have hmem := List.mem_map_of_mem (f := fun pos => candidateScore tiles pos val)
      (mem_getAllEmptyPos.mpr hpos)
    obtain ⟨pos, hpos, heq⟩ := List.mem_map.mp (arrayMax_spec (List.ne_nil_of_mem hmem)).1
    exact ⟨pos, mem_getAllEmptyPos.mp hpos, heq⟩
  rcases le_total (arrayMax ((getAllEmptyPos tiles).map fun pos => candidateScore tiles pos 1))
    (arrayMax ((getAllEmptyPos tiles).map fun pos => candidateScore tiles pos 2)) with hle | hle
  · obtain ⟨pos, hpos, heq⟩ := hscore 2
    have hbest := mem_bestPositions.mpr ⟨hpos, heq.trans (max_eq_right hle).symm⟩
    rw [getCandidateSet_eq]
    exact List.append_ne_nil_of_right_ne_nil _ (List.ne_nil_of_mem (List.mem_map_of_mem hbest))
  · obtain ⟨pos, hpos, heq⟩ := hscore 1
    have hbest := mem_bestPositions.mpr ⟨hpos, heq.trans (max_eq_left hle).symm⟩
    rw [getCandidateSet_eq]
    exact List.append_ne_nil_of_left_ne_nil (List.ne_nil_of_mem (List.mem_map_of_mem hbest)) _

/-- How many of the two tiles are best in a cell. -/
def hits (tiles : Tiles) (pos : Fin 16) : Nat :=
  if tiles pos = 0 then
    (if candidateScore tiles pos 1 = maxScore tiles then 1 else 0) +
      if candidateScore tiles pos 2 = maxScore tiles then 1 else 0
  else 0

theorem length_filter_finRange {n : Nat} (p : Fin n → Prop) [DecidablePred p] :
    ((List.finRange n).filter fun i => p i).length = ∑ i, if p i then 1 else 0 := by
  rw [← Finset.card_filter]
  rfl

/-- The candidates, counted cell by cell. -/
theorem length_getCandidateSet (tiles : Tiles) :
    (getCandidateSet tiles).length = ∑ place, hits tiles (gridCell place) := by
  have hsum : ∑ place, hits tiles (gridCell place) = ∑ pos, hits tiles pos :=
    gridCell_bijective.sum_comp _
  have hlength : ∀ val, (bestPositions tiles val).length =
      ∑ pos, if tiles pos = 0 ∧ candidateScore tiles pos val = maxScore tiles then 1 else 0 := by
    intro val
    rw [← length_filter_finRange, bestPositions, getAllEmptyPos, List.filter_filter]
    simp only [Bool.decide_and, Bool.and_comm]
  rw [getCandidateSet_eq, List.length_append, List.length_map, List.length_map, hlength, hlength,
    ← Finset.sum_add_distrib, hsum]
  refine Finset.sum_congr rfl fun pos _ => ?_
  rw [hits]
  split_ifs <;> simp_all

section Count

variable {tiles : Tiles} {place : Fin 4 × Fin 4}

theorem hits_of_tile (h : place ∈ filled tiles) : hits tiles (gridCell place) = 0 :=
  if_neg (mem_filled.mp h)

/-- There are two tiles to place. -/
theorem hits_le_two (tiles : Tiles) (pos : Fin 16) : hits tiles pos ≤ 2 := by
  rw [hits]
  split_ifs <;> decide

/-- One of the two tiles is not best. -/
theorem hits_le_one {pos : Fin 16} (h : candidateScore tiles pos 1 ≠ maxScore tiles ∨
    candidateScore tiles pos 2 ≠ maxScore tiles) : hits tiles pos ≤ 1 := by
  rw [hits]
  split_ifs with hpos hone htwo
  · exact h.elim (absurd hone) (absurd htwo)
  all_goals decide

theorem hits_eq_zero {pos : Fin 16} (hone : candidateScore tiles pos 1 ≠ maxScore tiles)
    (htwo : candidateScore tiles pos 2 ≠ maxScore tiles) : hits tiles pos = 0 := by
  rw [hits, if_neg hone, if_neg htwo, ite_self]

/-- The rows with a tile. -/
def rows (tiles : Tiles) : Finset (Fin 4) := (filled tiles).image Prod.fst

/-- The columns with a tile. -/
def columns (tiles : Tiles) : Finset (Fin 4) := (filled tiles).image Prod.snd

theorem mem_rows {r : Fin 4} : r ∈ rows tiles ↔ ∃ c, tiles (gridCell (r, c)) ≠ 0 := by
  simp [rows, mem_filled]

theorem mem_columns {c : Fin 4} : c ∈ columns tiles ↔ ∃ r, tiles (gridCell (r, c)) ≠ 0 := by
  simp [columns, mem_filled]

/-- Two tiles for every cell without one, but for cells where one is not best. -/
theorem sum_hits_add_le (N : Finset (Fin 4 × Fin 4))
    (hN : ∀ place ∈ N, tiles (gridCell place) = 0 ∧ hits tiles (gridCell place) ≤ 1) :
    ∑ place, hits tiles (gridCell place) + 2 * (filled tiles).card + N.card ≤ 32 := by
  rw [← Grid.sum_mark (filled tiles), ← Grid.sum_mark N, Finset.mul_sum, ← Finset.sum_add_distrib,
    ← Finset.sum_add_distrib]
  have hcell : ∀ place, hits tiles (gridCell place) + 2 * Grid.mark (filled tiles) place +
      Grid.mark N place ≤ 2 := by
    intro place
    by_cases hfilled : place ∈ filled tiles
    · have hnot : place ∉ N := fun h => mem_filled.mp hfilled (hN place h).1
      simp [Grid.mark, hfilled, hnot, hits_of_tile hfilled]
    · by_cases hmem : place ∈ N
      · simp [Grid.mark, hfilled, hmem, (hN place hmem).2]
      · simp [Grid.mark, hfilled, hmem, hits_le_two]
  exact (Finset.sum_le_sum fun place _ => hcell place).trans_eq rfl

/-- Where the best placement is worth more than a land, a cell with one empty line has one best tile
at most, and a cell with two of them has none. -/
theorem hits_add_le (hmax : boardScore tiles + 2 ≤ maxScore tiles) (place : Fin 4 × Fin 4) :
    hits tiles (gridCell place) + 2 * Grid.mark (filled tiles) place ≤
      Grid.mark (rows tiles) place.1 + Grid.mark (columns tiles) place.2 := by
  obtain ⟨r, c⟩ := place
  by_cases hfilled : (r, c) ∈ filled tiles
  · have hr : r ∈ rows tiles := mem_rows.mpr ⟨c, mem_filled.mp hfilled⟩
    have hc : c ∈ columns tiles := mem_columns.mpr ⟨r, mem_filled.mp hfilled⟩
    simp [Grid.mark, hfilled, hits_of_tile hfilled, hr, hc]
  have hpos : tiles (gridCell (r, c)) = 0 := by simpa [mem_filled] using hfilled
  have hrow : SeesRow tiles (gridCell (r, c)) ↔ r ∈ rows tiles :=
    (seesRow_iff hpos).trans mem_rows.symm
  have hcolumn : SeesColumn tiles (gridCell (r, c)) ↔ c ∈ columns tiles :=
    (seesColumn_iff hpos).trans mem_columns.symm
  have htwo := hits_le_two tiles (gridCell (r, c))
  simp only [Grid.mark, hfilled, if_false, mul_zero, add_zero]
  by_cases hboth : r ∈ rows tiles ∧ c ∈ columns tiles
  · simpa [hboth.1, hboth.2] using htwo
  have hline : ¬ SeesRow tiles (gridCell (r, c)) ∨ ¬ SeesColumn tiles (gridCell (r, c)) := by
    rw [hrow, hcolumn]
    exact not_and_or.mp hboth
  by_cases hmixed : Uniform tiles (gridCell (r, c)) ∧
      (SeesRow tiles (gridCell (r, c)) ∨ SeesColumn tiles (gridCell (r, c)))
  · have hne := (uniform_scores hpos hmixed.1 hmixed.2).1
    have hone := @hits_le_one tiles (gridCell (r, c)) (by omega)
    rw [hrow, hcolumn] at hmixed
    split_ifs <;> grind
  · have hle : ∀ val, val = 1 ∨ val = 2 →
        candidateScore tiles (gridCell (r, c)) val ≤ boardScore tiles + 1 :=
      fun val hval => candidateScore_le_of_mixed hpos hval hline hmixed
    have h1 := hle 1 (Or.inl rfl)
    have h2 := hle 2 (Or.inr rfl)
    rw [hits_eq_zero (by omega) (by omega)]
    exact Nat.zero_le _

/-- A cell on single lines of one kind has one best tile at most, with tiles in both lines too. -/
theorem hits_le_one_of_alike (hrows : ∀ r, r ∈ rows tiles) (place : Fin 4 × Fin 4)
    (h : place ∈ Grid.alike (filled tiles) (rowColour tiles) (columnColour tiles)) :
    tiles (gridCell place) = 0 ∧ hits tiles (gridCell place) ≤ 1 := by
  obtain ⟨hpos, huniform⟩ := uniform_of_alike h
  have hsees := (seesRow_iff hpos).mpr (mem_rows.mp (hrows place.1))
  have hne := (uniform_scores hpos huniform (Or.inl hsees)).1
  refine ⟨hpos, hits_le_one ?_⟩
  by_contra hboth
  push Not at hboth
  exact hne (hboth.1.trans hboth.2.symm)

theorem card_rows_le : (rows tiles).card ≤ (filled tiles).card ∧ (rows tiles).card ≤ 4 :=
  ⟨Finset.card_image_le, Finset.card_le_univ _⟩

theorem card_columns_le : (columns tiles).card ≤ (filled tiles).card ∧ (columns tiles).card ≤ 4 :=
  ⟨Finset.card_image_le, Finset.card_le_univ _⟩

/-- Where the best placement is worth more than a land. -/
theorem sum_hits_le_of_rough (hmax : boardScore tiles + 2 ≤ maxScore tiles)
    (hcard : (filled tiles).card ≤ 5) : ∑ place, hits tiles (gridCell place) ≤ 20 := by
  obtain ⟨hrows, hrows'⟩ := @card_rows_le tiles
  obtain ⟨hcolumns, hcolumns'⟩ := @card_columns_le tiles
  have hlines : ∑ place, hits tiles (gridCell place) + 2 * (filled tiles).card ≤
      4 * (rows tiles).card + 4 * (columns tiles).card := by
    rw [← Grid.sum_mark (filled tiles), Finset.mul_sum, ← Finset.sum_add_distrib,
      ← Grid.sum_mark_lines]
    exact Finset.sum_le_sum fun place _ => hits_add_le hmax place
  by_cases hfull : (rows tiles).card = 4 ∧ (columns tiles).card = 4
  swap
  · omega
  -- every line has a tile, and there are cells on single lines of one kind
  have hevery : ∀ r, r ∈ rows tiles := Finset.eq_univ_iff_forall.mp
    (Finset.eq_univ_of_card _ hfull.1)
  have hevery' : ∀ c, c ∈ columns tiles := Finset.eq_univ_iff_forall.mp
    (Finset.eq_univ_of_card _ hfull.2)
  have halike := le_card_alike_filled (fun r => mem_rows.mp (hevery r))
    (fun c => mem_columns.mp (hevery' c)) hcard
  have hcells := sum_hits_add_le _ (hits_le_one_of_alike hevery)
  omega

/-- Where no placement is worth more than a land, no cell sees tiles of one kind only. -/
theorem mixed_of_maxScore (hmax : ¬ boardScore tiles + 2 ≤ maxScore tiles) : Mixed tiles := by
  intro pos hpos hsees huniform
  have hone := @candidateScore_le_maxScore tiles pos hpos 1 (Or.inl rfl)
  have htwo := @candidateScore_le_maxScore tiles pos hpos 2 (Or.inr rfl)
  rcases (uniform_scores hpos huniform hsees).2 with h | h
  · omega
  · omega

section Corners

variable (hrows : ∀ r c, r = 1 ∨ r = 2 → tiles (gridCell (r, c)) = 0)
  (hcolumns : ∀ r c, c = 1 ∨ c = 2 → tiles (gridCell (r, c)) = 0)
include hrows hcolumns

/-- With empty inner lines, the middle of the board sees no tile and gets a land. -/
theorem lt_maxScore_of_inner : boardScore tiles < maxScore tiles := by
  have hpos : tiles (gridCell (1, 1)) = 0 := hrows 1 1 (Or.inl rfl)
  have hunseen : ∀ dir, seen tiles (gridCell (1, 1)) dir = 0 :=
    forall_seen (P := fun val => val = 0) rfl (fun c h => absurd (hrows 1 c (Or.inl rfl)) h)
      fun r h => absurd (hcolumns r 1 (Or.inl rfl)) h
  have hblind : ¬ SeesRow tiles (gridCell (1, 1)) ∧ ¬ SeesColumn tiles (gridCell (1, 1)) := by
    simp [SeesRow, SeesColumn, hunseen]
  have hscore := candidateScore_of_unseen hpos one_ne_zero fun dir => by rw [hunseen dir]; decide
  rw [roughBy_of_mixed (Or.inl rfl) (Or.inl hblind.1)
    fun h => h.2.elim hblind.1 hblind.2] at hscore
  have hmax := @candidateScore_le_maxScore tiles _ hpos 1 (Or.inl rfl)
  omega

/-- Next to a one in a corner, another one joins its land. -/
theorem hits_le_one_of_corner (hmixed : Mixed tiles) {q : Fin 16} (place : Fin 4 × Fin 4)
    (hplace : (place.1 = 1 ∨ place.1 = 2) ∨ place.2 = 1 ∨ place.2 = 2)
    (hq : some q ∈ neighbours (gridCell place)) (hone : tiles q = 1) :
    tiles (gridCell place) = 0 ∧ hits tiles (gridCell place) ≤ 1 := by
  obtain ⟨r, c⟩ := place
  have hempty : (∀ c, tiles (gridCell (r, c)) = 0) ∨ ∀ r, tiles (gridCell (r, c)) = 0 :=
    hplace.imp (fun h c => hrows r c h) fun h r => hcolumns r c h
  have hpos : tiles (gridCell (r, c)) = 0 := hempty.elim (fun h => h c) fun h => h r
  have hline : ¬ SeesRow tiles (gridCell (r, c)) ∨ ¬ SeesColumn tiles (gridCell (r, c)) := by
    rw [seesRow_iff hpos, seesColumn_iff hpos]
    exact hempty.imp (fun h ⟨c', hc'⟩ => hc' (h c')) fun h ⟨r', hr'⟩ => hr' (h r')
  have hscore := candidateScore_le_of_touches hpos one_ne_zero hq hone
  rw [roughBy_of_mixed (Or.inl rfl) hline fun h => hmixed _ hpos h.2 h.1] at hscore
  have hmax := lt_maxScore_of_inner hrows hcolumns
  refine ⟨hpos, hits_le_one (Or.inl ?_)⟩
  omega

/-- Two opposite corners have ones, and four cells next to them. -/
theorem hits_le_one_beside (hmixed : Mixed tiles) {q q' : Fin 16} (hq : tiles q = 1)
    (hq' : tiles q' = 1) {N : Finset (Fin 4 × Fin 4)}
    (hN : ∀ place ∈ N, ((place.1 = 1 ∨ place.1 = 2) ∨ place.2 = 1 ∨ place.2 = 2) ∧
      (some q ∈ neighbours (gridCell place) ∨ some q' ∈ neighbours (gridCell place))) :
    ∀ place ∈ N, tiles (gridCell place) = 0 ∧ hits tiles (gridCell place) ≤ 1 := by
  intro place hmem
  obtain ⟨hplace, h | h⟩ := hN place hmem
  · exact hits_le_one_of_corner hrows hcolumns hmixed place hplace h hq
  · exact hits_le_one_of_corner hrows hcolumns hmixed place hplace h hq'

end Corners

/-- Where the tiles are in the corners, four cells next to the ones have one best tile at most. -/
theorem sum_hits_le_of_mixed (hmixed : Mixed tiles) (hcard : (filled tiles).card ≤ 5)
    (htile : ∃ place, tiles (gridCell place) ≠ 0) :
    ∑ place, hits tiles (gridCell place) ≤ 20 := by
  obtain ⟨hrows, hcolumns⟩ := hmixed.inner hcard htile
  obtain ⟨hcorners, hkinds⟩ := hmixed.corners hcard htile
  obtain ⟨h00, h03, hkinds0⟩ := hcorners 0 (Or.inl rfl)
  obtain ⟨h30, h33, hkinds3⟩ := hcorners 3 (Or.inr rfl)
  have hfour : 4 ≤ (filled tiles).card := by
    have hsub : {(0, 0), (0, 3), (3, 0), (3, 3)} ⊆ filled tiles := by
      simp [Finset.insert_subset_iff, mem_filled, h00, h03, h30, h33]
    exact Finset.card_le_card hsub
  have hbeside : ∃ N : Finset (Fin 4 × Fin 4), N.card = 4 ∧
      ∀ place ∈ N, tiles (gridCell place) = 0 ∧ hits tiles (gridCell place) ≤ 1 := by
    by_cases hone : tiles (gridCell (0, 0)) = 1
    · have hother : tiles (gridCell (3, 3)) = 1 := by
        by_contra h
        exact hkinds.mp hone (hkinds3.mpr h)
      refine ⟨{(0, 1), (1, 0), (2, 3), (3, 2)}, rfl, ?_⟩
      exact hits_le_one_beside hrows hcolumns hmixed hone hother (by decide)
    · have hright : tiles (gridCell (0, 3)) = 1 := by
        by_contra h
        exact hone (hkinds0.mpr h)
      have hdown : tiles (gridCell (3, 0)) = 1 := by
        by_contra h
        exact hone (hkinds.mpr h)
      refine ⟨{(0, 2), (1, 3), (2, 0), (3, 1)}, rfl, ?_⟩
      exact hits_le_one_beside hrows hcolumns hmixed hright hdown (by decide)
  obtain ⟨N, hN, hhits⟩ := hbeside
  have hcells := sum_hits_add_le N hhits
  omega

/-- On a board with a tile, the candidates fit in their arrays. -/
theorem length_getCandidateSet_le (htile : ∃ pos, tiles pos ≠ 0) :
    (getCandidateSet tiles).length ≤ 20 := by
  rw [length_getCandidateSet]
  by_cases hcard : (filled tiles).card ≤ 5
  swap
  · have hcells := @sum_hits_add_le tiles ∅ fun place h => absurd h (Finset.notMem_empty place)
    omega
  by_cases hmax : boardScore tiles + 2 ≤ maxScore tiles
  · exact sum_hits_le_of_rough hmax hcard
  · obtain ⟨pos, hpos⟩ := htile
    obtain ⟨place, rfl⟩ := gridCell_bijective.surjective pos
    exact sum_hits_le_of_mixed (mixed_of_maxScore hmax) hcard ⟨place, hpos⟩

end Count

section Writes

/-- A write to the next place of an array of twenty, none past its end. -/
def store {α : Type} (array : List α) (val : α) : Option (List α) :=
  if array.length < 20 then some (array ++ [val]) else none

/-- `ArrayMax` with its assertion. -/
def assertedMax (array : List Int) : Option Int :=
  if array.length > 0 then some (arrayMax array) else none

/-- The loop of `GetAllEmptyPos`, into the array of the caller. -/
def storeEmptyPos (tiles : Tiles) : Option (List (Fin 16)) :=
  (List.finRange 16).foldlM (fun set pos => if tiles pos = 0 then store set pos else some set) []

/-- One turn of the scores: the tile is written, the board is scored, and the cell is emptied. -/
def scoreTurn (val : Nat) (st : Tiles × List Int) (pos : Fin 16) : Option (Tiles × List Int) :=
  let tiles := Function.update st.1 pos val
  (store st.2 (-evalSmoothnessValue tiles + getLandNum tiles)).map fun scores =>
    (Function.update tiles pos 0, scores)

/-- One turn of the selection. The arrays of the positions and of the values have one size. -/
def selectTurn (maxScore : Int) (val : Nat) (set : List (Fin 16 × Nat)) (entry : Fin 16 × Int) :
    Option (List (Fin 16 × Nat)) :=
  if entry.2 = maxScore then store set (entry.1, val) else some set

/-- `GetCandidateSet` with its writes: the candidates, and the board afterwards. None where an
array is overrun, or the assertion of `ArrayMax` fails. -/
def writeCandidateSet (tiles : Tiles) : Option (List (Fin 16 × Nat) × Tiles) := do
  let emptyPos ← storeEmptyPos tiles
  let ones ← emptyPos.foldlM (scoreTurn 1) (tiles, [])
  let twos ← emptyPos.foldlM (scoreTurn 2) (ones.1, [])
  let maxOne ← assertedMax ones.2
  let maxTwo ← assertedMax twos.2
  let set ← (emptyPos.zip ones.2).foldlM (selectTurn (max maxOne maxTwo) 1) []
  let set ← (emptyPos.zip twos.2).foldlM (selectTurn (max maxOne maxTwo) 2) set
  pure (set, twos.1)

/-- What a loop of writes leaves, as long as the array has the room. -/
theorem foldlM_store {α β : Type} (p : α → Prop) [DecidablePred p] (f : α → β) (xs : List α)
    {array : List β} (h : array.length + (xs.filter fun x => p x).length ≤ 20) :
    xs.foldlM (fun array x => if p x then store array (f x) else some array) array =
      some (array ++ (xs.filter fun x => p x).map f) := by
  induction xs generalizing array with
  | nil => simp
  | cons x xs ih =>
      by_cases hx : p x
      · simp only [List.filter_cons, hx, decide_true, if_true, List.length_cons] at h
        have hstore : store array (f x) = some (array ++ [f x]) := if_pos (by omega)
        have hroom : (array ++ [f x]).length + (xs.filter fun x => p x).length ≤ 20 := by
          rw [List.length_append, List.length_singleton]
          omega
        simp only [List.foldlM_cons, hx, if_true, hstore, Option.bind_eq_bind, Option.bind_some,
          List.filter_cons, decide_true, List.map_cons]
        rw [ih hroom, List.append_assoc, List.singleton_append]
      · simp only [List.filter_cons, hx, decide_false, Bool.false_eq_true, if_false] at h
        simp only [List.foldlM_cons, hx, if_false, Option.bind_eq_bind, Option.bind_some,
          List.filter_cons, decide_false, Bool.false_eq_true]
        exact ih h

variable {tiles : Tiles}

theorem length_getAllEmptyPos_le (tiles : Tiles) : (getAllEmptyPos tiles).length ≤ 16 :=
  List.length_filter_le _ _

theorem storeEmptyPos_eq (tiles : Tiles) : storeEmptyPos tiles = some (getAllEmptyPos tiles) := by
  have hroom : (getAllEmptyPos tiles).length ≤ 20 :=
    (length_getAllEmptyPos_le tiles).trans (by decide)
  have hstore := @foldlM_store _ _ (fun pos => tiles pos = 0) _ id (List.finRange 16) []
    ((Nat.zero_add _).trans_le hroom)
  rw [List.map_id, List.nil_append] at hstore
  exact hstore

/-- The scores are those of the board with the tile, and every turn leaves the board as it was. -/
theorem foldlM_scoreTurn (val : Nat) {positions : List (Fin 16)}
    (hempty : ∀ pos ∈ positions, tiles pos = 0) {scores : List Int}
    (hroom : scores.length + positions.length ≤ 20) :
    positions.foldlM (scoreTurn val) (tiles, scores) =
      some (tiles, scores ++ positions.map fun pos => candidateScore tiles pos val) := by
  induction positions generalizing scores with
  | nil => simp
  | cons pos positions ih =>
      rw [List.forall_mem_cons] at hempty
      rw [List.length_cons] at hroom
      have hback : Function.update (Function.update tiles pos val) pos 0 = tiles := by
        rw [Function.update_idem, ← hempty.1, Function.update_eq_self]
      have hturn : scoreTurn val (tiles, scores) pos =
          some (tiles, scores ++ [candidateScore tiles pos val]) := by
        have hstore : store scores (candidateScore tiles pos val) =
            some (scores ++ [candidateScore tiles pos val]) := if_pos (by omega)
        rw [candidateScore] at hstore
        simp only [scoreTurn, hstore, Option.map_some, hback, candidateScore]
      have hlength : (scores ++ [candidateScore tiles pos val]).length + positions.length ≤ 20 := by
        rw [List.length_append, List.length_singleton]
        omega
      rw [List.foldlM_cons, hturn, Option.bind_eq_bind, Option.bind_some, ih hempty.2 hlength,
        List.append_assoc, List.singleton_append, List.map_cons]

/-- The selection from the positions and their scores. -/
theorem foldlM_selectTurn (best : Int) (val : Nat) (positions : List (Fin 16))
    (score : Fin 16 → Int) {set : List (Fin 16 × Nat)}
    (hroom : set.length + (positions.filter fun pos => score pos = best).length ≤ 20) :
    (positions.zip (positions.map score)).foldlM (selectTurn best val) set =
      some (set ++ (positions.filter fun pos => score pos = best).map fun pos => (pos, val)) := by
  rw [← List.map_prod_left_eq_zip, List.foldlM_map]
  exact foldlM_store (fun pos => score pos = best) (fun pos => (pos, val)) positions hroom

theorem assertedMax_eq {array : List Int} (h : array ≠ []) :
    assertedMax array = some (arrayMax array) :=
  if_pos (List.length_pos_of_ne_nil h)

/-- With an empty cell, and room for the candidates, `GetCandidateSet` completes and leaves the
board as it was. -/
theorem writeCandidateSet_eq (hempty : ∃ pos, tiles pos = 0)
    (hlength : (getCandidateSet tiles).length ≤ 20) :
    writeCandidateSet tiles = some (getCandidateSet tiles, tiles) := by
  obtain ⟨pos, hpos⟩ := hempty
  have hne : getAllEmptyPos tiles ≠ [] := List.ne_nil_of_mem (mem_getAllEmptyPos.mpr hpos)
  have hscores : ∀ val, (getAllEmptyPos tiles).foldlM (scoreTurn val) (tiles, []) =
      some (tiles, (getAllEmptyPos tiles).map fun pos => candidateScore tiles pos val) := by
    intro val
    apply foldlM_scoreTurn val fun pos h => mem_getAllEmptyPos.mp h
    rw [List.length_nil, Nat.zero_add]
    exact (length_getAllEmptyPos_le tiles).trans (by decide)
  have hmax : ∀ val, assertedMax ((getAllEmptyPos tiles).map fun pos =>
      candidateScore tiles pos val) = some (arrayMax ((getAllEmptyPos tiles).map fun pos =>
        candidateScore tiles pos val)) :=
    fun val => assertedMax_eq (List.map_eq_nil_iff.not.mpr hne)
  rw [getCandidateSet_eq, List.length_append, List.length_map, List.length_map] at hlength
  have hselect : ∀ (val : Nat) {set : List (Fin 16 × Nat)},
      set.length + (bestPositions tiles val).length ≤ 20 →
        ((getAllEmptyPos tiles).zip ((getAllEmptyPos tiles).map fun pos =>
          candidateScore tiles pos val)).foldlM (selectTurn (maxScore tiles) val) set =
            some (set ++ (bestPositions tiles val).map fun pos => (pos, val)) :=
    fun val _ hroom => foldlM_selectTurn (maxScore tiles) val _ _ hroom
  have hones := @hselect 1 [] (by rw [List.length_nil]; omega)
  have htwos := @hselect 2 ([] ++ (bestPositions tiles 1).map fun pos => (pos, 1))
    (by rw [List.nil_append, List.length_map]; exact hlength)
  simp only [writeCandidateSet, storeEmptyPos_eq, hscores, hmax, Option.bind_eq_bind,
    Option.bind_some]
  rw [← maxScore, hones, Option.bind_some, htwos, getCandidateSet_eq]
  rfl

end Writes

/-- A node of the computer follows a move, which has a tile to move and empties a cell. -/
theorem tryMove_node {tiles : Tiles} {dir : Direction} (h : (tryMove tiles dir).1 = true) :
    (∃ q, (tryMove tiles dir).2 q ≠ 0) ∧ ∃ q, (tryMove tiles dir).2 q = 0 := by
  constructor
  · obtain ⟨pos, hacts⟩ := legal_iff.mp h
    exact tryMove_exists_tile ⟨pos, Nat.ne_of_gt hacts.1⟩ dir
  · rcases tryMove_progress tiles dir with ⟨hmove, -⟩ | ⟨-, -, hempty⟩
    · rw [hmove] at h
      cases h
    · exact hempty

/-- On every board with a tile and an empty cell, such as a node of the computer in the search,
`GetCandidateSet` selects between one and twenty placements. It overruns none of its arrays, no
assertion fails, and the board is the same afterwards. -/
theorem getCandidateSet_fits :
    (∀ tiles : Tiles, (∃ q, tiles q ≠ 0) → (∃ q, tiles q = 0) →
      1 ≤ (getCandidateSet tiles).length ∧ (getCandidateSet tiles).length ≤ 20 ∧
        writeCandidateSet tiles = some (getCandidateSet tiles, tiles)) ∧
      ∀ (tiles : Tiles) (dir : Direction), (tryMove tiles dir).1 = true →
        (∃ q, (tryMove tiles dir).2 q ≠ 0) ∧ ∃ q, (tryMove tiles dir).2 q = 0 := by
  refine ⟨fun tiles htile hempty => ?_, fun tiles dir h => tryMove_node h⟩
  have hlength := length_getCandidateSet_le htile
  have hpos := List.length_pos_of_ne_nil (getCandidateSet_ne_nil hempty)
  exact ⟨hpos, hlength, writeCandidateSet_eq hempty hlength⟩

/-- Ones in two opposite corners and threes in the others. -/
def cornerTiles : Tiles := fun pos => [1, 0, 0, 3, 0, 0, 0, 0, 0, 0, 0, 0, 3, 0, 0, 1].getD pos 0

/-- This board has the most candidates that there can be. -/
theorem getCandidateSet_fits_corners :
    writeCandidateSet cornerTiles = some (getCandidateSet cornerTiles, cornerTiles) ∧
      (getCandidateSet cornerTiles).length = 20 :=
  ⟨(getCandidateSet_fits.1 cornerTiles ⟨0, by decide⟩ ⟨1, by decide⟩).2.2, by decide +kernel⟩

end CodeBlocks.Ai2048
