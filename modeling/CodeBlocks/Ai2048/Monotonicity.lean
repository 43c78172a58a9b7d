import CodeBlocks.Ai2048.Smoothness

/-!
# The monotonicity by lines

`WORK` goes over a line from cell to cell: the first one, the tiles between, and
the last one, empty or not. It takes off one value what the line falls by on the
way, and off the other what it rises by, which is what it falls by backwards.
-/

namespace CodeBlocks.Ai2048

/-- What a list of values falls by, step by step. -/
def falls : List Int → Int
  | a :: b :: rest => max (a - b) 0 + falls (b :: rest)
  | _ => 0

@[simp] theorem falls_singleton (a : Int) : falls [a] = 0 := rfl

/-- A step adds what it falls by. -/
theorem falls_cons_cons (a b : Int) (rest : List Int) :
    falls (a :: b :: rest) = max (a - b) 0 + falls (b :: rest) := rfl

/-- Also at the end of the list. -/
theorem falls_append (front : List Int) (a b : Int) :
    falls (front ++ [a, b]) = falls (front ++ [a]) + max (a - b) 0 := by
  induction front with
  | nil => simp [falls]
  | cons c front ih =>
      cases front with
      | nil => simp [falls]
      | cons d front =>
          simp only [List.cons_append, falls_cons_cons] at ih ⊢
          rw [ih, add_assoc]

/-- Backwards, a step up is a step down. -/
theorem falls_reverse_cons_cons (a b : Int) (rest : List Int) :
    falls (a :: b :: rest).reverse = falls (b :: rest).reverse + max (b - a) 0 := by
  have hback : (a :: b :: rest).reverse = rest.reverse ++ [b, a] := by simp
  rw [hback, falls_append, List.reverse_cons]

/-- The tiles of a line from a place on, and its last cell, that many places further. -/
def stopsFrom (line : Nat → Int) : Nat → Nat → List Int
  | 0, i => [line i]
  | more + 1, i =>
    if line i = 0 then stopsFrom line more (i + 1) else line i :: stopsFrom line more (i + 1)

/-- The cells of a line of four that `WORK` compares. -/
def stops (line : Nat → Int) : List Int := line 0 :: stopsFrom line 2 1

/-- `WORK` compares the first cell, the tiles in the middle and the last cell. -/
theorem stops_eq (line : Nat → Int) :
    stops line = line 0 :: ([line 1, line 2].filter (· ≠ 0) ++ [line 3]) := by
  by_cases h1 : line 1 = 0 <;> by_cases h2 : line 2 = 0 <;> simp [stops, stopsFrom, h1, h2]

/-- What it compares depends on the four cells of the line. -/
theorem stops_congr {line line' : Nat → Int} (h : ∀ j < 4, line j = line' j) :
    stops line = stops line' := by
  simp only [stops_eq, h _ (by omega : 0 < 4), h _ (by omega : 1 < 4), h _ (by omega : 2 < 4),
    h _ (by omega : 3 < 4)]

/-- From the other end it compares the same cells backwards. -/
theorem stops_reverse (line : Nat → Int) :
    stops (fun j => line (3 - j)) = (stops line).reverse := by
  rw [stops_eq, stops_eq, List.reverse_cons, List.reverse_append, ← List.filter_reverse]
  rfl

variable {tiles : Tiles} {start add : Nat}

/-- The cells of a line, from its first position and with the step between two. -/
def tilesFrom (tiles : Tiles) (start add : Nat) : Nat → Int :=
  fun j => tileAt tiles (start + j * add)

/-- Skipping empty cells only goes forward. -/
theorem le_skipEmpty (last fuel next : Nat) : next ≤ skipEmpty tiles last add fuel next := by
  induction fuel generalizing next with
  | zero => exact le_rfl
  | succ fuel ih =>
      rw [skipEmpty]
      split
      · exact (Nat.le_add_right next add).trans (ih _)
      · exact le_rfl

/-- The inner loop of `WORK` stops at a tile, or is pulled back to the last cell. -/
theorem skipEmpty_spec {more i fuel : Nat} (hi : i + more = 3) (hfuel : more < fuel) :
    ∃ d ≤ more,
      min (start + 3 * add) (skipEmpty tiles (start + 3 * add) add fuel (start + i * add)) =
        start + (i + d) * add ∧
      stopsFrom (tilesFrom tiles start add) more i = tilesFrom tiles start add (i + d) ::
        if d = more then []
        else stopsFrom (tilesFrom tiles start add) (more - d - 1) (i + d + 1) := by
  obtain ⟨fuel, rfl⟩ : ∃ less, fuel = less + 1 := ⟨fuel - 1, by omega⟩
  have hplace : start + i * add + add = start + (i + 1) * add := by ring
  induction more generalizing i fuel with
  | zero =>
      obtain rfl : i = 3 := hi
      refine ⟨0, le_rfl, ?_, rfl⟩
      exact min_eq_left (le_skipEmpty _ _ _)
  | succ more ih =>
      have hle : start + i * add ≤ start + 3 * add :=
        Nat.add_le_add_left (Nat.mul_le_mul_right add (by omega)) start
      rw [skipEmpty, stopsFrom]
      by_cases hempty : tilesFrom tiles start add i = 0
      · obtain ⟨fuel, rfl⟩ : ∃ less, fuel = less + 1 := ⟨fuel - 1, by omega⟩
        obtain ⟨d, hd, hstop, hrest⟩ := @ih (i + 1) (by omega) fuel (by omega) (by ring)
        refine ⟨d + 1, Nat.succ_le_succ hd, ?_, ?_⟩
        · rw [if_pos ⟨hle, hempty⟩, hplace, hstop]
          congr 2
          omega
        · rw [if_pos hempty, hrest]
          have hsucc : i + 1 + d = i + (d + 1) := by omega
          have hless : more + 1 - (d + 1) = more - d := by omega
          simp only [hsucc, hless, Nat.add_right_cancel_iff]
      · refine ⟨0, Nat.zero_le _, ?_, ?_⟩
        · rw [if_neg fun h => hempty h.2]
          exact min_eq_right hle
        · rw [if_neg hempty]
          rfl

/-- Behind the last cell the loop does nothing more. -/
theorem workLine_end {last next : Nat} (h : last < next) (fuel curr : Nat) (vals : Int × Int) :
    workLine tiles last add fuel curr next vals = vals := by
  cases fuel with
  | zero => rfl
  | succ fuel => rw [workLine, if_neg (Nat.not_le_of_lt h)]

/-- What a comparison of two cells takes off. -/
theorem compare_eq (val1 val2 x y : Int) :
    (if x > y then (val1 + (y - x), val2) else (val1, val2 + (x - y))) =
      (val1 - max (x - y) 0, val2 - max (y - x) 0) := by
  split
  · rw [max_eq_left (by omega), max_eq_right (by omega), sub_zero]
    congr 1
    ring
  · rw [max_eq_right (by omega), max_eq_left (by omega), sub_zero]
    congr 1
    ring

/-- A line takes off the one value what it falls by, and off the other what it rises by. -/
theorem workLine_spec (hadd : 0 < add) {more i fuel : Nat} (hi : i + more = 2)
    (hfuel : more < fuel) (vals : Int × Int) :
    workLine tiles (start + 3 * add) add fuel (start + i * add) (start + (i + 1) * add) vals =
      (vals.1 - falls (tilesFrom tiles start add i ::
          stopsFrom (tilesFrom tiles start add) more (i + 1)),
        vals.2 - falls (tilesFrom tiles start add i ::
          stopsFrom (tilesFrom tiles start add) more (i + 1)).reverse) := by
  induction fuel generalizing more i vals with
  | zero => exact absurd hfuel (Nat.not_lt_zero more)
  | succ fuel ih =>
      obtain ⟨val1, val2⟩ := vals
      obtain ⟨d, hd, hstop, hrest⟩ := @skipEmpty_spec tiles start add more (i + 1) 4 (by omega)
        (by omega)
      have hle : start + (i + 1) * add ≤ start + 3 * add :=
        Nat.add_le_add_left (Nat.mul_le_mul_right add (by omega)) start
      have hclamp : (if skipEmpty tiles (start + 3 * add) add 4 (start + (i + 1) * add) >
          start + 3 * add then start + 3 * add
          else skipEmpty tiles (start + 3 * add) add 4 (start + (i + 1) * add)) =
            start + (i + 1 + d) * add := by
        rw [← hstop]
        split <;> omega
      have hnext : start + (i + 1 + d) * add + add = start + (i + 1 + d + 1) * add := by ring
      rw [workLine, if_pos hle, hrest, falls_cons_cons, falls_reverse_cons_cons]
      simp only [hclamp, hnext, compare_eq]
      by_cases hlast : d = more
      · -- the last cell of the line
        have hover : start + 3 * add < start + (i + 1 + d + 1) * add :=
          Nat.add_lt_add_left (Nat.mul_lt_mul_of_pos_right (by omega) hadd) start
        rw [workLine_end hover, if_pos hlast]
        simp [tilesFrom]
      · rw [if_neg hlast, @ih (more - d - 1) (i + 1 + d) (by omega) (by omega)]
        simp only [tilesFrom]
        congr 1 <;> ring

/-- `WORK` on four lines. -/
theorem work_eq (hadd : 0 < add) (starts : List Nat) :
    work tiles (starts.map fun start => (start, start + 3 * add)) add =
      (-(starts.map fun start => falls (stops (tilesFrom tiles start add))).sum,
        -(starts.map fun start => falls (stops (tilesFrom tiles start add)).reverse).sum) := by
  have hfold : ∀ (starts : List Nat) (vals : Int × Int),
      (starts.map fun start => (start, start + 3 * add)).foldl
          (fun vals id => workLine tiles id.2 add 4 id.1 (id.1 + add) vals) vals =
        (vals.1 - (starts.map fun start => falls (stops (tilesFrom tiles start add))).sum,
          vals.2 - (starts.map fun start =>
            falls (stops (tilesFrom tiles start add)).reverse).sum) := by
    intro starts
    induction starts with
    | nil => simp
    | cons start starts ih =>
        intro vals
        have hline := @workLine_spec tiles start add hadd 2 0 4 rfl (by omega) vals
        simp only [zero_mul, add_zero, zero_add, one_mul] at hline
        rw [List.map_cons, List.foldl_cons, hline, ih]
        simp only [List.map_cons, List.sum_cons, stops]
        congr 1 <;> ring
  rw [work, hfold, zero_sub, zero_sub]

/-- What the lines of a board fall by, read from an edge. -/
def lineFalls (tiles : Tiles) (dir : Direction) : Int :=
  ∑ k : Fin 4, falls (stops fun j => lineAt tiles dir k j)

/-- The lines read from the opposite edge. -/
theorem lineFalls_opposite (tiles : Tiles) (dir : Direction) : lineFalls tiles dir.opposite =
    ∑ k : Fin 4, falls (stops fun j => lineAt tiles dir k j).reverse := by
  refine Finset.sum_congr rfl fun k _ => congrArg falls ?_
  rw [← stops_reverse]
  refine stops_congr fun j hj => ?_
  rw [lineAt, lineCell_opposite dir hj]
  rfl

/-- The cells that `WORK` runs through in a row. -/
theorem tilesFrom_row (k : Nat) :
    tilesFrom tiles (4 * k) 1 = fun j => (lineAt tiles .left k j : Int) := by
  ext j
  rw [tilesFrom, mul_one]
  rfl

/-- The cells that `WORK` runs through in a column. -/
theorem tilesFrom_column (k : Nat) :
    tilesFrom tiles k 4 = fun j => (lineAt tiles .up k j : Int) := by
  ext j
  rw [tilesFrom, add_comm, mul_comm]
  rfl

/-- `EvalMonotonicityValue`, with every line read from both ends. -/
theorem evalMonotonicityValue_eq (tiles : Tiles) : evalMonotonicityValue tiles =
    max (-lineFalls tiles .left) (-lineFalls tiles .right) +
      max (-lineFalls tiles .up) (-lineFalls tiles .down) := by
  have hrows : work tiles [(0, 3), (4, 7), (8, 11), (12, 15)] 1 =
      (-lineFalls tiles .left, -lineFalls tiles .right) := by
    refine (work_eq Nat.one_pos ([0, 1, 2, 3].map (4 * ·))).trans ?_
    have hright : lineFalls tiles .right = _ := lineFalls_opposite tiles .left
    rw [hright]
    simp only [List.map_cons, List.map_nil, tilesFrom_row]
    simp [lineFalls, Fin.sum_univ_four, add_assoc]
  have hcolumns : work tiles [(0, 12), (1, 13), (2, 14), (3, 15)] 4 =
      (-lineFalls tiles .up, -lineFalls tiles .down) := by
    refine (work_eq (by omega) [0, 1, 2, 3]).trans ?_
    have hdown : lineFalls tiles .down = _ := lineFalls_opposite tiles .up
    rw [hdown]
    simp [lineFalls, tilesFrom_column, Fin.sum_univ_four, add_assoc]
  rw [evalMonotonicityValue, hrows, hcolumns]

end CodeBlocks.Ai2048
