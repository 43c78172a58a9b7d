import CodeBlocks.Core.AlphaBeta
import CodeBlocks.Ai2048.Search

/-!
# The search against the whole tree

The value of a node with no pruning at all, over the same tree as `MiniMaxSearch`:
the player takes the best of its legal moves and the computer the worst of its
placements. A search with a window is right within it, and its best move is then
the first of those with the highest value.
-/

namespace CodeBlocks.Ai2048

variable {ρ : Type} [LinearOrder ρ] (eval : Tiles → ρ)

/-- The value of a node of the computer, whose placements have the values of `player`. -/
def computerValue (player : Tiles → Value ρ) (depth : Nat) (tiles : Tiles) : Value ρ :=
  if depth = 0 ∨ isWin tiles then Value.ofScore (eval tiles)
  else worst (fun candidate => player (Function.update tiles candidate.1 candidate.2))
    (getCandidateSet tiles)

/-- The value of a node of the player, which is below all scores when no move is legal. -/
def playerValue : Nat → Tiles → Value ρ
  | 0, tiles => Value.ofScore (eval tiles)
  | depth + 1, tiles =>
    if isWin tiles then Value.ofScore (eval tiles)
    else best (fun dir => computerValue eval (playerValue depth) depth (tryMove tiles dir).2)
      (directions.filter fun dir => Legal tiles dir)

/-- The value of a move, with a number of moves of the player to follow. -/
def moveValue (depth : Nat) (tiles : Tiles) (dir : Direction) : Value ρ :=
  computerValue eval (playerValue eval depth) depth (tryMove tiles dir).2

/-- The value of a node for the side to move. -/
def minimax (depth : Nat) (isPlayer : Bool) (tiles : Tiles) : Value ρ :=
  if isPlayer then playerValue eval depth tiles
  else computerValue eval (playerValue eval depth) depth tiles

/-- A search that is right within every window. -/
def SearchAgrees (search : Tiles → ρ → ρ → ρ) (value : Tiles → Value ρ) : Prop :=
  ∀ tiles alpha beta, alpha < beta → Agrees alpha beta (search tiles alpha beta) (value tiles)

variable {eval} {search : Tiles → ρ → ρ → ρ} {value : Tiles → Value ρ} {tiles : Tiles}

/-- The computer lowers the upper end to the worst of the values. -/
theorem computerLoop_eq (hsearch : SearchAgrees search value)
    (candidates : List (Fin 16 × Nat)) {alpha beta : ρ} (hwindow : alpha < beta) :
    Value.ofScore (computerLoop search tiles candidates alpha beta) =
      clampScore alpha beta (worst (fun candidate =>
        value (Function.update tiles candidate.1 candidate.2)) candidates) := by
  induction candidates generalizing beta with
  | nil =>
      have hends : Value.ofScore alpha ≤ Value.ofScore beta := Value.ofScore_le.mpr hwindow.le
      exact (clamp_of_ge hends le_top).symm
  | cons candidate candidates ih =>
      obtain ⟨pos, val⟩ := candidate
      unfold computerLoop
      rw [worst_cons]
      dsimp only
      generalize hscore : search (Function.update tiles pos val) alpha beta = score
      have hagrees := hsearch (Function.update tiles pos val) alpha beta hwindow
      rw [hscore] at hagrees
      rcases hagrees.cases hwindow with ⟨hlow, hvalue⟩ | ⟨hhigh, hvalue⟩ | ⟨hlow, hhigh, hvalue⟩
      · rw [if_pos (hlow.trans_lt hwindow), if_pos hlow]
        exact (clamp_of_le (min_le_of_left_le hvalue)).symm
      · rw [if_neg (not_lt.mpr hhigh), if_neg (not_le.mpr hwindow), ih hwindow]
        exact (clamp_min_of_ge hvalue).symm
      · rw [if_pos hhigh, if_neg (not_le.mpr hlow), ih hlow, hvalue]
        exact (clamp_min_of_le (Value.ofScore_le.mpr hhigh.le)).symm

/-- The player raises the lower end to the best of the values. -/
theorem playerLoop_eq (hsearch : SearchAgrees search value) (dirs : List Direction)
    (bestMove : Option Direction) {alpha beta : ρ} (hwindow : alpha < beta) :
    Value.ofScore (playerLoop search tiles dirs bestMove alpha beta).1 =
      clampScore alpha beta (best (fun dir => value (tryMove tiles dir).2)
        (dirs.filter fun dir => Legal tiles dir)) := by
  induction dirs generalizing bestMove alpha with
  | nil => exact (clamp_of_le bot_le).symm
  | cons dir dirs ih =>
      unfold playerLoop
      split
      · rename_i next hmove
        have hnot : ¬ Legal tiles dir := by simp [Legal, hmove]
        rw [List.filter_cons_of_neg (by simpa using hnot)]
        exact ih bestMove hwindow
      · rename_i next hmove
        have hlegal : Legal tiles dir := congrArg Prod.fst hmove
        rw [List.filter_cons_of_pos (by simpa using hlegal), best_cons, hmove]
        dsimp only
        have hagrees := hsearch next alpha beta hwindow
        generalize search next alpha beta = score at hagrees
        rcases hagrees.cases hwindow with
          ⟨hlow, hvalue⟩ | ⟨hhigh, hvalue⟩ | ⟨hlow, hhigh, hvalue⟩
        · rw [if_neg (not_lt.mpr hlow)]
          dsimp only
          rw [if_neg (not_le.mpr hwindow), ih bestMove hwindow]
          exact (clamp_max_of_le hvalue).symm
        · rw [if_pos (hwindow.trans_le hhigh)]
          dsimp only
          rw [if_pos hhigh]
          have hends : Value.ofScore alpha ≤ Value.ofScore beta := Value.ofScore_le.mpr hwindow.le
          exact (clamp_of_ge hends (le_max_of_le_left hvalue)).symm
        · rw [if_pos hlow]
          dsimp only
          rw [if_neg (not_le.mpr hhigh), ih _ hhigh, hvalue]
          exact (clamp_max_of_mem (Value.ofScore_le.mpr hlow.le)
            (Value.ofScore_le.mpr hhigh.le)).symm

/-- No move is taken when none has a value above the window's lower end. -/
theorem playerLoop_keeps (hsearch : SearchAgrees search value) {dirs : List Direction}
    (bestMove : Option Direction) {alpha beta : ρ} (hwindow : alpha < beta)
    (hvalues : ∀ dir ∈ dirs, Legal tiles dir →
      value (tryMove tiles dir).2 ≤ Value.ofScore alpha) :
    (playerLoop search tiles dirs bestMove alpha beta).2 = bestMove := by
  induction dirs with
  | nil => rfl
  | cons dir dirs ih =>
      have hrest := ih fun other hother => hvalues other (List.mem_cons_of_mem dir hother)
      unfold playerLoop
      split
      · exact hrest
      · rename_i next hmove
        have hvalue := hvalues dir List.mem_cons_self (congrArg Prod.fst hmove)
        rw [hmove] at hvalue
        have hlow : search next alpha beta ≤ alpha := by
          rcases (hsearch next alpha beta hwindow).cases hwindow with
            ⟨hlow, -⟩ | ⟨-, habove⟩ | ⟨-, -, hequal⟩
          · exact hlow
          · exact absurd (Value.ofScore_le.mp (habove.trans hvalue)) (not_le.mpr hwindow)
          · rw [hequal] at hvalue
            exact Value.ofScore_le.mp hvalue
        dsimp only
        rw [if_neg (not_lt.mpr hlow)]
        dsimp only
        rw [if_neg (not_le.mpr hwindow)]
        exact hrest

/-- The first of the legal directions of a list that has a value. -/
def firstWith (values : Direction → Value ρ) (tiles : Tiles) (top : Value ρ)
    (dirs : List Direction) : Option Direction :=
  dirs.find? fun dir => Legal tiles dir ∧ values dir = top

/-- The first move of the highest value is taken, when the value is inside the window. -/
theorem playerLoop_first (hsearch : SearchAgrees search value) {dirs : List Direction}
    (bestMove : Option Direction) {alpha beta : ρ} {top : Value ρ}
    (htop : best (fun dir => value (tryMove tiles dir).2)
      (dirs.filter fun dir => Legal tiles dir) = top)
    (hlow : Value.ofScore alpha < top) (hhigh : top < Value.ofScore beta) :
    (playerLoop search tiles dirs bestMove alpha beta).2 =
      firstWith (fun dir => value (tryMove tiles dir).2) tiles top dirs := by
  induction dirs generalizing bestMove alpha with
  | nil =>
      rw [← htop] at hlow
      exact absurd hlow not_lt_bot
  | cons dir dirs ih =>
      have hwindow : alpha < beta := Value.ofScore_lt.mp (hlow.trans hhigh)
      unfold playerLoop firstWith
      split
      · rename_i next hmove
        have hnot : ¬ Legal tiles dir := by simp [Legal, hmove]
        rw [List.filter_cons_of_neg (by simpa using hnot)] at htop
        rw [List.find?_cons_of_neg (by simp [hnot])]
        exact ih bestMove htop hlow
      · rename_i next hmove
        have hlegal : Legal tiles dir := congrArg Prod.fst hmove
        rw [List.filter_cons_of_pos (by simpa using hlegal), best_cons, hmove] at htop
        have hle : value next ≤ top := htop ▸ le_max_left _ _
        have hagrees := hsearch next alpha beta hwindow
        dsimp only
        generalize search next alpha beta = score at hagrees
        rcases hagrees.cases hwindow with ⟨hscore, hvalue⟩ | ⟨-, hvalue⟩ | ⟨habove, hbelow, hvalue⟩
        · -- the move is below the window, and so is not of the highest value
          have hne : value next ≠ top := (hvalue.trans_lt hlow).ne
          rw [if_neg (not_lt.mpr hscore), List.find?_cons_of_neg (by simp [hmove, hne])]
          dsimp only
          rw [if_neg (not_le.mpr hwindow)]
          exact ih bestMove (right_eq_of_max_eq htop hne) hlow
        · exact absurd (hvalue.trans hle) (not_le.mpr hhigh)
        · rw [if_pos habove]
          dsimp only
          rw [if_neg (not_le.mpr hbelow)]
          by_cases heq : value next = top
          · -- no later move is above the one that was just taken
            rw [List.find?_cons_of_pos (by simp [hmove, heq, hlegal])]
            apply playerLoop_keeps hsearch (some dir) hbelow
            intro other hother hother'
            rw [← hvalue, heq, ← htop]
            apply le_max_of_le_right
            apply @le_best ρ _ _ (fun dir => value (tryMove tiles dir).2)
            exact List.mem_filter.mpr ⟨hother, by simpa using hother'⟩
          · rw [List.find?_cons_of_neg (by simp [hmove, heq])]
            have hlt : Value.ofScore score < top := hvalue ▸ lt_of_le_of_ne hle heq
            exact ih (some dir) (right_eq_of_max_eq htop heq) hlt

/-- A node of the computer is right within a window when the nodes below it are. -/
theorem computerNode_agrees {player : Tiles → ρ → ρ → ρ} {below : Tiles → Value ρ}
    (hplayer : SearchAgrees player below) (depth : Nat) :
    SearchAgrees (computerNode eval player depth) (computerValue eval below depth) := by
  intro tiles alpha beta hwindow
  unfold computerNode computerValue
  split
  · exact Agrees.refl alpha beta (eval tiles)
  · exact agrees_of_eq hwindow (computerLoop_eq hplayer (getCandidateSet tiles) hwindow)

theorem playerSearch_agrees (depth : Nat) (ai : AI2048) (alpha beta : ρ) (hwindow : alpha < beta) :
    Agrees alpha beta (playerSearch eval depth ai alpha beta).1
      (playerValue eval depth ai.tiles) := by
  induction depth generalizing ai alpha beta with
  | zero => exact Agrees.refl alpha beta (eval ai.tiles)
  | succ depth ih =>
      unfold playerSearch playerValue
      split
      · exact Agrees.refl alpha beta (eval ai.tiles)
      · have hplayer : SearchAgrees
            (fun tiles alpha beta => (playerSearch eval depth { tiles } alpha beta).1)
            (playerValue eval depth) := by
          intro tiles low high hlow
          exact ih { tiles } low high hlow
        have hnode := @computerNode_agrees ρ _ eval _ _ hplayer depth
        apply agrees_of_eq hwindow
        dsimp only
        rw [playerLoop_eq hnode directions none hwindow]

/-- The nodes below a move are right within every window. -/
theorem moveSearch_agrees (depth : Nat) :
    SearchAgrees (computerNode eval
      (fun tiles alpha beta => (playerSearch eval depth { tiles } alpha beta).1) depth)
      (computerValue eval (playerValue eval depth) depth) := by
  apply computerNode_agrees
  intro tiles alpha beta hwindow
  exact playerSearch_agrees depth { tiles } alpha beta hwindow

theorem miniMaxSearch_agrees (depth : Nat) (isPlayer : Bool) (ai : AI2048) {alpha beta : ρ}
    (hwindow : alpha < beta) :
    Agrees alpha beta (miniMaxSearch eval depth isPlayer ai alpha beta).1
      (minimax eval depth isPlayer ai.tiles) := by
  cases isPlayer with
  | true => exact playerSearch_agrees depth ai alpha beta hwindow
  | false =>
      have hnode := @moveSearch_agrees ρ _ eval depth ai.tiles alpha beta hwindow
      simpa only [miniMaxSearch, minimax, Bool.false_eq_true, if_false] using hnode

/-- The highest value is that of some item, unless there is none. -/
theorem exists_firstWith {values : Direction → Value ρ} {top : Value ρ} {dirs : List Direction}
    (htop : best values (dirs.filter fun dir => Legal tiles dir) = top) (hbot : ⊥ < top) :
    ∃ before dir after, dirs = before ++ dir :: after ∧
      firstWith values tiles top dirs = some dir ∧ Legal tiles dir ∧ values dir = top ∧
      ∀ other ∈ before, Legal tiles other → values other < top := by
  induction dirs with
  | nil =>
      rw [← htop] at hbot
      exact absurd hbot not_lt_bot
  | cons dir dirs ih =>
      by_cases hfirst : Legal tiles dir ∧ values dir = top
      · refine ⟨[], dir, dirs, rfl, ?_, hfirst.1, hfirst.2, by simp⟩
        exact List.find?_cons_of_pos (by simpa using hfirst)
      · have hlt : Legal tiles dir → values dir < top := by
          intro hlegal
          refine lt_of_le_of_ne (htop ▸ le_best ?_) fun heq => hfirst ⟨hlegal, heq⟩
          exact List.mem_filter.mpr ⟨List.mem_cons_self, by simpa using hlegal⟩
        have hrest : best values (dirs.filter fun dir => Legal tiles dir) = top := by
          by_cases hlegal : Legal tiles dir
          · rw [List.filter_cons_of_pos (by simpa using hlegal), best_cons] at htop
            exact right_eq_of_max_eq htop (hlt hlegal).ne
          · rwa [List.filter_cons_of_neg (by simpa using hlegal)] at htop
        obtain ⟨before, found, after, hsplit, hfind, hlegal, hvalue, hbefore⟩ := ih hrest
        refine ⟨dir :: before, found, after, by rw [hsplit]; rfl, ?_, hlegal, hvalue, ?_⟩
        · rw [← hfind]
          exact List.find?_cons_of_neg (by simpa using hfirst)
        · intro other hother
          rcases List.mem_cons.mp hother with rfl | hmem
          · exact hlt
          · exact hbefore other hmem

/-- `MiniMaxSearch` gives the value of the whole tree once both are clamped to the window. At a
root of the player that is not won, `best_move_` is the first direction of the highest value when
that value is inside the window, and there is none when no direction is above its lower end. -/
theorem miniMaxSearch_minimax (depth : Nat) (isPlayer : Bool) (ai : AI2048) (alpha beta : ρ)
    (hwindow : alpha < beta) :
    clampScore alpha beta (Value.ofScore (miniMaxSearch eval depth isPlayer ai alpha beta).1) =
        clampScore alpha beta (minimax eval depth isPlayer ai.tiles) ∧
      (∀ more, isPlayer = true → isWin ai.tiles = false → depth = more + 1 →
        (Value.ofScore alpha < minimax eval depth true ai.tiles →
          minimax eval depth true ai.tiles < Value.ofScore beta →
          ∃ before dir after, directions = before ++ dir :: after ∧
            (miniMaxSearch eval depth true ai alpha beta).2.bestMove = some dir ∧
            Legal ai.tiles dir ∧
            moveValue eval more ai.tiles dir = minimax eval depth true ai.tiles ∧
            ∀ other ∈ before, Legal ai.tiles other →
              moveValue eval more ai.tiles other < minimax eval depth true ai.tiles) ∧
        ((∀ dir, Legal ai.tiles dir → moveValue eval more ai.tiles dir ≤ Value.ofScore alpha) →
          (miniMaxSearch eval depth true ai alpha beta).2.bestMove = none)) := by
  refine ⟨miniMaxSearch_agrees depth isPlayer ai hwindow, ?_⟩
  rintro more - hwin rfl
  have hsearch := @moveSearch_agrees ρ _ eval more
  have hroot : minimax eval (more + 1) true ai.tiles =
      best (moveValue eval more ai.tiles) (directions.filter fun dir => Legal ai.tiles dir) := by
    rw [minimax, if_pos rfl, playerValue, if_neg (by rw [hwin]; decide)]
    rfl
  rw [miniMaxSearch_succ hwin]
  dsimp only
  constructor
  · intro hlow hhigh
    obtain ⟨before, dir, after, hsplit, hfind, hrest⟩ :=
      exists_firstWith hroot.symm (bot_le.trans_lt hlow)
    refine ⟨before, dir, after, hsplit, ?_, hrest⟩
    rw [← hfind]
    exact playerLoop_first hsearch none hroot.symm hlow hhigh
  · intro hvalues
    exact playerLoop_keeps hsearch none hwindow fun dir _ hlegal => hvalues dir hlegal

/-- A board with a single tile. -/
def singleTile : AI2048 := { tiles := fun pos => if pos = cell 5 then 1 else 0 }

/-- The value of the single tile lies between the sentinels, so its best move is found; in a window
above all its values there is none. -/
theorem miniMaxSearch_minimax_single :
    -inf < inf ∧
      clampScore (-inf) inf
          (Value.ofScore (miniMaxSearch evalAll 2 true singleTile (-inf) inf).1) =
        clampScore (-inf) inf (minimax evalAll 2 true singleTile.tiles) ∧
      (∃ before dir after, directions = before ++ dir :: after ∧
        (miniMaxSearch evalAll 1 true singleTile (-inf) inf).2.bestMove = some dir ∧
        Legal singleTile.tiles dir ∧
        moveValue evalAll 0 singleTile.tiles dir = minimax evalAll 1 true singleTile.tiles ∧
        ∀ other ∈ before, Legal singleTile.tiles other →
          moveValue evalAll 0 singleTile.tiles other < minimax evalAll 1 true singleTile.tiles) ∧
      (miniMaxSearch evalAll 1 true singleTile inf (inf + 1)).2.bestMove = none := by
  have hwindow : -inf < inf := by norm_num [inf]
  have habove : inf < inf + 1 := by norm_num [inf]
  have hwin : isWin singleTile.tiles = false := by decide +kernel
  have hlow : Value.ofScore (-inf) < minimax evalAll 1 true singleTile.tiles := by
    decide +kernel
  have hhigh : minimax evalAll 1 true singleTile.tiles < Value.ofScore inf := by
    decide +kernel
  have hvalues : ∀ dir, moveValue evalAll 0 singleTile.tiles dir ≤ Value.ofScore inf := by
    intro dir
    cases dir with
    | up => decide +kernel
    | right => decide +kernel
    | down => decide +kernel
    | left => decide +kernel
  have hdeep := @miniMaxSearch_minimax Rat _ evalAll 2 true singleTile (-inf) inf hwindow
  have hfound := @miniMaxSearch_minimax Rat _ evalAll 1 true singleTile (-inf) inf hwindow
  have hnone := @miniMaxSearch_minimax Rat _ evalAll 1 true singleTile inf (inf + 1) habove
  exact ⟨hwindow, hdeep.1, (hfound.2 0 rfl hwin rfl).1 hlow hhigh,
    (hnone.2 0 rfl hwin rfl).2 fun dir _ => hvalues dir⟩

end CodeBlocks.Ai2048
