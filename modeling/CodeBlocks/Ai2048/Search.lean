import CodeBlocks.Ai2048.Eval

/-!
# The search for a move

`MiniMaxSearch` over any linear order of scores: the loops of its two kinds of
nodes, and the iterative deepening of `GetPlayerBestMove`, whose number of
iterations is up to the clock. As long as no evaluation falls to the sentinel,
the first iteration finds a legal move, and no later one puts another in its
place that is not legal.
-/

namespace CodeBlocks.Ai2048

/-- `AI2048`; `best_move_` is none for `-1`. -/
structure AI2048 where
  tiles : Tiles := fun _ => 0
  bestMove : Option Direction := none

/-- `ArrayMax`, and the first element of an array of zeros when the size is zero. -/
def arrayMax : List Int → Int
  | [] => 0
  | x :: xs => xs.foldl (fun maxVal val => if maxVal < val then val else maxVal) x

/-- What a placement of the computer is worth in `GetCandidateSet`. -/
def candidateScore (tiles : Tiles) (pos : Fin 16) (val : Nat) : Int :=
  -evalSmoothnessValue (Function.update tiles pos val) + getLandNum (Function.update tiles pos val)

/-- `GetCandidateSet`: the placements with the best score. -/
def getCandidateSet (tiles : Tiles) : List (Fin 16 × Nat) :=
  let emptyPos := getAllEmptyPos tiles
  let maxScore := max (arrayMax (emptyPos.map fun pos => candidateScore tiles pos 1))
    (arrayMax (emptyPos.map fun pos => candidateScore tiles pos 2))
  [1, 2].flatMap fun val =>
    (emptyPos.filter fun pos => candidateScore tiles pos val = maxScore).map fun pos => (pos, val)

section Search

variable {ρ : Type} [LinearOrder ρ] (eval : Tiles → ρ)

/-- The loop over the placements of the computer. -/
def computerLoop (search : Tiles → ρ → ρ → ρ) (tiles : Tiles) :
    List (Fin 16 × Nat) → ρ → ρ → ρ
  | [], _, beta => beta
  | (pos, val) :: candidates, alpha, beta =>
    let score := search (Function.update tiles pos val) alpha beta
    let beta := if score < beta then score else beta
    if beta ≤ alpha then alpha else computerLoop search tiles candidates alpha beta

/-- The loop over the directions of the player, with the value of `best_move_`. -/
def playerLoop (search : Tiles → ρ → ρ → ρ) (tiles : Tiles) :
    List Direction → Option Direction → ρ → ρ → ρ × Option Direction
  | [], bestMove, alpha, _ => (alpha, bestMove)
  | dir :: dirs, bestMove, alpha, beta =>
    match tryMove tiles dir with
    | (false, _) => playerLoop search tiles dirs bestMove alpha beta
    | (true, next) =>
      let score := search next alpha beta
      let (alpha, bestMove) := if score > alpha then (score, some dir) else (alpha, bestMove)
      if beta ≤ alpha then (beta, bestMove) else playerLoop search tiles dirs bestMove alpha beta

/-- A node of the computer, whose placements are searched by `player`. -/
def computerNode (player : Tiles → ρ → ρ → ρ) (depth : Nat) (tiles : Tiles) (alpha beta : ρ) : ρ :=
  if depth = 0 ∨ isWin tiles then eval tiles
  else computerLoop player tiles (getCandidateSet tiles) alpha beta

/-- `MiniMaxSearch` for the player: the score and `best_move_`. Only the nodes of the player lower
the depth. -/
def playerSearch : Nat → AI2048 → ρ → ρ → ρ × AI2048
  | 0, ai, _, _ => (eval ai.tiles, ai)
  | depth + 1, ai, alpha, beta =>
    if isWin ai.tiles then (eval ai.tiles, ai)
    else
      let player := fun tiles alpha beta => (playerSearch depth { tiles } alpha beta).1
      let result := playerLoop (computerNode eval player depth) ai.tiles directions none alpha beta
      (result.1, { ai with bestMove := result.2 })

/-- `MiniMaxSearch`. -/
def miniMaxSearch (depth : Nat) (isPlayer : Bool) (ai : AI2048) (alpha beta : ρ) : ρ × AI2048 :=
  if isPlayer then playerSearch eval depth ai alpha beta
  else (computerNode eval (fun tiles alpha beta => (playerSearch eval depth { tiles } alpha beta).1)
    depth ai.tiles alpha beta, ai)

/-- The loop of `GetPlayerBestMove`; the first argument counts the iterations that the clock
allows. The best score stays at its first value. -/
def bestMoveLoop (low high : ρ) : Nat → Nat → Direction → AI2048 → Direction × AI2048
  | 0, _, bestMove, ai => (bestMove, ai)
  | iterations + 1, depth, bestMove, ai =>
    let result := miniMaxSearch eval depth true ai low high
    match result.2.bestMove with
    | none => (bestMove, result.2)
    | some dir =>
      bestMoveLoop low high iterations (depth + 1) (if result.1 > low then dir else bestMove)
        result.2

section Legality

variable {eval} {search : Tiles → ρ → ρ → ρ} {tiles : Tiles}

/-- The lower end of the window only rises, unless the upper one is returned. -/
theorem playerLoop_ge (dirs : List Direction) (bestMove : Option Direction) (alpha beta : ρ) :
    alpha ≤ (playerLoop search tiles dirs bestMove alpha beta).1 ∨
      (playerLoop search tiles dirs bestMove alpha beta).1 = beta := by
  induction dirs generalizing bestMove alpha with
  | nil => exact Or.inl le_rfl
  | cons dir dirs ih =>
      unfold playerLoop
      split
      · exact ih bestMove alpha
      · rename_i next hmove
        dsimp only
        split
        · rename_i hscore
          dsimp only
          split
          · exact Or.inr rfl
          · exact (ih _ _).imp (le_of_lt hscore).trans id
        · dsimp only
          split
          · exact Or.inr rfl
          · exact ih _ _

/-- The loop over the directions keeps the move that it has, or takes a legal one, and then the
score is above the lower end of the window. -/
theorem playerLoop_bestMove (dirs : List Direction) (bestMove : Option Direction)
    (alpha beta : ρ) :
    (playerLoop search tiles dirs bestMove alpha beta).2 = bestMove ∨
    ∃ dir, (playerLoop search tiles dirs bestMove alpha beta).2 = some dir ∧ Legal tiles dir ∧
      (alpha < (playerLoop search tiles dirs bestMove alpha beta).1 ∨
        (playerLoop search tiles dirs bestMove alpha beta).1 = beta) := by
  induction dirs generalizing bestMove alpha with
  | nil => exact Or.inl rfl
  | cons dir dirs ih =>
      unfold playerLoop
      split
      · exact ih bestMove alpha
      · rename_i next hmove
        have hlegal : Legal tiles dir := congrArg Prod.fst hmove
        dsimp only
        split
        · rename_i hscore
          dsimp only
          split
          · exact Or.inr ⟨dir, rfl, hlegal, Or.inr rfl⟩
          · have hge := @playerLoop_ge ρ _ search tiles dirs (some dir) (search next alpha beta)
              beta
            rcases ih (some dir) (search next alpha beta) with hkept | ⟨other, hother, hrest⟩
            · exact Or.inr ⟨dir, hkept, hlegal, hge.imp hscore.trans_le id⟩
            · exact Or.inr ⟨other, hother, hrest.1, hrest.2.imp hscore.trans id⟩
        · dsimp only
          split
          · exact Or.inl rfl
          · exact ih bestMove alpha

/-- A move that was found is not lost. -/
theorem playerLoop_isSome (dirs : List Direction) (dir : Direction) (alpha beta : ρ) :
    (playerLoop search tiles dirs (some dir) alpha beta).2.isSome := by
  rcases @playerLoop_bestMove ρ _ search tiles dirs (some dir) alpha beta with
    hkept | ⟨other, hother, -⟩
  · rw [hkept]
    rfl
  · rw [hother]
    rfl

/-- A move is found when the next boards all have a score above the lower end of the window. -/
theorem playerLoop_finds {dirs : List Direction} {alpha beta : ρ}
    (hlegal : ∃ dir ∈ dirs, Legal tiles dir)
    (hscore : ∀ dir, Legal tiles dir → alpha < search (tryMove tiles dir).2 alpha beta) :
    (playerLoop search tiles dirs none alpha beta).2.isSome := by
  induction dirs with
  | nil =>
      obtain ⟨dir, hmem, -⟩ := hlegal
      cases hmem
  | cons dir dirs ih =>
      unfold playerLoop
      split
      · rename_i next hmove
        apply ih
        obtain ⟨other, hmem, hother⟩ := hlegal
        rcases List.mem_cons.mp hmem with rfl | hmem
        · rw [Legal, hmove] at hother
          cases hother
        · exact ⟨other, hmem, hother⟩
      · rename_i next hmove
        have hnext := hscore dir (congrArg Prod.fst hmove)
        rw [hmove] at hnext
        dsimp only
        rw [if_pos hnext]
        dsimp only
        split
        · rfl
        · exact playerLoop_isSome dirs dir _ _

theorem computerNode_zero (player : Tiles → ρ → ρ → ρ) (alpha beta : ρ) :
    computerNode eval player 0 tiles alpha beta = eval tiles :=
  if_pos (Or.inl rfl)

/-- The root of a search that is not won. -/
theorem miniMaxSearch_succ {ai : AI2048} (hwin : isWin ai.tiles = false) (depth : Nat)
    (low high : ρ) :
    miniMaxSearch eval (depth + 1) true ai low high =
      ((playerLoop (computerNode eval
          (fun tiles alpha beta => (playerSearch eval depth { tiles } alpha beta).1) depth)
          ai.tiles directions none low high).1,
        { ai with bestMove := (playerLoop (computerNode eval
          (fun tiles alpha beta => (playerSearch eval depth { tiles } alpha beta).1) depth)
          ai.tiles directions none low high).2 }) := by
  have hnot : ¬ isWin ai.tiles = true := by rw [hwin]; decide
  rw [miniMaxSearch, if_pos rfl, playerSearch, if_neg hnot]

/-- A search leaves no move but a legal one, and its score is then above the lower end. -/
theorem miniMaxSearch_bestMove {ai : AI2048} (hwin : isWin ai.tiles = false) (depth : Nat)
    {low high : ρ} (hlow : low < high) {dir : Direction}
    (h : (miniMaxSearch eval (depth + 1) true ai low high).2.bestMove = some dir) :
    Legal ai.tiles dir ∧ low < (miniMaxSearch eval (depth + 1) true ai low high).1 := by
  rw [miniMaxSearch_succ hwin] at h ⊢
  generalize computerNode eval _ depth = search at h ⊢
  dsimp only at h ⊢
  rcases @playerLoop_bestMove ρ _ search ai.tiles directions none low high with
    hnone | ⟨other, hother, hlegal, hscore⟩
  · rw [hnone] at h
    cases h
  · rw [hother, Option.some.injEq] at h
    refine ⟨h ▸ hlegal, hscore.elim id fun heq => ?_⟩
    rw [heq]
    exact hlow

/-- The search leaves the board. -/
theorem miniMaxSearch_tiles {ai : AI2048} (hwin : isWin ai.tiles = false) (depth : Nat)
    (low high : ρ) : (miniMaxSearch eval (depth + 1) true ai low high).2.tiles = ai.tiles := by
  rw [miniMaxSearch_succ hwin]

/-- Later iterations keep a legal move. -/
theorem bestMoveLoop_legal {ai : AI2048} (hwin : isWin ai.tiles = false) {low high : ρ}
    (hlow : low < high) (iterations depth : Nat) {bestMove : Direction}
    (hbest : Legal ai.tiles bestMove) :
    Legal ai.tiles (bestMoveLoop eval low high iterations (depth + 1) bestMove ai).1 := by
  induction iterations generalizing depth bestMove ai with
  | zero => exact hbest
  | succ iterations ih =>
      unfold bestMoveLoop
      have htiles := @miniMaxSearch_tiles ρ _ eval ai hwin depth low high
      dsimp only
      split
      · exact hbest
      · rename_i dir hdir
        obtain ⟨hlegal, hscore⟩ := miniMaxSearch_bestMove hwin depth hlow hdir
        rw [if_pos hscore]
        rw [← htiles] at hwin hlegal ⊢
        exact ih hwin _ hlegal

/-- From the first iteration on there is a legal move, if there is one at all and no board after a
move is worth the lower end. -/
theorem bestMoveLoop_finds {ai : AI2048} (hwin : isWin ai.tiles = false) {low high : ρ}
    (hlow : low < high) (hlegal : ∃ dir, Legal ai.tiles dir)
    (hscore : ∀ dir, Legal ai.tiles dir → low < eval (tryMove ai.tiles dir).2)
    {iterations : Nat} (hiterations : 0 < iterations) (bestMove : Direction) :
    Legal ai.tiles (bestMoveLoop eval low high iterations 1 bestMove ai).1 := by
  obtain ⟨more, rfl⟩ : ∃ more, iterations = more + 1 := ⟨iterations - 1, by omega⟩
  have hfinds : (miniMaxSearch eval 1 true ai low high).2.bestMove.isSome := by
    rw [miniMaxSearch_succ hwin 0]
    dsimp only
    obtain ⟨dir, hdir⟩ := hlegal
    refine playerLoop_finds ⟨dir, mem_directions dir, hdir⟩ fun other hother => ?_
    rw [computerNode_zero]
    exact hscore other hother
  obtain ⟨dir, hdir⟩ := Option.isSome_iff_exists.mp hfinds
  obtain ⟨hfirst, habove⟩ := miniMaxSearch_bestMove hwin 0 hlow hdir
  have htiles := @miniMaxSearch_tiles ρ _ eval ai hwin 0 low high
  unfold bestMoveLoop
  simp only [Nat.zero_add] at hdir habove htiles
  simp only [hdir, if_pos habove]
  rw [← htiles] at hwin hfirst ⊢
  exact bestMoveLoop_legal hwin hlow more 1 hfirst

/-- So does the loop over the depths. -/
theorem bestMoveLoop_tiles {ai : AI2048} (hwin : isWin ai.tiles = false) (low high : ρ)
    (iterations depth : Nat) (bestMove : Direction) :
    (bestMoveLoop eval low high iterations (depth + 1) bestMove ai).2.tiles = ai.tiles := by
  induction iterations generalizing depth bestMove ai with
  | zero => rfl
  | succ iterations ih =>
      unfold bestMoveLoop
      have htiles := @miniMaxSearch_tiles ρ _ eval ai hwin depth low high
      dsimp only
      split
      · exact htiles
      · rw [ih (by rwa [htiles]), htiles]

end Legality

end Search

/-- `INF`. -/
abbrev inf : Rat := 1000

/-- `GetPlayerBestMove`. -/
def AI2048.getPlayerBestMove (iterations : Nat) (ai : AI2048) : Direction × AI2048 :=
  bestMoveLoop evalAll (-inf) inf iterations 1 .up ai

/-- `GetPlayerBestMove` finds a legal move if there is one. -/
theorem AI2048.getPlayerBestMove_legal {ai : AI2048} (hwin : isWin ai.tiles = false)
    (hbound : ∀ q, ai.tiles q < 50) (hlegal : ∃ dir, Legal ai.tiles dir) {iterations : Nat}
    (hiterations : 0 < iterations) : Legal ai.tiles (ai.getPlayerBestMove iterations).1 := by
  have hinf : -inf < inf := by norm_num [inf]
  refine bestMoveLoop_finds hwin hinf hlegal (fun dir _ => ?_) hiterations .up
  exact evalAll_gt (tryMove_le (fun q => Nat.le_of_lt_succ (hbound q)) dir) le_rfl

/-- On a board of tiles up to the thirtieth with no winning one, the move that `GetPlayerBestMove`
returns can be made whenever there is one that can, however many iterations the clock allows. -/
theorem AI2048.tryMove_getPlayerBestMove {ai : AI2048} (hbound : ∀ q, ai.tiles q ≤ 30)
    (hwin : ∀ q, ai.tiles q ≠ 11) (hlegal : ∃ dir, (tryMove ai.tiles dir).1 = true)
    {iterations : Nat} (hiterations : 1 ≤ iterations) :
    (tryMove ai.tiles (ai.getPlayerBestMove iterations).1).1 = true := by
  have hgoing : isWin ai.tiles = false := by
    simp [isWin, hwin]
  have hlow : ∀ q, ai.tiles q < 50 := by
    intro q
    have htile := hbound q
    omega
  exact AI2048.getPlayerBestMove_legal hgoing hlow hlegal hiterations

/-- A board with a single tile. -/
theorem AI2048.tryMove_getPlayerBestMove_single :
    (tryMove (fun pos => if pos = cell 5 then 30 else 0) (AI2048.getPlayerBestMove 3
      { tiles := fun pos => if pos = cell 5 then 30 else 0 }).1).1 = true := by
  apply AI2048.tryMove_getPlayerBestMove
  · decide
  · decide
  · exact ⟨.left, by decide⟩
  · decide

/-- Choosing a move leaves the board. -/
theorem AI2048.getPlayerBestMove_tiles {ai : AI2048} (hwin : isWin ai.tiles = false)
    (iterations : Nat) : (ai.getPlayerBestMove iterations).2.tiles = ai.tiles :=
  bestMoveLoop_tiles hwin (-inf) inf iterations 0 .up

end CodeBlocks.Ai2048
