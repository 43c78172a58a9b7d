import CodeBlocks.Ai2048.Board

/-!
# What a move does

A tile only goes where the move has already been, so a cell that holds a merged
tile is not looked at again in the same move. A move is legal when some tile of
the board as it was could go, and one that is not legal changes nothing.
-/

namespace CodeBlocks.Ai2048

/-- The turn of a cell in a move. -/
def rank (dir : Direction) (pos : Fin 16) : Nat := (movePositions dir).idxOf pos

/-- The loop passes every cell. -/
theorem mem_movePositions (dir : Direction) (pos : Fin 16) : pos ∈ movePositions dir := by
  revert pos
  cases dir <;> decide

/-- It passes the cells in the order of the direction. -/
theorem movePositions_pairwise (dir : Direction) :
    (movePositions dir).Pairwise fun p q => rank dir p < rank dir q := by
  cases dir <;> decide

/-- A neighbour in the direction of the move has had its turn. -/
theorem rank_dirPos {dir : Direction} {pos next : Fin 16} (h : dirPos pos dir = some next) :
    rank dir next < rank dir pos := by
  revert pos next
  cases dir <;> decide

variable {tiles : Tiles} {dir : Direction}

/-- The cell in front of which a tile stops. -/
theorem getTargetPosLoop_fst (fuel : Nat) (pos : Fin 16) :
    (getTargetPosLoop tiles dir fuel pos).1 = pos ∨
      tiles (getTargetPosLoop tiles dir fuel pos).1 = 0 ∧
        rank dir (getTargetPosLoop tiles dir fuel pos).1 < rank dir pos := by
  induction fuel generalizing pos with
  | zero => exact Or.inl rfl
  | succ fuel ih =>
      unfold getTargetPosLoop
      split
      · exact Or.inl rfl
      · rename_i next hnext
        have hrank := rank_dirPos hnext
        split
        · rename_i hempty
          rcases ih next with heq | ⟨hzero, hlt⟩
          · rw [heq]
            exact Or.inr ⟨hempty, hrank⟩
          · exact Or.inr ⟨hzero, hlt.trans hrank⟩
        · exact Or.inl rfl

/-- The tile behind the empty cells. -/
theorem getTargetPosLoop_snd {fuel : Nat} {pos target : Fin 16}
    (h : (getTargetPosLoop tiles dir fuel pos).2 = some target) :
    tiles target ≠ 0 ∧ rank dir target < rank dir pos := by
  induction fuel generalizing pos with
  | zero => cases h
  | succ fuel ih =>
      unfold getTargetPosLoop at h
      split at h
      · cases h
      · rename_i next hnext
        have hrank := rank_dirPos hnext
        split at h
        · obtain ⟨htile, hlt⟩ := ih h
          exact ⟨htile, hlt.trans hrank⟩
        · rename_i htile
          rw [Option.some.injEq] at h
          exact h ▸ ⟨htile, hrank⟩

/-- A tile that can go: it slides over an empty cell, or merges with an equal tile. -/
def Acts (tiles : Tiles) (dir : Direction) (pos : Fin 16) : Prop :=
  0 < tiles pos ∧ ((getTargetPos tiles pos dir).1 ≠ pos ∨
    ∃ target, (getTargetPos tiles pos dir).2 = some target ∧ tiles target = tiles pos)

namespace MoveState

variable {st : MoveState} {pos : Fin 16}

/-- Everything that one turn can do. -/
inductive Turn (dir : Direction) (st : MoveState) (pos : Fin 16) : MoveState → Prop
  | stay (h : (∀ q, st.merged q = false) → ¬ Acts st.tiles dir pos) : Turn dir st pos st
  | merge (target : Fin 16) (hacts : Acts st.tiles dir pos)
      (hrank : rank dir target < rank dir pos) (htile : st.tiles target = st.tiles pos)
      (hmerged : st.merged target = false) : Turn dir st pos (st.merge pos target)
  | shift (target : Fin 16) (hacts : Acts st.tiles dir pos)
      (hrank : rank dir target < rank dir pos) (htile : st.tiles target = 0) :
      Turn dir st pos (st.shift pos target)

theorem slide_turn (hpos : 0 < st.tiles pos)
    (hsnd : (∀ q, st.merged q = false) →
      ∀ target, (getTargetPos st.tiles pos dir).2 = some target → st.tiles target ≠ st.tiles pos) :
    Turn dir st pos (st.slide pos (getTargetPos st.tiles pos dir).1) := by
  have hfst := @getTargetPosLoop_fst st.tiles dir 4 pos
  unfold slide
  split
  · rename_i hne
    obtain ⟨hzero, hrank⟩ := hfst.resolve_left fun heq => hne heq.symm
    exact .shift _ ⟨hpos, Or.inl (Ne.symm hne)⟩ hrank hzero
  · rename_i heq
    refine .stay fun hmerged hacts => ?_
    rcases hacts.2 with hne | ⟨target, htarget, htile⟩
    · exact heq hne.symm
    · exact hsnd hmerged target htarget htile

/-- One cell of the loop takes its turn. -/
theorem step_turn (dir : Direction) (st : MoveState) (pos : Fin 16) :
    Turn dir st pos (st.step dir pos) := by
  unfold step
  split
  · rename_i hpos
    split
    · rename_i targetPos hget
      have hslide := @slide_turn dir st pos hpos (by simp [hget])
      rwa [hget] at hslide
    · rename_i targetPos target hget
      have htarget : (getTargetPos st.tiles pos dir).2 = some target := by rw [hget]
      split
      · rename_i hequal
        exact .merge target ⟨hpos, Or.inr ⟨target, htarget, hequal.1⟩⟩
          (getTargetPosLoop_snd htarget).2 hequal.1 hequal.2
      · rename_i hunequal
        have hslide := @slide_turn dir st pos hpos (by
          intro hmerged other hother
          rw [htarget, Option.some.injEq] at hother
          exact fun htile => hunequal ⟨hother ▸ htile, hother ▸ hmerged other⟩)
        rwa [hget] at hslide
  · rename_i hpos
    exact .stay fun _ hacts => hpos hacts.1

theorem Turn.canMove {st' : MoveState} (h : Turn dir st pos st') (hmove : st.canMove = true) :
    st'.canMove = true := by
  cases h with
  | stay => exact hmove
  | merge => rfl
  | shift => rfl

theorem canMove_foldl (hmove : st.canMove = true) (positions : List (Fin 16)) :
    (positions.foldl (step dir) st).canMove = true := by
  induction positions generalizing st with
  | nil => exact hmove
  | cons pos positions ih => exact ih ((step_turn dir st pos).canMove hmove)

/-- As long as nothing has moved, a tile goes exactly when it could go on the board as it was. -/
theorem canMove_foldl_iff (hmove : st.canMove = false) (hmerged : ∀ q, st.merged q = false)
    (positions : List (Fin 16)) :
    ((positions.foldl (step dir) st).canMove = true ↔ ∃ pos ∈ positions, Acts st.tiles dir pos) ∧
      ((positions.foldl (step dir) st).canMove = false →
        (positions.foldl (step dir) st).tiles = st.tiles) := by
  induction positions with
  | nil => simp [hmove]
  | cons pos positions ih =>
      rw [List.foldl_cons]
      have hturn := step_turn dir st pos
      -- a turn that acts sets `can_move` for good
      have hmoved : ∀ {st' : MoveState}, st'.canMove = true → Acts st.tiles dir pos →
          ((positions.foldl (step dir) st').canMove = true ↔
            ∃ q ∈ pos :: positions, Acts st.tiles dir q) ∧
          ((positions.foldl (step dir) st').canMove = false →
            (positions.foldl (step dir) st').tiles = st.tiles) := by
        intro st' htrue hacts
        have hall : (positions.foldl (step dir) st').canMove = true := canMove_foldl htrue positions
        refine ⟨iff_of_true hall ⟨pos, List.mem_cons_self, hacts⟩, fun hfalse => ?_⟩
        rw [hall] at hfalse
        cases hfalse
      generalize st.step dir pos = st' at hturn
      cases hturn with
      | stay hstay =>
          have hidle := hstay hmerged
          refine ⟨ih.1.trans ?_, ih.2⟩
          simp [hidle]
      | merge target hacts hrank htile hfree => exact hmoved rfl hacts
      | shift target hacts hrank htile => exact hmoved rfl hacts

end MoveState

/-- A move is legal when some tile can go on the board as it is. -/
theorem legal_iff : Legal tiles dir ↔ ∃ pos, Acts tiles dir pos := by
  unfold Legal tryMove
  have hiff := (@MoveState.canMove_foldl_iff dir ⟨tiles, fun _ => false, false⟩ rfl (fun _ => rfl)
    (movePositions dir)).1
  refine hiff.trans ⟨fun ⟨pos, _, hacts⟩ => ⟨pos, hacts⟩, fun ⟨pos, hacts⟩ => ?_⟩
  exact ⟨pos, mem_movePositions dir pos, hacts⟩

/-- A move that is not legal changes nothing. -/
theorem tryMove_of_not_legal (h : ¬ Legal tiles dir) : tryMove tiles dir = (false, tiles) := by
  have hfalse : (tryMove tiles dir).1 = false := Bool.eq_false_iff.mpr h
  have htiles := (@MoveState.canMove_foldl_iff dir ⟨tiles, fun _ => false, false⟩ rfl
    (fun _ => rfl) (movePositions dir)).2 hfalse
  exact Prod.ext hfalse htiles

/-- A tile next to an empty cell can go there. -/
theorem legal_of_empty_neighbour {pos next : Fin 16} (hpos : tiles pos ≠ 0)
    (hnext : dirPos pos dir = some next) (hempty : tiles next = 0) : Legal tiles dir := by
  refine legal_iff.mpr ⟨pos, Nat.pos_of_ne_zero hpos, Or.inl fun heq => ?_⟩
  have hloop : (getTargetPos tiles pos dir).1 = (getTargetPosLoop tiles dir 3 next).1 := by
    unfold getTargetPos
    rw [getTargetPosLoop, hnext]
    simp only [hempty, ite_true]
  have hrank := rank_dirPos hnext
  rw [hloop] at heq
  rcases @getTargetPosLoop_fst tiles dir 3 next with hsame | ⟨-, hlt⟩
  · rw [← hsame, heq] at hrank
    omega
  · rw [heq] at hlt
    omega

/-- Every cell but the first has a neighbour before it, above or to the left. -/
theorem exists_neighbour_before {pos : Fin 16} (h : pos ≠ 0) :
    ∃ dir next, dirPos pos dir = some next ∧ next < pos := by
  have hall : ∀ pos : Fin 16, pos ≠ 0 → (∃ next, dirPos pos .up = some next ∧ next < pos) ∨
      ∃ next, dirPos pos .left = some next ∧ next < pos := by
    decide
  exact (hall pos h).elim (fun hup => ⟨.up, hup⟩) fun hleft => ⟨.left, hleft⟩

/-- Every cell but the first is below or to the right of one before it. -/
theorem exists_before_neighbour {pos : Fin 16} (h : pos ≠ 0) :
    ∃ dir next, dirPos next dir = some pos ∧ next < pos := by
  have hall : ∀ pos : Fin 16, pos ≠ 0 → (∃ next, dirPos next .down = some pos ∧ next < pos) ∨
      ∃ next, dirPos next .right = some pos ∧ next < pos := by
    decide
  exact (hall pos h).elim (fun hdown => ⟨.down, hdown⟩) fun hright => ⟨.right, hright⟩

/-- A property of one cell that passes to neighbours holds everywhere. -/
theorem forall_of_neighbours {P : Fin 16 → Prop}
    (hstep : ∀ pos dir next, dirPos pos dir = some next → P pos → P next) {pos : Fin 16}
    (hpos : P pos) (target : Fin 16) : P target := by
  have hzero : P 0 := by
    induction pos using WellFoundedLT.induction with
    | ind pos ih =>
        by_cases hne : pos = 0
        · rwa [hne] at hpos
        · obtain ⟨dir, next, hnext, hlt⟩ := exists_neighbour_before hne
          exact ih next hlt (hstep pos dir next hnext hpos)
  induction target using WellFoundedLT.induction with
  | ind target ih =>
      by_cases hne : target = 0
      · rwa [hne]
      · obtain ⟨dir, next, hnext, hlt⟩ := exists_before_neighbour hne
        exact hstep next dir target hnext (ih next hlt)

/-- When no move is legal on a board with a tile, there is no empty cell. -/
theorem full_of_blocked (h : ∀ dir, ¬ Legal tiles dir) {pos : Fin 16} (hpos : tiles pos ≠ 0)
    (target : Fin 16) : tiles target ≠ 0 := by
  apply forall_of_neighbours (P := fun q => tiles q ≠ 0) _ hpos
  intro q dir next hnext hq hempty
  exact h dir (legal_of_empty_neighbour hq hnext hempty)

namespace MoveState

/-- A turn leaves a tile where there was one. -/
theorem Turn.exists_tile {st st' : MoveState} {pos : Fin 16} (h : Turn dir st pos st')
    (hst : ∃ q, st.tiles q ≠ 0) : ∃ q, st'.tiles q ≠ 0 := by
  cases h with
  | stay => exact hst
  | merge target hacts hrank htile hmerged =>
      have hne : target ≠ pos := by
        rintro rfl
        omega
      refine ⟨target, ?_⟩
      simp [MoveState.merge, hne]
  | shift target hacts hrank htile =>
      have hne : target ≠ pos := by
        rintro rfl
        omega
      have hpos : st.tiles pos ≠ 0 := Nat.ne_of_gt hacts.1
      refine ⟨target, ?_⟩
      simpa [MoveState.shift, hne] using hpos

/-- No tile is above a bound but the merged ones, which are above it by one at most and have had
their turn. -/
def Bounded (bound : Nat) (positions : List (Fin 16)) (st : MoveState) : Prop :=
  ∀ q, st.tiles q ≤ bound ∨ st.merged q = true ∧ q ∉ positions ∧ st.tiles q ≤ bound + 1

theorem Turn.bounded {bound : Nat} {st st' : MoveState} {pos : Fin 16}
    {positions : List (Fin 16)} (h : Turn dir st pos st')
    (hrest : ∀ q ∈ positions, rank dir pos < rank dir q)
    (hst : Bounded bound (pos :: positions) st) : Bounded bound positions st' := by
  have hweak : Bounded bound positions st := by
    intro q
    refine (hst q).imp id fun ⟨hmerged, hmem, hle⟩ => ⟨hmerged, ?_, hle⟩
    exact fun hq => hmem (List.mem_cons_of_mem _ hq)
  have hpos : st.tiles pos ≤ bound :=
    (hst pos).resolve_right fun ⟨_, hmem, _⟩ => hmem List.mem_cons_self
  cases h with
  | stay => exact hweak
  | merge target hacts hrank htile hmerged =>
      intro q
      by_cases hq : q = pos
      · simp [MoveState.merge, hq]
      by_cases htarget : q = target
      · subst htarget
        refine Or.inr ⟨by simp [MoveState.merge], fun hmem => ?_, ?_⟩
        · have hlater := hrest q hmem
          omega
        · simp only [MoveState.merge, Function.update_of_ne hq, Function.update_self]
          omega
      · simpa [MoveState.merge, hq, htarget] using hweak q
  | shift target hacts hrank htile =>
      intro q
      by_cases hq : q = pos
      · simp [MoveState.shift, hq]
      by_cases htarget : q = target
      · subst htarget
        refine Or.inl ?_
        simpa [MoveState.shift, hq] using hpos
      · simpa [MoveState.shift, hq, htarget] using hweak q

/-- The whole loop keeps the exponents bounded. -/
theorem bounded_foldl {bound : Nat} {st : MoveState} {positions : List (Fin 16)}
    (hsorted : positions.Pairwise fun p q => rank dir p < rank dir q)
    (hst : Bounded bound positions st) : Bounded bound [] (positions.foldl (step dir) st) := by
  induction positions generalizing st with
  | nil => exact hst
  | cons pos positions ih =>
      obtain ⟨hrest, htail⟩ := List.pairwise_cons.mp hsorted
      exact ih htail ((step_turn dir st pos).bounded hrest hst)

theorem exists_tile_foldl {st : MoveState} (hst : ∃ q, st.tiles q ≠ 0)
    (positions : List (Fin 16)) : ∃ q, (positions.foldl (step dir) st).tiles q ≠ 0 := by
  induction positions generalizing st with
  | nil => exact hst
  | cons pos positions ih => exact ih ((step_turn dir st pos).exists_tile hst)

end MoveState

/-- A move raises no tile by more than one above the highest. -/
theorem tryMove_le {bound : Nat} (h : ∀ q, tiles q ≤ bound) (dir : Direction) (q : Fin 16) :
    (tryMove tiles dir).2 q ≤ bound + 1 := by
  have hbounded : MoveState.Bounded bound (movePositions dir) ⟨tiles, fun _ => false, false⟩ :=
    fun q => Or.inl (h q)
  rcases MoveState.bounded_foldl (movePositions_pairwise dir) hbounded q with hle | ⟨-, -, hle⟩
  · exact Nat.le_succ_of_le hle
  · exact hle

theorem tryMove_exists_tile (h : ∃ q, tiles q ≠ 0) (dir : Direction) :
    ∃ q, (tryMove tiles dir).2 q ≠ 0 :=
  @MoveState.exists_tile_foldl dir ⟨tiles, fun _ => false, false⟩ h (movePositions dir)

end CodeBlocks.Ai2048
