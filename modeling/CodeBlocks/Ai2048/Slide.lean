import Mathlib.Data.List.GetD
import CodeBlocks.Ai2048.Moves

/-!
# The rule of a move

Along its direction the board is four lines of four cells, each counted from the
edge. The rule of the game moves the tiles of a line up to the edge and merges
equal neighbours in pairs from there. `TryMove` does so in place: at every time
the cells of a line that have had their turn hold a stack of tiles at the edge,
with empty cells behind it.
-/

namespace CodeBlocks.Ai2048

/-- Equal neighbours merge in pairs, from the front. -/
def mergePairs : List Nat → List Nat
  | [] => []
  | [a] => [a]
  | a :: b :: rest => if a = b then (a + 1) :: mergePairs rest else a :: mergePairs (b :: rest)

/-- The rule of the game for one line. -/
def slideLine (line : List Nat) : List Nat :=
  let tiles := mergePairs (line.filter (· ≠ 0))
  tiles ++ List.replicate (line.length - tiles.length) 0

/-- A cell of a line, counted from the edge of a direction. -/
def lineCell (dir : Direction) (k i : Nat) : Fin 16 :=
  match dir with
  | .up => cell (4 * i + k)
  | .down => cell (4 * (3 - i) + k)
  | .left => cell (4 * k + i)
  | .right => cell (4 * k + (3 - i))

/-- A line of a board. -/
def lineOf (tiles : Tiles) (dir : Direction) (k : Nat) : List Nat :=
  (List.range 4).map fun i => tiles (lineCell dir k i)

/-- The cell in front of another one of its line. -/
def cellBefore (dir : Direction) (k : Nat) : Nat → Option (Fin 16)
  | 0 => none
  | i + 1 => some (lineCell dir k i)

/-- One step towards the edge is one place down in the line. -/
theorem dirPos_lineCell (dir : Direction) {k i : Nat} (hk : k < 4) (hi : i < 4) :
    dirPos (lineCell dir k i) dir = cellBefore dir k i := by
  have hall : ∀ k < 4, ∀ i < 4, dirPos (lineCell dir k i) dir = cellBefore dir k i := by
    cases dir <;> decide
  exact hall k hk i hi

/-- A cell has one place in one line. -/
theorem lineCell_inj (dir : Direction) {k i k' i' : Nat} (hk : k < 4) (hi : i < 4) (hk' : k' < 4)
    (hi' : i' < 4) : lineCell dir k i = lineCell dir k' i' ↔ k = k' ∧ i = i' := by
  cases dir <;> simp only [lineCell, cell, Fin.ext_iff, Fin.val_ofNat] <;> omega

/-- The next tile of a line comes to a stack of tiles, each with the mark of a merged one. -/
def push (stack : List (Nat × Bool)) (val : Nat) : List (Nat × Bool) :=
  if val = 0 then stack
  else
    match stack with
    | (top, false) :: rest =>
      if top = val then (top + 1, true) :: rest else (val, false) :: (top, false) :: rest
    | _ => (val, false) :: stack

@[simp] theorem push_zero (stack : List (Nat × Bool)) : push stack 0 = stack := if_pos rfl

/-- The tiles of a stack, from the edge. -/
def stackTiles (stack : List (Nat × Bool)) : List Nat := stack.reverse.map Prod.fst

@[simp] theorem stackTiles_cons (top : Nat × Bool) (stack : List (Nat × Bool)) :
    stackTiles (top :: stack) = stackTiles stack ++ [top.1] := by
  simp [stackTiles]

/-- A stack whose top takes no further tile: it is empty, or the top is merged. -/
def Closed (stack : List (Nat × Bool)) : Prop := ∀ top ∈ stack.head?, top.2 = true

/-- A closed stack takes a tile as it is. -/
theorem push_closed {stack : List (Nat × Bool)} (h : Closed stack) {val : Nat} (hval : val ≠ 0) :
    push stack val = (val, false) :: stack := by
  unfold push
  rw [if_neg hval]
  cases stack with
  | nil => rfl
  | cons top rest =>
      obtain ⟨tile, merged⟩ := top
      have hmerged : merged = true := h (tile, merged) rfl
      rw [hmerged]

/-- On an open stack a tile of the same value merges. -/
theorem push_open (stack : List (Nat × Bool)) (top : Nat) {val : Nat} (hval : val ≠ 0) :
    push ((top, false) :: stack) val =
      if top = val then (top + 1, true) :: stack else (val, false) :: (top, false) :: stack := by
  unfold push
  rw [if_neg hval]

/-- Tiles that come one by one merge in the pairs of the rule. -/
theorem stackTiles_foldl_push (vals : List Nat) (hvals : ∀ val ∈ vals, val ≠ 0)
    (stack : List (Nat × Bool)) :
    (Closed stack → stackTiles (vals.foldl push stack) = stackTiles stack ++ mergePairs vals) ∧
      ∀ top, stackTiles (vals.foldl push ((top, false) :: stack)) =
        stackTiles stack ++ mergePairs (top :: vals) := by
  induction vals generalizing stack with
  | nil => exact ⟨fun _ => (List.append_nil _).symm, fun top => stackTiles_cons _ _⟩
  | cons val vals ih =>
      have hval : val ≠ 0 := hvals val List.mem_cons_self
      have hrest := ih fun other hother => hvals other (List.mem_cons_of_mem val hother)
      refine ⟨fun hclosed => ?_, fun top => ?_⟩
      · rw [List.foldl_cons, push_closed hclosed hval]
        exact (hrest stack).2 val
      · rw [List.foldl_cons, push_open stack top hval, mergePairs]
        split
        · have hclosed : Closed ((top + 1, true) :: stack) := by simp [Closed]
          rw [(hrest _).1 hclosed, stackTiles_cons, List.append_assoc]
          rfl
        · rw [(hrest _).2 val, stackTiles_cons, List.append_assoc]
          rfl

/-- Empty cells do not touch the stack. -/
theorem foldl_push_filter (vals : List Nat) (stack : List (Nat × Bool)) :
    (vals.filter (· ≠ 0)).foldl push stack = vals.foldl push stack := by
  induction vals generalizing stack with
  | nil => rfl
  | cons val vals ih =>
      by_cases hval : val = 0
      · rw [List.filter_cons_of_neg (by simpa using hval), ih, List.foldl_cons, hval, push_zero]
      · rw [List.filter_cons_of_pos (by simpa using hval), List.foldl_cons, ih, List.foldl_cons]

/-- The stack of a whole line is the line after the rule of the game. -/
theorem stackTiles_line (vals : List Nat) :
    stackTiles (vals.foldl push []) = mergePairs (vals.filter (· ≠ 0)) := by
  rw [← foldl_push_filter]
  refine (stackTiles_foldl_push _ (fun val hval => ?_) []).1 (by simp [Closed])
  simpa using (List.mem_filter.mp hval).2

/-- The values of a line, of which the first `i` cells have had their turn. -/
def layout (vals : Nat → Nat) (i : Nat) (stack : List (Nat × Bool)) (j : Nat) : Nat × Bool :=
  stack.reverse.getD j (if j < i then 0 else vals j, false)

/-- The top of the stack stands behind the rest of it. -/
theorem layout_cons (vals : Nat → Nat) (i : Nat) (top : Nat × Bool) (stack : List (Nat × Bool))
    (j : Nat) : layout vals i (top :: stack) j =
      if j = stack.length then top else layout vals i stack j := by
  unfold layout
  rw [List.reverse_cons]
  rcases Nat.lt_trichotomy j stack.length with hlt | heq | hgt
  · rw [List.getD_append _ _ _ _ (by simpa using hlt), if_neg hlt.ne]
  · rw [List.getD_append_right _ _ _ _ (by simp [heq]), if_pos heq]
    simp [heq]
  · rw [if_neg hgt.ne', List.getD_eq_default _ _ (by simp; omega),
      List.getD_eq_default _ _ (by simp; omega)]

/-- Behind the stack the cells are empty up to those that have not had their turn. -/
theorem layout_of_le {vals : Nat → Nat} {i : Nat} {stack : List (Nat × Bool)} {j : Nat}
    (h : stack.length ≤ j) : layout vals i stack j = (if j < i then 0 else vals j, false) :=
  List.getD_eq_default _ _ (by simpa using h)

/-- A turn does not change the values of the others. -/
theorem layout_succ {vals : Nat → Nat} {i : Nat} {stack : List (Nat × Bool)} {j : Nat}
    (h : j ≠ i) : layout vals (i + 1) stack j = layout vals i stack j := by
  have hiff : j < i + 1 ↔ j < i := by omega
  simp only [layout, hiff]

/-- The stack that the first cells of a line make. -/
def stackOf (vals : Nat → Nat) (i : Nat) : List (Nat × Bool) :=
  ((List.range i).map vals).foldl push []

/-- One more cell comes to the stack. -/
theorem stackOf_succ (vals : Nat → Nat) (i : Nat) :
    stackOf vals (i + 1) = push (stackOf vals i) (vals i) := by
  simp [stackOf, List.range_succ]

/-- The stack grows by one tile at most. -/
theorem push_length_le (stack : List (Nat × Bool)) (val : Nat) :
    (push stack val).length ≤ stack.length + 1 := by
  unfold push
  split
  · exact Nat.le_succ _
  · split
    · split <;> simp
    · simp

/-- There are no more tiles on it than cells have had their turn. -/
theorem stackOf_length_le (vals : Nat → Nat) (i : Nat) : (stackOf vals i).length ≤ i := by
  induction i with
  | zero => exact le_rfl
  | succ i ih =>
      rw [stackOf_succ]
      have hpush := push_length_le (stackOf vals i) (vals i)
      omega

/-- No empty cell gets onto the stack. -/
theorem push_ne_zero {stack : List (Nat × Bool)} (h : ∀ top ∈ stack, top.1 ≠ 0) (val : Nat) :
    ∀ top ∈ push stack val, top.1 ≠ 0 := by
  unfold push
  split
  · exact h
  · rename_i hval
    split
    · split <;> simp_all
    · simp_all

/-- So the stack of a line has tiles only. -/
theorem stackOf_ne_zero (vals : Nat → Nat) (i : Nat) : ∀ top ∈ stackOf vals i, top.1 ≠ 0 := by
  induction i with
  | zero => simp [stackOf]
  | succ i ih =>
      rw [stackOf_succ]
      exact push_ne_zero ih (vals i)

/-- A tile merges with the top of a stack, or goes on it. -/
theorem push_cases (stack : List (Nat × Bool)) {val : Nat} (hval : val ≠ 0) :
    (∃ rest, stack = (val, false) :: rest ∧ push stack val = (val + 1, true) :: rest) ∨
      (∀ rest, stack ≠ (val, false) :: rest) ∧ push stack val = (val, false) :: stack := by
  unfold push
  rw [if_neg hval]
  split
  · rename_i top rest
    split
    · rename_i htop
      exact Or.inl ⟨rest, by rw [htop], by rw [htop]⟩
    · rename_i htop
      exact Or.inr ⟨fun other hother => htop (by simp_all), rfl⟩
  · rename_i hclosed
    exact Or.inr ⟨fun other hother => hclosed val other hother, rfl⟩

variable {vals : Nat → Nat} {dir : Direction} {k i : Nat} {st : MoveState}

/-- A tile looks over the empty cells in front of it, up to a tile or to the edge. -/
theorem getTargetPosLoop_lineCell {tiles : Tiles} (hk : k < 4) {n d fuel : Nat} (hfuel : d < fuel)
    (hd : n + d < 4) (hempty : ∀ j, n ≤ j → j < n + d → tiles (lineCell dir k j) = 0)
    (htile : ∀ before, n = before + 1 → tiles (lineCell dir k before) ≠ 0) :
    getTargetPosLoop tiles dir fuel (lineCell dir k (n + d)) =
      (lineCell dir k n, cellBefore dir k n) := by
  induction d generalizing fuel with
  | zero =>
      obtain ⟨fuel, rfl⟩ : ∃ more, fuel = more + 1 := ⟨fuel - 1, by omega⟩
      rw [Nat.add_zero, getTargetPosLoop, dirPos_lineCell dir hk hd]
      cases n with
      | zero => rfl
      | succ before =>
          simp only [cellBefore]
          rw [if_neg (htile before rfl)]
  | succ d ih =>
      obtain ⟨fuel, rfl⟩ : ∃ more, fuel = more + 1 := ⟨fuel - 1, by omega⟩
      rw [← Nat.add_assoc, getTargetPosLoop, dirPos_lineCell dir hk (by omega)]
      simp only [cellBefore]
      rw [if_pos (hempty (n + d) (by omega) (by omega))]
      exact ih (by omega) (by omega) fun j hj hlt => hempty j hj (by omega)

/-- The first `i` cells of a line have had their turn. -/
def Packed (vals : Nat → Nat) (dir : Direction) (k i : Nat) (st : MoveState) : Prop :=
  ∀ j < 4, (st.tiles (lineCell dir k j), st.merged (lineCell dir k j)) =
    layout vals i (stackOf vals i) j

namespace Packed

/-- A cell whose turn has not come has its own tile. -/
theorem tile (h : Packed vals dir k i st) (hi : i < 4) : st.tiles (lineCell dir k i) = vals i := by
  have hcell := h i hi
  rw [layout_of_le (stackOf_length_le vals i), if_neg (lt_irrefl i)] at hcell
  exact congrArg Prod.fst hcell

/-- A tile looks up to the end of the stack. -/
theorem target (h : Packed vals dir k i st) (hk : k < 4) (hi : i < 4) :
    getTargetPos st.tiles (lineCell dir k i) dir =
      (lineCell dir k (stackOf vals i).length, cellBefore dir k (stackOf vals i).length) := by
  obtain ⟨d, hd⟩ := Nat.exists_eq_add_of_le (stackOf_length_le vals i)
  rw [getTargetPos]
  nth_rewrite 1 [hd]
  apply getTargetPosLoop_lineCell hk (by omega) (by omega)
  · intro j hj hlt
    have hcell := h j (by omega)
    rw [layout_of_le hj, if_pos (by omega)] at hcell
    exact congrArg Prod.fst hcell
  · intro before hbefore
    have hcell := h before (by omega)
    have hmem : layout vals i (stackOf vals i) before ∈ stackOf vals i := by
      rw [layout, List.getD_eq_getElem _ _ (by simp; omega)]
      exact List.mem_reverse.mp (List.getElem_mem _)
    have htile := stackOf_ne_zero vals i _ hmem
    rwa [← hcell] at htile

/-- What the turn of the next cell does: nothing, a merge with the top of the stack, or a move to
the end of it. -/
theorem step_cases (h : Packed vals dir k i st) (hk : k < 4) (hi : i < 4) :
    vals i = 0 ∧ st.step dir (lineCell dir k i) = st ∨
    (∃ rest, stackOf vals i = (vals i, false) :: rest ∧
      stackOf vals (i + 1) = (vals i + 1, true) :: rest ∧
      st.step dir (lineCell dir k i) =
        st.merge (lineCell dir k i) (lineCell dir k rest.length)) ∨
    vals i ≠ 0 ∧ stackOf vals (i + 1) = (vals i, false) :: stackOf vals i ∧
      st.step dir (lineCell dir k i) =
        st.slide (lineCell dir k i) (lineCell dir k (stackOf vals i).length) := by
  have htile := h.tile hi
  have hle := stackOf_length_le vals i
  by_cases hval : vals i = 0
  · refine Or.inl ⟨hval, ?_⟩
    rw [MoveState.step, if_neg (by omega)]
  refine Or.inr ?_
  rw [MoveState.step, if_pos (by omega), h.target hk hi, stackOf_succ]
  rcases push_cases (stackOf vals i) hval with ⟨rest, hstack, hpush⟩ | ⟨hstack, hpush⟩
  · have hcell := h rest.length (by rw [hstack, List.length_cons] at hle; omega)
    rw [hstack, layout_cons, if_pos rfl, Prod.mk.injEq] at hcell
    refine Or.inl ⟨rest, hstack, hpush, ?_⟩
    rw [hstack]
    simp only [List.length_cons, cellBefore]
    rw [if_pos ⟨hcell.1.trans htile.symm, hcell.2⟩]
  · refine Or.inr ⟨hval, hpush, ?_⟩
    cases hcase : stackOf vals i with
    | nil => rfl
    | cons top rest =>
        have hcell := h rest.length (by rw [hcase, List.length_cons] at hle; omega)
        rw [hcase, layout_cons, if_pos rfl] at hcell
        simp only [List.length_cons, cellBefore]
        rw [if_neg]
        rintro ⟨htop, hmerged⟩
        apply hstack rest
        rw [hcase, ← hcell, htop, hmerged, htile]

/-- A turn leaves the other lines as they are. -/
theorem step_other (h : Packed vals dir k i st) (hk : k < 4) (hi : i < 4) {k' j : Nat}
    (hk' : k' < 4) (hne : k' ≠ k) (hj : j < 4) :
    (st.step dir (lineCell dir k i)).tiles (lineCell dir k' j) = st.tiles (lineCell dir k' j) ∧
      (st.step dir (lineCell dir k i)).merged (lineCell dir k' j) =
        st.merged (lineCell dir k' j) := by
  have hle := stackOf_length_le vals i
  have hcell : ∀ n < 4, lineCell dir k' j ≠ lineCell dir k n := by
    intro n hn heq
    exact hne ((lineCell_inj dir hk' hj hk hn).mp heq).1
  rcases h.step_cases hk hi with ⟨-, hstep⟩ | ⟨rest, hstack, -, hstep⟩ | ⟨-, -, hstep⟩
  · rw [hstep]
    exact ⟨rfl, rfl⟩
  · have hlen : rest.length < 4 := by rw [hstack, List.length_cons] at hle; omega
    rw [hstep, MoveState.merge]
    simp [Function.update_of_ne (hcell i hi), Function.update_of_ne (hcell rest.length hlen)]
  · have hlen : (stackOf vals i).length < 4 := by omega
    rw [hstep, MoveState.slide]
    split
    · simp [MoveState.shift, Function.update_of_ne (hcell i hi),
        Function.update_of_ne (hcell (stackOf vals i).length hlen)]
    · exact ⟨rfl, rfl⟩

/-- Two places of a line are the same cell when they are the same place. -/
theorem own_iff (hk : k < 4) {j n : Nat} (hj : j < 4) (hn : n < 4) :
    lineCell dir k j = lineCell dir k n ↔ j = n := by
  rw [lineCell_inj dir hk hj hk hn]
  exact and_iff_right rfl

/-- The mark of a cell behind the stack. -/
theorem merged_behind (h : Packed vals dir k i st) {j : Nat} (hj : j < 4)
    (hle : (stackOf vals i).length ≤ j) : st.merged (lineCell dir k j) = false := by
  have hcell := h j hj
  rw [layout_of_le hle] at hcell
  exact congrArg Prod.snd hcell

/-- An empty cell goes to those behind the stack. -/
theorem stay (h : Packed vals dir k i st) (hval : vals i = 0) : Packed vals dir k (i + 1) st := by
  intro j hj
  have hle := stackOf_length_le vals i
  rw [h j hj, stackOf_succ, hval, push_zero]
  by_cases hji : j = i
  · rw [layout_of_le (by omega), layout_of_le (by omega), if_neg (by omega), if_pos (by omega), hji,
      hval]
  · rw [layout_succ hji]

/-- A tile is merged with the top of the stack. -/
theorem merge (h : Packed vals dir k i st) (hk : k < 4) (hi : i < 4) {rest : List (Nat × Bool)}
    (hstack : stackOf vals i = (vals i, false) :: rest)
    (hpush : stackOf vals (i + 1) = (vals i + 1, true) :: rest) :
    Packed vals dir k (i + 1) (st.merge (lineCell dir k i) (lineCell dir k rest.length)) := by
  intro j hj
  have hle := stackOf_length_le vals i
  have hlen : rest.length < i := by rw [hstack, List.length_cons] at hle; omega
  have hbehind := h.merged_behind hi hle
  have hcell := h j hj
  rw [hstack, layout_cons] at hcell
  rw [hpush, layout_cons]
  simp only [MoveState.merge, Function.update_apply, own_iff hk hj hi,
    own_iff hk hj (hlen.trans hi)]
  by_cases hji : j = i
  · have hne : ¬ i = rest.length := by omega
    rw [hji, if_pos rfl, if_neg hne, if_neg hne, layout_of_le hlen.le,
      if_pos (Nat.lt_succ_self i), hbehind]
  by_cases hjr : j = rest.length
  · rw [if_pos hjr, Prod.mk.injEq, hjr] at hcell
    rw [if_neg hji, if_pos hjr, if_pos hjr, if_pos hjr, hcell.1]
  · rw [if_neg hjr] at hcell
    rw [if_neg hji, if_neg hjr, if_neg hjr, if_neg hjr, hcell, layout_succ hji]

/-- A tile goes to the end of the stack. -/
theorem slide (h : Packed vals dir k i st) (hk : k < 4) (hi : i < 4)
    (hpush : stackOf vals (i + 1) = (vals i, false) :: stackOf vals i) :
    Packed vals dir k (i + 1)
      (st.slide (lineCell dir k i) (lineCell dir k (stackOf vals i).length)) := by
  intro j hj
  have htile := h.tile hi
  have hle := stackOf_length_le vals i
  have hbehind : (stackOf vals i).length ≤ j → st.merged (lineCell dir k j) = false :=
    h.merged_behind hj
  have hcell := h j hj
  rw [hpush, layout_cons, MoveState.slide]
  by_cases hend : (stackOf vals i).length = i
  · rw [hend, if_neg (not_not.mpr rfl)]
    by_cases hji : j = i
    · rw [hji] at hbehind ⊢
      rw [if_pos rfl, htile, hbehind hle]
    · rw [if_neg hji, layout_succ hji, hcell]
  · have hne : lineCell dir k i ≠ lineCell dir k (stackOf vals i).length := by
      rw [Ne, own_iff hk hi (by omega)]
      exact Ne.symm hend
    rw [if_pos hne]
    simp only [MoveState.shift, Function.update_apply, own_iff hk hj hi,
      own_iff hk hj (hle.trans_lt hi)]
    by_cases hji : j = i
    · rw [if_pos hji, if_neg (by omega), layout_of_le (by omega), if_pos (by omega),
        hbehind (by omega)]
    by_cases hjn : j = (stackOf vals i).length
    · rw [if_neg hji, if_pos hjn, if_pos hjn, htile, hbehind hjn.ge]
    · rw [if_neg hji, if_neg hjn, if_neg hjn, layout_succ hji, hcell]

/-- A turn packs one more cell of its line. -/
theorem step_own (h : Packed vals dir k i st) (hk : k < 4) (hi : i < 4) :
    Packed vals dir k (i + 1) (st.step dir (lineCell dir k i)) := by
  rcases h.step_cases hk hi with ⟨hval, hstep⟩ | ⟨rest, hstack, hpush, hstep⟩ | ⟨-, hpush, hstep⟩
  · rw [hstep]
    exact h.stay hval
  · rw [hstep]
    exact h.merge hk hi hstack hpush
  · rw [hstep]
    exact h.slide hk hi hpush

/-- A turn of one line keeps the others packed. -/
theorem step_frame {vals' : Nat → Nat} {k' i' : Nat} (h : Packed vals dir k i st)
    (h' : Packed vals' dir k' i' st) (hk : k < 4) (hi : i < 4) (hk' : k' < 4) (hne : k' ≠ k) :
    Packed vals' dir k' i' (st.step dir (lineCell dir k i)) := by
  intro j hj
  obtain ⟨htiles, hmerged⟩ := h.step_other hk hi hk' hne hj
  rw [htiles, hmerged]
  exact h' j hj

end Packed

/-- The lines of the cells and their places in them, in the order of a move. -/
def turns : Direction → List (Nat × Nat)
  | .up | .down => (List.range 4).flatMap fun i => (List.range 4).map fun k => (k, i)
  | .left | .right => (List.range 4).flatMap fun k => (List.range 4).map fun i => (k, i)

/-- The positions of a move, as lines and places in them. -/
theorem movePositions_eq (dir : Direction) :
    movePositions dir = (turns dir).map fun turn => lineCell dir turn.1 turn.2 := by
  cases dir <;> decide

/-- One more cell of a line has had its turn. -/
def countTurn (seen : Nat → Nat) (turn : Nat × Nat) : Nat → Nat :=
  Function.update seen turn.1 (turn.2 + 1)

/-- Every line has its turns from the edge on. -/
def InOrder : (Nat → Nat) → List (Nat × Nat) → Prop
  | _, [] => True
  | seen, turn :: rest =>
    turn.1 < 4 ∧ turn.2 < 4 ∧ seen turn.1 = turn.2 ∧ InOrder (countTurn seen turn) rest

/-- Every line has its turns from the edge on, in each direction. -/
theorem turns_inOrder (dir : Direction) : InOrder (fun _ => 0) (turns dir) := by
  cases dir <;> simp [turns, List.range_succ, InOrder, countTurn]

/-- At the end every line has had four. -/
theorem turns_count (dir : Direction) :
    ∀ k < 4, (turns dir).foldl countTurn (fun _ => 0) k = 4 := by
  cases dir <;> decide

/-- The lines stay packed over turns that are in order. -/
theorem packed_foldl {vals : Nat → Nat → Nat} {rest : List (Nat × Nat)} {seen : Nat → Nat}
    (horder : InOrder seen rest) (h : ∀ k < 4, Packed (vals k) dir k (seen k) st) :
    ∀ k < 4, Packed (vals k) dir k (rest.foldl countTurn seen k)
      ((rest.map fun turn => lineCell dir turn.1 turn.2).foldl (MoveState.step dir) st) := by
  induction rest generalizing seen st with
  | nil => exact h
  | cons turn rest ih =>
      obtain ⟨hk, hi, hseen, hrest⟩ := horder
      have hpacked : Packed (vals turn.1) dir turn.1 turn.2 st := hseen ▸ h turn.1 hk
      apply ih hrest
      intro k hk'
      by_cases hne : k = turn.1
      · rw [hne, countTurn, Function.update_self]
        exact hpacked.step_own hk hi
      · rw [countTurn, Function.update_of_ne hne]
        exact hpacked.step_frame (h k hk') hk hi hk' hne

/-- Before the first turn nothing is packed. -/
theorem packed_init (tiles : Tiles) (dir : Direction) (k : Nat) :
    Packed (fun j => tiles (lineCell dir k j)) dir k 0 ⟨tiles, fun _ => false, false⟩ := by
  intro j hj
  rw [layout_of_le (Nat.zero_le j), if_neg (Nat.not_lt_zero j)]

/-- The values of a line with a stack at its edge and nothing behind it. -/
theorem map_layout (vals : Nat → Nat) {stack : List (Nat × Bool)} {n : Nat}
    (hlen : stack.length ≤ n) :
    (List.range n).map (fun j => (layout vals n stack j).1) =
      stackTiles stack ++ List.replicate (n - stack.length) 0 := by
  apply List.ext_getElem
  · simp [stackTiles]
    omega
  · intro j hj hj'
    have hn : j < n := by simpa using hj
    rw [List.getElem_map, List.getElem_range, List.getElem_append]
    split
    · rename_i hlt
      have hlt' : j < stack.reverse.length := by simpa [stackTiles] using hlt
      rw [layout, List.getD_eq_getElem _ _ hlt']
      simp [stackTiles]
    · rename_i hge
      have hge' : stack.length ≤ j := by simpa [stackTiles] using hge
      rw [layout_of_le hge', if_pos hn, List.getElem_replicate]

/-- A move makes of every line what the rule of the game does. -/
theorem lineOf_tryMove (tiles : Tiles) (dir : Direction) {k : Nat} (hk : k < 4) :
    lineOf (tryMove tiles dir).2 dir k = slideLine (lineOf tiles dir k) := by
  have hpacked := packed_foldl (turns_inOrder dir) (fun k _ => packed_init tiles dir k) k hk
  rw [turns_count dir k hk, ← movePositions_eq] at hpacked
  have hlen : (stackOf (fun j => tiles (lineCell dir k j)) 4).length ≤ 4 := stackOf_length_le _ 4
  calc lineOf (tryMove tiles dir).2 dir k
      = (List.range 4).map fun j => (layout (fun j => tiles (lineCell dir k j)) 4
          (stackOf (fun j => tiles (lineCell dir k j)) 4) j).1 := by
        apply List.map_congr_left
        intro j hj
        exact congrArg Prod.fst (hpacked j (List.mem_range.mp hj))
    _ = slideLine (lineOf tiles dir k) := by
        rw [map_layout _ hlen, stackOf, stackTiles_line]
        have hstack := congrArg List.length (stackTiles_line (lineOf tiles dir k))
        simp only [stackTiles, List.length_map, List.length_reverse] at hstack
        simp only [slideLine, ← hstack]
        simp [lineOf]

namespace MoveState

/-- A cell that is not as it was, and stays so: it was empty and is not, or its tile is merged. -/
def Changed (tiles : Tiles) (positions : List (Fin 16)) (st : MoveState) : Prop :=
  ∃ q, q ∉ positions ∧
    (tiles q = 0 ∧ st.tiles q ≠ 0 ∨ st.merged q = true ∧ st.tiles q = tiles q + 1)

/-- A move has done nothing yet, or some cell has changed for good and another one is empty. -/
def Progress (tiles : Tiles) (positions : List (Fin 16)) (st : MoveState) : Prop :=
  st.canMove = false ∧ st.tiles = tiles ∧ (∀ q, st.merged q = false) ∨
    st.canMove = true ∧ Changed tiles positions st ∧ ∃ q, st.tiles q = 0

variable {start : Tiles} {pos : Fin 16} {positions : List (Fin 16)} {st' : MoveState}

/-- A cell that has changed for good stays so over a turn. -/
theorem Turn.changed (h : Turn dir st pos st') (hst : Changed start (pos :: positions) st) :
    Changed start positions st' := by
  obtain ⟨q, hq, hchange⟩ := hst
  obtain ⟨hne, hrest⟩ := List.ne_and_not_mem_of_not_mem_cons hq
  refine ⟨q, hrest, ?_⟩
  cases h with
  | stay => exact hchange
  | merge target hacts hrank htile hmerged =>
      by_cases htarget : q = target
      · subst htarget
        rcases hchange with hnew | ⟨hmark, -⟩
        · exact Or.inl (by simp [MoveState.merge, hne, hnew.1])
        · rw [hmerged] at hmark
          cases hmark
      · simpa [MoveState.merge, hne, htarget] using hchange
  | shift target hacts hrank htile =>
      have htarget : q ≠ target := by
        rintro rfl
        rcases hchange with ⟨-, hfull⟩ | ⟨-, hnext⟩
        · exact hfull htile
        · omega
      simpa [MoveState.shift, hne, htarget] using hchange

/-- A turn that does something leaves its own cell empty. -/
theorem Turn.exists_empty (h : Turn dir st pos st') (hst : ∃ q, st.tiles q = 0) :
    ∃ q, st'.tiles q = 0 := by
  cases h with
  | stay => exact hst
  | merge target => exact ⟨pos, by simp [MoveState.merge]⟩
  | shift target => exact ⟨pos, by simp [MoveState.shift]⟩

/-- A turn does nothing, or leaves a changed cell and an empty one. -/
theorem Turn.progress (h : Turn dir st pos st')
    (hrest : ∀ q ∈ positions, rank dir pos < rank dir q)
    (hst : Progress start (pos :: positions) st) : Progress start positions st' := by
  -- the cell that a tile goes to has had its turn
  have hearlier : ∀ {target}, rank dir target < rank dir pos →
      target ∉ positions ∧ target ≠ pos := by
    intro target hrank
    refine ⟨fun hmem => ?_, fun heq => ?_⟩
    · have hlater := hrest target hmem
      omega
    · rw [heq] at hrank
      omega
  rcases hst with ⟨hmove, htiles, hmarks⟩ | ⟨hmove, hchanged, hempty⟩
  · cases h with
    | stay => exact Or.inl ⟨hmove, htiles, hmarks⟩
    | merge target hacts hrank htile hmerged =>
        obtain ⟨hmem, hne⟩ := hearlier hrank
        refine Or.inr ⟨rfl, ⟨target, hmem, Or.inr ?_⟩, pos, by simp [MoveState.merge]⟩
        simp [MoveState.merge, hne, htiles]
    | shift target hacts hrank htile =>
        obtain ⟨hmem, hne⟩ := hearlier hrank
        refine Or.inr ⟨rfl, ⟨target, hmem, Or.inl ⟨htiles ▸ htile, ?_⟩⟩, pos, by
          simp [MoveState.shift]⟩
        simpa [MoveState.shift, hne] using Nat.ne_of_gt hacts.1
  · exact Or.inr ⟨h.canMove hmove, h.changed hchanged, h.exists_empty hempty⟩

/-- So do all turns together, when they come in the order of the move. -/
theorem progress_foldl (hsorted : positions.Pairwise fun p q => rank dir p < rank dir q)
    (hst : Progress start positions st) : Progress start [] (positions.foldl (step dir) st) := by
  induction positions generalizing st with
  | nil => exact hst
  | cons pos positions ih =>
      obtain ⟨hrest, htail⟩ := List.pairwise_cons.mp hsorted
      exact ih htail ((step_turn dir st pos).progress hrest hst)

end MoveState

/-- A move that can not be made changes nothing, and one that can be made leaves another board with
an empty cell. -/
theorem tryMove_progress (tiles : Tiles) (dir : Direction) :
    (tryMove tiles dir).1 = false ∧ (tryMove tiles dir).2 = tiles ∨
      (tryMove tiles dir).1 = true ∧ (tryMove tiles dir).2 ≠ tiles ∧
        ∃ q, (tryMove tiles dir).2 q = 0 := by
  have hinit : MoveState.Progress tiles (movePositions dir) ⟨tiles, fun _ => false, false⟩ :=
    Or.inl ⟨rfl, rfl, fun _ => rfl⟩
  rcases MoveState.progress_foldl (movePositions_pairwise dir) hinit with
    ⟨hmove, htiles, -⟩ | ⟨hmove, ⟨q, -, hchange⟩, hempty⟩
  · exact Or.inl ⟨hmove, htiles⟩
  · refine Or.inr ⟨hmove, fun hsame => ?_, hempty⟩
    have hcell := congrFun hsame q
    simp only [tryMove] at hcell
    rw [hcell] at hchange
    omega

/-- `TryMove` makes of every line along the direction what the rule of the game does, returns true
exactly when the board changes, and then leaves an empty cell. Tiles up to 126 stay within the
`int8_t` of the source. -/
theorem tryMove_rule (tiles : Tiles) (dir : Direction) :
    (∀ k < 4, lineOf (tryMove tiles dir).2 dir k = slideLine (lineOf tiles dir k)) ∧
      ((tryMove tiles dir).1 = true ↔ (tryMove tiles dir).2 ≠ tiles) ∧
      ((tryMove tiles dir).1 = true → ∃ q, (tryMove tiles dir).2 q = 0) ∧
      ((∀ q, tiles q ≤ 126) → ∀ q, (tryMove tiles dir).2 q ≤ 127) := by
  refine ⟨fun k hk => lineOf_tryMove tiles dir hk, ?_, ?_, fun hbound => tryMove_le hbound dir⟩
  · rcases tryMove_progress tiles dir with ⟨hmove, hsame⟩ | ⟨hmove, hne, -⟩
    · simp [hmove, hsame]
    · exact iff_of_true hmove hne
  · intro htrue
    rcases tryMove_progress tiles dir with ⟨hmove, -⟩ | ⟨-, -, hempty⟩
    · rw [hmove] at htrue
      cases htrue
    · exact hempty

/-- Two pairs in one line make two tiles, and none of them merges again. -/
example : slideLine [1, 1, 2, 0] = [2, 2, 0, 0] := by decide

end CodeBlocks.Ai2048
