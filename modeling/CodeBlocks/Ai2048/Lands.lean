import Mathlib.Combinatorics.SimpleGraph.Connectivity.Connected
import CodeBlocks.Core.Flood
import CodeBlocks.Ai2048.Eval

/-!
# Lands

`GetLandNum` counts the connected regions of equal tiles. A new tile makes one
more of them, unless it touches an equal one.
-/

namespace CodeBlocks.Ai2048

/-- The neighbours of a cell, in the order of `dir_pos`. -/
def neighbours (pos : Fin 16) : List (Option (Fin 16)) := directions.map (dirPos pos)

theorem neighbours_symm : ∀ p q, some q ∈ neighbours p → some p ∈ neighbours q := by
  decide

theorem neighbours_ne : ∀ p, some p ∉ neighbours p := by
  decide

/-- `Mark` fills the cells of one value. -/
theorem mark_eq_fill (tiles : Tiles) (fuel : Nat) (pos : Option (Fin 16)) (val : Nat)
    (marked : Fin 16 → Bool) :
    mark tiles fuel pos val marked =
      Flood.fill neighbours (fun q => tiles q = val) fuel pos marked := by
  induction fuel generalizing pos marked with
  | zero => rfl
  | succ fuel ih =>
      cases pos with
      | none => rfl
      | some pos => simp only [mark, Flood.fill, ih, neighbours, List.foldl_map]

/-- Equal tiles next to each other. -/
def landGraph (tiles : Tiles) : SimpleGraph (Fin 16) where
  Adj p q := some q ∈ neighbours p ∧ tiles p = tiles q ∧ tiles p ≠ 0
  symm := ⟨fun p q h => ⟨neighbours_symm p q h.1, h.2.1.symm, h.2.1 ▸ h.2.2⟩⟩
  loopless := ⟨fun p h => neighbours_ne p h.1⟩

variable {tiles : Tiles}

/-- Filling from a tile stays on its land. -/
theorem reaches_iff_reachable {p : Fin 16} (hp : tiles p ≠ 0) (q : Fin 16) :
    Flood.Reaches neighbours (fun r => tiles r = tiles p) p q ↔
      (landGraph tiles).Reachable p q := by
  rw [SimpleGraph.reachable_iff_reflTransGen]
  constructor
  · intro h
    have hpath : tiles q = tiles p ∧ Relation.ReflTransGen (landGraph tiles).Adj p q := by
      induction h with
      | refl => exact ⟨rfl, Relation.ReflTransGen.refl⟩
      | tail _ hstep ih =>
          exact ⟨hstep.2, ih.2.tail ⟨hstep.1, ih.1.trans hstep.2.symm, ih.1 ▸ hp⟩⟩
    exact hpath.2
  · intro h
    have hpath : tiles q = tiles p ∧ Flood.Reaches neighbours (fun r => tiles r = tiles p) p q := by
      induction h with
      | refl => exact ⟨rfl, Relation.ReflTransGen.refl⟩
      | tail _ hstep ih =>
          have hval := hstep.2.1.symm.trans ih.1
          exact ⟨hval, ih.2.tail ⟨hstep.1, hval⟩⟩
    exact hpath.2

noncomputable instance (tiles : Tiles) : DecidableEq (landGraph tiles).ConnectedComponent :=
  Classical.decEq _

/-- The land of a cell; an empty one is a land of its own. -/
abbrev landAt (tiles : Tiles) (p : Fin 16) : (landGraph tiles).ConnectedComponent :=
  (landGraph tiles).connectedComponentMk p

/-- The lands that some cells belong to. -/
noncomputable def landsOf (tiles : Tiles) (cells : Finset (Fin 16)) :
    Finset (landGraph tiles).ConnectedComponent :=
  cells.image (landAt tiles)

theorem landsOf_insert (p : Fin 16) (cells : Finset (Fin 16)) :
    landsOf tiles (insert p cells) = insert (landAt tiles p) (landsOf tiles cells) :=
  Finset.image_insert ..

theorem landAt_mem_landsOf {p : Fin 16} {cells : Finset (Fin 16)} :
    landAt tiles p ∈ landsOf tiles cells ↔ ∃ q ∈ cells, (landGraph tiles).Reachable q p := by
  simp only [landsOf, Finset.mem_image, SimpleGraph.ConnectedComponent.eq]

/-- The tiles of a board. -/
def occupied (tiles : Tiles) : Finset (Fin 16) := Finset.univ.filter fun p => tiles p ≠ 0

/-- Where more tiles are joined, there are fewer lands. -/
theorem card_landsOf_le {tiles' : Tiles} (h : landGraph tiles ≤ landGraph tiles')
    (cells : Finset (Fin 16)) : (landsOf tiles' cells).card ≤ (landsOf tiles cells).card := by
  have himage : landsOf tiles' cells = (landsOf tiles cells).image
      (SimpleGraph.ConnectedComponent.map (SimpleGraph.Hom.ofLE h)) := by
    rw [landsOf, landsOf, Finset.image_image]
    rfl
  rw [himage]
  exact Finset.card_image_le

/-- The count and the marks of `GetLandNum` after some cells. -/
structure Counted (tiles : Tiles) (seen : Finset (Fin 16)) (state : Nat × (Fin 16 → Bool)) :
    Prop where
  count : state.1 = (landsOf tiles (seen.filter fun p => tiles p ≠ 0)).card
  marks : ∀ q, state.2 q = true ↔
    ∃ p ∈ seen, tiles p ≠ 0 ∧ (landGraph tiles).Reachable p q

namespace Counted

variable {seen : Finset (Fin 16)} {state : Nat × (Fin 16 → Bool)} {pos : Fin 16}

/-- An empty cell changes nothing. -/
theorem step_empty (h : Counted tiles seen state) (hpos : tiles pos = 0) :
    Counted tiles (insert pos seen) state := by
  constructor
  · rw [h.count, Finset.filter_insert, if_neg (not_not.mpr hpos)]
  · intro q
    rw [h.marks q]
    constructor
    · rintro ⟨p, hp, hland⟩
      exact ⟨p, Finset.mem_insert_of_mem hp, hland⟩
    · rintro ⟨p, hp, hne, hreach⟩
      rcases Finset.mem_insert.mp hp with rfl | hp
      · exact absurd hpos hne
      · exact ⟨p, hp, hne, hreach⟩

/-- A tile with a mark belongs to a land that is counted already. -/
theorem step_marked (h : Counted tiles seen state) (hpos : tiles pos ≠ 0)
    (hmarked : state.2 pos = true) : Counted tiles (insert pos seen) state := by
  obtain ⟨p, hp, hne, hreach⟩ := (h.marks pos).mp hmarked
  have hold : landAt tiles pos ∈ landsOf tiles (seen.filter fun p => tiles p ≠ 0) :=
    landAt_mem_landsOf.mpr ⟨p, Finset.mem_filter.mpr ⟨hp, hne⟩, hreach⟩
  constructor
  · rw [h.count, Finset.filter_insert, if_pos hpos, landsOf_insert, Finset.insert_eq_of_mem hold]
  · intro q
    rw [h.marks q]
    constructor
    · rintro ⟨p, hp, hland⟩
      exact ⟨p, Finset.mem_insert_of_mem hp, hland⟩
    · rintro ⟨r, hr, hrne, hrq⟩
      rcases Finset.mem_insert.mp hr with rfl | hr
      · exact ⟨p, hp, hne, hreach.trans hrq⟩
      · exact ⟨r, hr, hrne, hrq⟩

/-- A tile without a mark starts a new land, which is marked. -/
theorem step_new (h : Counted tiles seen state) (hpos : tiles pos ≠ 0)
    (hmarked : state.2 pos = false) :
    Counted tiles (insert pos seen)
      (state.1 + 1, mark tiles 17 (some pos) (tiles pos) state.2) := by
  have hnew : landAt tiles pos ∉ landsOf tiles (seen.filter fun p => tiles p ≠ 0) := by
    rw [landAt_mem_landsOf]
    rintro ⟨p, hp, hreach⟩
    obtain ⟨hp, hne⟩ := Finset.mem_filter.mp hp
    have htrue := (h.marks pos).mpr ⟨p, hp, hne, hreach⟩
    rw [hmarked] at htrue
    cases htrue
  have hclosed : Flood.Closed neighbours (fun q => tiles q = tiles pos) state.2 := by
    intro a b ha hold hnext hb
    obtain ⟨p, hp, hne, hreach⟩ := (h.marks a).mp hold
    have hadj : (landGraph tiles).Adj a b := ⟨hnext, ha.trans hb.symm, ha ▸ hpos⟩
    exact (h.marks b).mpr ⟨p, hp, hne, hreach.trans hadj.reachable⟩
  have hfuel : (Flood.unmarked state.2).card < 17 := by
    have hle := Finset.card_le_univ (Flood.unmarked state.2)
    rw [Fintype.card_fin] at hle
    omega
  constructor
  · rw [Finset.filter_insert, if_pos hpos, landsOf_insert, Finset.card_insert_of_notMem hnew,
      h.count]
  · intro q
    have hfill := @Flood.fill_eq_true_iff _ neighbours (fun q => tiles q = tiles pos) _ _ _ 17 pos
      state.2 rfl hclosed hfuel q
    rw [h.marks q, reaches_iff_reachable hpos, ← mark_eq_fill] at hfill
    rw [hfill]
    constructor
    · rintro (⟨p, hp, hland⟩ | hreach)
      · exact ⟨p, Finset.mem_insert_of_mem hp, hland⟩
      · exact ⟨pos, Finset.mem_insert_self _ _, hpos, hreach⟩
    · rintro ⟨p, hp, hne, hreach⟩
      rcases Finset.mem_insert.mp hp with rfl | hp
      · exact Or.inr hreach
      · exact Or.inl ⟨p, hp, hne, hreach⟩

/-- One more cell is counted. -/
theorem step (h : Counted tiles seen state) (pos : Fin 16) :
    Counted tiles (insert pos seen) (landStep tiles state pos) := by
  unfold landStep
  split
  · rename_i hnew
    exact h.step_new hnew.1 hnew.2
  · rename_i hold
    by_cases hpos : tiles pos = 0
    · exact h.step_empty hpos
    · apply h.step_marked hpos
      rw [← Bool.not_eq_false]
      exact fun hmarked => hold ⟨hpos, hmarked⟩

/-- Any more cells are counted. -/
theorem foldl (h : Counted tiles seen state) (cells : List (Fin 16)) :
    Counted tiles (cells.toFinset ∪ seen) (cells.foldl (landStep tiles) state) := by
  induction cells generalizing seen state with
  | nil => simpa using h
  | cons pos cells ih =>
      have hrest := ih (h.step pos)
      rwa [Finset.union_insert, ← Finset.insert_union, ← List.toFinset_cons] at hrest

end Counted

/-- `GetLandNum` counts the lands. -/
theorem getLandNum_eq (tiles : Tiles) :
    getLandNum tiles = (landsOf tiles (occupied tiles)).card := by
  have hinit : Counted tiles ∅ (0, fun _ => false) := by
    constructor
    · rfl
    · simp
  have hall := hinit.foldl (List.finRange 16)
  have huniv : (List.finRange 16).toFinset ∪ (∅ : Finset (Fin 16)) = Finset.univ := by
    decide
  rw [huniv] at hall
  exact hall.count

section Place

variable {pos : Fin 16} {val : Nat}

theorem occupied_update (hval : val ≠ 0) :
    occupied (Function.update tiles pos val) = insert pos (occupied tiles) := by
  ext p
  by_cases hp : p = pos
  · simp [occupied, hp, hval]
  · simp [occupied, hp]

/-- The lands of a board with a new tile: its own, and those of the others. -/
theorem getLandNum_update (hval : val ≠ 0) : getLandNum (Function.update tiles pos val) =
    (insert (landAt (Function.update tiles pos val) pos)
      (landsOf (Function.update tiles pos val) (occupied tiles))).card := by
  rw [getLandNum_eq, occupied_update hval, landsOf_insert]

variable (hpos : tiles pos = 0)
include hpos

/-- A new tile does not part the others. -/
theorem landGraph_le_update : landGraph tiles ≤ landGraph (Function.update tiles pos val) := by
  intro p q h
  have hp : p ≠ pos := fun heq => h.2.2 (heq ▸ hpos)
  have hq : q ≠ pos := fun heq => h.2.2 (h.2.1.trans (heq ▸ hpos))
  refine ⟨h.1, ?_⟩
  rw [Function.update_of_ne hp, Function.update_of_ne hq]
  exact h.2

theorem card_landsOf_update_le :
    (landsOf (Function.update tiles pos val) (occupied tiles)).card ≤ getLandNum tiles := by
  rw [getLandNum_eq]
  exact card_landsOf_le (landGraph_le_update hpos) _

variable (hval : val ≠ 0)
include hval

/-- A new tile makes at most one land more. -/
theorem getLandNum_update_le :
    getLandNum (Function.update tiles pos val) ≤ getLandNum tiles + 1 := by
  rw [getLandNum_update hval]
  refine (Finset.card_insert_le _ _).trans ?_
  exact Nat.succ_le_succ (card_landsOf_update_le hpos)

/-- A new tile that touches an equal one makes no land more. -/
theorem getLandNum_update_le_of_touches {q : Fin 16} (hq : some q ∈ neighbours pos)
    (htile : tiles q = val) : getLandNum (Function.update tiles pos val) ≤ getLandNum tiles := by
  have hne : q ≠ pos := fun heq => hval (htile.symm.trans (heq ▸ hpos))
  have hadj : (landGraph (Function.update tiles pos val)).Adj q pos := by
    refine ⟨neighbours_symm pos q hq, ?_, ?_⟩
    · rw [Function.update_of_ne hne, Function.update_self, htile]
    · rwa [Function.update_of_ne hne, htile]
  have hold : landAt (Function.update tiles pos val) pos ∈
      landsOf (Function.update tiles pos val) (occupied tiles) :=
    landAt_mem_landsOf.mpr ⟨q, by simpa [occupied, htile] using hval, hadj.reachable⟩
  rw [getLandNum_update hval, Finset.insert_eq_of_mem hold]
  exact card_landsOf_update_le hpos

/-- A new tile that touches no equal one is a land of its own. -/
theorem getLandNum_update_of_apart (h : ∀ q, some q ∈ neighbours pos → tiles q ≠ val) :
    getLandNum (Function.update tiles pos val) = getLandNum tiles + 1 := by
  -- the new cell has no edge
  have halone : ∀ q, ¬ (landGraph (Function.update tiles pos val)).Adj q pos := by
    intro q hadj
    have hnext := neighbours_symm q pos hadj.1
    have hne : q ≠ pos := fun heq => neighbours_ne pos (heq ▸ hnext)
    have hsame := hadj.2.1
    rw [Function.update_of_ne hne, Function.update_self] at hsame
    exact h q hnext hsame
  have hle : landGraph (Function.update tiles pos val) ≤ landGraph tiles := by
    intro p q hadj
    have hq : q ≠ pos := fun heq => halone p (heq ▸ hadj)
    have hp : p ≠ pos := fun heq => halone q (heq ▸ hadj.symm)
    have hrest := hadj.2
    rw [Function.update_of_ne hp, Function.update_of_ne hq] at hrest
    exact ⟨hadj.1, hrest⟩
  have hnew : landAt (Function.update tiles pos val) pos ∉
      landsOf (Function.update tiles pos val) (occupied tiles) := by
    rw [landAt_mem_landsOf]
    rintro ⟨q, hq, hreach⟩
    rw [SimpleGraph.reachable_iff_reflTransGen] at hreach
    rcases Relation.ReflTransGen.cases_tail hreach with heq | ⟨r, -, hadj⟩
    · rw [← heq] at hq
      simp [occupied, hpos] at hq
    · exact halone r hadj
  rw [getLandNum_update hval, Finset.card_insert_of_notMem hnew, Nat.succ_inj]
  apply le_antisymm (card_landsOf_update_le hpos)
  rw [getLandNum_eq]
  exact card_landsOf_le hle _

end Place

end CodeBlocks.Ai2048
