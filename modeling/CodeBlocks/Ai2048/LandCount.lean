import Mathlib.Data.Set.Card
import CodeBlocks.Ai2048.Lands

/-!
# Lands as components

`GetLandNum` on the stored tiles, with the depth of the recursion as a bound that
can be exhausted. It never is, and the count is that of the connected components
of the tiles.
-/

namespace CodeBlocks.Ai2048

section Values

variable {V : Type*} [DecidableEq V] (tiles : Fin 16 → V)

/-- `Mark`, or nothing where a call goes deeper than the first argument. -/
def markWithin : Nat → Option (Fin 16) → V → (Fin 16 → Bool) → Option (Fin 16 → Bool)
  | 0, _, _, _ => none
  | _ + 1, none, _, marked => some marked
  | depth + 1, some pos, val, marked =>
    if tiles pos = val ∧ marked pos = false then
      directions.foldlM (fun marked dir => markWithin depth (dirPos pos dir) val marked)
        (Function.update marked pos true)
    else some marked

theorem markWithin_eq_fillWithin (depth : Nat) (pos : Option (Fin 16)) (val : V)
    (marked : Fin 16 → Bool) :
    markWithin tiles depth pos val marked =
      Flood.fillWithin neighbours (fun q => tiles q = val) depth pos marked := by
  induction depth generalizing pos marked with
  | zero => rfl
  | succ depth ih =>
      cases pos with
      | none => rfl
      | some pos => simp only [markWithin, Flood.fillWithin, ih, neighbours, List.foldlM_map]

variable [OfNat V 0]

/-- The body of the loop of `GetLandNum`. -/
def landStepWithin (depth : Nat) (state : Nat × (Fin 16 → Bool)) (pos : Fin 16) :
    Option (Nat × (Fin 16 → Bool)) :=
  if tiles pos ≠ 0 ∧ state.2 pos = false then
    (markWithin tiles depth (some pos) (tiles pos) state.2).map fun marked => (state.1 + 1, marked)
  else some state

/-- `GetLandNum`, with `Mark` at most that deep. -/
def getLandNumWithin (depth : Nat) : Option Nat :=
  ((List.finRange 16).foldlM (landStepWithin tiles depth) (0, fun _ => false)).map Prod.fst

/-- Cells with a common side: next to each other in a row or in a column of four. -/
def SideAdjacent (p q : Fin 16) : Prop :=
  p.val / 4 = q.val / 4 ∧ (p.val % 4 + 1 = q.val % 4 ∨ q.val % 4 + 1 = p.val % 4) ∨
    p.val % 4 = q.val % 4 ∧ (p.val / 4 + 1 = q.val / 4 ∨ q.val / 4 + 1 = p.val / 4)

instance : DecidableRel SideAdjacent := fun _ _ => inferInstanceAs (Decidable (_ ∨ _))

theorem SideAdjacent.symm {p q : Fin 16} (h : SideAdjacent p q) : SideAdjacent q p := by
  rcases h with ⟨hrow, hside⟩ | ⟨hcolumn, hside⟩
  · exact Or.inl ⟨hrow.symm, hside.symm⟩
  · exact Or.inr ⟨hcolumn.symm, hside.symm⟩

/-- The table of neighbours holds the cells with a common side. -/
theorem mem_neighbours_iff : ∀ p q, some q ∈ neighbours p ↔ SideAdjacent p q := by
  decide

/-- The cells that are not empty, joined where equal tiles have a common side. -/
def tileGraph : SimpleGraph {p : Fin 16 // tiles p ≠ 0} where
  Adj p q := SideAdjacent p q ∧ tiles p = tiles q
  symm := ⟨fun _ _ h => ⟨h.1.symm, h.2.symm⟩⟩
  loopless := ⟨fun p h => neighbours_ne p.val ((mem_neighbours_iff _ _).mpr h.1)⟩

end Values

/-- On tiles the bounded run is that of `GetLandNum`, for every bound above the number of cells. -/
theorem getLandNumWithin_eq_some (tiles : Tiles) {depth : Nat} (hdepth : 17 ≤ depth) :
    getLandNumWithin tiles depth = some (getLandNum tiles) := by
  have hstep : landStepWithin tiles depth = fun state pos => some (landStep tiles state pos) := by
    funext state pos
    rw [landStepWithin, landStep]
    split
    · have hcard : (Flood.unmarked state.2).card < 17 := by
        have hle := Finset.card_le_univ (Flood.unmarked state.2)
        rw [Fintype.card_fin] at hle
        omega
      rw [markWithin_eq_fillWithin, Flood.fillWithin_of_le _ _ hcard hdepth, ← mark_eq_fill]
      rfl
    · rfl
  have hfold : ∀ (cells : List (Fin 16)) (state : Nat × (Fin 16 → Bool)),
      cells.foldlM (landStepWithin tiles depth) state =
        some (cells.foldl (landStep tiles) state) := by
    intro cells
    induction cells with
    | nil => exact fun _ => rfl
    | cons pos cells ih =>
        intro state
        rw [List.foldlM_cons, List.foldl_cons, hstep]
        rw [hstep] at ih
        exact ih _
  rw [getLandNumWithin, hfold]
  rfl

/-- Paths over equal tiles stay on tiles. -/
theorem reachable_tileGraph_iff {tiles : Tiles} (p q : {p : Fin 16 // tiles p ≠ 0}) :
    (tileGraph tiles).Reachable p q ↔ (landGraph tiles).Reachable p q := by
  constructor
  · rintro ⟨walk⟩
    induction walk with
    | nil => exact SimpleGraph.Reachable.refl _
    | cons hadj _ ih =>
        rename_i a b c _
        have hstep : (landGraph tiles).Adj a b :=
          ⟨(mem_neighbours_iff _ _).mpr hadj.1, hadj.2, a.property⟩
        exact hstep.reachable.trans ih
  · intro h
    rw [SimpleGraph.reachable_iff_reflTransGen] at h
    obtain ⟨q, hq⟩ := q
    -- a path from a tile stays on tiles
    have hpath (r : Fin 16) (h : Relation.ReflTransGen (landGraph tiles).Adj p.val r) :
        ∃ hr : tiles r ≠ 0, (tileGraph tiles).Reachable p ⟨r, hr⟩ := by
      induction h with
      | refl => exact ⟨p.property, SimpleGraph.Reachable.refl _⟩
      | tail _ hadj ih =>
          rename_i b c _
          have hb := hadj.2.2
          have hc : tiles c ≠ 0 := hadj.2.1 ▸ hb
          obtain ⟨_, hreach⟩ := ih
          have hstep : (tileGraph tiles).Adj ⟨b, hb⟩ ⟨c, hc⟩ :=
            ⟨(mem_neighbours_iff _ _).mp hadj.1, hadj.2.1⟩
          exact ⟨hc, hreach.trans hstep.reachable⟩
    exact (hpath q h).2

/-- The lands of the tiles are the components of their graph. -/
theorem card_landsOf_occupied (tiles : Tiles) :
    (landsOf tiles (occupied tiles)).card = Nat.card (tileGraph tiles).ConnectedComponent := by
  let land : (tileGraph tiles).ConnectedComponent → (landGraph tiles).ConnectedComponent :=
    SimpleGraph.ConnectedComponent.lift (fun p => landAt tiles p.val) fun p q walk _ =>
      SimpleGraph.ConnectedComponent.eq.mpr ((reachable_tileGraph_iff p q).mp walk.reachable)
  have hinj : Function.Injective land := by
    intro c d
    induction c using SimpleGraph.ConnectedComponent.ind with
    | h p =>
        induction d using SimpleGraph.ConnectedComponent.ind with
        | h q =>
            intro heq
            exact SimpleGraph.ConnectedComponent.eq.mpr
              ((reachable_tileGraph_iff p q).mpr (SimpleGraph.ConnectedComponent.eq.mp heq))
  have hrange : Set.range land = (landsOf tiles (occupied tiles) : Set _) := by
    ext c
    simp only [Set.mem_range, Finset.mem_coe, landsOf, Finset.mem_image, occupied,
      Finset.mem_filter, Finset.mem_univ, true_and]
    constructor
    · rintro ⟨d, rfl⟩
      induction d using SimpleGraph.ConnectedComponent.ind with
      | h p => exact ⟨p.val, p.property, rfl⟩
    · rintro ⟨p, hp, rfl⟩
      exact ⟨(tileGraph tiles).connectedComponentMk ⟨p, hp⟩, rfl⟩
  rw [← Nat.card_range_of_injective hinj, hrange, Nat.card_coe_set_eq, Set.ncard_coe_finset]

/-- `GetLandNum` counts the components of the tiles. -/
theorem getLandNum_eq_card (tiles : Tiles) :
    getLandNum tiles = Nat.card (tileGraph tiles).ConnectedComponent := by
  rw [getLandNum_eq, card_landsOf_occupied]

/-- The bytes of the board as naturals. -/
def codes (board : Fin 16 → Int8) : Tiles := fun p => (board p).toUInt8.toNat

theorem code_inj {x y : Int8} : x.toUInt8.toNat = y.toUInt8.toNat ↔ x = y := by
  rw [UInt8.toNat_inj]
  constructor
  · exact congrArg Int8.ofUInt8
  · exact congrArg Int8.toUInt8

/-- The count compares tiles with each other and with zero only. -/
theorem getLandNumWithin_codes (board : Fin 16 → Int8) (depth : Nat) :
    getLandNumWithin (codes board) depth = getLandNumWithin board depth := by
  have hstep : landStepWithin (codes board) depth = landStepWithin board depth := by
    funext state pos
    have hzero : codes board pos ≠ 0 ↔ board pos ≠ 0 := not_congr (code_inj (y := 0))
    have hok : (fun q => codes board q = codes board pos) = fun q => board q = board pos :=
      funext fun q => propext code_inj
    simp only [landStepWithin, hzero, markWithin_eq_fillWithin]
    congr!
  rw [getLandNumWithin, getLandNumWithin, hstep]

/-- The same cells are empty and the same ones equal, so that the graphs are one. -/
def codesIso (board : Fin 16 → Int8) : tileGraph (codes board) ≃g tileGraph board where
  toEquiv := Equiv.subtypeEquivRight fun _ => not_congr (code_inj (y := 0))
  map_rel_iff' := and_congr_right fun _ => code_inj.symm

/-- `GetLandNum` ends on every board, at most 17 calls deep, with the number of connected
components of its tiles. -/
theorem getLandNum_counts_components (board : Fin 16 → Int8) (depth : Nat) :
    getLandNumWithin board (17 + depth) =
      some (Nat.card (tileGraph board).ConnectedComponent) := by
  rw [← getLandNumWithin_codes, getLandNumWithin_eq_some _ (Nat.le_add_right 17 depth),
    getLandNum_eq_card, Nat.card_congr (codesIso board).connectedComponentEquiv]

end CodeBlocks.Ai2048
