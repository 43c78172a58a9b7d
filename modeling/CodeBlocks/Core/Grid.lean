import Mathlib.Algebra.BigOperators.Fin
import Mathlib.Algebra.Order.BigOperators.Group.Finset
import Mathlib.Data.Finset.Prod
import Mathlib.Data.Fintype.BigOperators
import Mathlib.Tactic.IntervalCases

/-!
# Filled cells of a square of four

Every line of a square of four has a filled cell, and there are few of them. Then
most lines have a single one. Give these lines one of two colours, with equal
colours where a filled cell joins a row and a column: many of the cells that are
not filled still lie on a row and a column of one colour.
-/

namespace CodeBlocks.Grid

variable {α : Type*} (X : Finset α) (line : α → Fin 4)

/-- The lines with a single filled cell. -/
def single : Finset (Fin 4) := Finset.univ.filter fun i => (X.filter fun p => line p = i).card = 1

variable {X line}

/-- Single lines have as many filled cells as there are lines. -/
theorem card_filter_mem {A : Finset (Fin 4)} (hA : A ⊆ single X line) :
    (X.filter fun p => line p ∈ A).card = A.card := by
  have hmaps : ∀ p ∈ X.filter fun p => line p ∈ A, line p ∈ A :=
    fun p hp => (Finset.mem_filter.mp hp).2
  rw [Finset.card_eq_sum_card_fiberwise hmaps, Finset.card_eq_sum_ones]
  refine Finset.sum_congr rfl fun i hi => ?_
  have hone := (Finset.mem_filter.mp (hA hi)).2
  rw [Finset.filter_filter, ← hone]
  congr 1
  refine Finset.filter_congr fun p _ => ⟨fun h => h.2, fun h => ⟨h ▸ hi, h⟩⟩

/-- With at most five filled cells in four lines, all but one line are single at least. -/
theorem card_single (hfull : ∀ i, ∃ p ∈ X, line p = i) (hcard : X.card ≤ 5) :
    4 ≤ X.card ∧ (single X line).card = 8 - X.card := by
  have hsum : X.card = ∑ i, (X.filter fun p => line p = i).card :=
    Finset.card_eq_sum_card_fiberwise fun p _ => Finset.mem_univ _
  have hpos : ∀ i, 1 ≤ (X.filter fun p => line p = i).card := by
    intro i
    obtain ⟨p, hp, hline⟩ := hfull i
    exact Finset.card_pos.mpr ⟨p, Finset.mem_filter.mpr ⟨hp, hline⟩⟩
  have h0 := hpos 0
  have h1 := hpos 1
  have h2 := hpos 2
  have h3 := hpos 3
  rw [single, Finset.card_filter, Fin.sum_univ_four]
  rw [Fin.sum_univ_four] at hsum
  split_ifs <;> omega

/-- The filled cells of the other lines. -/
theorem card_filter_not_single :
    (X.filter fun p => line p ∉ single X line).card + (single X line).card = X.card := by
  have hsplit := Finset.card_filter_add_card_filter_not (s := X) fun p => line p ∈ single X line
  rw [card_filter_mem (Finset.Subset.refl _)] at hsplit
  omega

section Colours

variable (X : Finset (Fin 4 × Fin 4)) (x y : Fin 4 → Bool)

/-- The single rows of a colour. -/
def rowsOf (colour : Bool) : Finset (Fin 4) := (single X Prod.fst).filter fun r => x r = colour

/-- The single columns of a colour. -/
def columnsOf (colour : Bool) : Finset (Fin 4) := (single X Prod.snd).filter fun c => y c = colour

/-- The cells that are not filled on a single row and a single column of one colour. -/
def alike : Finset (Fin 4 × Fin 4) :=
  (single X Prod.fst ×ˢ single X Prod.snd).filter fun p => p ∉ X ∧ x p.1 = y p.2

/-- The filled cells on a single row and a single column of a colour. -/
def crossings (colour : Bool) : Finset (Fin 4 × Fin 4) :=
  X.filter fun p => p.1 ∈ rowsOf X x colour ∧ p.2 ∈ columnsOf X y colour

variable {X x y}

/-- The crossings of one colour are no more than its rows, or its columns. -/
theorem card_crossings_le (colour : Bool) :
    (crossings X x y colour).card ≤ (rowsOf X x colour).card ∧
      (crossings X x y colour).card ≤ (columnsOf X y colour).card := by
  have hrows : rowsOf X x colour ⊆ single X Prod.fst := Finset.filter_subset _ _
  have hcolumns : columnsOf X y colour ⊆ single X Prod.snd := Finset.filter_subset _ _
  rw [← card_filter_mem hrows, ← card_filter_mem hcolumns]
  constructor
  · exact Finset.card_le_card (Finset.monotone_filter_right X fun p _ h => h.1)
  · exact Finset.card_le_card (Finset.monotone_filter_right X fun p _ h => h.2)

/-- On the rows and columns of a colour the cells are filled or not. -/
theorem card_product (colour : Bool) :
    ((rowsOf X x colour ×ˢ columnsOf X y colour).filter fun p => p ∉ X).card +
      (crossings X x y colour).card = (rowsOf X x colour).card * (columnsOf X y colour).card := by
  have hfilled : crossings X x y colour =
      (rowsOf X x colour ×ˢ columnsOf X y colour).filter fun p => p ∈ X := by
    ext p
    simp only [crossings, Finset.mem_filter, Finset.mem_product]
    tauto
  rw [hfilled, add_comm, Finset.card_filter_add_card_filter_not, Finset.card_product]

theorem card_rowsOf : (rowsOf X x true).card + (rowsOf X x false).card =
    (single X Prod.fst).card := by
  rw [rowsOf, rowsOf, ← Finset.card_filter_add_card_filter_not (s := single X Prod.fst)
    fun r => x r = true]
  simp only [Bool.not_eq_true]

theorem card_columnsOf : (columnsOf X y true).card + (columnsOf X y false).card =
    (single X Prod.snd).card := by
  rw [columnsOf, columnsOf, ← Finset.card_filter_add_card_filter_not (s := single X Prod.snd)
    fun c => y c = true]
  simp only [Bool.not_eq_true]

/-- The cells of both colours that are not filled. -/
theorem card_alike_ge :
    ((rowsOf X x true ×ˢ columnsOf X y true).filter fun p => p ∉ X).card +
      ((rowsOf X x false ×ˢ columnsOf X y false).filter fun p => p ∉ X).card ≤
        (alike X x y).card := by
  rw [← Finset.card_union_of_disjoint]
  · apply Finset.card_le_card
    intro p hp
    simp only [Finset.mem_union, Finset.mem_filter, Finset.mem_product, rowsOf, columnsOf, alike]
      at hp ⊢
    rcases hp with ⟨⟨⟨hr, hx⟩, hc, hy⟩, hnot⟩ | ⟨⟨⟨hr, hx⟩, hc, hy⟩, hnot⟩
    · exact ⟨⟨hr, hc⟩, hnot, hx.trans hy.symm⟩
    · exact ⟨⟨hr, hc⟩, hnot, hx.trans hy.symm⟩
  · rw [Finset.disjoint_left]
    intro p hp hp'
    simp only [Finset.mem_filter, Finset.mem_product, rowsOf] at hp hp'
    have hboth := hp.1.1.2.symm.trans hp'.1.1.2
    cases hboth

/-- Every filled cell is on lines of one colour, or on a line that is not single. -/
theorem card_le_crossings (hcolour : ∀ p ∈ X, p.1 ∈ single X Prod.fst → p.2 ∈ single X Prod.snd →
    x p.1 = y p.2) :
    X.card ≤ (crossings X x y true).card + (crossings X x y false).card +
      (X.card - (single X Prod.fst).card) + (X.card - (single X Prod.snd).card) := by
  have hrows := @card_filter_not_single _ X Prod.fst
  have hcolumns := @card_filter_not_single _ X Prod.snd
  have hcover : X ⊆ ((crossings X x y true ∪ crossings X x y false) ∪
      X.filter fun p => p.1 ∉ single X Prod.fst) ∪ X.filter fun p => p.2 ∉ single X Prod.snd := by
    intro p hp
    by_cases hr : p.1 ∈ single X Prod.fst
    swap
    · simp [hp, hr]
    by_cases hc : p.2 ∈ single X Prod.snd
    swap
    · simp [hp, hc]
    have hsame := hcolour p hp hr hc
    cases hx : x p.1 with
    | true => simp [crossings, rowsOf, columnsOf, hp, hr, hc, hx, ← hsame]
    | false => simp [crossings, rowsOf, columnsOf, hp, hr, hc, hx, ← hsame]
  have hle := Finset.card_le_card hcover
  have h1 := Finset.card_union_le ((crossings X x y true ∪ crossings X x y false) ∪
      X.filter fun p => p.1 ∉ single X Prod.fst) (X.filter fun p => p.2 ∉ single X Prod.snd)
  have h2 := Finset.card_union_le (crossings X x y true ∪ crossings X x y false)
    (X.filter fun p => p.1 ∉ single X Prod.fst)
  have h3 := Finset.card_union_le (crossings X x y true) (crossings X x y false)
  omega

/-- The numbers of lines, filled cells and alike cells of the two colours. -/
theorem counting {k s s' t t' p p' u u' a : Nat} (hge : 4 ≤ k) (hle : k ≤ 5)
    (hs : s + s' = 8 - k) (ht : t + t' = 8 - k) (hp : p ≤ s ∧ p ≤ t) (hp' : p' ≤ s' ∧ p' ≤ t')
    (hcover : k ≤ p + p' + (k - (8 - k)) + (k - (8 - k))) (hu : u + p = s * t)
    (hu' : u' + p' = s' * t') (ha : u + u' ≤ a) : 12 ≤ 2 * k + a := by
  obtain rfl : s' = 8 - k - s := by omega
  obtain rfl : t' = 8 - k - t := by omega
  have hs4 : s ≤ 4 := by omega
  have ht4 : t ≤ 4 := by omega
  interval_cases k <;> interval_cases s <;> interval_cases t <;> omega

/-- With four filled cells there are four alike cells, and with five there are two. -/
theorem le_card_alike (hrows : ∀ r, ∃ p ∈ X, p.1 = r) (hcolumns : ∀ c, ∃ p ∈ X, p.2 = c)
    (hcard : X.card ≤ 5) (hcolour : ∀ p ∈ X, p.1 ∈ single X Prod.fst → p.2 ∈ single X Prod.snd →
      x p.1 = y p.2) :
    12 ≤ 2 * X.card + (alike X x y).card := by
  obtain ⟨hge, hr⟩ := card_single hrows hcard
  obtain ⟨-, hc⟩ := card_single hcolumns hcard
  have hcover := card_le_crossings hcolour
  have halike := @card_alike_ge X x y
  have htrue := @card_product X x y true
  have hfalse := @card_product X x y false
  obtain ⟨htrue1, htrue2⟩ := @card_crossings_le X x y true
  obtain ⟨hfalse1, hfalse2⟩ := @card_crossings_le X x y false
  have hrowsum := @card_rowsOf X x
  have hcolumnsum := @card_columnsOf X y
  rw [hr] at hrowsum hcover
  rw [hc] at hcolumnsum hcover
  exact counting hge hcard hrowsum hcolumnsum ⟨htrue1, htrue2⟩ ⟨hfalse1, hfalse2⟩ hcover htrue
    hfalse halike

end Colours

/-- One for a place of a set. -/
def mark [DecidableEq α] (X : Finset α) (a : α) : Nat := if a ∈ X then 1 else 0

theorem sum_mark [Fintype α] [DecidableEq α] (X : Finset α) :
    ∑ a, mark X a = X.card := by
  simp [mark]

theorem sum_mark_lines (X Y : Finset (Fin 4)) :
    ∑ place : Fin 4 × Fin 4, (mark X place.1 + mark Y place.2) = 4 * X.card + 4 * Y.card := by
  rw [Fintype.sum_prod_type]
  simp only [Finset.sum_add_distrib, sum_mark, Finset.sum_const, Finset.card_univ,
    Fintype.card_fin, smul_eq_mul, ← Finset.mul_sum]

end CodeBlocks.Grid
