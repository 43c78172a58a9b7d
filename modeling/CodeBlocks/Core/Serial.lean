import Mathlib.Algebra.Group.Int.Defs
import Mathlib.Algebra.Group.Nat.Defs
import Mathlib.Data.List.Basic
import Mathlib.Data.Finset.Card
import Mathlib.Data.Finset.Range

/-!
# Serial numbers modulo `2 ^ 32`

A 32-bit counter that wraps is compared through the sign of a wrapped
difference. Read from a common base, all numbers less than half a turn ahead
behave like naturals: the wrapped difference is the difference of their
distances. Windows of ascending serial numbers are stated through these
distances, so that moving the base is a subtraction of naturals.
-/

namespace CodeBlocks.Serial

/-- Steps from `base` forward to `x`, around the circle. -/
def dist (base x : UInt32) : Nat := (x - base).toNat

/-- The wrapped difference read as a signed 32-bit number. -/
def diff (later earlier : UInt32) : Int := (later - earlier).toInt32.toInt

theorem dist_lt (b x : UInt32) : dist b x < 2 ^ 32 := UInt32.toNat_lt _

@[simp] theorem dist_self (b : UInt32) : dist b b = 0 := by simp [dist]

@[simp] theorem dist_zero (x : UInt32) : dist 0 x = x.toNat := by simp [dist]

@[simp] theorem dist_add (b w : UInt32) : dist b (b + w) = w.toNat := by
  simp only [dist, UInt32.toNat_sub, UInt32.toNat_add]
  have := b.toNat_lt
  have := w.toNat_lt
  omega

/-- Two numbers at one distance from a base are one number. -/
theorem dist_inj {b x y : UInt32} : dist b x = dist b y ↔ x = y := by
  constructor
  · intro h
    simp only [dist, UInt32.toNat_sub] at h
    have := b.toNat_lt
    have := x.toNat_lt
    have := y.toNat_lt
    exact UInt32.toNat_inj.mp (by omega)
  · rintro rfl
    rfl

/-- Distances from a base further on are shorter by the move of the base. -/
theorem dist_rebase {b c x : UInt32} (h : dist b c ≤ dist b x) :
    dist c x = dist b x - dist b c := by
  simp only [dist, UInt32.toNat_sub] at h ⊢
  have := b.toNat_lt
  have := c.toNat_lt
  have := x.toNat_lt
  omega

/-- Distances add up while they stay on one turn of the circle. -/
theorem dist_trans {b c x : UInt32} (h : dist b c + dist c x < 2 ^ 32) :
    dist b x = dist b c + dist c x := by
  simp only [dist, UInt32.toNat_sub] at h ⊢
  have := b.toNat_lt
  have := c.toNat_lt
  have := x.toNat_lt
  omega

/-- A number stands where its distance says. -/
theorem add_dist (b x : UInt32) : b + UInt32.ofNat (dist b x) = x := by
  rw [dist, UInt32.ofNat_toNat]
  grind

theorem dist_succ {b x : UInt32} (h : dist b x + 1 < 2 ^ 32) :
    dist b (x + 1) = dist b x + 1 := by
  simp only [dist, UInt32.toNat_sub, UInt32.toNat_add, UInt32.toNat_one] at h ⊢
  have := b.toNat_lt
  have := x.toNat_lt
  omega

/-- A counter that moves with the cells of a list, first one cell and then the others. -/
theorem add_one_add_length {α : Type*} (x : UInt32) (a : α) (l : List α) :
    x + 1 + UInt32.ofNat l.length = x + UInt32.ofNat (a :: l).length := by
  rw [List.length_cons, UInt32.ofNat_add]
  grind

theorem sub_one_sub_length {α : Type*} (x : UInt32) (a : α) (l : List α) :
    x - 1 - UInt32.ofNat l.length = x - UInt32.ofNat (a :: l).length := by
  rw [List.length_cons, UInt32.ofNat_add]
  grind

/-- The signed reading folds the upper half of the circle below zero. -/
theorem toInt_toInt32 (n : UInt32) :
    n.toInt32.toInt = if n.toNat < 2 ^ 31 then (n.toNat : Int) else n.toNat - 2 ^ 32 := by
  have hd : n.toInt32.toInt = n.toBitVec.toInt := rfl
  rw [hd, BitVec.toInt_eq_toNat_cond, UInt32.toNat_toBitVec]
  split <;> split <;> omega

theorem toInt_toInt32_of_lt {n : UInt32} (h : n.toNat < 2 ^ 31) : n.toInt32.toInt = n.toNat := by
  rw [toInt_toInt32, if_pos h]

theorem diff_eq (x y : UInt32) :
    diff x y = if dist y x < 2 ^ 31 then (dist y x : Int) else dist y x - 2 ^ 32 :=
  toInt_toInt32 (x - y)

/-- Within half a turn of a common base, the wrapped difference is the plain one. -/
theorem diff_eq_sub {b x y : UInt32} (hx : dist b x < 2 ^ 31) (hy : dist b y < 2 ^ 31) :
    diff x y = (dist b x : Int) - dist b y := by
  rw [diff_eq]
  simp only [dist, UInt32.toNat_sub] at hx hy ⊢
  have := b.toNat_lt
  have := x.toNat_lt
  have := y.toNat_lt
  split <;> omega

/-- A number is ahead when it is at most half a turn away. -/
theorem diff_neg_iff {b x : UInt32} : diff b x < 0 ↔ 0 < dist b x ∧ dist b x ≤ 2 ^ 31 := by
  rw [diff_eq]
  simp only [dist, UInt32.toNat_sub]
  have := b.toNat_lt
  have := x.toNat_lt
  split <;> omega

/-- What is ahead stays ahead until its distance has passed. -/
theorem diff_add_neg {b d x : UInt32} (hx : dist b x ≤ 2 ^ 31) (hd : d.toNat < dist b x) :
    diff (b + d) x < 0 := by
  have hadd := dist_add b d
  have hrebase := dist_rebase (b := b) (c := b + d) (x := x) (by omega)
  exact diff_neg_iff.mpr ⟨by omega, by omega⟩

/-- The two wrapped tests of a half-open window accept exactly its numbers. -/
theorem window_iff {b w x : UInt32} (hw : w.toNat < 2 ^ 31) :
    (diff x (b + w) < 0 ∧ 0 ≤ diff x b) ↔ dist b x < w.toNat := by
  rw [diff_eq x b]
  by_cases hx : dist b x < 2 ^ 31
  · rw [diff_eq_sub hx (by simpa only [dist_add] using hw), dist_add, if_pos hx]
    omega
  · rw [if_neg hx]
    have := dist_lt b x
    omega

/-- Serial numbers in ascending order, all fewer than `size` steps from `base`. -/
structure Within (base : UInt32) (size : Nat) (xs : List UInt32) : Prop where
  ascending : xs.Pairwise fun x y => dist base x < dist base y
  bounded : ∀ x ∈ xs, dist base x < size

namespace Within

variable {b c x : UInt32} {n m : Nat} {xs ys : List UInt32}

theorem nil : Within b n [] := ⟨List.Pairwise.nil, by simp⟩

theorem sublist (h : Within b n xs) (hs : ys.Sublist xs) : Within b n ys :=
  ⟨h.ascending.sublist hs, fun x hx => h.bounded x (hs.subset hx)⟩

theorem mono (h : Within b n xs) (hn : n ≤ m) : Within b m xs :=
  ⟨h.ascending, fun x hx => (h.bounded x hx).trans_le hn⟩

/-- The number at the upper end of the window may be appended. -/
theorem snoc (h : Within b n xs) (hx : dist b x = n) : Within b (n + 1) (xs ++ [x]) := by
  constructor
  · refine List.pairwise_append.mpr ⟨h.ascending, List.pairwise_singleton _ _, ?_⟩
    intro y hy z hz
    rw [List.mem_singleton.mp hz, hx]
    exact h.bounded y hy
  · intro y hy
    rcases List.mem_append.mp hy with hy | hy
    · have := h.bounded y hy
      omega
    · rw [List.mem_singleton.mp hy, hx]
      omega

/-- A base that no number precedes can take over the window. -/
theorem rebase (h : Within b n xs) (hc : ∀ x ∈ xs, dist b c ≤ dist b x) :
    Within c (n - dist b c) xs := by
  constructor
  · apply h.ascending.imp_of_mem
    intro x y hx hy hxy
    rw [dist_rebase (hc x hx), dist_rebase (hc y hy)]
    have := hc x hx
    omega
  · intro x hx
    rw [dist_rebase (hc x hx)]
    have := h.bounded x hx
    have := hc x hx
    omega

/-- The first number of a window is at most as far from the base as the others. -/
theorem head_le (h : Within b n (x :: xs)) : ∀ y ∈ x :: xs, dist b x ≤ dist b y := by
  intro y hy
  rcases List.mem_cons.mp hy with rfl | hy
  · exact le_rfl
  · exact (List.rel_of_pairwise_cons h.ascending hy).le

/-- Where the first number is not the base, none is. -/
theorem ne_base (h : Within b n (x :: xs)) (hx : x ≠ b) : ∀ y ∈ x :: xs, y ≠ b := by
  intro y hy heq
  have hle := h.head_le y hy
  rw [heq, dist_self] at hle
  exact hx (dist_inj.mp ((Nat.le_zero.mp hle).trans (dist_self b).symm))

theorem rebase_head (h : Within b n (x :: xs)) : Within x (n - dist b x) (x :: xs) :=
  h.rebase h.head_le

/-- When the first number is the base itself, base and list move on together. -/
theorem pop (h : Within b n (b :: xs)) : Within (b + 1) n xs := by
  have hb : dist b (b + 1) = 1 := dist_add b 1
  have hpos : ∀ x ∈ xs, dist b (b + 1) ≤ dist b x := by
    intro x hx
    have := List.rel_of_pairwise_cons h.ascending hx
    omega
  exact ((h.sublist (List.sublist_cons_self b xs)).rebase hpos).mono (Nat.sub_le _ _)

/-- A number is inserted between those before it and those after it. -/
theorem insert (h : Within b n (xs ++ ys)) (hx : dist b x < n)
    (hl : ∀ y ∈ xs, dist b y < dist b x) (hr : ∀ y ∈ ys, dist b x < dist b y) :
    Within b n (xs ++ x :: ys) := by
  obtain ⟨hxs, hys, hxy⟩ := List.pairwise_append.mp h.ascending
  constructor
  · refine List.pairwise_append.mpr ⟨hxs, List.pairwise_cons.mpr ⟨hr, hys⟩, ?_⟩
    intro y hy z hz
    rcases List.mem_cons.mp hz with rfl | hz
    · exact hl y hy
    · exact hxy y hy z hz
  · intro y hy
    rcases List.mem_append.mp hy with hy | hy
    · exact h.bounded y (List.mem_append_left _ hy)
    · rcases List.mem_cons.mp hy with rfl | hy
      · exact hx
      · exact h.bounded y (List.mem_append_right _ hy)

/-- A window holds no more numbers than it has places. -/
theorem length_le (h : Within b n xs) : xs.length ≤ n := by
  have hn : (xs.map (dist b)).Nodup := by
    rw [List.Nodup, List.pairwise_map]
    exact h.ascending.imp fun hxy => hxy.ne
  have hs : (xs.map (dist b)).toFinset ⊆ Finset.range n := by
    intro k hk
    obtain ⟨x, hx, rfl⟩ := List.mem_map.mp (List.mem_toFinset.mp hk)
    exact Finset.mem_range.mpr (h.bounded x hx)
  have hc := Finset.card_le_card hs
  rwa [List.toFinset_card_of_nodup hn, List.length_map, Finset.card_range] at hc

end Within

end CodeBlocks.Serial
