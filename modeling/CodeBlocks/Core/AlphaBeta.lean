import Mathlib.Order.WithBot
import Mathlib.Order.MinMax

/-!
# Windows of values

A search with a window gives a score that is only right between the two ends: it
agrees with the value it stands for once both are clamped. The best of several
values is found within a window by raising its lower end, and the worst by
lowering its upper end.
-/

namespace CodeBlocks

section Clamp

variable {ν : Type*} [LinearOrder ν] {alpha beta value rest : ν}

/-- The point of a window that is nearest to a value. -/
def clamp (alpha beta value : ν) : ν := max alpha (min value beta)

theorem clamp_of_le (h : value ≤ alpha) : clamp alpha beta value = alpha :=
  max_eq_left (min_le_of_left_le h)

theorem clamp_of_ge (hwindow : alpha ≤ beta) (h : beta ≤ value) :
    clamp alpha beta value = beta := by
  rw [clamp, min_eq_right h, max_eq_right hwindow]

theorem clamp_of_mem (hlow : alpha ≤ value) (hhigh : value ≤ beta) :
    clamp alpha beta value = value := by
  rw [clamp, min_eq_left hhigh, max_eq_right hlow]

/-- A value below the window does not count for the best one. -/
theorem clamp_max_of_le (h : value ≤ alpha) :
    clamp alpha beta (max value rest) = clamp alpha beta rest := by
  rw [clamp, min_max_distrib_right, ← max_assoc, max_eq_left (min_le_of_left_le h), clamp]

/-- A value inside the window becomes the lower end. -/
theorem clamp_max_of_mem (hlow : alpha ≤ value) (hhigh : value ≤ beta) :
    clamp alpha beta (max value rest) = clamp value beta rest := by
  rw [clamp, min_max_distrib_right, min_eq_left hhigh, ← max_assoc, max_eq_right hlow, clamp]

/-- A value above the window does not count for the worst one. -/
theorem clamp_min_of_ge (h : beta ≤ value) :
    clamp alpha beta (min value rest) = clamp alpha beta rest := by
  rw [clamp, min_right_comm, min_eq_right h, min_comm, clamp]

/-- A value inside the window becomes the upper end. -/
theorem clamp_min_of_le (h : value ≤ beta) :
    clamp alpha beta (min value rest) = clamp alpha value rest := by
  rw [clamp, min_right_comm, min_eq_left h, min_comm, clamp]

/-- The highest of two values is the second when it is not the first. -/
theorem right_eq_of_max_eq {top : ν} (h : max value rest = top) (hne : value ≠ top) :
    rest = top := by
  rcases max_choice value rest with hleft | hright
  · exact absurd (hleft.symm.trans h) hne
  · exact hright.symm.trans h

theorem clamp_le_iff (hwindow : alpha < beta) : clamp alpha beta value ≤ alpha ↔ value ≤ alpha := by
  simp [clamp, not_le.mpr hwindow]

theorem le_clamp_iff (hwindow : alpha < beta) : beta ≤ clamp alpha beta value ↔ beta ≤ value := by
  simp [clamp, not_le.mpr hwindow]

/-- Two values with one clamped value: both are below the window, both above, or they are equal
and inside. -/
theorem clamp_eq_clamp {other : ν} (h : clamp alpha beta value = clamp alpha beta other)
    (hwindow : alpha < beta) :
    value ≤ alpha ∧ other ≤ alpha ∨ beta ≤ value ∧ beta ≤ other ∨
      alpha < value ∧ value < beta ∧ other = value := by
  have hlow : value ≤ alpha ↔ other ≤ alpha := by
    rw [← clamp_le_iff hwindow, h, clamp_le_iff hwindow]
  have hhigh : beta ≤ value ↔ beta ≤ other := by
    rw [← le_clamp_iff hwindow, h, le_clamp_iff hwindow]
  rcases le_or_gt value alpha with hle | habove
  · exact Or.inl ⟨hle, hlow.mp hle⟩
  rcases le_or_gt beta value with hge | hbelow
  · exact Or.inr (Or.inl ⟨hge, hhigh.mp hge⟩)
  have habove' := not_le.mp fun hle => not_le.mpr habove (hlow.mpr hle)
  have hbelow' := not_le.mp fun hge => not_le.mpr hbelow (hhigh.mpr hge)
  rw [clamp_of_mem habove.le hbelow.le, clamp_of_mem habove'.le hbelow'.le] at h
  exact Or.inr (Or.inr ⟨habove, hbelow, h.symm⟩)

end Clamp

/-- Scores, with a value below and one above all of them. -/
abbrev Value (ρ : Type*) := WithBot (WithTop ρ)

variable {ρ ι : Type*}

/-- A score as a value. -/
def Value.ofScore (score : ρ) : Value ρ := ((score : WithTop ρ) : WithBot (WithTop ρ))

variable [LinearOrder ρ]

@[simp] theorem Value.ofScore_le {a b : ρ} : Value.ofScore a ≤ Value.ofScore b ↔ a ≤ b := by
  simp [Value.ofScore]

@[simp] theorem Value.ofScore_lt {a b : ρ} : Value.ofScore a < Value.ofScore b ↔ a < b := by
  simp [Value.ofScore]

/-- The highest value over a list. -/
def best (values : ι → Value ρ) (items : List ι) : Value ρ :=
  (items.map values).foldr max ⊥

/-- The lowest value over a list. -/
def worst (values : ι → Value ρ) (items : List ι) : Value ρ :=
  (items.map values).foldr min ⊤

@[simp] theorem best_cons (values : ι → Value ρ) (item : ι) (items : List ι) :
    best values (item :: items) = max (values item) (best values items) := rfl

@[simp] theorem worst_cons (values : ι → Value ρ) (item : ι) (items : List ι) :
    worst values (item :: items) = min (values item) (worst values items) := rfl

/-- The best value is bounded by a bound of all values. -/
theorem best_le_iff {values : ι → Value ρ} {items : List ι} {bound : Value ρ} :
    best values items ≤ bound ↔ ∀ item ∈ items, values item ≤ bound := by
  induction items with
  | nil => simp [best]
  | cons item items ih => simp [ih]

/-- No value is above the best one. -/
theorem le_best {values : ι → Value ρ} {items : List ι} {item : ι} (h : item ∈ items) :
    values item ≤ best values items :=
  best_le_iff.mp le_rfl item h

/-- A value clamped to a window of scores. -/
def clampScore (alpha beta : ρ) (value : Value ρ) : Value ρ :=
  clamp (Value.ofScore alpha) (Value.ofScore beta) value

/-- A score that is right within a window. -/
def Agrees (alpha beta score : ρ) (value : Value ρ) : Prop :=
  clampScore alpha beta (Value.ofScore score) = clampScore alpha beta value

variable {alpha beta score : ρ} {value : Value ρ}

/-- Below, above and inside a window. -/
theorem Agrees.cases (h : Agrees alpha beta score value) (hwindow : alpha < beta) :
    score ≤ alpha ∧ value ≤ Value.ofScore alpha ∨
      beta ≤ score ∧ Value.ofScore beta ≤ value ∨
      alpha < score ∧ score < beta ∧ value = Value.ofScore score := by
  have hcases := clamp_eq_clamp h (Value.ofScore_lt.mpr hwindow)
  simpa using hcases

theorem Agrees.refl (alpha beta score : ρ) : Agrees alpha beta score (Value.ofScore score) := rfl

/-- A score that is the clamped value itself is right within the window. -/
theorem agrees_of_eq (hwindow : alpha < beta)
    (h : Value.ofScore score = clampScore alpha beta value) : Agrees alpha beta score value := by
  have hends : Value.ofScore alpha ≤ Value.ofScore beta := Value.ofScore_le.mpr hwindow.le
  have hlow : Value.ofScore alpha ≤ Value.ofScore score := h ▸ le_max_left _ _
  have hhigh : Value.ofScore score ≤ Value.ofScore beta := by
    rw [h]
    exact max_le hends (min_le_right _ _)
  exact (clamp_of_mem hlow hhigh).trans h

end CodeBlocks
