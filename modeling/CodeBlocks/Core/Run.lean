import Mathlib.Data.List.Basic

/-!
# Runs of a transition function

A run is the list of its inputs. `Along` says that a condition on the state
before a step and on the input holds at every step of a run; an invariant only
has to be preserved by the steps that meet the condition.
-/

namespace CodeBlocks

variable {σ ε : Type*} {step : σ → ε → σ}

/-- Every step of a run meets a condition. -/
def Along (step : σ → ε → σ) (P : σ → ε → Prop) : σ → List ε → Prop
  | _, [] => True
  | s, e :: es => P s e ∧ Along step P (step s e) es

namespace Along

variable {P Q : σ → ε → Prop}

/-- A property along two runs, one after the other. -/
theorem append_iff (s : σ) (es fs : List ε) :
    Along step P s (es ++ fs) ↔ Along step P s es ∧ Along step P (es.foldl step s) fs := by
  induction es generalizing s with
  | nil => exact ⟨fun h => ⟨trivial, h⟩, fun h => h.2⟩
  | cons e es ih => rw [List.cons_append, Along, ih, Along, List.foldl_cons, and_assoc]

/-- What every admitted step preserves holds at the end of the run. -/
theorem invariant {I : σ → Prop} (hstep : ∀ s e, P s e → I s → I (step s e)) {s : σ} {es : List ε}
    (h : Along step P s es) (hs : I s) : I (es.foldl step s) := by
  induction es generalizing s with
  | nil => exact hs
  | cons e es ih => exact ih h.2 (hstep s e h.1 hs)

/-- Two conditions that agree wherever an invariant holds admit the same runs, where the steps
that meet the first preserve the invariant. -/
theorem congr_of_invariant {I : σ → Prop} (hiff : ∀ s e, I s → (P s e ↔ Q s e))
    (hstep : ∀ s e, P s e → I s → I (step s e)) {s : σ} (hs : I s) (es : List ε) :
    Along step P s es ↔ Along step Q s es := by
  induction es generalizing s with
  | nil => rfl
  | cons e es ih =>
      constructor
      · rintro ⟨hp, hrest⟩
        exact ⟨(hiff s e hs).mp hp, (ih (hstep s e hp hs)).mp hrest⟩
      · rintro ⟨hq, hrest⟩
        have hp := (hiff s e hs).mpr hq
        exact ⟨hp, (ih (hstep s e hp hs)).mpr hrest⟩

/-- Two properties that agree everywhere agree along a run. -/
theorem congr (hiff : ∀ s e, P s e ↔ Q s e) (s : σ) (es : List ε) :
    Along step P s es ↔ Along step Q s es :=
  congr_of_invariant (I := fun _ => True) (fun s e _ => hiff s e) (fun _ _ _ h => h) trivial es

/-- An invariant holds in every state of a run exactly when every step meets a condition, where
in a state that satisfies it the condition says exactly that the step preserves it. -/
theorem invariant_iff {I : σ → Prop} (hiff : ∀ s e, I s → (I (step s e) ↔ P s e)) {s : σ}
    (hs : I s) (es : List ε) :
    Along step (fun s e => I (step s e)) s es ↔ Along step P s es :=
  congr_of_invariant hiff (fun _ _ h _ => h) hs es

/-- A property that no step brings back holds at the end of a run exactly when every step meets a
condition, where the condition says exactly that the step preserves it. -/
theorem final_iff {I J : σ → Prop} (hJ : ∀ s e, J s → J (step s e))
    (hiff : ∀ s e, J s → I s → (I (step s e) ↔ P s e)) (hback : ∀ s e, I (step s e) → I s) {s : σ}
    (hJs : J s) (hs : I s) (es : List ε) : I (es.foldl step s) ↔ Along step P s es := by
  have hrun (es : List ε) (s : σ) (h : I (es.foldl step s)) : I s := by
    induction es generalizing s with
    | nil => exact h
    | cons e es ih => exact hback s e (ih _ h)
  induction es generalizing s with
  | nil => exact ⟨fun _ => trivial, fun _ => hs⟩
  | cons e es ih =>
      constructor
      · intro h
        have hnext := hrun es _ h
        exact ⟨(hiff s e hJs hs).mp hnext, (ih (hJ s e hJs) hnext).mp h⟩
      · rintro ⟨hp, hrest⟩
        exact (ih (hJ s e hJs) ((hiff s e hJs hs).mpr hp)).mpr hrest

end Along

end CodeBlocks
