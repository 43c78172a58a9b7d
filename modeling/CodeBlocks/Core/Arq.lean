import Mathlib.Data.Set.Basic
import Mathlib.Data.List.Basic

/-!
# Numbered delivery over an unreliable channel

A sender numbers items, keeps each one until it is acknowledged, and sends
numbered copies; a receiver stores copies out of order and passes over numbers it
holds. The channel may lose, repeat and reorder, so what has ever been put on it
counts as still there. `Step` says what any single action of either side may
do; the invariant says that a copy is always the item of its number, and that an
item the sender has dropped is held by the receiver.
-/

namespace CodeBlocks.Arq

variable {α : Type*}

/-- Both sides and the channel. -/
structure State (α : Type*) where
  /-- Every item numbered so far, in order. -/
  hist : List α
  /-- Numbers the sender still keeps. -/
  unacked : Set ℕ
  /-- The receiver has passed all numbers below. -/
  next : ℕ
  /-- Items the receiver holds beyond them. -/
  stored : Set (ℕ × α)
  /-- Copies ever put on the channel. -/
  wire : Set (ℕ × α)
  /-- Numbers ever acknowledged one by one. -/
  acks : Set ℕ
  /-- Bounds ever announced below which everything is acknowledged. -/
  unas : Set ℕ

/-- The receiver has the item with this number. -/
def State.Has (σ : State α) (n : ℕ) : Prop := n < σ.next ∨ ∃ x, (n, x) ∈ σ.stored

/-- The invariant of the protocol. -/
structure State.Inv (σ : State α) : Prop where
  wire_hist : ∀ n x, (n, x) ∈ σ.wire → σ.hist[n]? = some x
  stored_hist : ∀ n x, (n, x) ∈ σ.stored → σ.hist[n]? = some x
  next_le : σ.next ≤ σ.hist.length
  acks_has : ∀ n ∈ σ.acks, σ.Has n
  unas_le : ∀ m ∈ σ.unas, m ≤ σ.next
  kept : ∀ n < σ.hist.length, n ∈ σ.unacked ∨ σ.Has n

/-- What one action may change, and on what grounds. -/
structure Step (σ τ : State α) : Prop where
  hist : σ.hist <+: τ.hist
  wire : ∀ n x, (n, x) ∈ τ.wire → (n, x) ∈ σ.wire ∨ τ.hist[n]? = some x
  stored : ∀ n x, (n, x) ∈ τ.stored → (n, x) ∈ σ.stored ∨ (n, x) ∈ σ.wire
  next : σ.next ≤ τ.next
  has : ∀ n, σ.Has n → τ.Has n
  passed : ∀ n < τ.next, n < σ.next ∨ ∃ x, (n, x) ∈ σ.stored ∨ (n, x) ∈ σ.wire
  acks : ∀ n ∈ τ.acks, n ∈ σ.acks ∨ τ.Has n
  unas : ∀ m ∈ τ.unas, m ∈ σ.unas ∨ m ≤ τ.next
  unacked : ∀ n < τ.hist.length, n ∈ τ.unacked ∨ n ∈ σ.acks ∨ (∃ m ∈ σ.unas, n < m) ∨
    n < σ.hist.length ∧ n ∉ σ.unacked

theorem Step.refl (σ : State α) : Step σ σ where
  hist := List.prefix_rfl
  wire _ _ hx := Or.inl hx
  stored _ _ hx := Or.inl hx
  next := le_rfl
  has _ hn := hn
  passed _ hn := Or.inl hn
  acks _ hn := Or.inl hn
  unas _ hm := Or.inl hm
  unacked n hn := by
    by_cases hk : n ∈ σ.unacked
    · exact Or.inl hk
    · exact Or.inr (Or.inr (Or.inr ⟨hn, hk⟩))

theorem getElem?_of_prefix {xs ys : List α} (h : xs <+: ys) {n : ℕ} {x : α}
    (hx : xs[n]? = some x) : ys[n]? = some x := by
  obtain ⟨zs, rfl⟩ := h
  obtain ⟨hlt, _⟩ := List.getElem?_eq_some_iff.mp hx
  rwa [List.getElem?_append_left hlt]

/-- Every action keeps the invariant. -/
theorem Step.inv {σ τ : State α} (step : Step σ τ) (h : σ.Inv) : τ.Inv := by
  have hstored : ∀ n x, (n, x) ∈ τ.stored → τ.hist[n]? = some x := by
    intro n x hx
    rcases step.stored n x hx with hs | hw
    · exact getElem?_of_prefix step.hist (h.stored_hist n x hs)
    · exact getElem?_of_prefix step.hist (h.wire_hist n x hw)
  have hlen := step.hist.length_le
  constructor
  · intro n x hx
    rcases step.wire n x hx with hw | hnew
    · exact getElem?_of_prefix step.hist (h.wire_hist n x hw)
    · exact hnew
  · exact hstored
  · -- the last number passed over was already numbered
    rcases Nat.eq_zero_or_pos τ.next with hz | hpos
    · omega
    have hnumbered : τ.next - 1 < σ.hist.length := by
      rcases step.passed (τ.next - 1) (by omega) with hlt | ⟨x, hs | hw⟩
      · exact hlt.trans_le h.next_le
      · exact (List.getElem?_eq_some_iff.mp (h.stored_hist _ x hs)).1
      · exact (List.getElem?_eq_some_iff.mp (h.wire_hist _ x hw)).1
    omega
  · intro n hn
    rcases step.acks n hn with ha | hnew
    · exact step.has n (h.acks_has n ha)
    · exact hnew
  · intro m hm
    rcases step.unas m hm with hu | hnew
    · exact (h.unas_le m hu).trans step.next
    · exact hnew
  · intro n hn
    rcases step.unacked n hn with hk | ha | ⟨m, hm, hlt⟩ | ⟨hlt, hno⟩
    · exact Or.inl hk
    · exact Or.inr (step.has n (h.acks_has n ha))
    · exact Or.inr (step.has n (Or.inl (hlt.trans_le (h.unas_le m hm))))
    · exact Or.inr (step.has n ((h.kept n hlt).resolve_left hno))

end CodeBlocks.Arq
