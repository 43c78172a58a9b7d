import Mathlib.Data.Fintype.Card
import Mathlib.Logic.Relation

/-!
# Filling

Depth-first filling of the places with some property. Marks are only added, what
is added lies on a path from the start, and every new mark has its neighbours
marked in the end. From marks that are closed, filling adds exactly what paths
reach.
-/

namespace CodeBlocks.Flood

variable {α : Type*} (next : α → List (Option α)) (ok : α → Prop)

/-- Mark a place and go on to its neighbours. The first number bounds the depth. -/
def fill [DecidableEq α] [DecidablePred ok] : Nat → Option α → (α → Bool) → α → Bool
  | 0, _, marked => marked
  | _ + 1, none, marked => marked
  | fuel + 1, some a, marked =>
    if ok a ∧ marked a = false then
      (next a).foldl (fun marked b => fill fuel b marked) (Function.update marked a true)
    else marked

/-- Filling, or nothing where the recursion goes deeper than the bound. -/
def fillWithin [DecidableEq α] [DecidablePred ok] :
    Nat → Option α → (α → Bool) → Option (α → Bool)
  | 0, _, _ => none
  | _ + 1, none, marked => some marked
  | fuel + 1, some a, marked =>
    if ok a ∧ marked a = false then
      (next a).foldlM (fun marked b => fillWithin fuel b marked) (Function.update marked a true)
    else some marked

/-- A path over neighbours with the property. -/
def Reaches : α → α → Prop := Relation.ReflTransGen fun a b => some b ∈ next a ∧ ok b

/-- What filling from some starts does to the marks. -/
structure Fills (starts : List (Option α)) (marked marked' : α → Bool) : Prop where
  mono : ∀ a, marked a = true → marked' a = true
  sound : ∀ a, marked' a = true →
    marked a = true ∨ ∃ s, some s ∈ starts ∧ ok s ∧ Reaches next ok s a
  covers : ∀ s, some s ∈ starts → ok s → marked' s = true
  closed : ∀ a, marked' a = true → marked a = false → ∀ b, some b ∈ next a → ok b → marked' b = true

/-- Marks that no neighbour with the property escapes. -/
def Closed (marked : α → Bool) : Prop :=
  ∀ a b, ok a → marked a = true → some b ∈ next a → ok b → marked b = true

variable {next ok}

namespace Fills

variable {starts : List (Option α)} {marked marked' marked'' : α → Bool}

/-- No start marks nothing. -/
theorem nil (marked : α → Bool) : Fills next ok [] marked marked where
  mono := fun _ h => h
  sound := fun _ h => Or.inl h
  covers := fun s hs => absurd hs List.not_mem_nil
  closed := fun a h hnot => absurd (h.symm.trans hnot) (by decide)

/-- Filling from one start and then from the others. -/
theorem cons {start : Option α} (h : Fills next ok [start] marked marked')
    (hrest : Fills next ok starts marked' marked'') :
    Fills next ok (start :: starts) marked marked'' where
  mono := fun a ha => hrest.mono a (h.mono a ha)
  sound := by
    intro a ha
    rcases hrest.sound a ha with ha' | ⟨s, hs, hreach⟩
    · rcases h.sound a ha' with hold | ⟨s, hs, hreach⟩
      · exact Or.inl hold
      · rw [List.mem_singleton] at hs
        exact Or.inr ⟨s, hs ▸ List.mem_cons_self, hreach⟩
    · exact Or.inr ⟨s, List.mem_cons_of_mem _ hs, hreach⟩
  covers := by
    intro s hs hok
    rcases List.mem_cons.mp hs with heq | hs
    · exact hrest.mono s (h.covers s (heq ▸ List.mem_cons_self) hok)
    · exact hrest.covers s hs hok
  closed := by
    intro a ha hnot b hb hok
    by_cases ha' : marked' a = true
    · exact hrest.mono b (h.closed a ha' hnot b hb hok)
    · exact hrest.closed a ha (Bool.not_eq_true _ ▸ ha') b hb hok

/-- A place is marked first, and its neighbours are filled then. -/
theorem visit [DecidableEq α] {a : α} (hok : ok a)
    (h : Fills next ok (next a) (Function.update marked a true) marked') :
    Fills next ok [some a] marked marked' where
  mono := by
    intro b hb
    apply h.mono
    by_cases hba : b = a
    · rw [hba, Function.update_self]
    · rwa [Function.update_of_ne hba]
  sound := by
    intro b hb
    rcases h.sound b hb with hb' | ⟨s, hs, hsok, hreach⟩
    · by_cases hba : b = a
      · exact Or.inr ⟨a, List.mem_cons_self, hok, hba ▸ Relation.ReflTransGen.refl⟩
      · rw [Function.update_of_ne hba] at hb'
        exact Or.inl hb'
    · exact Or.inr ⟨a, List.mem_cons_self, hok, Relation.ReflTransGen.head ⟨hs, hsok⟩ hreach⟩
  covers := by
    intro s hs _
    rw [List.mem_singleton, Option.some.injEq] at hs
    rw [hs]
    exact h.mono a (Function.update_self ..)
  closed := by
    intro b hb hnot c hc hcok
    by_cases hba : b = a
    · exact h.covers c (hba ▸ hc) hcok
    · exact h.closed b hb (by rwa [Function.update_of_ne hba]) c hc hcok

/-- A place that is marked already, or lacks the property. -/
theorem stay {start : Option α} (h : ∀ a, start = some a → ok a → marked a = true) :
    Fills next ok [start] marked marked where
  mono := fun _ ha => ha
  sound := fun _ ha => Or.inl ha
  covers := fun s hs hok => h s (List.mem_singleton.mp hs).symm hok
  closed := fun a ha hnot => absurd (ha.symm.trans hnot) (by decide)

end Fills

variable [Fintype α]

/-- The places without a mark. -/
def unmarked (marked : α → Bool) : Finset α := Finset.univ.filter fun a => marked a = false

/-- What is marked stays marked, so no more cells are unmarked. -/
theorem unmarked_mono {marked marked' : α → Bool}
    (h : ∀ a, marked a = true → marked' a = true) :
    (unmarked marked').card ≤ (unmarked marked).card := by
  apply Finset.card_le_card
  intro a ha
  simp only [unmarked, Finset.mem_filter, Finset.mem_univ, true_and] at ha ⊢
  by_contra hmarked
  rw [h a (Bool.not_eq_false _ ▸ hmarked)] at ha
  cases ha

variable [DecidableEq α]

/-- Marking a cell leaves one cell less. -/
theorem unmarked_update {marked : α → Bool} {a : α} (h : marked a = false) :
    (unmarked (Function.update marked a true)).card < (unmarked marked).card := by
  apply Finset.card_lt_card
  rw [Finset.ssubset_iff_of_subset]
  · refine ⟨a, by simp [unmarked, h], by simp [unmarked]⟩
  · intro b hb
    simp only [unmarked, Finset.mem_filter, Finset.mem_univ, true_and] at hb ⊢
    by_cases hba : b = a
    · rw [hba, Function.update_self] at hb
      cases hb
    · rwa [Function.update_of_ne hba] at hb

variable [DecidablePred ok]

/-- Filling with a bound above the number of places without a mark. -/
theorem fill_fills (fuel : Nat) (start : Option α) (marked : α → Bool)
    (hfuel : (unmarked marked).card < fuel) :
    Fills next ok [start] marked (fill next ok fuel start marked) := by
  induction fuel generalizing start marked with
  | zero => exact absurd hfuel (Nat.not_lt_zero _)
  | succ fuel ih =>
      -- the neighbours of a place, one after the other
      have hfold : ∀ (starts : List (Option α)) (marked : α → Bool),
          (unmarked marked).card < fuel → Fills next ok starts marked
            (starts.foldl (fun marked b => fill next ok fuel b marked) marked) := by
        intro starts
        induction starts with
        | nil => exact fun marked _ => Fills.nil marked
        | cons start starts ihstarts =>
            intro marked hfuel
            have hfirst := ih start marked hfuel
            exact hfirst.cons (ihstarts _ ((unmarked_mono hfirst.mono).trans_lt hfuel))
      cases start with
      | none => exact Fills.stay fun a ha => by cases ha
      | some a =>
          rw [fill]
          split
          · rename_i hnew
            apply Fills.visit hnew.1
            exact hfold _ _ (by have := unmarked_update hnew.2; omega)
          · rename_i hold
            apply Fills.stay
            intro b hb hok
            rw [Option.some.injEq] at hb
            subst hb
            by_contra hmarked
            exact hold ⟨hok, Bool.not_eq_true _ ▸ hmarked⟩

/-- With such a bound the recursion ends within it. -/
theorem fillWithin_eq_some (fuel : Nat) (start : Option α) (marked : α → Bool)
    (hfuel : (unmarked marked).card < fuel) :
    fillWithin next ok fuel start marked = some (fill next ok fuel start marked) := by
  induction fuel generalizing start marked with
  | zero => exact absurd hfuel (Nat.not_lt_zero _)
  | succ fuel ih =>
      have hfold : ∀ (starts : List (Option α)) (marked : α → Bool),
          (unmarked marked).card < fuel →
          starts.foldlM (fun marked b => fillWithin next ok fuel b marked) marked =
            some (starts.foldl (fun marked b => fill next ok fuel b marked) marked) := by
        intro starts
        induction starts with
        | nil => exact fun marked _ => rfl
        | cons start starts ihstarts =>
            intro marked hfuel
            have hfirst : Fills next ok [start] marked (fill next ok fuel start marked) :=
              fill_fills fuel start marked hfuel
            rw [List.foldlM_cons, ih start marked hfuel, List.foldl_cons]
            exact ihstarts _ ((unmarked_mono hfirst.mono).trans_lt hfuel)
      cases start with
      | none => rfl
      | some a =>
          rw [fillWithin, fill]
          split
          · rename_i hnew
            exact hfold _ _ (by have := unmarked_update hnew.2; omega)
          · rfl

omit [Fintype α] in
/-- A recursion that ends within a bound ends in the same way within a larger one. -/
theorem fillWithin_succ {fuel : Nat} {start : Option α} {marked marked' : α → Bool}
    (h : fillWithin next ok fuel start marked = some marked') :
    fillWithin next ok (fuel + 1) start marked = some marked' := by
  induction fuel generalizing start marked marked' with
  | zero => cases h
  | succ fuel ih =>
      have hfold : ∀ (starts : List (Option α)) (marked : α → Bool),
          starts.foldlM (fun marked b => fillWithin next ok fuel b marked) marked = some marked' →
          starts.foldlM (fun marked b => fillWithin next ok (fuel + 1) b marked) marked =
            some marked' := by
        intro starts
        induction starts with
        | nil => exact fun marked h => h
        | cons start starts ihstarts =>
            intro marked hrun
            rw [List.foldlM_cons] at hrun ⊢
            obtain ⟨filled, hfirst, hrest⟩ := Option.bind_eq_some_iff.mp hrun
            rw [ih hfirst]
            exact ihstarts filled hrest
      cases start with
      | none => exact h
      | some a =>
          rw [fillWithin] at h ⊢
          split at h
          · rename_i hnew
            rw [if_pos hnew]
            exact hfold _ _ h
          · rename_i hold
            rw [if_neg hold]
            exact h

/-- Every bound above the number of places without a mark gives the same result. -/
theorem fillWithin_of_le {bound fuel : Nat} (start : Option α) (marked : α → Bool)
    (hbound : (unmarked marked).card < bound) (hle : bound ≤ fuel) :
    fillWithin next ok fuel start marked = some (fill next ok bound start marked) := by
  induction fuel, hle using Nat.le_induction with
  | base => exact fillWithin_eq_some bound start marked hbound
  | succ fuel _ ih => exact fillWithin_succ ih

/-- Filling from closed marks adds what the start reaches. -/
theorem fill_eq_true_iff {fuel : Nat} {a : α} {marked : α → Bool} (hok : ok a)
    (hclosed : Closed next ok marked) (hfuel : (unmarked marked).card < fuel) (b : α) :
    fill next ok fuel (some a) marked b = true ↔ marked b = true ∨ Reaches next ok a b := by
  have hfills : Fills next ok [some a] marked (fill next ok fuel (some a) marked) :=
    fill_fills fuel (some a) marked hfuel
  constructor
  · intro hb
    rcases hfills.sound b hb with hold | ⟨s, hs, -, hreach⟩
    · exact Or.inl hold
    · rw [List.mem_singleton, Option.some.injEq] at hs
      exact Or.inr (hs ▸ hreach)
  · rintro (hold | hreach)
    · exact hfills.mono b hold
    -- along the path every place is ok and marked
    have hpath : ok b ∧ fill next ok fuel (some a) marked b = true := by
      induction hreach with
      | refl => exact ⟨hok, hfills.covers a List.mem_cons_self hok⟩
      | tail _ hstep ih =>
          obtain ⟨hcok, hc⟩ := ih
          refine ⟨hstep.2, ?_⟩
          rename_i c d _
          cases hold : marked c with
          | true => exact hfills.mono d (hclosed c d hcok hold hstep.1 hstep.2)
          | false => exact hfills.closed c hc hold d hstep.1 hstep.2
    exact hpath.2

end CodeBlocks.Flood
