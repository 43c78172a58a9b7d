import Mathlib.Data.List.AList

/-!
# Hash maps

Maps from keys to values with the three ways of changing them that an
`std::unordered_map` offers: an insertion that leaves an existing entry alone,
erasure, and a loop over all entries that rewrites some and erases others.
-/

namespace CodeBlocks

/-- A map with at most one value for each key. -/
abbrev Table (κ ν : Type*) := AList fun _ : κ => ν

namespace Table

variable {κ ν : Type*} [DecidableEq κ]

/-- `insert`: an entry that exists stays as it is. -/
def insertNew (t : Table κ ν) (k : κ) (v : ν) : Table κ ν :=
  if k ∈ t then t else AList.insert k v t

/-- A loop over entries; those for which `keep` gives nothing are erased. -/
def sweepEntries (keep : κ → ν → Option ν) (l : List (Σ _ : κ, ν)) : List (Σ _ : κ, ν) :=
  l.filterMap fun e => (keep e.1 e.2).map fun v => ⟨e.1, v⟩

omit [DecidableEq κ] in
/-- A loop keeps the order of the keys and adds none. -/
theorem keys_sweepEntries (keep : κ → ν → Option ν) (l : List (Σ _ : κ, ν)) :
    (sweepEntries keep l).keys.Sublist l.keys := by
  induction l with
  | nil => exact List.Sublist.slnil
  | cons e l ih =>
      rw [sweepEntries, List.filterMap_cons]
      cases keep e.1 e.2 with
      | none => exact ih.cons e.1
      | some v => exact ih.cons_cons e.1

/-- The loop over all entries of a map. -/
def sweep (keep : κ → ν → Option ν) (t : Table κ ν) : Table κ ν where
  entries := sweepEntries keep t.entries
  nodupKeys := (keys_sweepEntries keep t.entries).nodup t.nodupKeys

/-- An insertion changes only a key without an entry. -/
theorem lookup_insertNew (t : Table κ ν) (k k' : κ) (v : ν) :
    (t.insertNew k v).lookup k' =
      if k' = k then some ((t.lookup k).getD v) else t.lookup k' := by
  unfold insertNew
  by_cases hk : k' = k
  · subst hk
    rw [if_pos rfl]
    by_cases hmem : k' ∈ t
    · obtain ⟨w, hw⟩ := Option.isSome_iff_exists.mp (AList.lookup_isSome.mpr hmem)
      rw [if_pos hmem, hw, Option.getD_some]
    · rw [if_neg hmem, AList.lookup_insert, AList.lookup_eq_none.mpr hmem, Option.getD_none]
  · rw [if_neg hk]
    split
    · rfl
    · exact AList.lookup_insert_ne hk

/-- After an insertion the key has an entry, and so have all the old ones. -/
theorem mem_insertNew {t : Table κ ν} {k k' : κ} {v : ν} :
    k' ∈ t.insertNew k v ↔ k' = k ∨ k' ∈ t := by
  unfold insertNew
  split
  · rename_i hmem
    exact ⟨Or.inr, fun h => h.elim (fun heq => heq ▸ hmem) id⟩
  · exact AList.mem_insert t

/-- An erasure takes away one entry and leaves the others. -/
theorem lookup_erase_eq (t : Table κ ν) (k k' : κ) :
    (t.erase k).lookup k' = if k' = k then none else t.lookup k' := by
  split
  · rename_i heq
    rw [heq, AList.lookup_erase]
  · rename_i hne
    exact AList.lookup_erase_ne hne

/-- An entry that is left after an erasure was there before. -/
theorem lookup_of_erase {t : Table κ ν} {k k' : κ} {v : ν}
    (h : (t.erase k).lookup k' = some v) : t.lookup k' = some v := by
  rw [lookup_erase_eq] at h
  split at h
  · cases h
  · exact h

/-- A loop over entries with different keys treats each one by itself. -/
theorem dlookup_sweepEntries (keep : κ → ν → Option ν) (k : κ) (l : List (Σ _ : κ, ν))
    (h : l.NodupKeys) : (sweepEntries keep l).dlookup k = (l.dlookup k).bind (keep k) := by
  induction l with
  | nil => rfl
  | cons e l ih =>
      obtain ⟨hnot, hrest⟩ := List.nodupKeys_cons.mp h
      have hkeys := (keys_sweepEntries keep l).subset
      by_cases hk : k = e.1
      · subst hk
        rw [List.dlookup_cons_eq, Option.bind_some, sweepEntries, List.filterMap_cons]
        cases hv : keep e.1 e.2 with
        | none => exact List.dlookup_eq_none.mpr fun hmem => hnot (hkeys hmem)
        | some v => exact List.dlookup_cons_eq _ _ _
      · rw [List.dlookup_cons_ne _ _ hk, ← ih hrest, sweepEntries, List.filterMap_cons]
        cases keep e.1 e.2 with
        | none => rfl
        | some v => exact List.dlookup_cons_ne _ _ hk

/-- What a loop leaves under a key is what it makes of the entry that was there. -/
theorem lookup_sweep (keep : κ → ν → Option ν) (t : Table κ ν) (k : κ) :
    (t.sweep keep).lookup k = (t.lookup k).bind (keep k) :=
  dlookup_sweepEntries keep k t.entries t.nodupKeys

/-- A key is in a map exactly when the map has a value for it. -/
theorem mem_iff_lookup {t : Table κ ν} {k : κ} : k ∈ t ↔ ∃ v, t.lookup k = some v := by
  rw [← AList.lookup_isSome, Option.isSome_iff_exists]

end Table

end CodeBlocks
