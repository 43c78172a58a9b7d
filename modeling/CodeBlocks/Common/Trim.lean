import CodeBlocks.Common.StringUtils

/-!
# Trimming strings

`Trim` of the string helpers looks for the first and the last byte that is not a
space and copies what lies between. Where they are one byte, or there is none, it
asks for the size of a terminator alone, and `WriteInto` asserts that there is
more.
-/

namespace CodeBlocks.Common

open Words

/-- The string without its leading and trailing spaces. -/
def trimmed (str : List UInt8) : List UInt8 := stripped (· == 32) str

/-- `while (inside(i) && str[i] == ' ') i += step`: the index where it stops. -/
def skipSpaces (inside : Int → Bool) (step : Int) (str : List UInt8) : Nat → Int → Option Int
  | 0, _ => none
  | fuel + 1, i =>
    if inside i ∧ str[i.toNat]? = some 32 then
      (checked (i + step)).bind (skipSpaces inside step str fuel)
    else some i

/-- `ptr[now_len] = '\0'`, inside the string or at the place of its terminator. -/
def putTerminator (state : List UInt8 × Nat) : Option (List UInt8) :=
  if state.2 < state.1.length then some (state.1.set state.2 0)
  else if state.2 = state.1.length then some state.1
  else none

/-- `Trim`. A scan takes no more turns than the string has bytes, and one to stop. -/
def trim (str : List UInt8) : Option (List UInt8) := do
  let len := toInt str.length
  let endId ← checked (len - 1)
  let beginId ← skipSpaces (fun i => i < len) 1 str (str.length + 1) 0
  let endId ← skipSpaces (fun i => i ≥ 0) (-1) str (str.length + 1) endId
  let lengthWithNull := if endId > beginId then checked (endId - beginId + 2) else some 1
  let result ← lengthWithNull.bind writeInto
  let state ← copyInto (result, 0) ((str.drop beginId.toNat).take (endId - beginId + 1).toNat)
  putTerminator state

section Scan

variable {inside : Int → Bool} {step : Int} {str : List UInt8} {i : Int} {fuel : Nat}

theorem skipSpaces_stop (hfuel : 0 < fuel) (h : ¬ (inside i ∧ str[i.toNat]? = some 32)) :
    skipSpaces inside step str fuel i = some i := by
  cases fuel with
  | zero => cases hfuel
  | succ fuel => exact if_neg h

theorem skipSpaces_next (hfuel : 0 < fuel) (h : inside i ∧ str[i.toNat]? = some 32)
    (hrange : -2147483648 ≤ i + step ∧ i + step ≤ 2147483647) :
    skipSpaces inside step str fuel i = skipSpaces inside step str (fuel - 1) (i + step) := by
  cases fuel with
  | zero => cases hfuel
  | succ fuel =>
      rw [skipSpaces, if_pos h, checked_of_range hrange]
      rfl

end Scan

/-- The scan from the front, from some byte on, skips the spaces there. -/
theorem skipSpaces_front {len : Int} (front rest more : List UInt8)
    (hlen : len = ((front ++ rest).length : Nat)) (hmax : len < 2 ^ 31) {fuel : Nat}
    (hfuel : rest.length < fuel) :
    skipSpaces (fun i => i < len) 1 (front ++ rest ++ more) fuel front.length =
      some ((front.length + (rest.takeWhile (· == 32)).length : Nat) : Int) := by
  induction rest generalizing front fuel with
  | nil =>
      rw [List.append_nil] at hlen
      rw [skipSpaces_stop hfuel]
      · rfl
      · simp [hlen]
  | cons c rest ih =>
      have hread : (front ++ c :: rest ++ more)[(front.length : Int).toNat]? = some c := by
        simp
      have hinside : (front.length : Int) < len := by
        rw [hlen, List.length_append, List.length_cons]
        omega
      rw [List.length_cons] at hfuel
      by_cases hc : c = 32
      · rw [hc] at hread hlen ⊢
        have hrest := @ih (front ++ [32]) (by rw [hlen, List.append_cons]) (fuel - 1) (by omega)
        rw [← List.append_cons, List.length_append, List.length_singleton] at hrest
        rw [skipSpaces_next (by omega) ⟨decide_eq_true hinside, hread⟩ (by omega),
          ← Nat.cast_succ, hrest, List.takeWhile_cons_of_pos (by rfl), List.length_cons]
        congr 2
        omega
      · rw [skipSpaces_stop (by omega), List.takeWhile_cons_of_neg (by simpa using hc)]
        · rfl
        · rw [hread]
          simp [hc]

/-- The scan from the back, from some byte on, skips the spaces in front of it. -/
theorem skipSpaces_back (front more : List UInt8) (hmax : front.length < 2 ^ 31) {fuel : Nat}
    (hfuel : front.length < fuel) :
    skipSpaces (fun i => i ≥ 0) (-1) (front ++ more) fuel (front.length - 1) =
      some ((front.rdropWhile (· == 32)).length - 1 : Int) := by
  induction front using List.reverseRecOn generalizing more fuel with
  | nil =>
      rw [skipSpaces_stop hfuel]
      · rfl
      · simp
  | append_singleton front c ih =>
      rw [List.length_append, List.length_singleton] at hmax hfuel ⊢
      have hindex : ((front.length + 1 : Nat) : Int) - 1 = front.length := by omega
      have hread : (front ++ [c] ++ more)[(front.length : Int).toNat]? = some c := by
        simp
      rw [hindex]
      by_cases hc : c = 32
      · rw [hc] at hread ⊢
        have hrest := @ih ([32] ++ more) (by omega) (fuel - 1) (by omega)
        rw [← List.append_assoc] at hrest
        rw [skipSpaces_next (by omega) ⟨decide_eq_true (Int.natCast_nonneg _), hread⟩ (by omega),
          Int.add_neg_one, hrest, List.rdropWhile_concat_pos _ _ _ (by rfl)]
      · rw [skipSpaces_stop (by omega), List.rdropWhile_concat_neg _ _ _ (by simpa using hc)]
        · simp
        · rw [hread]
          simp [hc]

/-- A size as an `int` is the size itself or less. -/
theorem toInt_bounds (size : Nat) :
    -2147483648 ≤ toInt size ∧ toInt size ≤ 2147483647 ∧ toInt size ≤ size := by
  rw [toInt, Int32.toInt_ofNat', Int.bmod_eq_emod]
  have hsize : (Int32.size : Int) = 4294967296 := rfl
  rw [hsize]
  split <;> omega

/-- Where the two scans end. -/
structure Scanned (str : List UInt8) (beginId endId : Int) : Prop where
  front : skipSpaces (fun i => i < toInt str.length) 1 str (str.length + 1) 0 = some beginId
  back : (checked (toInt str.length - 1)).bind
    (skipSpaces (fun i => i ≥ 0) (-1) str (str.length + 1)) = some endId

namespace Scanned

variable {str : List UInt8} {beginId endId : Int}

/-- Both scans end, at the ends of the stripped part of what the `int` size covers. -/
theorem of_nonneg {size : Nat} (hsize : toInt str.length = size) :
    Scanned str (((str.take size).takeWhile (· == 32)).length : Nat)
      (((str.take size).rdropWhile (· == 32)).length - 1) := by
  have hbounds := toInt_bounds str.length
  have hlen : (str.take size).length = size := by
    rw [List.length_take]
    omega
  have hfuel : (str.take size).length < str.length + 1 := by omega
  have hstr := List.take_append_drop size str
  constructor
  · have hscan := skipSpaces_front [] (str.take size) (str.drop size)
      (by rw [List.nil_append, hlen]) (by omega) hfuel
    rw [List.nil_append, hstr, List.length_nil, Nat.zero_add] at hscan
    rw [hsize]
    exact hscan
  · have hscan := skipSpaces_back (str.take size) (str.drop size) (by omega) hfuel
    rw [hstr, hlen] at hscan
    rw [hsize, checked_of_range (by omega), Option.bind_some]
    exact hscan

/-- The rest of `Trim`. -/
theorem trim_eq (h : Scanned str beginId endId) :
    trim str = ((if endId > beginId then checked (endId - beginId + 2) else some 1).bind
      writeInto).bind fun result =>
        (copyInto (result, 0) ((str.drop beginId.toNat).take (endId - beginId + 1).toNat)).bind
          putTerminator := by
  obtain ⟨last, hlast, hback⟩ := Option.bind_eq_some_iff.mp h.back
  rw [trim, hlast]
  simp only [Option.bind_eq_bind, Option.bind_some, h.front, hback]

/-- A result of one byte or none has a size that `WriteInto` refuses. -/
theorem trim_eq_none (h : Scanned str beginId endId) (hle : endId ≤ beginId) :
    trim str = none := by
  rw [h.trim_eq, if_neg (Int.not_lt.mpr hle)]
  rfl

/-- The bytes from the one scan to the other, as far as the size has an `int` value. -/
theorem trim_eq_some {front core back : List UInt8}
    (h : Scanned (front ++ core ++ back) front.length (front.length + core.length - 1))
    (hcore : 2 ≤ core.length) :
    trim (front ++ core ++ back) =
      if core.length ≤ 2 ^ 31 - 2 then some core else none := by
  have hcount : ((front.length : Int) + core.length - 1 - front.length + 1).toNat =
      core.length := by
    omega
  have hbytes : ((front ++ core ++ back).drop front.length).take core.length = core := by
    rw [List.append_assoc, List.drop_left, List.take_left]
  have hnull : (front.length : Int) + core.length - 1 - front.length + 2 =
      ((core.length + 1 : Nat) : Int) := by
    omega
  rw [h.trim_eq, if_pos (by omega), hnull, hcount, Int.toNat_natCast, hbytes]
  by_cases hmax : core.length ≤ 2 ^ 31 - 2
  · have hcopy := copyInto_eq [] (List.replicate core.length 0) core
      (by rw [List.length_replicate])
    rw [List.drop_replicate, Nat.sub_self, List.replicate_zero, List.append_nil, List.nil_append,
      List.nil_append, List.length_nil] at hcopy
    rw [if_pos hmax, checked_of_lt (by omega), Option.bind_some, writeInto_succ (by omega),
      Option.bind_some, hcopy, Option.bind_some, putTerminator, if_neg (Nat.lt_irrefl _),
      if_pos rfl]
  · rw [if_neg hmax, checked, if_neg (by omega)]
    rfl

/-- Where the size is no `int`, nothing is scanned. -/
theorem trim_eq_none_of_neg (hneg : toInt str.length < 0) : trim str = none := by
  cases hlast : checked (toInt str.length - 1) with
  | none =>
      rw [trim, hlast]
      rfl
  | some last =>
      obtain ⟨rfl, -⟩ := checked_eq_some hlast
      have hscanned : Scanned str 0 (toInt str.length - 1) := by
        constructor
        · exact skipSpaces_stop (Nat.succ_pos _) (by simp; omega)
        · rw [hlast, Option.bind_some]
          exact skipSpaces_stop (Nat.succ_pos _) (by simp; omega)
      exact hscanned.trim_eq_none (by omega)

end Scanned

/-- `Trim` returns the stripped part of what the `int` size covers, where that is two bytes or more
and its terminator has room, and nothing otherwise. -/
theorem trim_eq (str : List UInt8) :
    trim str =
      if 2 ≤ (trimmed (str.take (toInt str.length).toNat)).length ∧
        (trimmed (str.take (toInt str.length).toNat)).length ≤ 2 ^ 31 - 2
      then some (trimmed (str.take (toInt str.length).toNat)) else none := by
  have hbounds := toInt_bounds str.length
  by_cases hneg : toInt str.length < 0
  · have hempty : (toInt str.length).toNat = 0 := by omega
    rw [Scanned.trim_eq_none_of_neg hneg, hempty, List.take_zero]
    rfl
  obtain ⟨size, hsize⟩ := Int.eq_ofNat_of_zero_le (Int.not_lt.mp hneg)
  have hscanned := Scanned.of_nonneg hsize
  rw [hsize, Int.toNat_natCast]
  generalize htext : str.take size = text at *
  by_cases hnil : trimmed text = []
  · rw [rdropWhile_of_stripped_nil hnil] at hscanned
    rw [hnil, hscanned.trim_eq_none (by simp)]
    rfl
  have hfront : text.takeWhile (· == 32) ++ trimmed text = text.rdropWhile (· == 32) :=
    takeWhile_append_stripped hnil
  have hstr : str = text.takeWhile (· == 32) ++ trimmed text ++
      (text.rtakeWhile (· == 32) ++ str.drop size) := by
    rw [hfront, ← List.append_assoc, List.rdropWhile_append_rtakeWhile, ← htext,
      List.take_append_drop]
  rw [← hfront, List.length_append, Nat.cast_add] at hscanned
  by_cases hcore : 2 ≤ (trimmed text).length
  · rw [hstr] at hscanned ⊢
    rw [hscanned.trim_eq_some hcore]
    simp only [hcore, true_and]
  · rw [hscanned.trim_eq_none (by omega), if_neg fun h => hcore h.1]

/-- `Trim` returns the string without the spaces at its ends exactly when it holds two bytes or more
that are not spaces, from the first to the last of them no more than an `int` counts with a
terminator, and none of them behind what the `int` size covers. -/
theorem trim_exact_iff (str : List UInt8) :
    trim str = some (trimmed str) ↔
      2 ≤ str.countP (fun c => !(c == 32)) ∧ (trimmed str).length ≤ 2 ^ 31 - 2 ∧
        ∀ c ∈ str.drop (toInt str.length).toNat, c = 32 := by
  have hstr := List.take_append_drop (toInt str.length).toNat str
  have hcount : 2 ≤ (trimmed str).length ↔ 2 ≤ str.countP fun c => !(c == 32) :=
    two_le_length_stripped_iff
  rw [trim_eq, ← hcount]
  generalize str.take (toInt str.length).toNat = text at *
  generalize str.drop (toInt str.length).toNat = more at *
  have hspaces (bytes : List UInt8) :
      (∀ c ∈ bytes, (c == 32) = true) ↔ ∀ c ∈ bytes, c = 32 := by
    simp only [beq_iff_eq]
  have hmore (hne : trimmed text ≠ []) : trimmed str = trimmed text ↔ ∀ c ∈ more, c = 32 := by
    rw [← hstr, ← hspaces]
    exact stripped_append_eq_iff hne
  constructor
  · intro hsome
    split at hsome
    · rename_i hlen
      have heq := Option.some.inj hsome
      have hne : trimmed text ≠ [] := List.length_pos_iff.mp (Nat.lt_of_succ_lt hlen.1)
      rw [← heq]
      exact ⟨hlen.1, hlen.2, (hmore hne).mp heq.symm⟩
    · cases hsome
  · rintro ⟨htwo, hmax, hrest⟩
    have hne : trimmed text ≠ [] := by
      intro hnil
      have hall : trimmed str = [] := by
        rw [trimmed, stripped_eq_nil_iff, ← hstr, List.forall_mem_append]
        exact ⟨stripped_eq_nil_iff.mp hnil, (hspaces more).mpr hrest⟩
      rw [hall] at htwo
      cases htwo
    have heq := (hmore hne).mpr hrest
    rw [heq] at htwo hmax ⊢
    rw [if_pos ⟨htwo, hmax⟩]

/-- No byte is left, or one. -/
theorem not_trim_exact : ¬ trim [] = some (trimmed []) ∧ ¬ trim [32, 32] = some (trimmed [32, 32]) ∧
    ¬ trim [97] = some (trimmed [97]) := by
  decide

end CodeBlocks.Common
