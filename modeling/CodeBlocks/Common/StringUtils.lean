import Mathlib.Algebra.Order.Ring.Int
import CodeBlocks.Core.Words

/-!
# Joining and splitting strings

`Split` and `Join` of the string helpers. Strings are lists of bytes; their
lengths are cast to `int`, and a sum outside the range of `int`, a failed assert
or a write behind the buffer leaves no result.
-/

namespace CodeBlocks.Common

open Words

/-- A size cast to `int`. -/
def toInt (size : Nat) : Int := (Int32.ofNat size).toInt

/-- The value of an `int` expression, where it does not overflow. -/
def checked (n : Int) : Option Int := if -2147483648 ≤ n ∧ n ≤ 2147483647 then some n else none

/-- `WriteInto`: the resized string, all zero bytes. -/
def writeInto (lengthWithNull : Int) : Option (List UInt8) :=
  if lengthWithNull > 1 then some (List.replicate (lengthWithNull - 1).toNat 0) else none

/-- `ptr[now_len++] = c`, inside the string. -/
def putByte (state : List UInt8 × Nat) (c : UInt8) : Option (List UInt8 × Nat) :=
  if state.2 < state.1.length then some (state.1.set state.2 c, state.2 + 1) else none

/-- The inner loops of `Join`. -/
def copyInto (state : List UInt8 × Nat) (bytes : List UInt8) : Option (List UInt8 × Nat) :=
  bytes.foldlM putByte state

/-- The body of the copying loop of `Join`. -/
def joinStep (str : List UInt8) (vsLen : Int) (state : List UInt8 × Nat)
    (v : List UInt8 × Nat) : Option (List UInt8 × Nat) := do
  let state ← copyInto state (v.1.take (toInt v.1.length).toNat)
  if v.2 < vsLen - 1 then copyInto state (str.take (toInt str.length).toNat) else some state

/-- `total_len` of `Join`. -/
def totalLength (str : List UInt8) (vs : List (List UInt8)) : Option Int :=
  let strLen := toInt str.length
  let vsLen := toInt vs.length
  let separators := if vsLen > 0 then checked ((vsLen - 1) * strLen) else some 0
  separators.bind fun totalLen =>
    if strLen ≥ 0 ∧ vsLen ≥ 0 then
      (vs.take vsLen.toNat).foldlM (fun totalLen v => checked (totalLen + toInt v.length)) totalLen
    else none

/-- `Join`. -/
def join (str : List UInt8) (vs : List (List UInt8)) : Option (List UInt8) :=
  (totalLength str vs).bind fun totalLen =>
    if totalLen ≥ 0 then
      (checked (totalLen + 1)).bind fun lengthWithNull =>
        (writeInto lengthWithNull).bind fun result =>
          ((vs.take (toInt vs.length).toNat).zipIdx.foldlM (joinStep str (toInt vs.length))
            (result, 0)).map Prod.fst
    else none

/-- `isspace` in the classic locale, by which `operator>>` ends a word. -/
def isSpace (c : UInt8) : Bool :=
  c == 32 || c == 9 || c == 10 || c == 11 || c == 12 || c == 13

/-- `Split`. Every word takes a byte, so the length of the string bounds their number. -/
def split (str : List UInt8) (delim : UInt8) : List (List UInt8) :=
  let len := (toInt str.length).toNat
  let str := (str.take len).map (fun c => if c = delim then 32 else c) ++ str.drop len
  words isSpace str.length str

/-- A size below the sign bit keeps its value as an `int`. -/
theorem toInt_of_lt {size : Nat} (h : size < 2 ^ 31) : toInt size = size :=
  Int32.toInt_ofNat_of_lt h

theorem checked_of_range {n : Int} (h : -2147483648 ≤ n ∧ n ≤ 2147483647) : checked n = some n :=
  if_pos h

theorem checked_of_lt {n : Nat} (h : n < 2 ^ 31) : checked n = some (n : Int) :=
  checked_of_range ⟨by omega, by omega⟩

/-- A sum that does not overflow is the sum. -/
theorem checked_eq_some {n value : Int} (h : checked n = some value) :
    value = n ∧ -2147483648 ≤ n ∧ n ≤ 2147483647 := by
  rw [checked] at h
  split at h
  · rename_i hrange
    exact ⟨(Option.some.inj h).symm, hrange⟩
  · cases h

/-- The size of a result that is not empty, with its terminator. -/
theorem writeInto_succ {n : Nat} (h : 0 < n) :
    writeInto ((n + 1 : Nat) : Int) = some (List.replicate n 0) := by
  have hroom : ((n + 1 : Nat) - 1 : Int).toNat = n := by omega
  rw [writeInto, if_pos (by omega), hroom]

/-- A byte that is put fills the next place. -/
theorem putByte_eq (written room : List UInt8) (r c : UInt8) :
    putByte (written ++ r :: room, written.length) c =
      some (written ++ [c] ++ room, (written ++ [c]).length) := by
  have hlt : written.length < (written ++ r :: room).length := by simp
  have hset : (written ++ r :: room).set written.length c = written ++ [c] ++ room := by
    rw [List.set_append_right _ _ (Nat.le_refl _), Nat.sub_self, List.set_cons_zero,
      List.append_assoc, List.singleton_append]
  rw [putByte, if_pos hlt, hset, List.length_append, List.length_singleton]

/-- Bytes copied behind what is written already. -/
theorem copyInto_eq (written room bytes : List UInt8) (hroom : bytes.length ≤ room.length) :
    copyInto (written ++ room, written.length) bytes =
      some (written ++ bytes ++ room.drop bytes.length, (written ++ bytes).length) := by
  induction bytes generalizing written room with
  | nil => simp [copyInto]
  | cons c bytes ih =>
      cases room with
      | nil => cases hroom
      | cons r room =>
          rw [copyInto, List.foldlM_cons, putByte_eq, List.append_cons written c bytes]
          exact ih (written ++ [c]) room (Nat.le_of_succ_le_succ hroom)

/-- The lengths added up by `Join`, as long as they stay in the range of `int`. -/
theorem foldlM_length_eq (vs : List (List UInt8)) (total : Nat)
    (h : total + vs.flatten.length < 2 ^ 31) :
    vs.foldlM (fun totalLen v => checked (totalLen + toInt v.length)) (total : Int) =
      some ((total + vs.flatten.length : Nat) : Int) := by
  induction vs generalizing total with
  | nil => simp
  | cons v vs ih =>
      rw [List.flatten_cons, List.length_append] at h ⊢
      have hsum : checked ((total : Int) + toInt v.length) =
          some ((total + v.length : Nat) : Int) := by
        rw [toInt_of_lt (by omega), ← Nat.cast_add, checked_of_lt (by omega)]
      rw [List.foldlM_cons, hsum]
      have hrest := ih (total + v.length) (by omega)
      rw [Nat.add_assoc] at hrest
      exact hrest

/-- The length of a joined string. -/
theorem length_intercalate (str : List UInt8) (vs : List (List UInt8)) :
    (str.intercalate vs).length = (vs.length - 1) * str.length + vs.flatten.length := by
  induction vs with
  | nil => simp
  | cons v vs ih =>
      cases vs with
      | nil => simp
      | cons w vs =>
          simp only [List.intercalate_cons_cons, List.length_append, ih, List.length_cons,
            List.flatten_cons, Nat.add_sub_cancel, Nat.add_one_mul]
          omega

/-- The copying loop of `Join` from some string on, with room for what is left to write. -/
theorem foldlM_joinStep_eq (str : List UInt8) (hstr : str.length < 2 ^ 31) (vsLen i : Nat)
    (vs : List (List UInt8)) (hlen : i + vs.length = vsLen) (hvs : vs.flatten.length < 2 ^ 31)
    (written room : List UInt8) (hroom : (str.intercalate vs).length ≤ room.length) :
    (vs.zipIdx i).foldlM (joinStep str vsLen) (written ++ room, written.length) =
      some (written ++ str.intercalate vs ++ room.drop (str.intercalate vs).length,
        (written ++ str.intercalate vs).length) := by
  induction vs generalizing i written room with
  | nil => simp
  | cons v vs ih =>
      rw [List.flatten_cons, List.length_append] at hvs
      have hv : v.take (toInt v.length).toNat = v := by
        rw [toInt_of_lt (by omega), Int.toNat_natCast, List.take_length]
      have hs : str.take (toInt str.length).toNat = str := by
        rw [toInt_of_lt hstr, Int.toNat_natCast, List.take_length]
      cases vs with
      | nil =>
          have hlast : ¬ (i : Int) < vsLen - 1 := by
            rw [List.length_singleton] at hlen
            omega
          rw [List.intercalate_singleton] at hroom ⊢
          rw [List.zipIdx_cons, List.foldlM_cons, joinStep]
          simp only [hv, copyInto_eq written room v hroom, hlast, if_false]
          rfl
      | cons w vs =>
          have hmore : (i : Int) < vsLen - 1 := by
            simp only [List.length_cons] at hlen
            omega
          rw [List.intercalate_cons_cons, List.length_append, List.length_append] at hroom
          have hafter := ih (i + 1) (by rw [List.length_cons] at hlen; omega) (by omega)
            (written ++ v ++ str) (room.drop v.length |>.drop str.length)
            (by rw [List.length_drop, List.length_drop]; omega)
          have hsep := copyInto_eq (written ++ v) (room.drop v.length) str
            (by rw [List.length_drop]; omega)
          rw [List.zipIdx_cons, List.foldlM_cons, joinStep]
          simp only [hv, hs, copyInto_eq written room v (by omega), hmore, if_true,
            Option.bind_eq_bind, Option.bind_some, hsep, hafter]
          simp only [List.intercalate_cons_cons, List.append_assoc, List.drop_drop,
            List.length_append, Nat.add_assoc]

/-- No more pieces than bytes, where no piece is empty. -/
theorem length_le_flatten {vs : List (List UInt8)} (hvs : ∀ v ∈ vs, v ≠ []) :
    vs.length ≤ vs.flatten.length := by
  induction vs with
  | nil => exact Nat.le_refl _
  | cons v vs ih =>
      obtain ⟨hv, hrest⟩ := List.forall_mem_cons.mp hvs
      have hpos := List.length_pos_iff.mpr hv
      have hle := ih hrest
      rw [List.length_cons, List.flatten_cons, List.length_append]
      omega

/-- The length of a joined string is counted without an overflow. -/
theorem totalLength_eq_some (delim : UInt8) {vs : List (List UInt8)} (hne : vs ≠ [])
    (hvs : ∀ v ∈ vs, v ≠ []) (hlen : ([delim].intercalate vs).length < 2 ^ 31) :
    totalLength [delim] vs = some (([delim].intercalate vs).length : Int) := by
  have hpos : 0 < vs.length := List.length_pos_iff.mpr hne
  have hle := length_le_flatten hvs
  have htotal := length_intercalate [delim] vs
  rw [List.length_singleton, Nat.mul_one] at htotal
  have hone : toInt [delim].length = 1 := rfl
  have hcount : toInt vs.length = vs.length := toInt_of_lt (by omega)
  have hstart : checked (((vs.length : Int) - 1) * 1) = some ((vs.length - 1 : Nat) : Int) := by
    rw [← checked_of_lt (by omega), Int.mul_one, Nat.cast_pred hpos]
  have hsum := foldlM_length_eq vs (vs.length - 1) (by omega)
  rw [totalLength, hone, hcount, if_pos (by omega), hstart, Option.bind_some,
    if_pos ⟨by omega, by omega⟩, Int.toNat_natCast, List.take_length, hsum, htotal]

/-- `Join` with one byte between the strings, where the result and its terminator have an `int`
length. -/
theorem join_eq_some (delim : UInt8) {vs : List (List UInt8)} (hne : vs ≠ [])
    (hvs : ∀ v ∈ vs, v ≠ []) (hlen : ([delim].intercalate vs).length ≤ 2 ^ 31 - 2) :
    join [delim] vs = some ([delim].intercalate vs) := by
  have hpos : 0 < vs.length := List.length_pos_iff.mpr hne
  have hle := length_le_flatten hvs
  have htotal := length_intercalate [delim] vs
  rw [List.length_singleton, Nat.mul_one] at htotal
  have hcount : toInt vs.length = vs.length := toInt_of_lt (by omega)
  have hsize := totalLength_eq_some delim hne hvs (by omega)
  generalize hjoined : [delim].intercalate vs = joined at *
  have hnonneg : (joined.length : Int) ≥ 0 := by omega
  have hnull : checked ((joined.length : Int) + 1) = some ((joined.length + 1 : Nat) : Int) := by
    rw [← Nat.cast_succ, checked_of_lt (by omega)]
  have hcopy := foldlM_joinStep_eq [delim] (by simp) vs.length 0 vs (Nat.zero_add _) (by omega) []
    (List.replicate joined.length 0) (by rw [List.length_replicate, hjoined])
  rw [hjoined, List.drop_replicate, Nat.sub_self, List.replicate_zero, List.append_nil,
    List.nil_append, List.nil_append, List.length_nil] at hcopy
  rw [join, hsize, hcount, Option.bind_some, if_pos hnonneg, hnull, Option.bind_some,
    writeInto_succ (by omega), Option.bind_some, Int.toNat_natCast, List.take_length, hcopy,
    Option.map_some]

/-- What `Join` returns has an `int` length, with its terminator. -/
theorem length_le_of_join {str : List UInt8} {vs : List (List UInt8)} {result : List UInt8}
    (h : join str vs = some result) : result.length ≤ 2 ^ 31 - 2 := by
  have hput (state state' : List UInt8 × Nat) (c : UInt8) (hc : putByte state c = some state') :
      state'.1.length = state.1.length := by
    rw [putByte] at hc
    split at hc
    · cases hc
      exact List.length_set
    · cases hc
  have hcopy (bytes : List UInt8) (state state' : List UInt8 × Nat)
      (hc : copyInto state bytes = some state') : state'.1.length = state.1.length := by
    induction bytes generalizing state with
    | nil =>
        cases hc
        rfl
    | cons c bytes ih =>
        rw [copyInto, List.foldlM_cons] at hc
        obtain ⟨next, hnext, hrest⟩ := Option.bind_eq_some_iff.mp hc
        rw [ih next hrest, hput state next c hnext]
  have hstep (n : Int) (state state' : List UInt8 × Nat) (v : List UInt8 × Nat)
      (hc : joinStep str n state v = some state') : state'.1.length = state.1.length := by
    rw [joinStep] at hc
    obtain ⟨next, hnext, hrest⟩ := Option.bind_eq_some_iff.mp hc
    split at hrest
    · rw [hcopy _ _ _ hrest, hcopy _ _ _ hnext]
    · cases hrest
      exact hcopy _ _ _ hnext
  have hloop (n : Int) (ws : List (List UInt8 × Nat)) (state state' : List UInt8 × Nat)
      (hc : ws.foldlM (joinStep str n) state = some state') :
      state'.1.length = state.1.length := by
    induction ws generalizing state with
    | nil =>
        cases hc
        rfl
    | cons v ws ih =>
        rw [List.foldlM_cons] at hc
        obtain ⟨next, hnext, hrest⟩ := Option.bind_eq_some_iff.mp hc
        rw [ih next hrest, hstep n state next v hnext]
  obtain ⟨totalLen, -, hwritten⟩ := Option.bind_eq_some_iff.mp h
  split at hwritten
  · obtain ⟨lengthWithNull, hnull, hresult⟩ := Option.bind_eq_some_iff.mp hwritten
    obtain ⟨buffer, hwrite, hcopied⟩ := Option.bind_eq_some_iff.mp hresult
    obtain ⟨state, hrun, rfl⟩ := Option.map_eq_some_iff.mp hcopied
    rw [hloop _ _ _ _ hrun]
    rw [writeInto] at hwrite
    split at hwrite
    · cases hwrite
      rw [List.length_replicate]
      obtain ⟨rfl, -, hmax⟩ := checked_eq_some hnull
      omega
    · cases hwrite
  · cases hwritten

/-- `Split` takes words from a string of the same length. -/
theorem split_eq (str : List UInt8) (delim : UInt8) :
    ∃ text, text.length = str.length ∧ split str delim = words isSpace str.length text := by
  refine ⟨(str.take (toInt str.length).toNat).map (fun c => if c = delim then 32 else c) ++
    str.drop (toInt str.length).toNat, ?_, ?_⟩
  · rw [List.length_append, List.length_map, ← List.length_append, List.take_append_drop]
  · rw [split]
    simp only [List.length_append, List.length_map]
    rw [← List.length_append, List.take_append_drop]

/-- Where the length is an `int`, every delimiter becomes a space. -/
theorem split_of_lt {str : List UInt8} (h : str.length < 2 ^ 31) (delim : UInt8) :
    split str delim =
      words isSpace str.length (str.map fun c => if c = delim then 32 else c) := by
  rw [split, toInt_of_lt h]
  simp only [Int.toNat_natCast, List.take_length, List.drop_length, List.append_nil,
    List.length_map]

/-- The delimiters become blanks, and nothing else does. -/
theorem map_intercalate_delim (delim : UInt8) {vs : List (List UInt8)}
    (hvs : ∀ v ∈ vs, delim ∉ v) :
    ([delim].intercalate vs).map (fun c => if c = delim then 32 else c) = [32].intercalate vs := by
  have hword (v : List UInt8) (hv : delim ∉ v) :
      v.map (fun c => if c = delim then 32 else c) = v := by
    have hkept : ∀ c ∈ v, (if c = delim then 32 else c) = id c := by
      intro c hc
      rw [if_neg (ne_of_mem_of_not_mem hc hv), id]
    rw [List.map_congr_left hkept, List.map_id]
  induction vs with
  | nil => rfl
  | cons v vs ih =>
      obtain ⟨hv, hrest⟩ := List.forall_mem_cons.mp hvs
      cases vs with
      | nil => rw [List.intercalate_singleton, List.intercalate_singleton, hword v hv]
      | cons w vs =>
          rw [List.intercalate_cons_cons, List.intercalate_cons_cons, List.map_append,
            List.map_append, ih hrest, hword v hv, List.map_singleton, if_pos rfl]

/-- `Split` gives back what `Join` joined, and no assert of `Join` fails, exactly when no string
holds a whitespace byte and the joined string with its terminator has an `int` length. -/
theorem split_join_iff (delim : UInt8) {vs : List (List UInt8)} (hne : vs ≠ [])
    (hvs : ∀ v ∈ vs, v ≠ [] ∧ delim ∉ v) :
    (∃ result, join [delim] vs = some result ∧ split result delim = vs) ↔
      (∀ v ∈ vs, ∀ c ∈ v, isSpace c = false) ∧
        ([delim].intercalate vs).length ≤ 2 ^ 31 - 2 := by
  constructor
  · rintro ⟨result, hjoin, hsplit⟩
    obtain ⟨text, htext, hwords⟩ := split_eq result delim
    rw [hwords] at hsplit
    constructor
    · intro v hv
      rw [← hsplit] at hv
      exact (words_clean hv).2
    · have hlen := @length_intercalate_words_le _ isSpace delim result.length text
      rw [hsplit, htext] at hlen
      exact hlen.trans (length_le_of_join hjoin)
  · rintro ⟨hclean, hlen⟩
    refine ⟨_, join_eq_some delim hne (fun v hv => (hvs v hv).1) hlen, ?_⟩
    have hcount : vs.length ≤ ([delim].intercalate vs).length := by
      rw [length_intercalate]
      exact (length_le_flatten fun v hv => (hvs v hv).1).trans (Nat.le_add_left _ _)
    rw [split_of_lt (by omega), map_intercalate_delim delim fun v hv => (hvs v hv).2]
    exact words_intercalate (by decide) (fun v hv => ⟨(hvs v hv).1, hclean v hv⟩) hcount

/-- Two words without whitespace. -/
theorem split_join_words : (∃ result, join [44] [[97, 98], [99]] = some result ∧
    split result 44 = [[97, 98], [99]]) :=
  (split_join_iff 44 (by simp) (by simp)).mpr ⟨by simp [isSpace], by simp⟩

/-- A space inside a string parts it. -/
theorem split_join_space : ¬ ∃ result, join [44] [[97, 32, 98]] = some result ∧
    split result 44 = [[97, 32, 98]] := by
  have hjoin : join [44] [[97, 32, 98]] = some [97, 32, 98] := by decide
  rw [hjoin]
  rintro ⟨result, heq, hsplit⟩
  cases heq
  revert hsplit
  decide

end CodeBlocks.Common
