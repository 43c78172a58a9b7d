import Mathlib.Algebra.Group.Nat.Defs
import Mathlib.Data.List.Basic

/-!
# Base-128 numbers in byte lists

A number is written in groups of seven bits, the lowest first, and every byte but
the last has its high bit set. A bound on the number of bytes is an argument of the
writer and of the reader.
-/

namespace CodeBlocks.Varint

/-- The bytes of a number, at most `limit` of them. -/
def put : Nat → Nat → List UInt8
  | 0, _ => []
  | limit + 1, n =>
    if n < 128 then [UInt8.ofNat n] else UInt8.ofNat (n % 128 + 128) :: put limit (n / 128)

/-- The number at the front of some bytes, and the bytes behind it. -/
def get : Nat → List UInt8 → Option (Nat × List UInt8)
  | 0, _ => none
  | _ + 1, [] => none
  | limit + 1, byte :: bytes =>
    if byte.toNat < 128 then some (byte.toNat, bytes)
    else (get limit bytes).map fun (n, rest) => (byte.toNat - 128 + 128 * n, rest)

/-- Small numbers fit into a byte. -/
theorem toNat_ofNat {n : Nat} (h : n < 256) : (UInt8.ofNat n).toNat = n := by
  rw [UInt8.toNat_ofNat', Nat.mod_eq_of_lt (by simpa using h)]

/-- Reading undoes writing, whatever follows the number. -/
theorem get_put {limit n : Nat} (hpos : 0 < limit) (h : n < 128 ^ limit) (rest : List UInt8) :
    get limit (put limit n ++ rest) = some (n, rest) := by
  induction limit generalizing n with
  | zero => cases hpos
  | succ limit ih =>
      rw [put]
      split
      · rename_i hlast
        rw [List.singleton_append, get, toNat_ofNat (by omega), if_pos hlast]
      · rename_i hmore
        have hnext : n / 128 < 128 ^ limit := by
          rw [Nat.pow_succ, Nat.mul_comm] at h
          exact Nat.div_lt_of_lt_mul h
        have hlimit : 0 < limit := by
          rcases Nat.eq_zero_or_pos limit with rfl | hlimit
          · rw [Nat.pow_zero] at hnext
            omega
          · exact hlimit
        rw [List.cons_append, get, toNat_ofNat (by omega), if_neg (by omega), ih hlimit hnext,
          Option.map_some, Option.some.injEq, Prod.mk.injEq]
        exact ⟨by omega, rfl⟩

/-- Every number takes a byte at least. -/
theorem length_put_pos {limit : Nat} (h : 0 < limit) (n : Nat) : 0 < (put limit n).length := by
  cases limit with
  | zero => cases h
  | succ limit =>
      rw [put]
      split <;> exact Nat.succ_pos _

/-- The limit bounds the bytes. -/
theorem length_put_le (limit n : Nat) : (put limit n).length ≤ limit := by
  induction limit generalizing n with
  | zero => exact Nat.le_refl 0
  | succ limit ih =>
      rw [put]
      split
      · exact Nat.le_add_left 1 limit
      · exact Nat.succ_le_succ (ih (n / 128))

/-- A number below 128 is its own encoding. -/
theorem put_of_lt {limit n : Nat} (h : n < 128) : put (limit + 1) n = [UInt8.ofNat n] := by
  rw [put, if_pos h]

end CodeBlocks.Varint
