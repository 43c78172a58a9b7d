import Mathlib.Algebra.Group.Nat.Defs
import Mathlib.Data.List.Basic

/-!
# Little-endian words in byte lists

Words of one, two and four bytes are written least significant byte first.
Readers return the word and the bytes after it; a reader applied to too few
bytes returns zero and consumes nothing, so its callers check the length first.
Words in network byte order have the same bytes in the opposite order.
-/

namespace CodeBlocks.Bytes

/-- The two bytes of a 16-bit word. -/
def put16 (w : UInt16) : List UInt8 :=
  [UInt8.ofNat (w.toNat % 256), UInt8.ofNat (w.toNat / 256)]

/-- The four bytes of a 32-bit word. -/
def put32 (w : UInt32) : List UInt8 :=
  [UInt8.ofNat (w.toNat % 256), UInt8.ofNat (w.toNat / 256 % 256),
    UInt8.ofNat (w.toNat / 65536 % 256), UInt8.ofNat (w.toNat / 16777216)]

/-- Read one byte. -/
def get8 : List UInt8 → UInt8 × List UInt8
  | b :: rest => (b, rest)
  | [] => (0, [])

/-- Read a 16-bit word. -/
def get16 : List UInt8 → UInt16 × List UInt8
  | b₀ :: b₁ :: rest => (UInt16.ofNat (b₀.toNat + 256 * b₁.toNat), rest)
  | rest => (0, rest)

/-- Read a 32-bit word. -/
def get32 : List UInt8 → UInt32 × List UInt8
  | b₀ :: b₁ :: b₂ :: b₃ :: rest =>
      (UInt32.ofNat (b₀.toNat + 256 * b₁.toNat + 65536 * b₂.toNat + 16777216 * b₃.toNat), rest)
  | rest => (0, rest)

@[simp] theorem length_put16 (w : UInt16) : (put16 w).length = 2 := rfl

@[simp] theorem length_put32 (w : UInt32) : (put32 w).length = 4 := rfl

private theorem toNat_byte {n : Nat} (h : n < 256) : (UInt8.ofNat n).toNat = n := by
  rw [UInt8.toNat_ofNat', Nat.mod_eq_of_lt (by simpa using h)]

@[simp] theorem get8_cons (b : UInt8) (rest : List UInt8) : get8 (b :: rest) = (b, rest) := rfl

/-- Readers look at the bytes of their word only. -/
theorem get8_take (bs : List UInt8) : (get8 (bs.take 1)).1 = (get8 bs).1 := by
  cases bs <;> rfl

/-- A byte is taken off the front. -/
theorem get8_snd (bs : List UInt8) : (get8 bs).2 = bs.drop 1 := by
  cases bs <;> rfl

/-- A word depends on its four bytes only. -/
theorem get32_take {bs : List UInt8} (h : 4 ≤ bs.length) :
    (get32 (bs.take 4)).1 = (get32 bs).1 := by
  match bs, h with
  | _ :: _ :: _ :: _ :: _, _ => rfl

/-- Two bytes are taken off the front. -/
theorem get16_snd {bs : List UInt8} (h : 2 ≤ bs.length) : (get16 bs).2 = bs.drop 2 := by
  match bs, h with
  | _ :: _ :: _, _ => rfl

/-- Four bytes are taken off the front. -/
theorem get32_snd {bs : List UInt8} (h : 4 ≤ bs.length) : (get32 bs).2 = bs.drop 4 := by
  match bs, h with
  | _ :: _ :: _ :: _ :: _, _ => rfl

/-- Reading undoes writing, whatever follows the word. -/
@[simp] theorem get16_put16 (w : UInt16) (rest : List UInt8) :
    get16 (put16 w ++ rest) = (w, rest) := by
  have hw := w.toNat_lt
  simp only [put16, get16, List.cons_append, List.nil_append, Prod.mk.injEq, and_true]
  rw [toNat_byte (by omega), toNat_byte (by omega)]
  apply UInt16.toNat_inj.mp
  rw [UInt16.toNat_ofNat']
  omega

/-- A word is read as it was written, whatever follows it. -/
@[simp] theorem get32_put32 (w : UInt32) (rest : List UInt8) :
    get32 (put32 w ++ rest) = (w, rest) := by
  have hw := w.toNat_lt
  simp only [put32, get32, List.cons_append, List.nil_append, Prod.mk.injEq, and_true]
  rw [toNat_byte (by omega), toNat_byte (by omega), toNat_byte (by omega),
    toNat_byte (by omega)]
  apply UInt32.toNat_inj.mp
  rw [UInt32.toNat_ofNat']
  omega

/-- Writing undoes reading a byte. -/
theorem get8_cons_drop {bs : List UInt8} (h : 1 ≤ bs.length) : (get8 bs).1 :: bs.drop 1 = bs := by
  match bs, h with
  | _ :: _, _ => rfl

/-- Writing undoes reading a word. -/
theorem put32_get32 {bs : List UInt8} (h : 4 ≤ bs.length) :
    put32 (get32 bs).1 ++ bs.drop 4 = bs := by
  match bs, h with
  | b₀ :: b₁ :: b₂ :: b₃ :: rest, _ =>
    have h₀ := b₀.toNat_lt
    have h₁ := b₁.toNat_lt
    have h₂ := b₂.toNat_lt
    have h₃ := b₃.toNat_lt
    have hword : (UInt32.ofNat (b₀.toNat + 256 * b₁.toNat + 65536 * b₂.toNat +
        16777216 * b₃.toNat)).toNat =
        b₀.toNat + 256 * b₁.toNat + 65536 * b₂.toNat + 16777216 * b₃.toNat := by
      rw [UInt32.toNat_ofNat']
      omega
    have hbyte (b : UInt8) {n : Nat} (hn : n = b.toNat) : UInt8.ofNat n = b := by
      rw [hn, UInt8.ofNat_toNat]
    simp only [get32, put32, hword, List.drop_succ_cons, List.drop_zero, List.cons_append,
      List.nil_append]
    rw [hbyte b₀ (by omega), hbyte b₁ (by omega), hbyte b₂ (by omega), hbyte b₃ (by omega)]

/-- The four bytes of a 32-bit word in network byte order. -/
def put32be (w : UInt32) : List UInt8 := (put32 w).reverse

/-- Look at a 32-bit word in network byte order. -/
def get32be (bs : List UInt8) : UInt32 := (get32 (bs.take 4).reverse).1

@[simp] theorem length_put32be (w : UInt32) : (put32be w).length = 4 := rfl

/-- So is a word in network byte order. -/
@[simp] theorem get32be_put32be (w : UInt32) (rest : List UInt8) :
    get32be (put32be w ++ rest) = w := by
  have htake : (put32be w ++ rest).take 4 = put32be w := by
    rw [← length_put32be w]
    exact List.take_left
  rw [get32be, htake, put32be, List.reverse_reverse, ← List.append_nil (put32 w), get32_put32]

/-- What follows does not change the word at the front. -/
theorem get32be_append {bs : List UInt8} (h : 4 ≤ bs.length) (more : List UInt8) :
    get32be (bs ++ more) = get32be bs := by
  rw [get32be, get32be, List.take_append_of_le_length h]

/-- A word is written as it was read. -/
theorem put32be_get32be {bs : List UInt8} (h : 4 ≤ bs.length) :
    put32be (get32be bs) = bs.take 4 := by
  have hlen : (bs.take 4).reverse.length = 4 := by
    rw [List.length_reverse, List.length_take, Nat.min_eq_left h]
  have hword := put32_get32 (Nat.le_of_eq hlen.symm)
  rw [List.drop_eq_nil_of_le (Nat.le_of_eq hlen), List.append_nil] at hword
  rw [put32be, get32be, hword, List.reverse_reverse]

end CodeBlocks.Bytes
