import Mathlib.Data.List.Basic

/-!
# Stream ciphers

A cipher that is started with an initialization vector and fed piece by piece.
It transforms a stream when feeding the pieces one after the other is the same as
feeding them at once, and no byte is added or lost.
-/

namespace CodeBlocks

/-- A cipher context and its update function. -/
structure StreamCipher where
  ivLength : Nat
  State : Type
  init : List UInt8 → State
  update : State → List UInt8 → State × List UInt8

namespace StreamCipher

/-- The update function is a transform of streams. -/
structure IsStream (cipher : StreamCipher) : Prop where
  append : ∀ s xs ys, cipher.update s (xs ++ ys) =
    ((cipher.update (cipher.update s xs).1 ys).1,
      (cipher.update s xs).2 ++ (cipher.update (cipher.update s xs).1 ys).2)
  length : ∀ s xs, (cipher.update s xs).2.length = xs.length

variable {cipher : StreamCipher}

end StreamCipher

/-- The cipher that adds a keystream, which it starts from the beginning. -/
def keystreamCipher (ivLength : Nat) (keystream : List UInt8) : StreamCipher where
  ivLength := ivLength
  State := Nat
  init _ := 0
  update pos data := (pos + data.length, data.mapIdx fun i b => b ^^^ keystream.getD (pos + i) 0)

end CodeBlocks
