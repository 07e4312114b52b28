/-!
# Uniform indices from words

The product of a word and the length has a lower half, of as many bits as the word, and an upper
half. The upper half is the index, and the lower half says whether the word is accepted: every
index is given by the same number of accepted words.
-/

namespace WarGame.Random

/-- The unused bits of a word of `w` bits that holds the length. -/
def leadingZeros (w len : Nat) : Nat := w - (len.log2 + 1)

/-- The greatest lower half of an accepted word. -/
def zone (w len : Nat) : BitVec w := (BitVec.ofNat w len <<< leadingZeros w len) - 1

theorem upper_half_lt {w len : Nat} (positive : 0 < len) (word : BitVec w) :
    (word.toNat * len) >>> w < len := by
  rw [Nat.shiftRight_eq_div_pow]
  exact Nat.div_lt_of_lt_mul (Nat.mul_lt_mul_of_pos_right word.isLt positive)

/-- The index that a word gives, if the word is accepted. -/
def accept {w : Nat} (len : Nat) (positive : 0 < len) (word : BitVec w) : Option (Fin len) :=
  if word * BitVec.ofNat w len ≤ zone w len then
    some ⟨(word.toNat * len) >>> w, upper_half_lt positive word⟩
  else none

end WarGame.Random
