import Mathlib
import WarGame.Proofs.Shuffling

/-!
# Indices are uniform

The words that are accepted for an index follow one another, and there are equally many for every
index. So where all words are equally likely all indices are, and at most every other word is
refused. A picked card has its index from words of 64 bits. A pass over a pile swaps with places
that come from words of 32 bits, one after the other.
-/

namespace WarGame

namespace Random

variable {w len : Nat}

/-! ### The length and the zone -/

theorem toNat_length (fits : len < 2 ^ w) : (BitVec.ofNat w len).toNat = len := by
  rw [BitVec.toNat_ofNat, Nat.mod_eq_of_lt fits]

theorem log2_lt_width (positive : 0 < len) (fits : len < 2 ^ w) : len.log2 < w :=
  (Nat.log2_lt (Nat.ne_of_gt positive)).mpr fits

theorem leadingZeros_eq_clz (positive : 0 < len) (fits : len < 2 ^ w) :
    leadingZeros w len = (BitVec.ofNat w len).clz.toNat := by
  have used := log2_lt_width positive fits
  have some : BitVec.ofNat w len ≠ 0#w := by
    intro none
    have value := toNat_length fits
    rw [none, BitVec.toNat_ofNat, Nat.zero_mod] at value
    omega
  have above := BitVec.toNat_lt_two_pow_sub_clz (x := BitVec.ofNat w len)
  have below := BitVec.two_pow_sub_clz_le_toNat_of_ne_zero (by omega) some
  rw [toNat_length fits, ← Nat.log2_lt (Nat.ne_of_gt positive)] at above
  rw [toNat_length fits, ← Nat.le_log2 (Nat.ne_of_gt positive)] at below
  rw [leadingZeros]
  omega

/-- Moved up by its unused bits, the length reaches the highest bit of a word. -/
theorem length_shifted (positive : 0 < len) (fits : len < 2 ^ w) :
    len * 2 ^ leadingZeros w len < 2 ^ w ∧ 2 ^ w ≤ 2 * (len * 2 ^ leadingZeros w len) := by
  have used := log2_lt_width positive fits
  have whole : 2 ^ (len.log2 + 1) * 2 ^ leadingZeros w len = 2 ^ w := by
    rw [← Nat.pow_add, leadingZeros]
    congr 1
    omega
  have below : 2 ^ len.log2 ≤ len := Nat.log2_self_le (Nat.ne_of_gt positive)
  have above : len < 2 ^ (len.log2 + 1) := Nat.lt_log2_self
  constructor
  · calc len * 2 ^ leadingZeros w len
        < 2 ^ (len.log2 + 1) * 2 ^ leadingZeros w len :=
          Nat.mul_lt_mul_of_pos_right above (Nat.two_pow_pos _)
      _ = 2 ^ w := whole
  · calc 2 ^ w = 2 * (2 ^ len.log2 * 2 ^ leadingZeros w len) := by rw [← whole]; ring
      _ ≤ 2 * (len * 2 ^ leadingZeros w len) :=
          Nat.mul_le_mul_left 2 (Nat.mul_le_mul_right _ below)

theorem toNat_zone (positive : 0 < len) (fits : len < 2 ^ w) :
    (zone w len).toNat = len * 2 ^ leadingZeros w len - 1 := by
  have width : 0 < w := Nat.zero_lt_of_lt (log2_lt_width positive fits)
  have some : 1 ≤ len * 2 ^ leadingZeros w len := Nat.mul_pos positive (Nat.two_pow_pos _)
  have moved : (BitVec.ofNat w len <<< leadingZeros w len).toNat =
      len * 2 ^ leadingZeros w len := by
    rw [BitVec.toNat_shiftLeft, toNat_length fits, Nat.shiftLeft_eq,
      Nat.mod_eq_of_lt (length_shifted positive fits).1]
  have one : (1 : BitVec w).toNat = 1 := BitVec.toNat_one width
  rw [zone, BitVec.toNat_sub_of_le, moved, one]
  rw [BitVec.le_def, moved, one]
  exact some

/-! ### The words of an index -/

/-- The lower half of the product of a word and the length tells whether the word is accepted, and
the upper half is the index. -/
theorem accept_eq_some_iff (positive : 0 < len) (fits : len < 2 ^ w) {word : BitVec w}
    {i : Fin len} : accept len positive word = some i ↔
      word.toNat * len % 2 ^ w < len * 2 ^ leadingZeros w len ∧ word.toNat * len / 2 ^ w = i := by
  have room : 0 < len * 2 ^ leadingZeros w len := Nat.mul_pos positive (Nat.two_pow_pos _)
  have test : word * BitVec.ofNat w len ≤ zone w len ↔
      word.toNat * len % 2 ^ w < len * 2 ^ leadingZeros w len := by
    rw [BitVec.le_def, BitVec.toNat_mul, toNat_length fits, toNat_zone positive fits]
    omega
  simp only [accept, test]
  split
  · next low => simp [low, Fin.ext_iff, Nat.shiftRight_eq_div_pow]
  · next high => simp [high]

/-- So the products that give an index are those between two bounds. -/
theorem accept_iff_between (positive : 0 < len) (fits : len < 2 ^ w) {word : BitVec w}
    {i : Fin len} : accept len positive word = some i ↔ i * 2 ^ w ≤ word.toNat * len ∧
      word.toNat * len < i * 2 ^ w + len * 2 ^ leadingZeros w len := by
  have small := (length_shifted positive fits).1
  have split := Nat.div_add_mod' (word.toNat * len) (2 ^ w)
  rw [accept_eq_some_iff positive fits]
  constructor
  · rintro ⟨low, upper⟩
    rw [upper] at split
    omega
  · rintro ⟨least, most⟩
    have upper : word.toNat * len / 2 ^ w = i :=
      Nat.div_eq_of_lt_le least (by rw [Nat.succ_mul]; omega)
    rw [upper] at split
    exact ⟨by omega, upper⟩

/-- The lowest number of a word that gives the index. -/
def firstWord (w : Nat) {len : Nat} (i : Fin len) : Nat := (i * 2 ^ w) ⌈/⌉ len

theorem firstWord_le_iff (i : Fin len) (number : Nat) :
    firstWord w i ≤ number ↔ i * 2 ^ w ≤ number * len := by
  rw [firstWord, ceilDiv_le_iff_le_mul i.pos, Nat.mul_comm len]

theorem firstWord_add_le_iff (i : Fin len) (more number : Nat) :
    firstWord w i + more ≤ number ↔ i * 2 ^ w + len * more ≤ number * len := by
  have least := firstWord_le_iff (w := w) i (number - more)
  rw [Nat.sub_mul, Nat.mul_comm more] at least
  constructor
  · intro beyond
    have room : len * more ≤ number * len := by
      rw [Nat.mul_comm number]
      exact Nat.mul_le_mul_left len (by omega)
    have := least.mp (by omega)
    omega
  · intro beyond
    have room : more ≤ number := by
      refine Nat.le_of_mul_le_mul_left (c := len) ?_ i.pos
      rw [Nat.mul_comm len number]
      omega
    have := least.mpr (by omega)
    omega

/-- The words of an index follow one another from the first. -/
theorem accept_iff_follows (positive : 0 < len) (fits : len < 2 ^ w) {word : BitVec w}
    {i : Fin len} : accept len positive word = some i ↔
      firstWord w i ≤ word.toNat ∧ word.toNat < firstWord w i + 2 ^ leadingZeros w len := by
  rw [accept_iff_between positive fits, firstWord_le_iff, ← not_le, ← not_le,
    firstWord_add_le_iff]

theorem lastWord_lt (positive : 0 < len) (fits : len < 2 ^ w) (i : Fin len) :
    firstWord w i + 2 ^ leadingZeros w len ≤ 2 ^ w := by
  have small := (length_shifted positive fits).1
  have next : (i + 1) * 2 ^ w ≤ 2 ^ w * len := by
    rw [Nat.mul_comm (2 ^ w)]
    exact Nat.mul_le_mul_right _ i.isLt
  rw [firstWord_add_le_iff]
  rw [Nat.succ_mul] at next
  omega

/-! ### Counting words -/

/-- The words that are accepted with an index. -/
def wordsOf (w : Nat) (positive : 0 < len) (i : Fin len) : Finset (BitVec w) :=
  {word | accept len positive word = some i}

/-- The words that are accepted. -/
def acceptedWords (w : Nat) (positive : 0 < len) : Finset (BitVec w) :=
  {word | (accept len positive word).isSome = true}

theorem card_wordsOf (positive : 0 < len) (fits : len < 2 ^ w) (i : Fin len) :
    (wordsOf w positive i).card = 2 ^ leadingZeros w len := by
  have numbers : (wordsOf w positive i).image BitVec.toNat =
      Finset.Ico (firstWord w i) (firstWord w i + 2 ^ leadingZeros w len) := by
    ext number
    simp only [wordsOf, accept_iff_follows positive fits, Finset.mem_image, Finset.mem_filter,
      Finset.mem_univ, true_and, Finset.mem_Ico]
    constructor
    · rintro ⟨word, within, rfl⟩
      exact within
    · intro within
      have fitting := toNat_length (Nat.lt_of_lt_of_le within.2 (lastWord_lt positive fits i))
      exact ⟨BitVec.ofNat w number, by rwa [fitting], fitting⟩
  rw [← Finset.card_image_of_injective _ fun _ _ => BitVec.eq_of_toNat_eq, numbers, Nat.card_Ico,
    Nat.add_sub_cancel_left]

theorem card_acceptedWords (positive : 0 < len) (fits : len < 2 ^ w) :
    (acceptedWords w positive).card = len * 2 ^ leadingZeros w len := by
  have parts : acceptedWords w positive = Finset.univ.biUnion (wordsOf w positive) := by
    ext word
    simp [acceptedWords, wordsOf, Option.isSome_iff_exists]
  rw [parts, Finset.card_biUnion]
  · simp [card_wordsOf positive fits]
  · intro i _ j _ apart
    refine Finset.disjoint_left.mpr fun word first second => apart ?_
    simp only [wordsOf, Finset.mem_filter, Finset.mem_univ, true_and] at first second
    exact Option.some.inj (first.symm.trans second)

/-! ### Drawing an index -/

/-- The generator past so many words. -/
def past (next : Generator → BitVec w × Generator) : Nat → Generator → Generator
  | 0, g => g
  | words + 1, g => past next words (next g).2

/-- The answer to the word after so many others. -/
def answerAt (next : Generator → BitVec w × Generator) (positive : 0 < len) (g : Generator)
    (words : Nat) : Option (Fin len) :=
  accept len positive (next (past next words g)).1

/-- The index of the first accepted among the next words, and the generator past that word. -/
def FirstAccepted (next : Generator → BitVec w × Generator) (positive : 0 < len) (tries : Nat)
    (g : Generator) (i : Fin len) (after : Generator) : Prop :=
  ∃ refused < tries, (∀ k < refused, answerAt next positive g k = none) ∧
    answerAt next positive g refused = some i ∧ after = past next (refused + 1) g

variable {next : Generator → BitVec w × Generator} {tries : Nat} {g after : Generator}

theorem answerAt_zero (positive : 0 < len) :
    answerAt next positive g 0 = accept len positive (next g).1 := rfl

theorem firstAccepted_of_accepted (positive : 0 < len) {i j : Fin len}
    (answer : accept len positive (next g).1 = some j) :
    FirstAccepted next positive (tries + 1) g i after ↔ i = j ∧ after = (next g).2 := by
  have first := (answerAt_zero positive).trans answer
  constructor
  · rintro ⟨refused, -, vain, accepted, rfl⟩
    cases refused with
    | zero => exact ⟨Option.some.inj (accepted.symm.trans first), rfl⟩
    | succ refused => cases (vain 0 (Nat.succ_pos refused)).symm.trans first
  · rintro ⟨rfl, rfl⟩
    exact ⟨0, Nat.succ_pos tries, by simp, first, rfl⟩

theorem firstAccepted_of_refused (positive : 0 < len) {i : Fin len}
    (answer : accept len positive (next g).1 = none) :
    FirstAccepted next positive (tries + 1) g i after ↔
      FirstAccepted next positive tries (next g).2 i after := by
  have first := (answerAt_zero positive).trans answer
  constructor
  · rintro ⟨refused, within, vain, accepted, rfl⟩
    cases refused with
    | zero => cases first.symm.trans accepted
    | succ refused =>
      exact ⟨refused, Nat.lt_of_succ_lt_succ within,
        fun k before => vain (k + 1) (Nat.succ_lt_succ before), accepted, rfl⟩
  · rintro ⟨refused, within, vain, accepted, rfl⟩
    refine ⟨refused + 1, Nat.succ_lt_succ within, fun k before => ?_, accepted, rfl⟩
    cases k with
    | zero => exact first
    | succ k => exact vain k (Nat.lt_of_succ_lt_succ before)

theorem sample_eq_ok_iff (positive : 0 < len) {i : Fin len} :
    g.sample next len positive tries = .ok (i, after) ↔
      FirstAccepted next positive tries g i after := by
  induction tries generalizing g with
  | zero => simp [Generator.sample, FirstAccepted]
  | succ tries ih =>
    rw [Generator.sample]
    cases answer : accept len positive (next g).1 with
    | some j =>
      rw [firstAccepted_of_accepted positive answer]
      simp only [answer, Except.ok.injEq, Prod.mk.injEq, eq_comm]
    | none =>
      rw [firstAccepted_of_refused positive answer, ← ih]
      simp only [answer]

theorem indexFrom_eq_ok_iff (positive : 0 < len) {i : Fin len} :
    indexFrom next tries len g = .ok (i, after) ↔ FirstAccepted next positive tries g i after := by
  rw [indexFrom, dif_pos positive]
  exact sample_eq_ok_iff positive

/-- A computation that draws an index below a length from words of `w` bits. -/
structure Uniform (next : Generator → BitVec w × Generator) (positive : 0 < len)
    (draw : Nat → Random (Fin len)) : Prop where
  /-- The test of a word in numbers. The zone is the length moved up by the zeros before it. -/
  accepts : ∀ (word : BitVec w) (i : Fin len), accept len positive word = some i ↔
    word.toNat * len % 2 ^ w ≤ (len <<< (BitVec.ofNat w len).clz.toNat) % 2 ^ w - 1 ∧
      word.toNat * len / 2 ^ w = i
  /-- Every index has as many words as any other. -/
  equal : ∀ i : Fin len, (wordsOf w positive i).card = 2 ^ (BitVec.ofNat w len).clz.toNat
  accepted : (acceptedWords w positive).card = len * 2 ^ (BitVec.ofNat w len).clz.toNat
  half : 2 ^ w ≤ 2 * (acceptedWords w positive).card
  drawn : ∀ tries g i after, draw tries g = .ok (i, after) ↔
    FirstAccepted next positive tries g i after

theorem indexFrom_uniform (next : Generator → BitVec w × Generator) (positive : 0 < len)
    (fits : len < 2 ^ w) : Uniform next positive fun tries => indexFrom next tries len := by
  have small := (length_shifted positive fits).1
  constructor
  case accepts =>
    intro word i
    have room : 0 < len * 2 ^ leadingZeros w len := Nat.mul_pos positive (Nat.two_pow_pos _)
    rw [accept_eq_some_iff positive fits, ← leadingZeros_eq_clz positive fits, Nat.shiftLeft_eq,
      Nat.mod_eq_of_lt small]
    exact and_congr_left fun _ => by omega
  case equal =>
    intro i
    rw [card_wordsOf positive fits, leadingZeros_eq_clz positive fits]
  case accepted => rw [card_acceptedWords positive fits, leadingZeros_eq_clz positive fits]
  case half =>
    rw [card_acceptedWords positive fits]
    exact (length_shifted positive fits).2
  case drawn =>
    intro tries g i after
    exact indexFrom_eq_ok_iff positive

/-! ### The swaps of a pass -/

variable {α : Type} {xs ys : Array α} {last : Nat}

/-- The swaps of a pass from a position down to 1. The place that position `last + 1` is swapped with
is one of the `last + 2` from there down, by the first word of 32 bits accepted for it. -/
inductive Swaps (tries : Nat) : Nat → Array α → Generator → Array α → Generator → Prop
  | done (xs : Array α) (g : Generator) : Swaps tries 0 xs g xs g
  | swap {last : Nat} {xs ys : Array α} {g mid after : Generator} {i : Fin (last + 2)}
      (drawn : FirstAccepted Generator.next32 (Nat.succ_pos (last + 1)) tries g i mid)
      (rest : Swaps tries last (xs.swapIfInBounds (last + 1) i) mid ys after) :
      Swaps tries (last + 1) xs g ys after

theorem swapDown_eq_ok_iff :
    swapDown tries last xs g = .ok (ys, after) ↔ Swaps tries last xs g ys after := by
  constructor
  · intro done
    induction last generalizing xs g with
    | zero =>
      cases done
      exact .done _ _
    | succ last ih =>
      obtain ⟨i, mid, drawn, rest⟩ := bind_ok done
      exact .swap ((indexFrom_eq_ok_iff (Nat.succ_pos (last + 1))).mp drawn) (ih rest)
  · intro swaps
    induction swaps with
    | done xs g => rfl
    | swap drawn rest ih =>
      rw [swapDown, bind_of_ok ((indexFrom_eq_ok_iff (Nat.succ_pos _)).mpr drawn)]
      exact ih

/-- How a list is shuffled. -/
structure ShuffledUniformly (xs : List α) : Prop where
  /-- Each bound is one for which every place is as likely as any other. -/
  places : ∀ last, last + 2 ≤ xs.length → Uniform Generator.next32 (Nat.succ_pos (last + 1))
    fun tries => indexFrom Generator.next32 tries (last + 2)
  swaps : ∀ tries g ys after, shuffle tries xs g = .ok (ys, after) ↔
    Swaps tries (xs.length - 1) xs.toArray g ys.toArray after

theorem shuffledUniformly_of_short (xs : List α) (short : xs.length < 2 ^ 32) : ShuffledUniformly xs := by
  constructor
  case places =>
    intro last within
    exact indexFrom_uniform _ _ (by omega)
  case swaps =>
    intro tries g ys after
    rw [← swapDown_eq_ok_iff]
    constructor
    · intro done
      obtain ⟨zs, mid, swapped, rest⟩ := bind_ok done
      cases rest
      exact swapped
    · intro swapped
      rw [shuffle, bind_of_ok swapped]
      rfl

/-- The index of a picked card is uniform for every length that 64 bits can hold, and so is every
place that a pass over a list swaps with, for every length that 32 bits can hold. -/
theorem uniform_of_fits (xs : List α) (positive : 0 < len) (fits : len < 2 ^ 64)
    (short : xs.length < 2 ^ 32) :
    Uniform Generator.next64 positive (fun tries => index tries len) ∧ ShuffledUniformly xs :=
  ⟨indexFrom_uniform _ positive fits, shuffledUniformly_of_short xs short⟩

/-- For the first length every index has two words. The list is one longer than half the words, so
the first place is any of as many, each has one word, and nearly half of the words are refused. -/
theorem uniform_at_edges :
    (0 < 2 ^ 63 - 1 ∧ 2 ^ 63 - 1 < 2 ^ 64 ∧ (List.range (2 ^ 31 + 1)).length < 2 ^ 32) ∧
      (leadingZeros 64 (2 ^ 63 - 1) = 1 ∧ leadingZeros 32 (2 ^ 31 + 1) = 0) ∧
      Uniform Generator.next64 (by decide) (fun tries => index tries (2 ^ 63 - 1)) ∧
      ShuffledUniformly (List.range (2 ^ 31 + 1)) := by
  have short : (List.range (2 ^ 31 + 1)).length < 2 ^ 32 := by
    rw [List.length_range]
    decide
  exact ⟨⟨by decide, by decide, short⟩, by decide +kernel,
    uniform_of_fits (List.range (2 ^ 31 + 1)) (by decide) (by decide) short⟩

end Random

end WarGame
