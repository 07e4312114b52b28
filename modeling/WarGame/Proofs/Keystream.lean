import Mathlib
import WarGame.Proofs.Shuffling

/-!
# Shuffles read the stream word by word

A shuffle sees nothing of its generator but the words that come next. So it can be followed on a list
of words, such as the blocks of a seed one after the other, and whether a pack is shuffled within so
many tries can be told from the first blocks.
-/

namespace WarGame

namespace Random

variable {α : Type} {g : Generator} {words rest : List UInt32} {tries len last : Nat}

/-- The words that a generator gives next. -/
def Ahead (g : Generator) (words : List UInt32) : Prop :=
  ∀ i word, words[i]? = some word → wordAt g.seed (g.position + i) = word

theorem Ahead.next {word : UInt32} (ahead : Ahead g (word :: rest)) :
    ∃ after, g.next32 = (word.toBitVec, after) ∧ Ahead after rest := by
  refine ⟨{ g with position := g.position + 1 }, ?_, fun i later place => ?_⟩
  · rw [Generator.next32, show wordAt g.seed g.position = word from ahead 0 word rfl]
  · rw [← ahead (i + 1) later place, Nat.add_assoc, Nat.add_comm 1]

/-! ### Drawing from words -/

/-- The first index accepted among words, and the words behind it. -/
def sampleIn (len : Nat) (positive : 0 < len) :
    Nat → List UInt32 → Option (Fin len × List UInt32)
  | 0, _ | _ + 1, [] => none
  | tries + 1, word :: rest =>
    match accept len positive word.toBitVec with
    | some i => some (i, rest)
    | none => sampleIn len positive tries rest

/-- The swaps of a pass with places drawn from words. -/
def swapDownIn (tries : Nat) : Nat → Array α → List UInt32 → Option (Array α × List UInt32)
  | 0, xs, words => some (xs, words)
  | last + 1, xs, words =>
    match sampleIn (last + 2) (Nat.succ_pos _) tries words with
    | none => none
    | some (i, rest) => swapDownIn tries last (xs.swapIfInBounds (last + 1) i) rest

theorem sample_of_ahead (positive : 0 < len) {i : Fin len} (ahead : Ahead g words)
    (drawn : sampleIn len positive tries words = some (i, rest)) :
    ∃ after, g.sample Generator.next32 len positive tries = .ok (i, after) ∧ Ahead after rest := by
  induction tries generalizing g words with
  | zero => cases drawn
  | succ tries ih =>
    cases words with
    | nil => cases drawn
    | cons word behind =>
      obtain ⟨mid, next, further⟩ := ahead.next
      rw [sampleIn] at drawn
      rw [Generator.sample, next]
      dsimp only
      cases answer : accept len positive word.toBitVec with
      | some j =>
        rw [answer] at drawn
        cases drawn
        exact ⟨mid, rfl, further⟩
      | none =>
        rw [answer] at drawn
        exact ih further drawn

theorem swapDown_of_ahead {xs ys : Array α} (ahead : Ahead g words)
    (swapped : swapDownIn tries last xs words = some (ys, rest)) :
    ∃ after, swapDown tries last xs g = .ok (ys, after) ∧ Ahead after rest := by
  induction last generalizing g words xs with
  | zero =>
    cases swapped
    exact ⟨g, rfl, ahead⟩
  | succ last ih =>
    rw [swapDownIn] at swapped
    split at swapped
    · cases swapped
    · next i behind drawn =>
      obtain ⟨mid, found, further⟩ := sample_of_ahead _ ahead drawn
      have index : indexFrom Generator.next32 tries (last + 2) g = .ok (i, mid) := by
        rw [indexFrom, dif_pos (Nat.succ_pos _), found]
      rw [swapDown, bind_of_ok index]
      exact ih further swapped

theorem shuffle_of_ahead (xs : List α) {ys : Array α} (ahead : Ahead g words)
    (swapped : swapDownIn tries (xs.length - 1) xs.toArray words = some (ys, rest)) :
    ∃ after, shuffle tries xs g = .ok (ys.toList, after) := by
  obtain ⟨after, done, -⟩ := swapDown_of_ahead ahead swapped
  refine ⟨after, ?_⟩
  rw [shuffle, bind_of_ok done]
  rfl

/-! ### Blocks -/

/-- The words of the first blocks of a seed. -/
def firstWords (seed : UInt64) (blocks : Nat) : List UInt32 :=
  (List.range blocks).flatMap fun counter => (block seed counter).toList

theorem length_firstWords (seed : UInt64) (blocks : Nat) :
    (firstWords seed blocks).length = 16 * blocks := by
  simp [firstWords, Nat.mul_comm]

theorem firstWords_ahead (seed : UInt64) (blocks : Nat) :
    Ahead { seed } (firstWords seed blocks) := by
  intro i word place
  rw [Nat.zero_add]
  induction blocks with
  | zero => simp [firstWords] at place
  | succ blocks ih =>
    have split : firstWords seed (blocks + 1) =
        firstWords seed blocks ++ (block seed blocks).toList := by
      rw [firstWords, List.range_succ, List.flatMap_append, List.flatMap_singleton, firstWords]
    rw [split] at place
    rcases Nat.lt_or_ge i (16 * blocks) with before | within
    · rw [List.getElem?_append_left (by rwa [length_firstWords])] at place
      exact ih place
    · rw [List.getElem?_append_right (by rwa [length_firstWords]), length_firstWords] at place
      obtain ⟨small, rfl⟩ := List.getElem?_eq_some_iff.mp place
      rw [Vector.length_toList] at small
      have counter : i / 16 = blocks := by omega
      have offset : i % 16 = i - 16 * blocks := by omega
      simp [wordAt, counter, offset, Vector.get]

end Random

namespace Settings

/-- The seed 7 puts a pack in another order within 8 tries. -/
theorem exists_shuffled :
    ∃ deck, Settings.deck { seed := some 7 } 8 0 = .ok deck ∧ deck ≠ Pile.packs 1 := by
  have swapped : ((Random.swapDownIn 8 51 (Pile.packs 1).toArray (Random.firstWords 7 5)).any
      fun done => done.1.toList ≠ Pile.packs 1) = true := by decide +kernel
  cases found : Random.swapDownIn 8 51 (Pile.packs 1).toArray (Random.firstWords 7 5) with
  | none =>
    rw [found] at swapped
    cases swapped
  | some done =>
    rw [found, Option.any_some, decide_eq_true_eq] at swapped
    obtain ⟨after, shuffled⟩ :=
      Random.shuffle_of_ahead (Pile.packs 1) (Random.firstWords_ahead 7 5) found
    have mixed : Pile.isUniform (Pile.packs 1) = false := by decide
    refine ⟨done.1.toList, ?_, swapped⟩
    have passed : Pile.shuffle 8 (Pile.packs 1) { seed := 7 } = .ok (done.1.toList, after) := by
      rw [Pile.shuffle, mixed, if_neg Bool.false_ne_true, Pile.shuffleUntilChanged,
        Random.bind_of_ok shuffled, if_neg swapped]
      rfl
    exact congrArg (Except.map Prod.fst) passed

end Settings

end WarGame
