import WarGame.Random.Stream
import WarGame.Random.Uniform

/-!
# The generator

A generator is a seed and a position in the seed's stream of words. Drawing an index takes words
until one is accepted, so every draw is given the number of words it may try.
-/

namespace WarGame

/-- A place in the stream of a seed. -/
structure Generator where
  seed : UInt64
  position : Nat := 0
  deriving DecidableEq, Repr, Inhabited

/-- Why no index was drawn. -/
inductive SampleError where
  /-- There is no index below zero. -/
  | emptyRange
  /-- No word was accepted within the tries given. -/
  | exhausted
  deriving DecidableEq, Repr

def SampleError.message : SampleError → String
  | emptyRange => "cannot sample empty range"
  | exhausted => "no word was accepted"

/-- A computation that draws from a generator. -/
abbrev Random (α : Type) := StateT Generator (Except SampleError) α

namespace Generator

def next32 (g : Generator) : BitVec 32 × Generator :=
  ((Random.wordAt g.seed g.position).toBitVec, { g with position := g.position + 1 })

/-- Two words of the stream as one, the first as the lower half. -/
def next64 (g : Generator) : BitVec 64 × Generator :=
  ((Random.wordAt g.seed (g.position + 1)).toBitVec ++ (Random.wordAt g.seed g.position).toBitVec,
    { g with position := g.position + 2 })

/-- The first index accepted among the next words. -/
def sample {w : Nat} (next : Generator → BitVec w × Generator) (len : Nat) (positive : 0 < len) :
    Nat → Generator → Except SampleError (Fin len × Generator)
  | 0, _ => .error .exhausted
  | tries + 1, g =>
    match next g with
    | (word, rest) =>
      match Random.accept len positive word with
      | some i => .ok (i, rest)
      | none => sample next len positive tries rest

end Generator

namespace Random

/-- An index below `len`, drawn with the given words. -/
def indexFrom {w : Nat} (next : Generator → BitVec w × Generator) (tries len : Nat) :
    Random (Fin len) := fun g =>
  if positive : 0 < len then g.sample next len positive tries else .error .emptyRange

/-- An index below `len`, from words of 64 bits. -/
def index (tries len : Nat) : Random (Fin len) := indexFrom Generator.next64 tries len

/-- Swaps every position from the given one down to 1 with a position drawn at or below it. -/
def swapDown {α : Type} (tries : Nat) : Nat → Array α → Random (Array α)
  | 0, xs => pure xs
  | last + 1, xs => do
    let i ← indexFrom Generator.next32 tries (last + 2)
    swapDown tries last (xs.swapIfInBounds (last + 1) i)

/-- A uniformly random order, one pass of swaps with indices from words of 32 bits. -/
def shuffle {α : Type} (tries : Nat) (xs : List α) : Random (List α) := do
  return (← swapDown tries (xs.length - 1) xs.toArray).toList

end Random

end WarGame
