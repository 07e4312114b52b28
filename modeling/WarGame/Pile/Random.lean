import WarGame.Pile
import WarGame.Random.Generator

/-!
# Random draws and shuffles

A random draw takes a card from a chosen position and leaves the others in order. Where the
positions come from is a parameter of `takeChosen`; the draws of a game take them from a generator.
A shuffle passes over the cards until their order has changed, unless no other order exists.
-/

namespace WarGame.Pile

/-- Takes cards at positions that `choose` picks among the cards still there, in the order picked.
Gives the cards taken and the ones left. -/
def takeChosen {m : Type → Type} [Monad m] (choose : (len : Nat) → m (Fin len)) :
    Nat → Pile → m (Pile × Pile)
  | 0, pile => pure ([], pile)
  | _ + 1, [] => pure ([], [])
  | count + 1, c :: rest => do
    let i ← choose (c :: rest).length
    let (taken, left) ← takeChosen choose count ((c :: rest).eraseIdx i)
    pure ((c :: rest)[i] :: taken, left)

/-- Draws a card at a random position. -/
def pick (tries : Nat) : Pile → Random (Except DrawError Card × Pile)
  | [] => pure (.error .empty, [])
  | c :: rest => do
    let i ← Random.index tries (c :: rest).length
    pure (.ok (c :: rest)[i], (c :: rest).eraseIdx i)

/-- Draws `count` cards, each at a random position. -/
def pickRow (tries : Nat) (count : Int) (pile : Pile) :
    Random (Except DrawError Pile × Pile) :=
  if count < 0 then pure (.error (.negative count), pile)
  else do
    let (taken, left) ← takeChosen (Random.index tries) count.toNat pile
    if taken.length < count.toNat then pure (.error (.insufficient count.toNat taken), left)
    else pure (.ok taken, left)

/-- Passes over the cards until their order has changed. -/
def shuffleUntilChanged (tries : Nat) (pile : Pile) : Nat → Random Pile
  | 0 => throw .exhausted
  | passes + 1 => do
    let cards ← Random.shuffle tries pile
    if cards = pile then shuffleUntilChanged tries pile passes else pure cards

/-- Every card equals the top one, so the pile has no other order. -/
def isUniform : Pile → Bool
  | [] => true
  | c :: rest => rest.all (· == c)

/-- Changes the order of the cards at random, in at most `tries` passes with at most `tries` words
for each index. -/
def shuffle (tries : Nat) (pile : Pile) : Random Pile :=
  if isUniform pile then pure pile else shuffleUntilChanged tries pile tries

end WarGame.Pile
