import WarGame.Card

/-!
# Piles

A pile is a row of cards, top first: the deck, a hand and the cards at stake are piles. Cards are
drawn from the top and added at the bottom, where they are appended. A draw gives its result
together with the pile it leaves, because a draw of too many cards takes what there is.
-/

namespace WarGame

/-- Cards in order, top first. -/
abbrev Pile := List Card

/-- Why a draw was not fully satisfied. -/
inductive DrawError where
  /-- One card was asked of an empty pile. -/
  | empty
  /-- A negative number of cards was asked. Nothing was drawn. -/
  | negative (requested : Int)
  /-- More cards were asked than there were. All of them were drawn. -/
  | insufficient (requested : Nat) (drawn : Pile)
  deriving DecidableEq, Repr

namespace DrawError

/-- The cards drawn before the draw failed. -/
def drawn : DrawError → Pile
  | empty | negative _ => []
  | insufficient _ cards => cards

def message : DrawError → String
  | empty => "cannot draw from an empty deck"
  | negative requested => s!"cannot draw a negative number of cards ({requested})"
  | insufficient requested cards =>
    s!"requested {requested} cards but only {cards.length} remained"

end DrawError

namespace Pile

/-- Draws the top card. -/
def draw : Pile → Except DrawError Card × Pile
  | [] => (.error .empty, [])
  | c :: rest => (.ok c, rest)

/-- Draws the top `count` cards. -/
def drawRow (count : Int) (pile : Pile) : Except DrawError Pile × Pile :=
  if count < 0 then (.error (.negative count), pile)
  else if pile.length < count.toNat then (.error (.insufficient count.toNat pile), [])
  else (.ok (pile.take count.toNat), pile.drop count.toNat)

/-- The cards of one pack, suit by suit, each from Two to Ace. -/
def pack : Pile := Suit.all.flatMap fun suit => Rank.all.map fun rank => { suit, rank }

/-- The fewest packs in a deck. -/
def fewestPacks : Int := 0

/-- The most packs in a deck. -/
def mostPacks : Int := 10

/-- So many packs one after the other, at least `fewestPacks` and at most `mostPacks`. -/
def packs (count : Int) : Pile :=
  (List.replicate (max fewestPacks (min mostPacks count)).toNat pack).flatten

theorem length_pack : pack.length = 52 := by decide

theorem length_packs (count : Int) :
    (packs count).length = (max fewestPacks (min mostPacks count)).toNat * 52 := by
  simp [packs, List.length_flatten, length_pack]

end Pile

end WarGame
