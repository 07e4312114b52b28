import WarGame.Player

/-!
# What can go wrong at the table
-/

namespace WarGame

/-- A state of the table that play never reaches by itself. -/
inductive Violation where
  | notSeated (id : PlayerId)
  /-- A player put in no card that could face up. -/
  | nothingFaceUp (id : PlayerId)
  /-- A player has no card whose suit could decide. -/
  | noSuitCard (id : PlayerId)
  /-- Cards were put in at a step of a war, and nobody leads. -/
  | nobodyLeads
  /-- Cards were placed, and nobody holds the high card. -/
  | nobodyHoldsHigh
  deriving DecidableEq, Repr

def Violation.message : Violation → String
  | notSeated id => id.label ++ " is not seated at the table"
  | nothingFaceUp id => id.label ++ " contributed an empty set of cards"
  | noSuitCard id => id.label ++ " has no card for the suit tiebreak"
  | nobodyLeads => "a war step put cards in play but nobody leads"
  | nobodyHoldsHigh => "cards were placed but nobody holds the high card"

/-- Why an action at the table gave no result. -/
inductive GameError where
  /-- A war ended with nobody able to put in another card. -/
  | drawnWar (players : List PlayerId)
  | violation (cause : Violation)
  | tooFewPlayers (found required : Nat)
  | ended
  deriving DecidableEq, Repr

namespace GameError

/-- The ids of a drawn war as its message lists them. -/
def idList (ids : List PlayerId) : String :=
  "[" ++ ", ".intercalate (ids.map fun id => s!"PlayerId({id.number.val})") ++ "]"

def message : GameError → String
  | drawnWar players => "war ended in a draw between " ++ idList players
  | violation cause => "Invariant violation: " ++ cause.message
  | tooFewPlayers found required => s!"need at least {required} players, found {found}"
  | ended => "the game is over"

end GameError

end WarGame
