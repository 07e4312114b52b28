import WarGame.Game.Round

/-!
# Playing a game

Rounds follow one another until the game has ended or a limit is reached. Without a limit nothing
says that a game ends, so unlimited play is given the number of rounds it may take and has no
answer if the game goes on after them.
-/

namespace WarGame.Game

/-- Plays on after so many rounds until the game has ended or the count has reached the limit. There
is an answer if `horizon` rounds are enough. The count wraps as in a build without overflow checks,
and so do the steps of a war and the rounds of a game. -/
def playFrom (limit : Option UInt32) (horizon : Nat) (rounds : UInt32) (g : Game) :
    Option (Except GameError Verdict × Game) :=
  match g.verdict? with
  | some verdict => some (.ok verdict, g)
  | none =>
    if limit.any fun most => most ≤ rounds then some (.ok (.stalled rounds), g)
    else
      match horizon with
      | 0 => none
      | horizon + 1 =>
        match g.advance with
        | (.error e, g) => some (.error e, g)
        | (.ok _, g) => g.playFrom limit horizon (rounds + 1)

/-- Plays until the game has ended or `limit` rounds have been played. A limit is horizon enough. -/
def playOn (g : Game) (horizon : Nat) (limit : Option UInt32) :
    Option (Except GameError Verdict × Game) :=
  g.playFrom limit (limit.elim horizon UInt32.toNat) 0

/-- Deals the deck if it has not been dealt, and plays to the end or to the limit of the settings.
A game needs two players. -/
def play (g : Game) (horizon : Nat) : Option (Except GameError Verdict × Game) :=
  if g.table.length < 2 then some (.error (.tooFewPlayers g.table.length 2), g)
  else if g.wasDealt then g.playOn horizon g.settings.roundLimit
  else
    match g.deal with
    | (.error e, g) => some (.error e, g)
    | (.ok _, g) => g.playOn horizon g.settings.roundLimit

end WarGame.Game
