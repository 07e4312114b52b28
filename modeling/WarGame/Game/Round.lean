import WarGame.Game
import WarGame.War

/-!
# Rounds

A round opens with the top card of every active player. The highest rank takes what was placed,
tied players go to war, and a drawn war is settled by the suits of the last cards played. If the
suits tie as well, the cards at stake go under the deck and the deck is dealt again.
-/

namespace WarGame

/-- How a round was decided. -/
inductive Decision where
  | highCard
  /-- A war of so many steps. -/
  | war (steps : UInt32)
  /-- A war was drawn, and one suit was the highest. -/
  | suit
  /-- A war was drawn and the suits tied. -/
  | redeal
  /-- Nobody had a card to place. -/
  | uncontested
  deriving DecidableEq, Repr, Inhabited

/-- What a round came to. -/
structure RoundReport where
  winner : Option PlayerId
  /-- The players the round eliminated, ascending. -/
  eliminated : List PlayerId
  endsGame : Bool
  decision : Decision
  deriving DecidableEq, Repr, Inhabited

/-- Whether the highest rank was tied. -/
def RoundReport.hadWar (report : RoundReport) : Bool :=
  match report.decision with
  | .highCard | .uncontested => false
  | .war _ | .suit | .redeal => true

def WarEnd.toExcept : WarEnd → Except GameError PlayerId
  | won winner => .ok winner
  | drawn players => .error (.drawnWar players)
  | failed cause => .error (.violation cause)

/-- The last card of each player, on top of what `shown` holds. -/
def Table.lastCards (table : Table) : List PlayerId → Stakes → Except Violation Stakes
  | [], shown => .ok shown
  | id :: rest, shown =>
    match table.seat? id with
    | none => .error (.notSeated id)
    | some s =>
      match s.lastCard with
      | some c => lastCards table rest (shown.put id [c])
      | none => lastCards table rest shown

theorem Table.suitLeaders_seated_of_last {table : Table} {players leaders : List PlayerId}
    (done : (table.lastCards players []).bind table.suitLeaders = .ok leaders) {id : PlayerId}
    (member : id ∈ leaders) : ∃ s, table.seat? id = some s := by
  cases known : table.lastCards players [] with
  | error cause => simp [known, Except.bind] at done
  | ok shown =>
    rw [known] at done
    exact suitLeaders_seated done member

namespace Game

/-- Opens a round without deciding it. -/
def openRound (g : Game) : Stakes × Pile × Game :=
  let (placed, cards, table) := g.table.openRound
  (placed, cards, { g with table })

/-- The winner of the round takes cards. A winner on rank is seated by `Table.rankLeaders_playing`,
and one on suit by `Table.suitLeaders_seated_of_last`. -/
def award (g : Game) (winner : PlayerId) (cards : Pile) : Game :=
  { g with table := g.table.give winner cards, lastWinner := some winner }

/-- Settles a drawn war between players, with the prize on the table. -/
def settleBySuit (g : Game) (players : List PlayerId) (prize : Pile) :
    Except GameError Decision × Game :=
  match (g.table.lastCards players []).bind g.table.suitLeaders with
  | .error cause => (.error (.violation cause), g)
  | .ok [winner] =>
    (.ok .suit, { g with table := g.table.modify winner Seat.reinstate }.award winner prize)
  | .ok _ =>
    let restocked := { g with deck := g.deck ++ prize, lastWinner := none }
    match restocked.deal with
    | (.error e, g) => (.error e, g)
    | (.ok _, g) => (.ok .redeal, g)

/-- Decides a round in which the given cards were placed, which are the prize. -/
def settle (g : Game) (placed : Stakes) (prize : Pile) : Except GameError Decision × Game :=
  if placed.isEmpty then (.ok .uncontested, g)
  else
    match g.table.rankLeaders placed with
    | .error cause => (.error (.violation cause), g)
    | .ok [] => (.error (.violation .nobodyHoldsHigh), g)
    | .ok [winner] => (.ok .highCard, g.award winner prize)
    | .ok leaders =>
      let war := Fray.war leaders { table := g.table, prize }
      let g := { g with table := war.fray.table }
      match war.ending with
      | .won winner =>
        (.ok (.war (UInt32.ofNat war.stages.length)), { g with lastWinner := some winner })
      | .drawn players => g.settleBySuit players war.fray.prize
      | .failed cause => (.error (.violation cause), g)

/-- Plays a round, whether the game has ended or not. -/
def round (g : Game) : Except GameError RoundReport × Game :=
  let (placed, prize, opened) := g.openRound
  match { opened with lastWinner := none }.settle placed prize with
  | (.error e, after) => (.error e, after)
  | (.ok decision, after) =>
    let after := { after with rounds := after.rounds + 1 }.checkEnd
    (.ok
      { winner := after.lastWinner
        eliminated := g.table.active.filter fun id =>
          (after.table.seat? id).any fun s => s.isEliminated
        endsGame := after.hasEnded
        decision },
      after)

/-- Plays a round of a game that goes on. A round that fails ends the game. -/
def advance (g : Game) : Except GameError RoundReport × Game :=
  if g.hasEnded then (.error .ended, g)
  else
    match g.round with
    | (.ok report, g) => (.ok report, g)
    | (.error e, g) => (.error e, { g with phase := .failed })

/-- A war by itself: what it comes to, what is left of the prize, and the game after it. -/
def goToWar (g : Game) (tied : List PlayerId) (prize : Pile) :
    Except GameError PlayerId × Pile × Game :=
  let war := Fray.war tied { table := g.table, prize }
  (war.ending.toExcept, war.fray.prize, { g with table := war.fray.table })

end Game

end WarGame
