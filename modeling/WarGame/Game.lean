import WarGame.Table
import WarGame.Error
import WarGame.Pile.Random

/-!
# A game

A game owns a deck and a table. It is made from settings, which fix the deck, and players then join
and are dealt to. It ends once at most one player is active after a round.
-/

namespace WarGame

/-- What is fixed about a game before anybody sits down. -/
structure Settings where
  /-- The packs in the deck, before the limits of `Pile.packs`. -/
  packs : Int32 := 1
  /-- The seed of the shuffle. Without one the shuffle is not repeatable. -/
  seed : Option UInt64 := none
  shuffled : Bool := true
  /-- The most rounds that are played when the game is played as a whole. -/
  roundLimit : Option UInt32 := none
  deriving DecidableEq, Repr, Inhabited

namespace Settings

def setPacks (settings : Settings) (count : Int32) : Settings := { settings with packs := count }

def setSeed (settings : Settings) (seed : UInt64) : Settings := { settings with seed := some seed }

/-- The deck keeps the order of its packs. -/
def keepOrder (settings : Settings) : Settings := { settings with shuffled := false }

def setRoundLimit (settings : Settings) (rounds : UInt32) : Settings :=
  { settings with roundLimit := some rounds }

/-- The generator for the shuffle. `entropy` stands in for a seed that is not set. -/
def generator (settings : Settings) (entropy : UInt64) : Generator :=
  { seed := settings.seed.getD entropy }

/-- The deck of a new game. -/
def deck (settings : Settings) (tries : Nat) (entropy : UInt64) : Except SampleError Pile :=
  let packs := Pile.packs settings.packs.toInt
  if settings.shuffled then
    (StateT.run (Pile.shuffle tries packs) (settings.generator entropy)).map (·.1)
  else .ok packs

end Settings

/-- Whether a game goes on. -/
inductive Phase where
  | running | finished
  /-- A round failed, and no other is played. -/
  | failed
  deriving DecidableEq, Repr, Inhabited

/-- What playing a game came to. -/
inductive Verdict where
  | winner (id : PlayerId)
  | draw
  /-- The limit on rounds was reached first. -/
  | stalled (rounds : UInt32)
  deriving DecidableEq, Repr, Inhabited

namespace Verdict

def winner? : Verdict → Option PlayerId
  | winner id => some id
  | draw | stalled _ => none

def favours (verdict : Verdict) (id : PlayerId) : Bool := verdict == .winner id

end Verdict

/-- A game of War. -/
structure Game where
  settings : Settings
  deck : Pile
  table : Table := []
  phase : Phase := .running
  /-- The winner of the latest round. -/
  lastWinner : Option PlayerId := none
  /-- The rounds played so far. -/
  rounds : UInt32 := 0
  /-- Whether the deck has been dealt to somebody. -/
  wasDealt : Bool := false
  deriving DecidableEq, Repr, Inhabited

namespace Game

/-- A game with its deck ready and nobody seated. A shuffle takes at most `tries` passes, and at
most `tries` words for an index. -/
def ofSettings (settings : Settings) (tries : Nat) (entropy : UInt64) : Except SampleError Game :=
  (settings.deck tries entropy).map fun deck => { settings, deck }

/-- Seats a player as active, in place of one with the same id. -/
def join (g : Game) (p : Player) : Game := { g with table := g.table.seat (.ofPlayer p) }

/-- Seats players one after the other. -/
def joinAll (g : Game) (players : List Player) : Game := players.foldl join g

/-- Deals the deck to the active players, one card at a time in ascending order of id. -/
def deal (g : Game) : Except GameError Unit × Game :=
  if g.table.isEmpty then (.error (.tooFewPlayers 0 1), g)
  else if g.table.active.isEmpty then (.ok (), g)
  else
    let (deck, table) := g.table.deal g.table.active g.deck
    (.ok (), { g with deck, table, wasDealt := true })

/-- A new game with the players seated and dealt to. -/
def dealTo (settings : Settings) (players : List Player) (tries : Nat) (entropy : UInt64) :
    Except SampleError (Except GameError Game) :=
  (ofSettings settings tries entropy).map fun g =>
    let (answer, dealt) := (g.joinAll players).deal
    answer.map fun _ => dealt

/-- The number of cards in the deck and in the hands. -/
def cardCount (g : Game) : Nat := g.deck.length + g.table.hands.length

def hasEnded (g : Game) : Bool := g.phase != .running

/-- Ends the game if at most one player is active. -/
def checkEnd (g : Game) : Game :=
  if g.phase = .running then
    match g.table.active with
    | [] | [_] => { g with phase := .finished }
    | _ => g
  else g

/-- What a game that has ended came to. -/
def verdict? (g : Game) : Option Verdict :=
  match g.phase with
  | .running => none
  | .failed => some .draw
  | .finished =>
    match g.table.active with
    | [winner] => some (.winner winner)
    | _ => some .draw

end Game

end WarGame
