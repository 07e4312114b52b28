import WarGame.Game

/-!
# Setting up a game

A setup collects the settings and the players of a game step by step. A player who is only named
gets the id after the highest one so far.
-/

namespace WarGame

/-- A game to be, the players in the order they were added. -/
structure Setup where
  settings : Settings := {}
  players : List Player := []
  deriving DecidableEq, Repr, Inhabited

/-- Why a setup cannot go on. -/
inductive SetupError where
  /-- The highest id is taken, so no id follows. -/
  | noIdLeft
  deriving DecidableEq, Repr

def SetupError.message : SetupError → String
  | noIdLeft => "At most 256 players supported"

namespace Setup

/-- Replaces the settings as a whole. -/
def useSettings (setup : Setup) (settings : Settings) : Setup := { setup with settings }

def setPacks (setup : Setup) (count : Int32) : Setup :=
  { setup with settings.packs := count }

def setSeed (setup : Setup) (seed : UInt64) : Setup :=
  { setup with settings.seed := some seed }

def keepOrder (setup : Setup) : Setup :=
  { setup with settings.shuffled := false }

def setRoundLimit (setup : Setup) (rounds : UInt32) : Setup :=
  { setup with settings.roundLimit := some rounds }

/-- Adds a player who has an id. -/
def add (setup : Setup) (p : Player) : Setup :=
  { setup with players := setup.players ++ [p] }

/-- The number after the highest id so far. -/
def nextNumber (setup : Setup) : Nat :=
  setup.players.foldl (fun next p => max next (p.id.number.val + 1)) 0

/-- Adds a player under the next id. -/
def addNamed (setup : Setup) (name : String) : Except SetupError Setup :=
  if free : setup.nextNumber < 256 then
    .ok (setup.add { id := ⟨⟨setup.nextNumber, free⟩⟩, name })
  else .error .noIdLeft

/-- The game with its players seated and dealt to. -/
def deal (setup : Setup) (tries : Nat) (entropy : UInt64) :
    Except SampleError (Except GameError Game) :=
  Game.dealTo setup.settings setup.players tries entropy

end Setup

end WarGame
