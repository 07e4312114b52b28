import WarGame.Card
import WarGame.Text.Quoted

/-!
# Names and symbols of cards

Every suit and rank has a name and a symbol. A card is written as its two symbols, rank first, and
a row of cards as its cards with single spaces between them.
-/

namespace WarGame

namespace Suit

def name : Suit → String
  | clubs => "Clubs"
  | diamonds => "Diamonds"
  | hearts => "Hearts"
  | spades => "Spades"

def symbol : Suit → Char
  | clubs => '♣'
  | diamonds => '♦'
  | hearts => '♥'
  | spades => '♠'

def ofSymbol? (c : Char) : Option Suit := all.find? fun s => s.symbol == c

theorem ofSymbol?_symbol (s : Suit) : ofSymbol? s.symbol = some s := by cases s <;> decide

end Suit

namespace Rank

def name : Rank → String
  | two => "two"
  | three => "three"
  | four => "four"
  | five => "five"
  | six => "six"
  | seven => "seven"
  | eight => "eight"
  | nine => "nine"
  | ten => "ten"
  | jack => "jack"
  | queen => "queen"
  | king => "king"
  | ace => "ace"

/-- The name as a title. -/
def title : Rank → String
  | two => "Two"
  | three => "Three"
  | four => "Four"
  | five => "Five"
  | six => "Six"
  | seven => "Seven"
  | eight => "Eight"
  | nine => "Nine"
  | ten => "Ten"
  | jack => "Jack"
  | queen => "Queen"
  | king => "King"
  | ace => "Ace"

def symbol : Rank → String
  | two => "2"
  | three => "3"
  | four => "4"
  | five => "5"
  | six => "6"
  | seven => "7"
  | eight => "8"
  | nine => "9"
  | ten => "10"
  | jack => "J"
  | queen => "Q"
  | king => "K"
  | ace => "A"

def ofSymbol? (s : String) : Option Rank := all.find? fun r => r.symbol == s

theorem ofSymbol?_symbol (r : Rank) : ofSymbol? r.symbol = some r := by cases r <;> decide

/-- A text that names no rank. -/
structure Unknown where
  text : String
  deriving DecidableEq, Repr

def Unknown.message (u : Unknown) : String := "unknown card rank: " ++ Text.quoted u.text

/-- The rank with the given name or symbol. Case and blanks count. -/
def ofText? (s : String) : Except Unknown Rank :=
  match all.find? fun r => r.name == s || r.symbol == s with
  | some r => .ok r
  | none => .error ⟨s⟩

end Rank

namespace Card

/-- The card in words, as in "Ace of Spades". -/
def name (c : Card) : String := c.rank.title ++ " of " ++ c.suit.name

/-- The card as its two symbols. -/
def text (c : Card) : String := c.rank.symbol ++ c.suit.symbol.toString

def ofText? (s : String) : Option Card := do
  let suit ← Suit.ofSymbol? (← s.toList.getLast?)
  let rank ← Rank.ofSymbol? (String.ofList s.toList.dropLast)
  return { suit, rank }

theorem ofText?_text (c : Card) : ofText? c.text = some c := by
  obtain ⟨suit, rank⟩ := c
  cases suit <;> cases rank <;> decide

/-- A row of cards, top first. -/
def rowText (cards : List Card) : String := " ".intercalate (cards.map text)

/-- Reads a row of cards. The empty text is the empty row. -/
def ofRowText? (s : String) : Option (List Card) :=
  if s.isEmpty then some [] else (s.splitOn " ").mapM ofText?

end Card

end WarGame
