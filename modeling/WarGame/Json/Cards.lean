import WarGame.Json.Decoder
import WarGame.Card.Text
import WarGame.Pile

/-!
# Cards and piles in JSON
-/

namespace WarGame

variable (decoder : Json.Decoder)

namespace Suit

def toJson (s : Suit) : Json := .str s.name

def ofJson? : Json → Option Suit := decoder.named all name

end Suit

namespace Rank

def toJson (r : Rank) : Json := .str r.title

def ofJson? : Json → Option Rank := decoder.named all title

end Rank

namespace Card

def fields : List Json.Field := [{ name := "suit" }, { name := "rank" }]

def toJson (c : Card) : Json := .ofFields fields [c.suit.toJson, c.rank.toJson]

def row : Json.Row Card :=
  .item (Suit.ofJson? decoder) fun suit => .item (Rank.ofJson? decoder) fun rank =>
    .done { suit, rank }

def ofJson? (j : Json) : Option Card := (decoder.record fields j).bind (row decoder)

end Card

namespace Pile

def fields : List Json.Field := [{ name := "cards" }]

def toJson (pile : Pile) : Json := .ofFields fields [.ofList Card.toJson pile]

def row : Json.Row Pile := .item (decoder.list (Card.ofJson? decoder)) fun cards => .done cards

def ofJson? (j : Json) : Option Pile := (decoder.record fields j).bind (row decoder)

/-- A pile that serves as the deck is a record around the pile. -/
def toDeckJson (deck : Pile) : Json := .ofFields fields [deck.toJson]

def deckRow : Json.Row Pile := .item (ofJson? decoder) fun cards => .done cards

def ofDeckJson? (j : Json) : Option Pile := (decoder.record fields j).bind (deckRow decoder)

end Pile

end WarGame
