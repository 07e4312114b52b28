import WarGame.Json.Cards
import WarGame.Table

/-!
# Players and seats in JSON
-/

namespace WarGame

variable (decoder : Json.Decoder)

namespace PlayerId

def toJson (id : PlayerId) : Json := .int id.number.val

def ofJson? (j : Json) : Option PlayerId := (decoder.uint8 j).map fun number => ⟨number.toFin⟩

end PlayerId

namespace Player

def fields : List Json.Field :=
  [{ name := "id" }, { name := "name" }, { name := "hand" },
    { name := "last_played", nullable := true }]

def toJson (p : Player) : Json :=
  .ofFields fields [p.id.toJson, .str p.name, p.hand.toJson, .ofOption Card.toJson p.lastCard]

def row : Json.Row Player :=
  .item (PlayerId.ofJson? decoder) fun id => .item decoder.text fun name =>
    .item (Pile.ofJson? decoder) fun hand =>
      .item (decoder.nullable (Card.ofJson? decoder)) fun lastCard =>
        .done { id, name, hand, lastCard }

def ofJson? (j : Json) : Option Player := (decoder.record fields j).bind (row decoder)

end Player

namespace Standing

def all : List Standing := [active, eliminated]

def name : Standing → String
  | active => "Active"
  | eliminated => "Eliminated"

def toJson (s : Standing) : Json := .str s.name

def ofJson? : Json → Option Standing := decoder.named all name

end Standing

namespace Seat

def fields : List Json.Field := [{ name := "player" }, { name := "standing" }]

def toJson (s : Seat) : Json := .ofFields fields [s.toPlayer.toJson, s.standing.toJson]

def row : Json.Row Seat :=
  .item (Player.ofJson? decoder) fun player => .item (Standing.ofJson? decoder) fun standing =>
    .done { toPlayer := player, standing }

def ofJson? (j : Json) : Option Seat := (decoder.record fields j).bind (row decoder)

end Seat

end WarGame
