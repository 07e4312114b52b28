import WarGame.Json.Players
import WarGame.Game.Round

/-!
# Settings and reports in JSON
-/

namespace WarGame

namespace Json

/-- The content of a variant that counts something. -/
def ofCount (name : String) (number : UInt32) : Json := .ofFields [{ name }] [.int number.toNat]

def Decoder.count {α : Type} (decoder : Decoder) (name : String) (variant : UInt32 → α) (j : Json) :
    Option α :=
  (decoder.content [{ name }] j).bind (Row.item decoder.uint32 fun number => .done (variant number))

end Json

variable (decoder : Json.Decoder)

namespace Settings

def fields : List Json.Field :=
  [{ name := "packs" }, { name := "seed", nullable := true }, { name := "shuffle" },
    { name := "max_rounds", nullable := true }]

def toJson (settings : Settings) : Json :=
  .ofFields fields [.int settings.packs.toInt,
    .ofOption (fun seed => .int seed.toNat) settings.seed, .bool settings.shuffled,
    .ofOption (fun rounds => .int rounds.toNat) settings.roundLimit]

def row : Json.Row Settings :=
  .item decoder.int32 fun packs => .item (decoder.nullable decoder.uint64) fun seed =>
    .item decoder.bool fun shuffled => .item (decoder.nullable decoder.uint32) fun roundLimit =>
      .done { packs, seed, shuffled, roundLimit }

def ofJson? (j : Json) : Option Settings := (decoder.record fields j).bind (row decoder)

end Settings

namespace Verdict

def toJson : Verdict → Json
  | winner id => .obj [("Winner", id.toJson)]
  | draw => .str "Draw"
  | stalled rounds => .obj [("Stalled", .ofCount "rounds" rounds)]

def ofJson? : Json → Option Verdict :=
  decoder.choose
    [("Winner", .filled fun id => (PlayerId.ofJson? decoder id).map winner),
      ("Draw", decoder.bare draw),
      ("Stalled", .filled (decoder.count "rounds" stalled))]

end Verdict

namespace Decision

def toJson : Decision → Json
  | highCard => .str "HighCard"
  | war steps => .obj [("War", .ofCount "tiers" steps)]
  | suit => .str "SuitTiebreak"
  | redeal => .str "Redealt"
  | uncontested => .str "Uncontested"

def ofJson? : Json → Option Decision :=
  decoder.choose
    [("HighCard", decoder.bare highCard),
      ("War", .filled (decoder.count "tiers" war)),
      ("SuitTiebreak", decoder.bare suit),
      ("Redealt", decoder.bare redeal),
      ("Uncontested", decoder.bare uncontested)]

end Decision

namespace RoundReport

def fields : List Json.Field :=
  [{ name := "winner", nullable := true }, { name := "eliminated" }, { name := "is_game_over" },
    { name := "resolution" }]

def toJson (report : RoundReport) : Json :=
  .ofFields fields [.ofOption PlayerId.toJson report.winner,
    .ofList PlayerId.toJson report.eliminated, .bool report.endsGame, report.decision.toJson]

def row : Json.Row RoundReport :=
  .item (decoder.nullable (PlayerId.ofJson? decoder)) fun winner =>
    .item (decoder.list (PlayerId.ofJson? decoder)) fun eliminated =>
      .item decoder.bool fun endsGame => .item (Decision.ofJson? decoder) fun decision =>
        .done { winner, eliminated, endsGame, decision }

def ofJson? (j : Json) : Option RoundReport := (decoder.record fields j).bind (row decoder)

end RoundReport

end WarGame
