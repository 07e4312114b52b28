import WarGame.Card
import WarGame.Card.Text
import WarGame.Error
import WarGame.Game
import WarGame.Game.Play
import WarGame.Game.Round
import WarGame.Game.Setup
import WarGame.Json
import WarGame.Json.Cards
import WarGame.Json.Decoder
import WarGame.Json.Games
import WarGame.Json.Players
import WarGame.Pile
import WarGame.Pile.Random
import WarGame.Player
import WarGame.Proofs.Calls
import WarGame.Proofs.CardByCard
import WarGame.Proofs.CardFlow
import WarGame.Proofs.Conservation
import WarGame.Proofs.Dealing
import WarGame.Proofs.Decoding
import WarGame.Proofs.DistinctCards
import WarGame.Proofs.Elimination
import WarGame.Proofs.Finality
import WarGame.Proofs.HandKey
import WarGame.Proofs.Hands
import WarGame.Proofs.HighCards
import WarGame.Proofs.Instalments
import WarGame.Proofs.JsonForms
import WarGame.Proofs.JsonRecords
import WarGame.Proofs.Keystream
import WarGame.Proofs.Leaders
import WarGame.Proofs.Likeness
import WarGame.Proofs.Lockstep
import WarGame.Proofs.MixedDraws
import WarGame.Proofs.Recurrence
import WarGame.Proofs.Renaming
import WarGame.Proofs.Reordering
import WarGame.Proofs.RoundCourse
import WarGame.Proofs.RoundLaw
import WarGame.Proofs.RoundReports
import WarGame.Proofs.RoundRobin
import WarGame.Proofs.Rounds
import WarGame.Proofs.SeatingOrder
import WarGame.Proofs.Seats
import WarGame.Proofs.Selections
import WarGame.Proofs.SettingUp
import WarGame.Proofs.Settling
import WarGame.Proofs.Shuffling
import WarGame.Proofs.Spellings
import WarGame.Proofs.SuitBlindness
import WarGame.Proofs.UniformIndices
import WarGame.Proofs.WarCalls
import WarGame.Proofs.WarCourse
import WarGame.Proofs.WarLaw
import WarGame.Proofs.WarLength
import WarGame.Proofs.WarStep
import WarGame.Proofs.WinnerTakesAll
import WarGame.Random.Generator
import WarGame.Random.Stream
import WarGame.Random.Uniform
import WarGame.Table
import WarGame.Table.Leaders
import WarGame.Table.Stakes
import WarGame.Text.Quoted
import WarGame.Text.Unprintable
import WarGame.War
