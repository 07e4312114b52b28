import WarGame.Json.Games
import WarGame.Proofs.JsonRecords

/-!
# Spellings of the values of a game

The forms of cards, piles, players, settings and reports. A value is read from what is written for
it, however that is spelled, and what does not fit the form is refused. This holds for every
decoder that does what is documented of it.
-/

namespace WarGame

namespace Json

/-- Writing and reading the values of a type in a form. -/
structure Exchanges {α : Type} (form : Form) (write : α → Json) (read : Json → Option α) :
    Prop where
  /-- A value is read from every spelling of what is written for it. -/
  spelled : ∀ value j, Relation.ReflTransGen (Varies form) (write value) j → read j = some value
  /-- What is read from anything is read again from what is written for it. -/
  again : ∀ j value, read j = some value → read (write value) = some value
  refused : ∀ j, Faulty form j → read j = none

variable {α : Type} {form : Form} {write : α → Json} {read : Json → Option α} {j : Json}

theorem Reads.read_of_varies (reads : Reads form read) {k : Json} {value : α}
    (varied : Relation.ReflTransGen (Varies form) j k) (held : read j = some value) :
    read k = some value := by
  induction varied with
  | refl => exact held
  | tail _ step ih => exact reads.keeps step ih

theorem Reads.exchanges (reads : Reads form read)
    (written : ∀ value, read (write value) = some value) : Exchanges form write read where
  spelled value _ varied := reads.read_of_varies varied (written value)
  again _ value _ := written value
  refused _ faulty := Option.eq_none_iff_forall_ne_some.mpr fun _ => reads.refuses faulty

end Json

/-! ### Forms -/

def Suit.form : Json.Form := .names ["Clubs", "Diamonds", "Hearts", "Spades"]

def Rank.form : Json.Form :=
  .names ["Two", "Three", "Four", "Five", "Six", "Seven", "Eight", "Nine", "Ten", "Jack", "Queen",
    "King", "Ace"]

def Card.form : Json.Form := .record true [("suit", Suit.form), ("rank", Rank.form)]

def Pile.form : Json.Form := .record true [("cards", .list Card.form)]

def Pile.deckForm : Json.Form := .record true [("cards", form)]

def PlayerId.form : Json.Form := .int 0 255

def Player.form : Json.Form :=
  .record true [("id", PlayerId.form), ("name", .text), ("hand", Pile.form),
    ("last_played", .nullable Card.form)]

def Standing.form : Json.Form := .names ["Active", "Eliminated"]

def Seat.form : Json.Form := .record true [("player", Player.form), ("standing", Standing.form)]

def Settings.form : Json.Form :=
  .record true [("packs", .int (-2147483648) 2147483647),
    ("seed", .nullable (.int 0 18446744073709551615)), ("shuffle", .bool),
    ("max_rounds", .nullable (.int 0 4294967295))]

def Json.Form.count (source : Source) (name : String) : Form :=
  .record source.listsContent [(name, .int 0 4294967295)]

def Verdict.form (source : Json.Source) : Json.Form :=
  .choice [("Winner", some PlayerId.form), ("Draw", none),
    ("Stalled", some (.count source "rounds"))]

def Decision.form (source : Json.Source) : Json.Form :=
  .choice [("HighCard", none), ("War", some (.count source "tiers")), ("SuitTiebreak", none),
    ("Redealt", none), ("Uncontested", none)]

def RoundReport.form (source : Json.Source) : Json.Form :=
  .record true [("winner", .nullable PlayerId.form), ("eliminated", .list PlayerId.form),
    ("is_game_over", .bool), ("resolution", Decision.form source)]

/-! ### Readers -/

section Documented

variable {decoder : Json.Decoder} {source : Json.Source} (documented : decoder.Documented source)

include documented

namespace Suit

theorem reads : Json.Reads form (ofJson? decoder) := .named documented all name

theorem ofJson?_toJson (s : Suit) : ofJson? decoder s.toJson = some s :=
  Json.named_str documented (by decide) (mem_all s)

end Suit

namespace Rank

theorem reads : Json.Reads form (ofJson? decoder) := .named documented all title

theorem ofJson?_toJson (r : Rank) : ofJson? decoder r.toJson = some r :=
  Json.named_str documented (by decide) (mem_all r)

end Rank

namespace Card

theorem reads : Json.Reads form (ofJson? decoder) :=
  .record documented.record (by decide)
    (.item (Suit.reads documented) fun _ => .item (Rank.reads documented) fun _ => .done _)

theorem ofJson?_toJson (c : Card) : ofJson? decoder c.toJson = some c := by
  rw [ofJson?, toJson, documented.record.bind_ofFields (by decide) rfl]
  simp [row, Suit.ofJson?_toJson documented, Rank.ofJson?_toJson documented]

end Card

namespace Pile

theorem reads : Json.Reads form (ofJson? decoder) :=
  .record documented.record (by decide)
    (.item (.list documented (Card.reads documented)) fun _ => .done _)

theorem ofJson?_toJson (pile : Pile) : ofJson? decoder pile.toJson = some pile := by
  rw [ofJson?, toJson, documented.record.bind_ofFields (by decide) rfl]
  simp [row, Json.list_ofList documented (Card.ofJson?_toJson documented)]

theorem reads_deck : Json.Reads deckForm (ofDeckJson? decoder) :=
  .record documented.record (by decide) (.item (reads documented) fun _ => .done _)

theorem ofDeckJson?_toDeckJson (deck : Pile) : ofDeckJson? decoder deck.toDeckJson = some deck := by
  rw [ofDeckJson?, toDeckJson, documented.record.bind_ofFields (by decide) rfl]
  simp [deckRow, ofJson?_toJson documented]

end Pile

namespace PlayerId

theorem reads : Json.Reads form (ofJson? decoder) := (Json.reads_uint8 documented).map _

theorem ofJson?_toJson (id : PlayerId) : ofJson? decoder id.toJson = some id :=
  Option.map_eq_some_iff.mpr ⟨.ofFin id.number, documented.uint8.mpr rfl, rfl⟩

end PlayerId

namespace Player

theorem reads : Json.Reads form (ofJson? decoder) :=
  .record documented.record (by decide)
    (.item (PlayerId.reads documented) fun _ => .item (Json.reads_text _) fun _ =>
      .item (Pile.reads documented) fun _ =>
        .item (.nullable documented (Card.reads documented)) fun _ => .done _)

theorem ofJson?_toJson (p : Player) : ofJson? decoder p.toJson = some p := by
  rw [ofJson?, toJson, documented.record.bind_ofFields (by decide) rfl]
  simp [row, PlayerId.ofJson?_toJson documented, documented.text,
    Pile.ofJson?_toJson documented,
    Json.nullable_ofOption documented (Card.ofJson?_toJson documented) nofun]

end Player

namespace Standing

theorem reads : Json.Reads form (ofJson? decoder) := .named documented all name

theorem ofJson?_toJson (s : Standing) : ofJson? decoder s.toJson = some s :=
  Json.named_str documented (by decide) (by cases s <;> decide)

end Standing

namespace Seat

theorem reads : Json.Reads form (ofJson? decoder) :=
  .record documented.record (by decide)
    (.item (Player.reads documented) fun _ => .item (Standing.reads documented) fun _ => .done _)

theorem ofJson?_toJson (s : Seat) : ofJson? decoder s.toJson = some s := by
  rw [ofJson?, toJson, documented.record.bind_ofFields (by decide) rfl]
  simp [row, Player.ofJson?_toJson documented, Standing.ofJson?_toJson documented]

end Seat

namespace Settings

theorem reads : Json.Reads form (ofJson? decoder) :=
  .record documented.record (by decide)
    (.item (Json.reads_int32 documented) fun _ =>
      .item (.nullable documented (Json.reads_uint64 documented)) fun _ =>
        .item (Json.reads_bool _) fun _ =>
          .item (.nullable documented (Json.reads_uint32 documented)) fun _ => .done _)

theorem ofJson?_toJson (settings : Settings) :
    ofJson? decoder settings.toJson = some settings := by
  rw [ofJson?, toJson, documented.record.bind_ofFields (by decide) rfl]
  simp [row, documented.int32.mpr rfl, documented.bool,
    Json.nullable_ofOption documented (fun _ => documented.uint64.mpr rfl) nofun,
    Json.nullable_ofOption documented (fun _ => documented.uint32.mpr rfl) nofun]

end Settings

namespace Json

variable {α : Type} (name : String) (variant : UInt32 → α)

theorem reads_count : Reads (.count source name) (decoder.count name variant) :=
  .record documented.content (by simp)
    (ReadsRow.item (reads_uint32 documented) fun number => .done (variant number))

theorem count_ofCount (number : UInt32) :
    decoder.count name variant (ofCount name number) = some (variant number) := by
  rw [Decoder.count, ofCount, documented.content.bind_ofFields (by simp) rfl]
  simp [documented.uint32.mpr rfl]

end Json

namespace Verdict

theorem reads : Json.Reads (form source) (ofJson? decoder) :=
  .choose documented (.cons (.filled _ ((PlayerId.reads documented).map winner))
    (.cons (.bare _ draw) (.cons (.filled _ (Json.reads_count documented _ stalled)) .nil)))

theorem ofJson?_toJson (verdict : Verdict) : ofJson? decoder verdict.toJson = some verdict := by
  cases verdict with
  | winner id =>
    have read := PlayerId.ofJson?_toJson documented id
    exact (Json.choose_keyed documented).trans (Option.map_eq_some_iff.mpr ⟨id, read, rfl⟩)
  | draw => exact Json.choose_str documented
  | stalled rounds =>
    exact (Json.choose_keyed documented).trans (Json.count_ofCount documented _ stalled rounds)

end Verdict

namespace Decision

theorem reads : Json.Reads (form source) (ofJson? decoder) :=
  .choose documented (.cons (.bare _ highCard) (.cons (.filled _ (Json.reads_count documented _ war))
    (.cons (.bare _ suit) (.cons (.bare _ redeal) (.cons (.bare _ uncontested) .nil)))))

theorem ofJson?_toJson (decision : Decision) :
    ofJson? decoder decision.toJson = some decision := by
  cases decision with
  | war steps =>
    exact (Json.choose_keyed documented).trans (Json.count_ofCount documented _ war steps)
  | _ => exact Json.choose_str documented

end Decision

namespace RoundReport

theorem reads : Json.Reads (form source) (ofJson? decoder) :=
  .record documented.record (by simp)
    (.item (.nullable documented (PlayerId.reads documented)) fun _ =>
      .item (.list documented (PlayerId.reads documented)) fun _ =>
        .item (Json.reads_bool _) fun _ => .item (Decision.reads documented) fun _ => .done _)

theorem ofJson?_toJson (report : RoundReport) : ofJson? decoder report.toJson = some report := by
  rw [ofJson?, toJson, documented.record.bind_ofFields (by decide) rfl]
  simp [row, documented.bool, Decision.ofJson?_toJson documented,
    Json.nullable_ofOption documented (PlayerId.ofJson?_toJson documented) nofun,
    Json.list_ofList documented (PlayerId.ofJson?_toJson documented)]

end RoundReport

end Documented

/-- Every type that is written in JSON is read from every spelling of its values, and from nothing
faulty, by every decoder that does what is documented of it. From a text the fields of a variant
may be listed in an array like those of a record. From a tree of values they may not. -/
theorem Json.everyType_exchanges {decoder : Decoder} {source : Source}
    (documented : decoder.Documented source) :
    Exchanges Suit.form Suit.toJson (Suit.ofJson? decoder) ∧
    Exchanges Rank.form Rank.toJson (Rank.ofJson? decoder) ∧
    Exchanges Card.form Card.toJson (Card.ofJson? decoder) ∧
    Exchanges Pile.form Pile.toJson (Pile.ofJson? decoder) ∧
    Exchanges Pile.deckForm Pile.toDeckJson (Pile.ofDeckJson? decoder) ∧
    Exchanges PlayerId.form PlayerId.toJson (PlayerId.ofJson? decoder) ∧
    Exchanges Player.form Player.toJson (Player.ofJson? decoder) ∧
    Exchanges Standing.form Standing.toJson (Standing.ofJson? decoder) ∧
    Exchanges Seat.form Seat.toJson (Seat.ofJson? decoder) ∧
    Exchanges Settings.form Settings.toJson (Settings.ofJson? decoder) ∧
    Exchanges (RoundReport.form source) RoundReport.toJson (RoundReport.ofJson? decoder) ∧
    Exchanges (Verdict.form source) Verdict.toJson (Verdict.ofJson? decoder) ∧
    Exchanges (Decision.form source) Decision.toJson (Decision.ofJson? decoder) :=
  ⟨(Suit.reads documented).exchanges (Suit.ofJson?_toJson documented),
    (Rank.reads documented).exchanges (Rank.ofJson?_toJson documented),
    (Card.reads documented).exchanges (Card.ofJson?_toJson documented),
    (Pile.reads documented).exchanges (Pile.ofJson?_toJson documented),
    (Pile.reads_deck documented).exchanges (Pile.ofDeckJson?_toDeckJson documented),
    (PlayerId.reads documented).exchanges (PlayerId.ofJson?_toJson documented),
    (Player.reads documented).exchanges (Player.ofJson?_toJson documented),
    (Standing.reads documented).exchanges (Standing.ofJson?_toJson documented),
    (Seat.reads documented).exchanges (Seat.ofJson?_toJson documented),
    (Settings.reads documented).exchanges (Settings.ofJson?_toJson documented),
    (RoundReport.reads documented).exchanges (RoundReport.ofJson?_toJson documented),
    (Verdict.reads documented).exchanges (Verdict.ofJson?_toJson documented),
    (Decision.reads documented).exchanges (Decision.ofJson?_toJson documented)⟩

/-- A card as an array with the suit as the key of an object, and the steps of a war listed in an
array. In a tree the steps are not taken from an array. -/
theorem Json.exchanges_plain :
    Card.ofJson? (.plain .text) (.arr [.obj [("Clubs", .null)], .str "Ten"]) =
      some ⟨.clubs, .ten⟩ ∧
    Decision.ofJson? (.plain .text) (.obj [("War", .arr [.int 3])]) = some (.war 3) ∧
    Decision.ofJson? (.plain .tree) (.obj [("War", .arr [.int 3])]) = none := by
  obtain ⟨-, -, cards, -, -, -, -, -, -, -, -, -, decisions⟩ :=
    everyType_exchanges (plain_documented .text)
  obtain ⟨-, -, -, -, -, -, -, -, -, -, -, -, ofTree⟩ := everyType_exchanges (plain_documented .tree)
  refine ⟨?_, ?_, ?_⟩
  · have listed : Varies Card.form (Card.toJson ⟨.clubs, .ten⟩) (.arr [.str "Clubs", .str "Ten"]) :=
      .asArray (.cons (.inl rfl) (.cons (.inl rfl) .nil))
    have suit : Varies Suit.form (.str "Clubs") (.obj [("Clubs", .null)]) := .keyed rfl
    have inside : Varies Card.form (.arr [.str "Clubs", .str "Ten"])
        (.arr [.obj [("Clubs", .null)], .str "Ten"]) :=
      @Varies.inArray _ [.str "Clubs", .str "Ten"] 0 _ _ _ _ rfl rfl suit
    exact cards.spelled _ _ (.tail (.single listed) inside)
  · have listed : Varies (.count .text "tiers") (.obj [("tiers", .int 3)]) (.arr [.int 3]) :=
      .asArray (.cons (.inl rfl) .nil)
    exact decisions.spelled (.war 3) _ (.single (.inContent rfl listed))
  · exact ofTree.refused _ (.inContent rfl (.unlisted _))

end WarGame
