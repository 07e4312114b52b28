import Mathlib
import WarGame.Proofs.Instalments
import WarGame.Proofs.Lockstep

/-!
# Games that end and games that recur

What is left of a game is told by its position: the deck, who is still in the game, and the hands in
their order. No round adds a card or a seat, so a game has a limited number of positions. Played
without a limit it either ends within that many rounds or comes to a position again, and then it
goes through the same positions for ever.
-/

namespace WarGame.Game

variable {g h start : Game} {m n : Nat} {reports : List RoundReport}

/-! ### Positions -/

/-- What the rounds of a game that goes on depend on. -/
def position (g : Game) : Pile × List (PlayerId × Standing × Pile) :=
  (g.deck, g.table.map fun s => (s.id, s.standing, s.hand))

theorem seat_like_iff {s t : Seat} : Seat.Like id (id : Card → Card) s t ↔
    (s.id, s.standing, s.hand) = (t.id, t.standing, t.hand) := by
  constructor
  · rintro ⟨named, standing, hand⟩
    rw [List.map_id, List.map_id] at hand
    rw [named, standing, hand, id]
  · intro same
    obtain ⟨named, standing, hand⟩ : s.id = t.id ∧ s.standing = t.standing ∧ s.hand = t.hand := by
      simpa using same
    exact ⟨named.symm, standing.symm, by rw [hand]⟩

theorem table_like_iff {table other : Table} : Table.Like id (id : Card → Card) table other ↔
    (table.map fun s => (s.id, s.standing, s.hand)) =
      other.map fun s => (s.id, s.standing, s.hand) := by
  rw [← List.forall₂_eq_eq_eq, List.forall₂_map_left_iff, List.forall₂_map_right_iff]
  simp only [← seat_like_iff]

/-- Games in one phase are at one position if they look alike card by card. -/
theorem like_iff_position : g.Like id (id : Card → Card) h ↔
    g.position = h.position ∧ h.phase = g.phase := by
  constructor
  · rintro ⟨table, deck, phase⟩
    rw [List.map_id, List.map_id] at deck
    exact ⟨Prod.ext deck.symm (table_like_iff.mp table), phase⟩
  · rintro ⟨same, phase⟩
    obtain ⟨deck, table⟩ := Prod.ext_iff.mp same
    exact ⟨table_like_iff.mpr table, congrArg (List.map id) deck.symm, phase⟩

theorem Like.advance {α : Type} {rename : PlayerId → PlayerId} {look : Card → α}
    (ranked : ∀ c d, look c = look d → c.rank = d.rank)
    (told : ∀ c d, look c = look d → c.suit = d.suit) (like : g.Like rename look h)
    (sound : g.Sound) (fair : h.Sound) : g.advance.2.Like rename look h.advance.2 := by
  have alike := like.hasEnded
  cases ended : g.hasEnded with
  | true =>
    rw [advance_of_ended ended, advance_of_ended (alike.trans ended)]
    exact like
  | false =>
    obtain ⟨n, report, settled, m, late, played, again, next⟩ :=
      like.round ranked sound.table fair.table (.inl told)
    rw [advance_of_going sound.table ended, advance_of_going fair.table (alike.trans ended),
      played.round, again.round]
    exact next

/-! ### Rounds one after the other -/

theorem afterRounds_succ_last (g : Game) (n : Nat) :
    g.afterRounds (n + 1) = (g.afterRounds n).advance.2 := afterRounds_add n 1

theorem running_of_going (going : g.hasEnded = false) : g.phase = .running := by
  simpa [hasEnded] using going

theorem going_before (sooner : m ≤ n)
    (going : (g.afterRounds n).hasEnded = false) : (g.afterRounds m).hasEnded = false := by
  rw [← verdict?_eq_none] at going ⊢
  cases ended : (g.afterRounds m).verdict? with
  | none => rfl
  | some verdict =>
    rw [← Nat.add_sub_cancel' sooner, afterRounds_add, afterRounds_of_ended ended,
      ended] at going
    exact going

theorem PlaysOut.eq_afterRounds (played : PlaysOut g reports h) :
    h = g.afterRounds reports.length := by
  induction played with
  | nil => rfl
  | snoc earlier done ih =>
    rw [List.length_append, List.length_singleton, afterRounds_succ_last, ← ih, done]

theorem exists_playsOut (sound : g.Sound)
    (going : ∀ k < n, (g.afterRounds k).hasEnded = false) :
    ∃ reports, PlaysOut g reports (g.afterRounds n) ∧ reports.length = n := by
  induction n with
  | zero => exact ⟨[], .nil, rfl⟩
  | succ n ih =>
    obtain ⟨reports, played, whole⟩ := ih fun k less => going k (Nat.lt_succ_of_lt less)
    obtain ⟨report, next, done, -⟩ := exists_advance (afterRounds_sound sound n)
      (verdict?_eq_none.mpr (going n (Nat.lt_succ_self n)))
    refine ⟨reports ++ [report], ?_, by rw [List.length_append, whole, List.length_singleton]⟩
    rw [afterRounds_succ_last, done]
    exact played.snoc done

/-- So many rounds are played and counted, and unlimited play has no answer before. -/
structure GoesOn (g : Game) (n : Nat) : Prop where
  going : ∀ k < n, (g.afterRounds k).hasEnded = false
  played : ∃ reports, PlaysOut g reports (g.afterRounds n) ∧ reports.length = n
  counted : g.rounds.toNat + n < 2 ^ 32 → (g.afterRounds n).rounds.toNat = g.rounds.toNat + n
  unanswered : ∀ horizon < n, g.playOn horizon none = none

theorem goesOn_of_going (sound : g.Sound)
    (going : ∀ k < n, (g.afterRounds k).hasEnded = false) : g.GoesOn n := by
  have rounds := exists_playsOut sound going
  refine ⟨going, rounds, fun small => ?_, fun horizon less => ?_⟩
  · obtain ⟨reports, played, whole⟩ := rounds
    have few : n < 2 ^ 32 := by omega
    rw [played.rounds sound, whole, UInt32.toNat_add, UInt32.toNat_ofNat_of_lt' few]
    exact Nat.mod_eq_of_lt small
  · rw [playOn_none sound, verdict?_eq_none.mpr (going horizon less), Option.map_none]

/-! ### Games that come to a position again -/

theorem Like.afterRounds (like : g.Like id (id : Card → Card) h) (sound : g.Sound)
    (fair : h.Sound) (n : Nat) : (g.afterRounds n).Like id (id : Card → Card) (h.afterRounds n) := by
  induction n with
  | zero => exact like
  | succ n ih =>
    rw [afterRounds_succ_last, afterRounds_succ_last]
    exact ih.advance (fun _ _ same => congrArg Card.rank same)
      (fun _ _ same => congrArg Card.suit same) (afterRounds_sound sound n)
      (afterRounds_sound fair n)

section

variable (sound : g.Sound) (later : m < n) (going : (g.afterRounds n).hasEnded = false)
variable (same : (g.afterRounds m).position = (g.afterRounds n).position)

include sound later going same

theorem like_again (k : Nat) :
    (g.afterRounds (m + k)).Like id (id : Card → Card) (g.afterRounds (n + k)) := by
  have before := going_before later.le going
  have phase : (g.afterRounds n).phase = (g.afterRounds m).phase := by
    rw [running_of_going going, running_of_going before]
  rw [afterRounds_add, afterRounds_add]
  exact (like_iff_position.mpr ⟨same, phase⟩).afterRounds (afterRounds_sound sound m)
    (afterRounds_sound sound n) k

theorem going_always (k : Nat) : (g.afterRounds k).hasEnded = false := by
  induction k using Nat.strong_induction_on with
  | _ k ih =>
    rcases Nat.le_total k n with sooner | past
    · exact going_before sooner going
    · -- The game was at this position before, in its last passage from `m` to `n`.
      have back := (like_again sound later going same (k - n)).hasEnded
      rw [Nat.add_sub_cancel' past] at back
      rw [back, ih (m + (k - n)) (by omega)]

end

/-- The game comes to the position after `m` rounds again after `n`, and never ends. -/
structure Recurs (g : Game) (m n : Nat) : Prop where
  later : m < n
  again : ∀ k, (g.afterRounds (m + k)).position = (g.afterRounds (n + k)).position
  endless : ∀ k, g.GoesOn k
  unanswered : ∀ horizon, g.playOn horizon none = none

theorem recurs_of_position (sound : g.Sound) (later : m < n)
    (going : (g.afterRounds n).hasEnded = false)
    (same : (g.afterRounds m).position = (g.afterRounds n).position) : g.Recurs m n := by
  have always := going_always sound later going same
  have endless (k : Nat) : g.GoesOn k := goesOn_of_going sound fun j _ => always j
  refine ⟨later, fun k => ?_, endless, fun horizon => ?_⟩
  · exact (like_iff_position.mp (like_again sound later going same k)).1
  · exact (endless (horizon + 1)).unanswered horizon (Nat.lt_succ_self horizon)

/-! ### The number of positions -/

theorem afterRounds_cards (sound : g.Sound) (n : Nat) : (g.afterRounds n).cards.Perm g.cards := by
  induction n with
  | zero => rfl
  | succ n ih =>
    rw [afterRounds_succ_last]
    exact (advance_cards (afterRounds_sound sound n)).trans ih

theorem advance_ids (sound : g.table.Sound) :
    (g.advance.2.table.map fun s => s.id) = g.table.map fun s => s.id := by
  refine advance_keeps (P := fun after => (after.table.map fun s => s.id) =
    g.table.map fun s => s.id) sound rfl fun _ => ?_
  obtain ⟨n, report, settled, played⟩ := exists_played sound
  rw [played.round, closed_table, played.ends.table_end sound, List.map_map]
  exact List.map_congr_left fun s _ => (Seat.id_receive _ _).trans Ends.id_seatOf

theorem afterRounds_ids (sound : g.Sound) (n : Nat) :
    ((g.afterRounds n).table.map fun s => s.id) = g.table.map fun s => s.id := by
  induction n with
  | zero => rfl
  | succ n ih => rw [afterRounds_succ_last, advance_ids (afterRounds_sound sound n).table, ih]

/-- The cards in one row, and for every seat the size of the hand and whether it is active. -/
def layout (bound : Nat) (g : Game) : Pile × List (Fin (bound + 1) × Bool) :=
  (g.cards, g.table.map fun s => (Fin.ofNat (bound + 1) s.hand.length, s.isActive))

theorem sizes_of_layout {bound : Nat} (few : g.cardCount ≤ bound) :
    ((g.layout bound).2.map fun place => place.1.val) = g.table.map fun s => s.hand.length := by
  rw [layout, List.map_map]
  refine List.map_congr_left fun s member => Nat.mod_eq_of_lt ?_
  have held := Table.length_hand_le member
  unfold cardCount at few
  omega

theorem standings_of_layout (bound : Nat) (g : Game) :
    ((g.layout bound).2.map fun place => if place.2 then Standing.active else .eliminated) =
      g.table.map fun s => s.standing := by
  rw [layout, List.map_map]
  refine List.map_congr_left fun s _ => ?_
  simp only [Function.comp_apply, Seat.isActive]
  cases s.standing <;> rfl

/-- The hands can be told from the row of all cards once their sizes are known. -/
theorem position_of_layout {bound : Nat} (few : g.cardCount ≤ bound) (scant : h.cardCount ≤ bound)
    (ids : (g.table.map fun s => s.id) = h.table.map fun s => s.id)
    (same : g.layout bound = h.layout bound) : g.position = h.position := by
  have sizes : (g.table.map fun s => s.hand.length) = h.table.map fun s => s.hand.length := by
    rw [← sizes_of_layout few, ← sizes_of_layout scant, same]
  have standings : (g.table.map fun s => s.standing) = h.table.map fun s => s.standing := by
    rw [← standings_of_layout bound g, ← standings_of_layout bound h, same]
  have totals : g.table.hands.length = h.table.hands.length := by
    rw [Table.hands, Table.hands, List.length_flatMap, List.length_flatMap, sizes]
  obtain ⟨decks, rows⟩ := List.append_inj' (congrArg Prod.fst same) totals
  have hands : (g.table.map fun s => s.hand) = h.table.map fun s => s.hand := by
    rw [List.eq_iff_flatten_eq, ← List.flatMap_def, ← List.flatMap_def, List.map_map, List.map_map]
    exact ⟨rows, sizes⟩
  rw [position, position, decks, ← List.zip_map', ← List.zip_map', ids, standings, hands,
    List.zip_map', List.zip_map']

/-- The layouts of some cards for so many seats. -/
def layouts (all : Pile) (seats : Nat) : Finset (Pile × List (Fin (all.length + 1) × Bool)) :=
  all.permutations.toFinset ×ˢ
    (Finset.univ : Finset (List.Vector (Fin (all.length + 1) × Bool) seats)).image fun row =>
      row.toList

theorem card_layouts_le (all : Pile) (seats : Nat) :
    (layouts all seats).card ≤ all.length.factorial * ((all.length + 1) * 2) ^ seats := by
  rw [layouts, Finset.card_product]
  refine Nat.mul_le_mul ?_ ?_
  · rw [← List.length_permutations]
    exact List.toFinset_card_le _
  · refine Finset.card_image_le.trans (Nat.le_of_eq ?_)
    rw [Finset.card_univ, card_vector, Fintype.card_prod, Fintype.card_fin, Fintype.card_bool]

theorem mem_layouts {all : Pile} (kept : g.cards.Perm all) :
    g.layout all.length ∈ layouts all g.table.length := by
  refine Finset.mem_product.mpr ⟨?_, ?_⟩
  · rw [List.mem_toFinset, List.mem_permutations]
    exact kept
  · exact Finset.mem_image.mpr ⟨⟨_, List.length_map _⟩, Finset.mem_univ _, rfl⟩

/-- At most so many positions have the cards and the seats of this game: the cards in any order,
each hand of any size, and each seat in the game or out of it. -/
def mostPositions (g : Game) : Nat :=
  g.cardCount.factorial * ((g.cardCount + 1) * 2) ^ g.table.length

theorem length_cards (g : Game) : g.cards.length = g.cardCount := List.length_append

theorem afterRounds_layout (sound : g.Sound) (n : Nat) :
    (g.afterRounds n).layout g.cards.length ∈ layouts g.cards g.table.length := by
  have seats := congrArg List.length (afterRounds_ids sound n)
  rw [List.length_map, List.length_map] at seats
  rw [← seats]
  exact mem_layouts (afterRounds_cards sound n)

/-- There are more rounds than layouts, so two of them leave the same one. -/
theorem exists_same_position (sound : g.Sound) : ∃ m n, m < n ∧ n ≤ g.mostPositions ∧
    (g.afterRounds m).position = (g.afterRounds n).position := by
  have crowded : (layouts g.cards g.table.length).card <
      (Finset.range (g.mostPositions + 1)).card := by
    rw [Finset.card_range, mostPositions, ← length_cards]
    exact Nat.lt_succ_of_le (card_layouts_le g.cards g.table.length)
  have few (k : Nat) : (g.afterRounds k).cardCount ≤ g.cards.length := by
    rw [← length_cards, (afterRounds_cards sound k).length_eq]
  obtain ⟨m, first, n, second, apart, alike⟩ :=
    Finset.exists_ne_map_eq_of_card_lt_of_maps_to crowded fun k _ => afterRounds_layout sound k
  have ids := (afterRounds_ids sound m).trans (afterRounds_ids sound n).symm
  have same := position_of_layout (few m) (few n) ids alike
  rw [Finset.mem_range, Nat.lt_succ_iff] at first second
  rcases Nat.lt_or_gt_of_ne apart with less | more
  · exact ⟨m, n, less, second, same⟩
  · exact ⟨n, m, more, first, same.symm⟩

/-! ### Play without a limit -/

/-- The game goes on for so many rounds and has then ended. -/
structure EndsAfter (g : Game) (n : Nat) : Prop extends GoesOn g n where
  ended : (g.afterRounds n).hasEnded = true
  answered : ∃ verdict, (g.afterRounds n).verdict? = some verdict ∧ ∀ horizon, n ≤ horizon →
    g.playOn horizon none = some (.ok verdict, g.afterRounds n)

/-- A game that has ended after some rounds has a first round after which it has. -/
theorem exists_endsAfter (sound : g.Sound) (ended : (g.afterRounds n).hasEnded = true) :
    ∃ m ≤ n, g.EndsAfter m := by
  have sometime : ∃ k, (g.afterRounds k).hasEnded = true := ⟨n, ended⟩
  have past := Nat.find_spec sometime
  have goes := goesOn_of_going sound fun k less => by
    rw [← Bool.not_eq_true]
    exact Nat.find_min sometime less
  refine ⟨Nat.find sometime, Nat.find_min' sometime ended, goes, past, ?_⟩
  cases known : (g.afterRounds (Nat.find sometime)).verdict? with
  | none =>
    rw [verdict?_eq_none, past] at known
    cases known
  | some verdict =>
    refine ⟨verdict, rfl, fun horizon enough => ?_⟩
    have settled : g.afterRounds horizon = g.afterRounds (Nat.find sometime) := by
      rw [← Nat.add_sub_cancel' enough, afterRounds_add, afterRounds_of_ended known]
    rw [playOn_none sound, settled, known, Option.map_some]

/-- Whether a game ends is settled within as many rounds as there are positions, and it does not if
it comes to a position again before its end. -/
structure EndsOrRecurs (g : Game) : Prop where
  settled : (∃ n ≤ g.mostPositions, g.EndsAfter n) ∨ ∃ m n, n ≤ g.mostPositions ∧ g.Recurs m n
  /-- A horizon of so many rounds is far enough for every answer there is. -/
  answers : ∀ horizon outcome, g.playOn horizon none = some outcome →
    g.playOn g.mostPositions none = some outcome
  recurs : ∀ m n, m < n → (g.afterRounds n).hasEnded = false →
    (g.afterRounds m).position = (g.afterRounds n).position → g.Recurs m n
  play : g.settings.roundLimit = none → ∀ horizon, g.play horizon = g.playOn horizon none

theorem Started.of_dealTo {settings : Settings} {players : List Player} {tries : Nat}
    {entropy : UInt64} (dealt : dealTo settings players tries entropy = .ok (.ok start)) :
    start.Started start.settings start.table.length := by
  obtain ⟨fresh, made, done⟩ := dealTo_eq_ok_iff.mp dealt
  have started := Started.of_deal ((Sound.ofSettings made).joinAll players) done
  exact ⟨started.sound, rfl, rfl, started.dealt⟩

theorem exists_endsAfter_or_recurs (sound : g.Sound) :
    (∃ n ≤ g.mostPositions, g.EndsAfter n) ∨ ∃ m n, n ≤ g.mostPositions ∧ g.Recurs m n := by
  obtain ⟨m, n, later, bound, same⟩ := exists_same_position sound
  cases ended : (g.afterRounds n).hasEnded with
  | true =>
    obtain ⟨k, sooner, ends⟩ := exists_endsAfter sound ended
    exact .inl ⟨k, sooner.trans bound, ends⟩
  | false => exact .inr ⟨m, n, bound, recurs_of_position sound later ended same⟩

theorem playOn_mostPositions (sound : g.Sound) {horizon : Nat}
    {outcome : Except GameError Verdict × Game} (answered : g.playOn horizon none = some outcome) :
    g.playOn g.mostPositions none = some outcome := by
  rcases exists_endsAfter_or_recurs sound with ⟨n, bound, ends⟩ | ⟨m, n, -, recurs⟩
  · obtain ⟨verdict, -, same⟩ := ends.answered
    rcases Nat.lt_or_ge horizon n with early | enough
    · rw [ends.unanswered horizon early] at answered
      cases answered
    · rw [same _ bound, ← same horizon enough, answered]
  · rw [recurs.unanswered] at answered
    cases answered

theorem endsOrRecurs_of_dealt {settings : Settings} {players : List Player} {tries : Nat}
    {entropy : UInt64} (dealt : dealTo settings players tries entropy = .ok (.ok start))
    (several : 2 ≤ start.table.length) : start.EndsOrRecurs := by
  have started := Started.of_dealTo dealt
  have sound := started.sound
  constructor
  case settled => exact exists_endsAfter_or_recurs sound
  case answers => exact fun horizon outcome answered => playOn_mostPositions sound answered
  case recurs => exact fun m n later going same => recurs_of_position sound later going same
  case play =>
    intro unlimited horizon
    rw [started.play several, unlimited]

/-- Four players without cards of their own. -/
def quartet : List Player := (PlayerId.lowest 4).map fun id => { id, name := id.label }

/-- With a pack in its order their game goes on for ever. With a pack that the seed 7 has shuffled it
ends or recurs as well. -/
theorem endsOrRecurs_quartet :
    (∃ start, dealTo { shuffled := false } quartet 0 0 = .ok (.ok start) ∧
      2 ≤ start.table.length ∧ start.EndsOrRecurs ∧ start.Recurs 305 357) ∧
    ∃ deck start, Settings.deck { seed := some 7 } 8 0 = .ok deck ∧ deck ≠ Pile.packs 1 ∧
      dealTo { seed := some 7 } quartet 8 0 = .ok (.ok start) ∧ 2 ≤ start.table.length ∧
        start.EndsOrRecurs := by
  constructor
  · have dealt : ∃ start, dealTo { shuffled := false } quartet 0 0 = .ok (.ok start) ∧
        2 ≤ start.table.length ∧ (start.afterRounds 357).hasEnded = false ∧
        (start.afterRounds 305).position = (start.afterRounds 357).position := by
      refine ⟨_, rfl, ?_, ?_, ?_⟩
      all_goals decide +kernel
    obtain ⟨start, dealt, several, going, same⟩ := dealt
    exact ⟨start, dealt, several, endsOrRecurs_of_dealt dealt several,
      recurs_of_position (Started.of_dealTo dealt).sound (by decide) going same⟩
  · obtain ⟨deck, ready, shuffled⟩ := Settings.exists_shuffled
    obtain ⟨start, dealt, seats⟩ := exists_dealtTo ready (show quartet ≠ [] by decide)
    have several : 2 ≤ start.table.length := by
      rw [seats.count]
      decide +kernel
    exact ⟨deck, start, ready, shuffled, dealt, several, endsOrRecurs_of_dealt dealt several⟩

/-- Two players who win each other's cards back. -/
def rivals : List Player :=
  List.zipWith (fun id hand => { id, name := id.label, hand }) (PlayerId.lowest 2)
    [[⟨.clubs, .two⟩, ⟨.clubs, .four⟩], [⟨.clubs, .five⟩, ⟨.clubs, .three⟩]]

/-- Their game goes on for ever. -/
theorem endless_rivals : ∃ start,
    dealTo { packs := 0, shuffled := false } rivals 0 0 = .ok (.ok start) ∧
      start.table.length = 2 ∧ start.settings.roundLimit = none ∧
      (∀ reports g, PlaysOut start reports g → g.hasEnded = false) ∧
      ∀ horizon, start.play horizon = none := by
  have dealt : ∃ start, dealTo { packs := 0, shuffled := false } rivals 0 0 = .ok (.ok start) ∧
      start.table.length = 2 ∧ start.settings.roundLimit = none ∧
      (start.afterRounds 6).hasEnded = false ∧
      (start.afterRounds 2).position = (start.afterRounds 6).position := by
    refine ⟨_, rfl, ?_, ?_, ?_, ?_⟩
    all_goals decide +kernel
  obtain ⟨start, dealt, seats, unlimited, going, same⟩ := dealt
  have started := Started.of_dealTo dealt
  have recurs := recurs_of_position started.sound (by decide) going same
  refine ⟨start, dealt, seats, unlimited, fun reports g played => ?_, fun horizon => ?_⟩
  · rw [played.eq_afterRounds]
    exact (recurs.endless (reports.length + 1)).going reports.length (Nat.lt_succ_self _)
  · rw [started.play seats.ge, unlimited]
    exact recurs.unanswered horizon

end WarGame.Game
